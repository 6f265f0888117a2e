import QueueWorkflows.Backend.RowStores
import QueueWorkflows.Backend.Tokens

/-! The contract on all three backends. The row stores meet it whatever is called;
on Redis a job's tokens have to agree with its status, and the calls that break
the agreement are named. -/

namespace QueueWorkflows.Backend

open Transaction (Reach follow)

namespace Redis

variable (tostring : Int → Int) (nameSpace : String)

def statusOf (server : Server) (jobId : String) : Option Status :=
  (get nameSpace server jobId).map Job.status

/-- No call puts an id in the queue that is there already, ends a job while it waits
in the queue, or starts an ended job over. -/
def endsRunning (server : Server) (step : Step) : Bool :=
  match step.op with
  | .enqueue _ _ given _ uuid =>
    statusOf nameSpace server (newId given uuid) = none ∨
      statusOf nameSpace server (newId given uuid) = some .running
  | .requeueForRetry jobId => statusOf nameSpace server jobId ≠ some .queued
  | .terminal ending => statusOf nameSpace server ending.jobId ≠ some .queued
  | _ => true

/-- No call adds a second queue member for a job. -/
def addsOneToken (server : Server) (step : Step) : Bool :=
  match step.op with
  | .enqueue _ _ given _ uuid => tokens server (newId given uuid) = 0
  | .requeueForRetry jobId => statusOf nameSpace server jobId ≠ some .queued
  | _ => true

variable {tostring nameSpace} {server : Server} {step : Step} {jobId : String}

theorem standing_eq : (port tostring nameSpace).standing server jobId =
    (face (keysOf nameSpace) server jobId).map Prod.snd := by
  simp [Port.standing, face, port, get, toJob, Option.map_map, Function.comp_def]

theorem statusOf_eq : statusOf nameSpace server jobId =
    (face (keysOf nameSpace) server jobId).map fun seen => seen.2.1 := by
  simp [statusOf, face, get, toJob, Option.map_map, Function.comp_def]

/-- A job has a token exactly while it may be claimed. -/
def Matched (keys : String) (server : Server) : Prop :=
  Sane keys server ∧ ∀ jobId id status result,
    face keys server jobId = some (id, status, result) →
      tokens server jobId ≤ (status == .queued).toNat

theorem matched_after (matched : Matched (keysOf nameSpace) server)
    (allowed : endsRunning nameSpace server step = true) :
    Matched (keysOf nameSpace) ((port tostring nameSpace).after server step) := by
  obtain ⟨sane, held⟩ := matched
  refine ⟨sane_after tostring nameSpace sane step, fun jobId id status result now => ?_⟩
  cases effect tostring nameSpace sane step jobId with
  | same face tokens =>
    rw [tokens]
    exact held jobId id status result (face ▸ now)
  | enqueued queue payload given priority uuid called own queued more =>
    rw [queued] at now
    cases now
    have free : tokens server jobId = 0 := by
      simp only [endsRunning, called, own, statusOf_eq, decide_eq_true_eq] at allowed
      cases found : face (keysOf nameSpace) server jobId with
      | none => exact (sane jobId).1 found
      | some seen =>
        have few := held jobId _ _ _ found
        simp only [found, Option.map_some, reduceCtorEq, Option.some.injEq, false_or] at allowed
        rw [allowed] at few
        exact Nat.le_zero.mp few
    rw [free] at more
    exact more
  | claimed before _ found running tokens =>
    rw [running] at now
    cases now
    have few := held jobId _ _ _ found
    have single := Bool.toNat_le (before == .queued)
    omega
  | returned _ running queued more =>
    rw [queued] at now
    cases now
    have few : tokens server jobId ≤ 0 := held jobId _ _ _ running
    exact more.trans (Nat.add_le_add_right few 1)
  | requeued _ called queued =>
    simp [endsRunning, called, statusOf_eq, queued] at allowed
  | settled ending called own before _ live unsettled ended tokens =>
    simp [endsRunning, called, own, statusOf_eq, live] at allowed
    have few := held jobId _ _ _ live
    rw [beq_eq_false_iff_ne.mpr allowed] at few
    rw [tokens]
    exact few.trans (Nat.zero_le _)

/-- While the calls meet the condition, Redis keeps every job within its life cycle. -/
theorem lives : Lives (port tostring nameSpace) (endsRunning nameSpace)
    (Matched (keysOf nameSpace)) where
  keeps matched allowed := matched_after matched allowed
  life {server step} matched allowed jobId := by
    obtain ⟨sane, held⟩ := matched
    cases effect tostring nameSpace sane step jobId with
    | same face tokens silent flags =>
      refine .idle ?_ flags.1 flags.2 silent
      rw [standing_eq, standing_eq, face]
    | enqueued queue payload given priority uuid called own queued more silent flags =>
      refine .admitted (fun status result stands => ?_) ?_ flags.1 flags.2 silent
      · rw [standing_eq] at stands
        obtain ⟨seen, found, same⟩ := Option.map_eq_some_iff.mp stands
        simpa [endsRunning, called, own, statusOf_eq, found, same] using allowed
      · rw [standing_eq, queued]
        rfl
    | claimed status result found running tokens silent flags =>
      have queued : status = .queued := by
        have few := held jobId _ _ _ found
        by_contra other
        rw [beq_eq_false_iff_ne.mpr other] at few
        simp only [Bool.toNat_false] at few
        omega
      subst queued
      refine .handed result ?_ ?_ flags.1 silent <;> rw [standing_eq]
      · rw [found]
        rfl
      · rw [running]
        rfl
    | returned result running queued more recovers silent flags =>
      refine .returned result ?_ ?_ recovers flags.1 flags.2 silent <;> rw [standing_eq]
      · rw [running]
        rfl
      · rw [queued]
        rfl
    | requeued _ called queued =>
      simp [endsRunning, called, statusOf_eq, queued] at allowed
    | settled ending called own status result live unsettled ended tokens once flags =>
      refine .settled status ending.status result ending.result ?_ unsettled ?_ ending.terminal
        flags.1 flags.2 once <;> rw [standing_eq]
      · rw [live]
        rfl
      · rw [ended]
        rfl

theorem sane_empty (keys : String) : Sane keys {} := by
  intro jobId
  simp [face, tokens]

theorem matched_empty (keys : String) : Matched keys {} :=
  ⟨sane_empty keys, by simp [face]⟩

/-- The account of one job: its tokens are claims it still has left over. -/
structure Counted (nameSpace : String) (audited : Audited Server) (jobId : String) : Prop where
  single : tokens audited.state jobId ≤ 1
  running : ∀ id result, face (keysOf nameSpace) audited.state jobId =
    some (id, .running, result) → tokens audited.state jobId = 0
  owed : (audited.tally jobId).claimed + tokens audited.state jobId ≤
    (audited.tally jobId).enqueued + (audited.tally jobId).returned

theorem counted_after {audited after : Audited Server}
    (sane : Sane (keysOf nameSpace) audited.state) (counted : Counted nameSpace audited jobId)
    (allowed : addsOneToken nameSpace audited.state step = true)
    (stepped : (port tostring nameSpace).audit audited step = some after) :
    Counted nameSpace after jobId := by
  obtain rfl := Option.some.inj stepped
  obtain ⟨single, idle, owed⟩ := counted
  cases effect tostring nameSpace sane step jobId with
  | same face tokens silent flags =>
    refine ⟨?_, fun id result seen => ?_, ?_⟩ <;> simp only [tokens, flags]
    · exact single
    · exact idle id result (face ▸ seen)
    · simp only [Bool.toNat_false]
      omega
  | enqueued queue payload given priority uuid called own queued more silent flags =>
    have free : tokens audited.state jobId = 0 := by
      simpa [addsOneToken, called, own] using allowed
    refine ⟨by simp only; omega, fun id result seen => ?_, ?_⟩
    · simp only [queued, Option.some.injEq, Prod.mk.injEq, reduceCtorEq, false_and,
        and_false] at seen
    · simp only [flags, Bool.toNat_false, Bool.toNat_true]
      omega
  | claimed status result found running popped silent flags =>
    refine ⟨by simp only; omega, fun _ _ _ => by simp only; omega, ?_⟩
    simp only [flags, Bool.toNat_false, Bool.toNat_true]
    omega
  | returned result running queued more recovers silent flags =>
    have free := idle _ _ running
    have back : (port tostring nameSpace).returns audited.state step jobId = true := by
      simp only [Port.returns, Port.status_eq, standing_eq, running, queued]
      exact Bool.and_eq_true_iff.mpr ⟨Bool.and_eq_true_iff.mpr ⟨recovers, rfl⟩, rfl⟩
    refine ⟨by simp only; omega, fun id result seen => ?_, ?_⟩
    · simp only [queued, Option.some.injEq, Prod.mk.injEq, reduceCtorEq, false_and,
        and_false] at seen
    · simp only [flags, back, Bool.toNat_false, Bool.toNat_true]
      omega
  | requeued _ called queued => simp [addsOneToken, called, statusOf_eq, queued] at allowed
  | settled ending called own status result live unsettled ended tokens once flags =>
    refine ⟨?_, fun id result seen => ?_, ?_⟩ <;> simp only [tokens, flags]
    · exact single
    · simp only [ended, Option.some.injEq, Prod.mk.injEq] at seen
      have terminal := ending.terminal
      rw [seen.2.1] at terminal
      cases terminal
    · simp only [Bool.toNat_false]
      omega

theorem claimsOnce :
    (port tostring nameSpace).ClaimsOnce (addsOneToken nameSpace) {} := by
  have counted : ∀ {audited}, Reach (port tostring nameSpace).audit
      (fun audited => addsOneToken nameSpace audited.state) { state := {} } audited →
      Sane (keysOf nameSpace) audited.state ∧ ∀ jobId, Counted nameSpace audited jobId := by
    intro audited reached
    induction reached with
    | start =>
      refine ⟨sane_empty _, fun jobId => ⟨by simp [tokens], by simp [tokens], by simp [tokens]⟩⟩
    | next step before allowed stepped ih =>
      refine ⟨?_, fun jobId => counted_after ih.1 (ih.2 jobId) allowed stepped⟩
      obtain rfl := Option.some.inj stepped
      exact sane_after tostring nameSpace ih.1 step
  intro audited reached jobId
  obtain ⟨sane, account⟩ := counted reached
  refine ⟨(Nat.le_add_right _ _).trans (account jobId).owed, fun step allowed handed => ?_⟩
  rw [Port.status_eq, standing_eq]
  intro running
  obtain ⟨seen, stands, status⟩ := Option.map_eq_some_iff.mp running
  obtain ⟨whole, found, rfl⟩ := Option.map_eq_some_iff.mp stands
  have free := (account jobId).running whole.1 whole.2.2 (by rw [found, ← status])
  cases effect tostring nameSpace sane step jobId with
  | claimed _ _ _ _ popped => omega
  | same _ _ _ flags => simp [flags] at handed
  | enqueued _ _ _ _ _ _ _ _ _ _ flags => simp [flags] at handed
  | returned _ _ _ _ _ _ flags => simp [flags] at handed
  | requeued _ _ _ _ _ flags => simp [flags] at handed
  | settled _ _ _ _ _ _ _ _ _ _ flags => simp [flags] at handed

end Redis

namespace Sample

/-- The adapter in the default namespace, on times that Lua prints in full. -/
def redis : Port Redis.Server Redis.Step := Redis.port id "default"

/-- A job is claimed, its lease lapses, and it is taken back. -/
def lapsed : List Redis.Step := [
  ⟨.enqueue "q" [] (some "x") 0 "", 0⟩, ⟨.claim "q" "a" 30, 1⟩, ⟨.reclaimExpired (some "q"), 40⟩]

/-- The job is claimed again, and ends. -/
def retried : List Redis.Step :=
  lapsed ++ [⟨.claim "q" "b" 30, 41⟩, ⟨.completeWithEvent "x" "done", 50⟩]

/-- The first claimer ends the job while it waits in the queue. -/
def lateComplete : List Redis.Step := lapsed ++ [⟨.completeWithEvent "x" "done", 41⟩]

/-- The watchdog requeues the job although it is back in the queue already. -/
def lateRequeue : List Redis.Step :=
  lapsed ++ [⟨.requeueForRetry "x", 41⟩, ⟨.claim "q" "b" 30, 42⟩, ⟨.claim "q" "c" 30, 43⟩]

def after (ok : Redis.Server → Redis.Step → Bool) (steps : List Redis.Step) : Redis.Server :=
  (follow redis.move ok {} steps).getD {}

def tallied (ok : Redis.Server → Redis.Step → Bool) (steps : List Redis.Step) :
    Audited Redis.Server :=
  (follow redis.audit (fun audited => ok audited.state) { state := {} } steps).getD { state := {} }

end Sample

/-- Terminal absorption and single event, on each backend. -/
theorem terminal_absorbed (tostring : Int → Int) (nameSpace : String) :
    (Postgres.port nameSpace).Absorbs anyCall {} ∧
      (Mongo.port nameSpace).Absorbs anyCall {} ∧
      (Redis.port tostring nameSpace).Absorbs (Redis.endsRunning nameSpace) {} :=
  ⟨(Postgres.lives nameSpace).absorbs trivial rfl, (Mongo.lives nameSpace).absorbs trivial rfl,
    Redis.lives.absorbs (Redis.matched_empty _) rfl⟩

theorem retried_job_announced_once : ∃ server : Redis.Server,
    Sample.redis.status server "x" = some .completed ∧
      (Sample.redis.outbox server "x").length = 1 ∧
      (Sample.redis.outbox server "x").length ≤ 1 := by
  have reached : Reach Sample.redis.move (Redis.endsRunning "default") {}
      (Sample.after (Redis.endsRunning "default") Sample.retried) := .follow_getD _ (by decide)
  have once := ((terminal_absorbed id "default").2.2 _ _ reached .start).2 "x"
  exact ⟨_, by decide, by decide, once⟩

/-- A complete that comes while the job waits in the queue leaves its queue member
behind, and the next claim revives the job. -/
theorem late_complete_revived : ¬ Sample.redis.Absorbs anyCall {} := by
  intro absorbs
  have ended : Reach Sample.redis.move anyCall {} (Sample.after anyCall Sample.lateComplete) :=
    .follow_getD _ (by decide)
  have claimed : Reach Sample.redis.move anyCall (Sample.after anyCall Sample.lateComplete)
      (Sample.redis.after (Sample.after anyCall Sample.lateComplete) ⟨.claim "q" "b" 30, 42⟩) :=
    .next _ .start rfl rfl
  have completed : Sample.redis.status (Sample.after anyCall Sample.lateComplete) "x" =
      some .completed := by decide
  have running : Sample.redis.status (Sample.redis.after
      (Sample.after anyCall Sample.lateComplete) ⟨.claim "q" "b" 30, 42⟩) "x" =
      some .running := by decide
  obtain ⟨row, found, status⟩ := Option.map_eq_some_iff.mp completed
  obtain ⟨kept, stored, same, -⟩ := (absorbs _ _ ended claimed).1 "x" row found (by rw [status]; rfl)
  rw [Port.status, stored, Option.map_some, same, status] at running
  cases running

/-- Claims hand a job out once for each time it was put in the queue, on each backend. -/
theorem claim_exactly_once (tostring : Int → Int) (nameSpace : String) :
    (Postgres.port nameSpace).ClaimsOnce anyCall {} ∧
      (Mongo.port nameSpace).ClaimsOnce anyCall {} ∧
      (Redis.port tostring nameSpace).ClaimsOnce (Redis.addsOneToken nameSpace) {} :=
  ⟨(Postgres.lives nameSpace).claimsOnce trivial fun _ => rfl,
    (Mongo.lives nameSpace).claimsOnce trivial fun _ => rfl, Redis.claimsOnce⟩

theorem retried_job_claimed_twice : ∃ audited : Audited Redis.Server,
    (audited.tally "x").claimed = 2 ∧ (audited.tally "x").enqueued = 1 ∧
      (audited.tally "x").returned = 1 ∧
      (audited.tally "x").claimed ≤ (audited.tally "x").enqueued + (audited.tally "x").returned := by
  have reached : Reach Sample.redis.audit
      (fun audited => Redis.addsOneToken "default" audited.state) { state := {} }
      (Sample.tallied (Redis.addsOneToken "default") Sample.retried) := .follow_getD _ (by decide)
  have once := ((claim_exactly_once id "default").2.2 _ reached "x").1
  exact ⟨_, by decide, by decide, by decide, once⟩

/-- A requeue of a job that is back in the queue adds a second member for it: the
last claim returns a job that is running under a lease of 30 taken a moment ago. -/
theorem requeued_job_claimed_again : ¬ Sample.redis.ClaimsOnce anyCall {} := by
  intro once
  have reached : Reach Sample.redis.audit (fun audited => anyCall audited.state) { state := {} }
      (Sample.tallied anyCall Sample.lateRequeue) := .follow_getD _ (by decide)
  have few := (once _ reached "x").1
  revert few
  decide

end QueueWorkflows.Backend
