import QueueWorkflows.Engine.Outbox

/-! The retry cap. A worker tests a count that came with its claim or that its trip has
read, and requeues the row in a later statement that does not look at the count again: the
cap holds where the row still has the count that was tested. -/

namespace QueueWorkflows

open Transaction (Prog Pool Reach follow)
open Transaction.Prog (Sited)

/-- The row of a worker's path, as its claim returned it. -/
def Role.job? : Role → Option NodeJob
  | .execution job | .trip job => some job
  | _ => none

/-- The row that a path is about to requeue, and the count on which it has decided that. -/
def Path.requeuing? (path : Path) : Option (Nat × Nat) :=
  path.role.job?.bind fun job => path.prog.site?.bind fun site =>
    match site.place with
    | .requeue tested => some (job.id, tested)
    | _ => none

/-- A requeue that takes effect finds the count that was tested. -/
def requeuesOnTested (sys : Sys) (label : Label) : Bool :=
  match label with
  | .advance index => (sys.actors[index]?.bind Path.requeuing?).all fun (jobId, tested) =>
      decide (∀ row ∈ sys.store.jobs.rows, row.id = jobId → row.status = .running →
        row.watchdogRetries = tested)
  | _ => true

/-- What a worker's transaction does to the counts. -/
def RetryMove (cfg : Config) (job : NodeJob) (site : Site) (before after : Db) : Prop :=
  match site.place with
  | .requeue tested => tested < cfg.watchdogMaxRetries ∧
      ∃ row, NodeQueue.requeueJobForRetry job.id before = .ok (row, after)
  | _ => Unbumped before after

def countMoves (cfg : Config) (role : Role) (site : Site) (before after : Db) : Prop :=
  match role.job? with
  | some job => RetryMove cfg job site before after
  | none => Unbumped before after

section Moves

variable {cfg : Config} {before after : Db}

theorem unbumped_mark {jobId : Nat} {change : NodeJob → NodeJob}
    {keeps : ∀ row, (change row).key = row.key} {marking : Txn (Option NodeJob)}
    {row : Option NodeJob} (done : marking before = .ok (row, after))
    (marks : marking before = NodeQueue.mark jobId change keeps before)
    (counts : ∀ row, (change row).watchdogRetries = row.watchdogRetries) :
    Unbumped before after := by
  obtain ⟨rfl, -⟩ := mark_cases (marks.symm.trans done)
  exact inherits_update keeps rfl fun row _ => .inr (counts row)

theorem unbumped_markWithEvent {jobId : Nat} {change : NodeJob → NodeJob}
    {keeps : ∀ row, (change row).key = row.key} {marking : Txn (Option NodeJob)}
    {runId nodeId : String} {kind : EventKind} {outcome result : Executor.Outcome}
    (done : Executor.markWithEvent marking runId nodeId kind outcome before = .ok (result, after))
    (marks : marking before = NodeQueue.mark jobId change keeps before)
    (counts : ∀ row, (change row).watchdogRetries = row.watchdogRetries) :
    Unbumped before after := by
  rcases markWithEvent_cases done with ⟨-, unmarked⟩ | ⟨new, mid, marked, -, written⟩
  · exact unbumped_mark unmarked marks counts
  · have kept : Unbumped before mid := unbumped_mark marked marks counts
    cases written
    exact kept

theorem retryMove_frame (job : NodeJob) : WorkerFrame cfg job (RetryMove cfg job) where
  reads site db apart := by
    unfold RetryMove
    split
    · rename_i tested place
      exact absurd place (apart tested)
    · exact inherits_of_same rfl
  resolves _ before _ done := by
    cases done
    exact inherits_update (by intro; rfl) rfl fun _ _ => .inr rfl
  requeues _ under _ row _ done := ⟨under, row, done⟩
  completes _ _ _ _ done := unbumped_markWithEvent done rfl fun _ => rfl
  fails _ _ _ _ done := unbumped_markWithEvent done rfl fun _ => rfl
  trips _ _ _ done := by
    rcases failJobInTxn_cases done with unmarked | ⟨row, mid, marked, written⟩
    · exact unbumped_mark unmarked rfl fun _ => rfl
    · have kept := unbumped_mark marked rfl fun _ => rfl
      cases written
      exact kept
  parks _ _ done := by
    cases done
    exact inherits_update (by intro; rfl) rfl fun _ _ => .inr rfl

theorem Claims.unbumped {job : NodeJob} (claims : Claims before after job) :
    Unbumped before after := by
  obtain ⟨claim, queue, capability, rank, done⟩ := claims
  obtain ⟨_, _, _, _, rfl⟩ := NodeQueue.claimNext_cases done
  exact inherits_update (by intro; rfl) rfl fun _ _ => .inr rfl

theorem starts_countMoves {sys : Sys} {label : Label} {db : Db} {role : Role}
    {prog : Program Unit} (starts : Starts cfg sys label db role prog) :
    prog.Sited (countMoves cfg role) := by
  have frame := backstage_frame
  have quiet : ∀ {program : Program Unit}, program.Always Backstage →
      program.Sited fun _ => Unbumped := fun always =>
    always.weaken fun _ _ backstage => backstage.unbumped
  cases starts with
  | restart => exact quiet (frame.restartRun trivial)
  | expand => exact quiet (frame.expandRuns fun _ _ => trivial)
  | drain => exact quiet (frame.drainDispatchEvents (fun _ _ => trivial) backstage_foldl)
  | sweep => exact quiet (frame.sweepStuckRuns fun _ _ => trivial)
  | poll => exact quiet (frame.processRows fun _ _ => trivial)
  | claimCpu => exact (retryMove_frame _).runNode
  | claimGpu => exact (retryMove_frame _).runNode
  | redeliver => exact (retryMove_frame _).runNode
  | trip => exact (retryMove_frame _).watchdogTrip

def Capped (cap : Nat) (db : Db) : Prop :=
  ∀ row ∈ db.jobs.rows, row.watchdogRetries ≤ cap

theorem Capped.unbumped {cap : Nat} (capped : Capped cap before)
    (unbumped : Unbumped before after) : Capped cap after := by
  intro row member
  rcases unbumped row member with fresh | ⟨old, present, -, same⟩
  · exact fresh ▸ Nat.zero_le cap
  · exact same ▸ capped old present

theorem Capped.requeued {cap tested jobId : Nat} {row : Option NodeJob}
    (capped : Capped cap before) (under : tested < cap)
    (current : ∀ row ∈ before.jobs.rows, row.id = jobId → row.status = .running →
      row.watchdogRetries = tested)
    (done : NodeQueue.requeueJobForRetry jobId before = .ok (row, after)) : Capped cap after := by
  cases done
  intro row member
  obtain ⟨old, present, rfl⟩ := List.mem_map.mp member
  split
  · rename_i selected
    simp only [Bool.and_eq_true, beq_iff_eq] at selected
    have count := current old present selected.1 selected.2
    show old.watchdogRetries + 1 ≤ cap
    omega
  · exact capped old present

end Moves

/-- A transaction of a path in flight, where a requeue finds the count that was tested. -/
theorem Capped.advance {cfg : Config} {sys : Sys} {after : Db} {index : Nat} {path : Path}
    {site : Site} (capped : Capped cfg.watchdogMaxRetries sys.store)
    (allowed : requeuesOnTested sys (.advance index) = true)
    (found : sys.actors[index]? = some path) (stands : path.prog.site? = some site)
    (moved : countMoves cfg path.role site sys.store after) :
    Capped cfg.watchdogMaxRetries after := by
  unfold countMoves at moved
  cases own : path.role.job? with
  | none =>
    rw [own] at moved
    exact capped.unbumped moved
  | some job =>
    rw [own] at moved
    dsimp only [RetryMove] at moved
    split at moved
    · rename_i tested place
      have requeues : path.requeuing? = some (job.id, tested) := by
        simp [Path.requeuing?, own, stands, place]
      obtain ⟨under, row, done⟩ := moved
      simp only [requeuesOnTested, found, Option.bind_some, requeues, Option.all_some,
        decide_eq_true_eq] at allowed
      exact capped.requeued under allowed done
    · exact capped.unbumped moved

/-- In a run in which every requeue that takes effect finds the count that was tested, no
count exceeds the cap. -/
theorem retries_within_cap {cfg : Config} {sys : Sys}
    (reached : Reach (step cfg) requeuesOnTested Sys.empty sys) :
    ∀ row ∈ sys.store.jobs.rows, row.watchdogRetries ≤ cfg.watchdogMaxRetries := by
  induction reached with
  | start => exact fun row member => by cases member
  | next label before allowed stepped capped =>
    rename_i sys after
    have kept : Capped cfg.watchdogMaxRetries sys.store := capped
    rcases step_sited starts_countMoves before stepped with
      same | statement | ⟨job, claims⟩ | ⟨index, path, site, rfl, found, stands, moved⟩
    · rw [same]
      exact kept
    · exact kept.unbumped statement.backstage.unbumped
    · exact kept.unbumped claims.unbumped
    · exact kept.advance allowed found stands moved

/-- At most one retry. -/
def Sample.once : Config := { Sample.config with watchdogMaxRetries := 1 }

/-- Row 1 is claimed, its worker's watchdog trips, and the trip puts it back. -/
def Sample.retried : List Label :=
  Sample.expanded ++ [.prioritize 1, .claimCpu { host := "a" } Sample.host false,
    .trip 1 "stall", .advance 2, .advance 2]

theorem retried_row_within_cap : ∃ sys : Sys, ∃ row ∈ sys.store.jobs.rows,
    row.watchdogRetries = 1 ∧ row.watchdogRetries ≤ Sample.once.watchdogMaxRetries := by
  have reached : Reach (step Sample.once) requeuesOnTested Sys.empty
      ((follow (step Sample.once) requeuesOnTested Sys.empty Sample.retried).getD Sys.empty) :=
    Reach.follow_getD Sample.retried (by decide)
  have counted : ∃ row ∈ ((follow (step Sample.once) requeuesOnTested Sys.empty
      Sample.retried).getD Sys.empty).store.jobs.rows, row.watchdogRetries = 1 := by decide
  obtain ⟨row, member, count⟩ := counted
  exact ⟨_, row, member, count, retries_within_cap reached row member⟩

/-- Two workers hold row 1 one after the other, both trips read the count before either
puts the row back, and the row is claimed again in between. -/
def Sample.bothTripped : List Label :=
  List.append Sample.expanded [
    .prioritize 1, .claimCpu { host := "a", leaseS := 1 } Sample.host false,
    .trip 1 "stall", .advance 2, .clock (seconds 2), .reclaimExpired,
    .claimCpu { host := "b" } Sample.host false, .trip 3 "stall", .advance 4, .advance 2,
    .claimCpu { host := "c" } Sample.host false, .advance 4]

theorem cap_passed_by_two_trips : ¬ ∀ sys, Reach (step Sample.once) anyStep Sys.empty sys →
    ∀ row ∈ sys.store.jobs.rows, row.watchdogRetries ≤ Sample.once.watchdogMaxRetries := by
  intro capped
  have reached : Reach (step Sample.once) anyStep Sys.empty
      ((follow (step Sample.once) anyStep Sys.empty Sample.bothTripped).getD Sys.empty) :=
    Reach.follow_getD Sample.bothTripped (by decide)
  have within := capped _ reached
  revert within
  decide

end QueueWorkflows
