import QueueWorkflows.Engine.Verdict

/-! Input submissions. The listener looks a row up, marks it completed and settles the
submission in separate transactions; a worker moves the row meanwhile. A submission
settled while the row is not over is lost: the node will ask again. -/

namespace QueueWorkflows

open Relation (ReflTransGen)
open Transaction (Prog Pool Reach Terms follow)
open Transaction.Prog (Always Marked Outline commit ofExcept stays)

/-- The node's row is there, and will not ask for input any more. -/
def Answered (runId nodeId : String) (db : Db) : Prop :=
  ∃ row ∈ db.jobs.rows, row.runId = runId ∧ row.nodeId = nodeId ∧ row.status.live = false

def Standing (runId nodeId : String) (jobId : Nat) (db : Db) : Prop :=
  ∃ row ∈ db.jobs.rows, row.id = jobId ∧ row.runId = runId ∧ row.nodeId = nodeId

def KeepsRowsOf (runId : String) (db after : Db) : Prop :=
  ∀ row ∈ db.jobs.rows, row.runId = runId → ∃ new ∈ after.jobs.rows, new.key = row.key

section Rows

variable {cfg : Config} {db after : Db} {runId nodeId : String} {jobId : Nat}

theorem Standing.later (standing : Standing runId nodeId jobId db)
    (kept : KeepsRowsOf runId db after) : Standing runId nodeId jobId after := by
  obtain ⟨row, present, rfl, rfl, rfl⟩ := standing
  obtain ⟨new, member, key⟩ := kept row present rfl
  exact ⟨new, member, congrArg Prod.fst key, congrArg (·.2.1) key, congrArg (·.2.2) key⟩

theorem JobStatus.final_of_not_live {status : JobStatus} (isOver : status.live = false) :
    status.final = true := by
  cases status <;> first | rfl | cases isOver

/-- Whatever row has this id is over. -/
def Ended (jobId : Nat) (db : Db) : Prop :=
  jobId < db.nextJob ∧ ∀ row ∈ db.jobs.rows, row.id = jobId → row.status.live = false

theorem Ended.later (ended : Ended jobId db) (evolves : Evolves cfg db after) :
    Ended jobId after := by
  refine ⟨ended.1.trans_le evolves.sequence, fun row member same => ?_⟩
  rcases evolves.rows row member with ⟨old, present, moved⟩ | ⟨fresh, -, -⟩
  · have isOver := ended.2 old present (moved.id.symm.trans same)
    rw [(moved.settled (JobStatus.final_of_not_live isOver)).1]
    exact isOver
  · have below := ended.1
    omega

theorem Answered.later (answered : Answered runId nodeId db) (bounded : Bounded db)
    (evolves : ReflTransGen (Evolves cfg) db after) (kept : KeepsRowsOf runId db after) :
    Answered runId nodeId after := by
  obtain ⟨row, present, rfl, rfl, isOver⟩ := answered
  have now : Ended row.id db := by
    refine ⟨bounded row present, fun other inside same => ?_⟩
    rw [Db.eq_of_id inside present same]
    exact isOver
  have ended := stays (Ended row.id) (fun _ _ evolves ended => ended.later evolves) evolves now
  obtain ⟨new, member, key⟩ := kept row present rfl
  exact ⟨new, member, congrArg (·.2.1) key, congrArg (·.2.2) key,
    ended.2 new member (congrArg Prod.fst key)⟩

/-- `mark_completed` leaves the row over, whatever it found. -/
theorem answered_of_mark {delta : Json} {result : Option NodeJob}
    (standing : Standing runId nodeId jobId db)
    (done : NodeQueue.markCompletedInTxn jobId delta db = .ok (result, after)) :
    Answered runId nodeId after := by
  obtain ⟨row, present, rfl, rfl, rfl⟩ := standing
  obtain ⟨rfl, -⟩ := mark_cases done
  by_cases closed : row.status.closed = true
  · refine ⟨row, List.mem_map.mpr ⟨row, present, by simp [closed]⟩, rfl, rfl, ?_⟩
    cases status : row.status <;> rw [status] at closed <;> first | rfl | cases closed
  · refine ⟨_, List.mem_map.mpr ⟨row, present, rfl⟩, ?_⟩
    simp [closed, JobStatus.live]

end Rows

/-! ### The outline of a listener -/

/-- The listener has not come back from looking the row up. -/
def Place.lookup? : Place → Option String
  | .resumeJobs nodeId => some nodeId
  | _ => none

def Place.processed? : Place → Option String
  | .markProcessed nodeId => some nodeId
  | _ => none

/-- Once it has looked a row up, a listener counts on that row being there or over
until it settles the submission. -/
def listenerTerms (cfg : Config) : Terms Db Site where
  stable site held := held = (fun _ => True) ∨ held = (fun _ => False) ∨
    site.place.lookup? = none ∧ ((∃ nodeId jobId, held = Standing site.run nodeId jobId) ∨
      ∃ nodeId, held = Answered site.run nodeId)
  given site db after := (∀ nodeId, site.place.lookup? = some nodeId → ∀ row ∈ db.jobs.rows,
      row.runId = site.run → row.nodeId = nodeId → row.status ≠ .running) ∧
    Bounded db ∧ ReflTransGen (Evolves cfg) db after ∧ KeepsRows db after
  safe site db := ∀ nodeId, site.place.processed? = some nodeId → Answered site.run nodeId db
  good _ _ := True
  idle _ := .inl rfl
  void _ := .inr (.inl rfl)

section Outline

variable {cfg : Config} {host : Host} {fuel : Nat} {runId nodeId : String}

theorem KeepsRows.ofRun {db after : Db} (kept : KeepsRows db after) (runId : String) :
    KeepsRowsOf runId db after := fun row member _ => kept row member

/-- A site in the run at which the listener neither looks up nor settles. -/
abbrev Passes (cfg : Config) (runId nodeId : String) (site : Site) : Prop :=
  (listenerTerms cfg).stable site (Answered runId nodeId) ∧
    (∀ db, Answered runId nodeId db → (listenerTerms cfg).safe site db) ∧
    ∀ db after, (listenerTerms cfg).given site db after → Answered runId nodeId db →
      (listenerTerms cfg).good db after ∧ Answered runId nodeId after

theorem passes_of_plain {site : Site} (run : site.run = runId) (reads : site.place.lookup? = none)
    (settles : site.place.processed? = none) : Passes cfg runId nodeId site := by
  refine ⟨.inr (.inr ⟨reads, .inr ⟨nodeId, by rw [run]⟩⟩), ?_, ?_⟩
  · intro db _ other settled
    rw [settles] at settled
    cases settled
  · rintro db after ⟨-, bounded, evolves, kept⟩ answered
    exact ⟨trivial, answered.later bounded evolves (kept.ofRun runId)⟩

theorem outline_onNodeCompleted :
    (Dispatcher.onNodeCompleted cfg host runId nodeId fuel).Outline (listenerTerms cfg)
      (fun _ => Answered runId nodeId) (Answered runId nodeId) := by
  have plain (place : Place) {stale : List String} (reads : place.lookup? = none)
      (settles : place.processed? = none) : Passes cfg runId nodeId ⟨place, runId, stale⟩ :=
    passes_of_plain rfl reads settles
  obtain ⟨kept, safe, keeps⟩ := plain .completedGetRun rfl rfl
  refine Outline.commit_bind kept safe ?_ fun _ _ holds => holds
  intro db found after answered granted done
  obtain ⟨fine, still⟩ := keeps db after granted answered
  refine ⟨fine, Answered runId nodeId, still, ?_⟩
  cases done
  cases row : db.run? runId with
  | none => exact fun _ holds => holds
  | some run =>
    obtain ⟨-, named⟩ := Db.run?_mem row
    apply Outline.of_kept
    dsimp only
    split
    · trivial
    · refine Marked.bind (Marked.commit (plain _ rfl rfl)) fun existing => ?_
      split
      · refine (marked_finishPatchJob ?_ ?_ ?_).bind fun _ => trivial
        all_goals exact passes_of_plain named rfl rfl
      · refine marked_advanceRun (fun place expands => passes_of_plain named ?_ ?_)
          (plain _ rfl rfl) (plain _ rfl rfl)
        all_goals cases place <;> first | rfl | cases expands

theorem outline_resumeAfterInput {value : Json} :
    (Dispatcher.resumeAfterInput cfg host runId nodeId value fuel).Outline (listenerTerms cfg)
      (fun outcome db => (∃ count, outcome = .ok count) → Answered runId nodeId db)
      fun _ => True := by
  have raised {error : PyErr} (db : Db) : (∃ count : Nat, Except.error error = .ok count) →
      Answered runId nodeId db := fun ⟨_, impossible⟩ => nomatch impossible
  refine Outline.commit_bind (.inl rfl) (fun _ _ _ impossible => (nomatch impossible)) ?_
    fun _ db _ => raised db
  intro db existing after _ granted done
  cases done
  refine ⟨trivial, ?_⟩
  cases found : (db.jobsOf runId).find? fun job => job.nodeId == nodeId with
  | none => exact ⟨fun _ => True, trivial, fun db _ => raised db⟩
  | some job =>
    have listed := Db.mem_jobsOf.mp (List.mem_of_find?_eq_some found)
    have named : job.nodeId = nodeId := by simpa using List.find?_some found
    dsimp only
    by_cases waits : job.status = .awaitingInput ∨ job.status = .queued
    · refine ⟨Standing runId nodeId job.id, ⟨job, listed.1, rfl, listed.2, named⟩, ?_⟩
      rw [if_pos waits]
      refine Outline.ofExcept_bind (fun delta _ => ?_) fun _ db _ => raised db
      refine Outline.commit_bind (.inr (.inr ⟨rfl, .inl ⟨nodeId, job.id, rfl⟩⟩))
        (fun _ _ _ impossible => (nomatch impossible)) ?_ fun _ db _ => raised db
      intro now result later standing _ marked
      refine ⟨trivial, Answered runId nodeId, answered_of_mark standing marked, ?_⟩
      exact outline_onNodeCompleted.imp fun _ _ answered _ => answered
    · refine ⟨Answered runId nodeId, ⟨job, listed.1, listed.2, named, ?_⟩, ?_⟩
      · have idle := granted.1 nodeId rfl job listed.1 listed.2 named
        cases status : job.status <;> simp_all [JobStatus.live]
      · rw [if_neg waits]
        exact fun _ answered _ => answered

theorem outline_processRow {row : InputSubmission} :
    (InputListener.processRow cfg host fuel row).Outline (listenerTerms cfg) (fun _ _ => True)
      fun _ => True := by
  have resumes : (InputListener.resumeRow cfg host fuel row).Outline (listenerTerms cfg)
      (fun outcome db => outcome = .ok none → Answered row.runId row.nodeId db) fun _ => True := by
    have returns : (do
        let _ ← Dispatcher.resumeAfterInput cfg host row.runId row.nodeId
          (InputListener.submittedValue cfg row.value) fuel
        return none : Program (Option PyErr)).Outline (listenerTerms cfg)
        (fun outcome db => outcome = .ok none → Answered row.runId row.nodeId db)
        fun _ => True := by
      refine outline_resumeAfterInput.bind (fun count db answered _ => ?_)
        fun _ _ _ impossible => nomatch impossible
      exact answered ⟨count, rfl⟩
    refine returns.handle (fun _ _ kept => kept) ?_
    intro error db _ impossible
    cases impossible
  refine resumes.bind (fun failure => ?_) fun _ _ _ => trivial
  cases failure with
  | some error =>
    refine Outline.weaken ?_ fun _ _ => trivial
    exact Outline.commit (.inl rfl) (fun _ _ _ impossible => (nomatch impossible))
      (fun _ _ _ _ _ _ => ⟨trivial, trivial⟩) fun _ _ _ => trivial
  | none =>
    refine Outline.weaken ?_ fun db answered => answered rfl
    refine Outline.commit (.inr (.inr ⟨rfl, .inr ⟨row.nodeId, rfl⟩⟩)) ?_
      (fun _ _ _ _ _ _ => ⟨trivial, trivial⟩) fun _ _ _ => trivial
    intro db answered nodeId settles
    cases settles
    exact answered

theorem outline_processRows {rows : List InputSubmission} :
    (InputListener.processRows cfg host fuel rows).Outline (listenerTerms cfg) (fun _ _ => True)
      fun _ => True := by
  induction rows with
  | nil => exact fun _ _ => trivial
  | cons row rest ih => exact outline_processRow.bind (fun _ => ih) fun _ _ _ => trivial

end Outline

/-! ### The system -/

section System

variable {cfg : Config} {sys after : Sys} {label : Label}

def Role.isListener : Role → Prop
  | .listener _ => True
  | _ => False

/-- The run in which a listener has looked a row up, the submission not settled yet. -/
def Path.resuming? (path : Path) : Option String :=
  match path.role, path.prog.site? with
  | .listener _, some site => if site.place.lookup?.isSome then none else some site.run
  | _, _ => none

/-- No other path deletes a row of a run while a listener is resuming it. -/
def deletesUnresumed (cfg : Config) (sys : Sys) (label : Label) : Bool :=
  (step cfg sys label).all fun after => sys.actors.zipIdx.all fun (path, index) =>
    label.mover == some index || (Path.resuming? path).all fun runId =>
      (sys.store.jobsOf runId).all fun row => after.store.jobs.rows.any fun new =>
        new.key == row.key

/-- A listener does not look up a row that a worker has just claimed. -/
def looksUpUnclaimed (sys : Sys) (label : Label) : Bool :=
  (label.mover.bind fun index => sys.actors[index]?).all fun path => path.prog.site?.all fun site =>
    site.place.lookup?.all fun nodeId => !(sys.store.jobsOf site.run).any fun row =>
      row.nodeId == nodeId && row.status == .running

def submissionsLand (cfg : Config) (sys : Sys) (label : Label) : Bool :=
  deletesUnresumed cfg sys label && looksUpUnclaimed sys label

theorem keepsRowsOf_of_allowed {index : Nat} {path : Path} {runId : String}
    (allowed : deletesUnresumed cfg sys label = true) (stepped : step cfg sys label = some after)
    (found : sys.actors[index]? = some path) (other : label.mover ≠ some index)
    (resumes : Path.resuming? path = some runId) :
    KeepsRowsOf runId sys.store after.store := by
  intro row present mine
  simp only [deletesUnresumed, stepped, Option.all_some, List.all_eq_true] at allowed
  have clause := allowed (path, index) (List.mem_zipIdx_iff_getElem?.mpr found)
  simp only [Bool.or_eq_true, beq_iff_eq, other, false_or, resumes, Option.all_some,
    List.all_eq_true] at clause
  obtain ⟨new, member, key⟩ :=
    List.any_eq_true.mp (clause row (Db.mem_jobsOf.mpr ⟨present, mine⟩))
  exact ⟨new, member, by simpa using key⟩

theorem unclaimed_of_allowed {index : Nat} {path : Path} {site : Site} {nodeId : String}
    (allowed : looksUpUnclaimed sys label = true) (own : label.mover = some index)
    (found : sys.actors[index]? = some path) (stands : path.prog.site? = some site)
    (reads : site.place.lookup? = some nodeId) : ∀ row ∈ sys.store.jobs.rows,
      row.runId = site.run → row.nodeId = nodeId → row.status ≠ .running := by
  intro row present run node running
  simp only [looksUpUnclaimed, own, Option.bind_some, found, Option.all_some, stands, reads,
    Bool.not_eq_true', List.any_eq_false, Bool.and_eq_true, beq_iff_eq, not_and] at allowed
  exact allowed row (Db.mem_jobsOf.mpr ⟨present, run⟩) node running

/-- What is known of a transaction of a listener. -/
theorem listener_given {ok : Sys → Label → Bool} {index : Nat} {path : Path} {site : Site}
    (reached : Reach (step cfg) ok Sys.empty sys) (allowed : looksUpUnclaimed sys label = true)
    (own : label = .advance index) (found : sys.actors[index]? = some path)
    (listens : Role.isListener path.role) (stands : path.prog.site? = some site)
    (stepped : step cfg sys label = some after) :
    (listenerTerms cfg).given site sys.store after.store := by
  have wellformed := (reach_wellformed wellformed_empty reached).2
  refine ⟨fun nodeId reads => unclaimed_of_allowed allowed (by rw [own]; rfl) found stands reads,
    wellformed.coherent.bounded, (step_wellformed wellformed stepped).1, ?_⟩
  refine step_keeps_rows reached stepped fun other actor moves acting => ?_
  cases own.symm.trans moves
  cases found.symm.trans acting
  cases role : path.role <;> rw [role] at listens <;> first | rfl | exact listens.elim

theorem reach_listening (reached : Reach (step cfg) (submissionsLand cfg) Sys.empty sys) :
    Outlines (listenerTerms cfg) Role.isListener sys := by
  induction reached with
  | start => exact fun _ member => nomatch member
  | @next before after label reached allowed stepped ih =>
    obtain ⟨unresumed, unclaimed⟩ := Bool.and_eq_true_iff.mp allowed
    have wellformed := (reach_wellformed wellformed_empty reached).2
    refine step_outlines ih ?_ ?_ ?_ stepped
    · intro index path found other listens site stands held stable holds
      have kept (past : site.place.lookup? = none) :
          KeepsRowsOf site.run before.store after.store := by
        refine keepsRowsOf_of_allowed unresumed stepped found other ?_
        cases role : path.role <;> rw [role] at listens <;> try exact listens.elim
        simp [Path.resuming?, role, stands, past]
      rcases stable with rfl | rfl | ⟨past, ⟨nodeId, jobId, rfl⟩ | ⟨nodeId, rfl⟩⟩
      · trivial
      · exact holds
      · exact holds.later (kept past)
      · exact holds.later wellformed.coherent.bounded (step_wellformed wellformed stepped).1
          (kept past)
    · intro index path found own listens site stands
      refine listener_given reached unclaimed ?_ found listens stands stepped
      cases label <;> cases own
      rfl
    · intro role prog starts listens
      generalize after.store = db at starts
      cases starts with
      | poll => exact ⟨_, trivial, outline_processRows⟩
      | _ => exact listens.elim

/-- No submission is lost, as long as a listener never looks up a row that is
`running`, and no row of a run is deleted while a listener is resuming it: where a
listener marks the submission for a node processed, the row of that node is there and
over. -/
theorem processed_submission_answered {path : Path} {rows : List InputSubmission} {site : Site}
    {nodeId : String} (reached : Reach (step cfg) (submissionsLand cfg) Sys.empty sys)
    (member : path ∈ sys.actors) (role : path.role = .listener rows)
    (stands : path.prog.site? = some site) (settles : site.place = .markProcessed nodeId) :
    ∃ row ∈ sys.store.jobs.rows, row.runId = site.run ∧ row.nodeId = nodeId ∧
      row.status.live = false := by
  have listens : Role.isListener path.role := by
    rw [role]
    trivial
  refine (reach_listening reached path member listens).safe stands nodeId ?_
  rw [settles]
  rfl

/-- The answer to `ask` is looked up, the row marked and its dependents enqueued. -/
def Sample.resumed : List Label :=
  List.flatten [
    Sample.expanded, [.submit "r" "ask" (.str "yes"), .poll Sample.host 2],
    List.replicate 9 (.advance 1)]

theorem resumed_submission_answered : ∃ sys : Sys,
    (sys.actors[1]?.bind fun path => path.prog.site?.map Site.place) =
      some (.markProcessed "ask") ∧
    ∃ row ∈ sys.store.jobs.rows, row.runId = "r" ∧ row.nodeId = "ask" ∧
      row.status.live = false := by
  have reached : Reach (step Sample.config) (submissionsLand Sample.config) Sys.empty
      ((follow (step Sample.config) (submissionsLand Sample.config) Sys.empty
        Sample.resumed).getD Sys.empty) := Reach.follow_getD Sample.resumed (by decide +kernel)
  have stands : (((follow (step Sample.config) (submissionsLand Sample.config) Sys.empty
      Sample.resumed).getD Sys.empty).actors[1]?.bind fun path =>
        match path.role with
        | .listener _ => path.prog.site?
        | _ => none) = some ⟨.markProcessed "ask", "r", []⟩ := by decide +kernel
  obtain ⟨path, acting, listens⟩ := Option.bind_eq_some_iff.mp stands
  have row : ∀ rows, path.role = .listener rows → _ := fun rows role =>
    have here : path.prog.site? = some ⟨.markProcessed "ask", "r", []⟩ := by
      rw [role] at listens
      exact listens
    processed_submission_answered reached (List.mem_of_getElem? acting) role here rfl
  refine ⟨(follow (step Sample.config) (submissionsLand Sample.config) Sys.empty
    Sample.resumed).getD Sys.empty, by decide +kernel, ?_⟩
  cases role : path.role with
  | listener rows => exact row rows role
  | _ =>
    rw [role] at listens
    cases listens

/-- Worker `a` has claimed the row of `ask` and not parked it yet when the listener
looks it up for an answer; the listener marks the submission processed. -/
def Sample.submittedMidClaim : List Label :=
  List.append Sample.expanded [.claimCpu { host := "a" } Sample.host false,
    .submit "r" "ask" (.str "yes"), .poll Sample.host 2, .advance 2]

/-- The worker then parks the row: the node waits for an answer that is gone. -/
theorem midclaim_submission_lost : ∃ sys marked parked : Sys,
    Reach (step Sample.config) anyStep Sys.empty sys ∧
    (sys.actors[2]?.bind fun path => path.prog.site?.map Site.place) =
      some (.markProcessed "ask") ∧
    (sys.store.jobs.rows.filter fun row => row.nodeId == "ask").map NodeJob.status = [.running] ∧
    step Sample.config sys (.advance 2) = some marked ∧
    step Sample.config marked (.advance 1) = some parked ∧
    (parked.store.run? "r").map RunRow.status = some .running ∧
    parked.store.submissions.map InputSubmission.status = [.processed] ∧
    (parked.store.jobs.rows.filter fun row => row.nodeId == "ask").map NodeJob.status =
      [.awaitingInput] := by
  have reached := Sample.reach_after Sample.submittedMidClaim (by decide)
  have steps : (((step Sample.config (Sample.after Sample.submittedMidClaim) (.advance 2)).bind
      fun marked => step Sample.config marked (.advance 1)).map fun parked =>
        ((parked.store.run? "r").map RunRow.status,
          parked.store.submissions.map InputSubmission.status,
          (parked.store.jobs.rows.filter fun row => row.nodeId == "ask").map NodeJob.status)) =
      some (some .running, [.processed], [.awaitingInput]) := by decide
  obtain ⟨parked, moved, ends⟩ := Option.map_eq_some_iff.mp steps
  obtain ⟨marked, first, second⟩ := Option.bind_eq_some_iff.mp moved
  simp only [Prod.mk.injEq] at ends
  exact ⟨_, marked, parked, reached, by decide, by decide, first, second, ends⟩

end System

end QueueWorkflows
