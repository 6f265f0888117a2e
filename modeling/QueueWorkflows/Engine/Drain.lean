import QueueWorkflows.Engine.Expansion

/-! The event drain on its own: no worker moves while it runs. The callbacks read
the run and its job table, and what they make of them depends neither on the order
of the events nor on how often each is delivered. -/

namespace QueueWorkflows

open Transaction (Prog follow)
open Transaction.Prog (Solo returning commit ofExcept solo_iff)
open Dispatcher (dagOf patchMeta)

/-- What the callbacks see of a row. -/
def NodeJob.card (job : NodeJob) : Cell × Dict := (job.cell, job.inputs)

def Db.cards (db : Db) (runId : String) : List (Cell × Dict) := (db.jobsOf runId).map NodeJob.card

def Db.cells (db : Db) (runId : String) : List Cell := (db.jobsOf runId).map NodeJob.cell

/-- The row of a node carries a patch marker. -/
def isPatch (db : Db) (runId nodeId : String) : Bool :=
  (((db.jobsOf runId).find? fun job => job.nodeId == nodeId).bind patchMeta).isSome

/-- A run row but for its status, its finish and its error. -/
def Alike (old new : RunRow) : Prop :=
  new = { old with status := new.status, finishedAt := new.finishedAt, error := new.error }

theorem Db.cells_eq (db : Db) (runId : String) :
    db.cells runId = (db.cards runId).map Prod.fst := by
  simp [cells, cards, Function.comp_def, NodeJob.card]

/-- The fields a patch marker has in the spec of a row. -/
def patchFields (spec : Dict) : Option Dict :=
  match Dict.get? spec "__patch__" with
  | some (.obj fields) => if fields.isEmpty then none else some fields
  | _ => none

/-- What counts as a patch is settled by the row a node has. -/
theorem isPatch_eq {db after : Db} {runId nodeId : String}
    (cards : db.cards runId <+: after.cards runId)
    (present : ∃ job ∈ db.jobsOf runId, job.nodeId = nodeId) :
    isPatch after runId nodeId = isPatch db runId nodeId := by
  have seen : ∀ db : Db, isPatch db runId nodeId =
      (((db.cards runId).find? fun card => card.1.nodeId == nodeId).bind fun card =>
        patchFields card.2).isSome := by
    intro db
    unfold Db.cards
    rw [List.find?_map, Option.bind_map]
    rfl
  obtain ⟨more, rows⟩ := cards
  rw [seen after, seen db, ← rows, List.find?_append]
  obtain ⟨job, member, named⟩ := present
  have found : ((db.cards runId).find? fun card => card.1.nodeId == nodeId).isSome = true := by
    exact List.find?_isSome.mpr ⟨job.card, List.mem_map_of_mem member, beq_iff_eq.mpr named⟩
  rw [Option.or_of_isSome found]

/-! ### The callbacks, run alone -/

section Callbacks

variable {cfg : Config} {host : Host} {runId nodeId : String} {run : RunRow} {db after : Db}

/-- Specs of parked inputs aside, runs and jobs are as before. -/
def Dressed (runId : String) (db after : Db) : Prop :=
  after.runs = db.runs ∧ after.cards runId = db.cards runId

theorem Dressed.refl (runId : String) (db : Db) : Dressed runId db db := ⟨rfl, rfl⟩

theorem dressed_setInputSpec {other node : String} {spec : Option Json}
    (done : NodeQueue.setInputSpec other node spec db = .ok ((), after)) :
    Dressed runId db after := by
  cases done
  refine ⟨rfl, Eq.trans (congrArg (List.map NodeJob.card)
    (Db.jobsOf_update (by intro; rfl) rfl runId)) ?_⟩
  rw [List.map_map]
  refine List.map_congr_left fun job _ => ?_
  simp only [Function.comp_apply]
  split <;> rfl

theorem solo_bumpInputSpec {other target : String} {fields : Time → List (String × Option Json)} :
    (Dispatcher.bumpInputSpec other target fields).Solo
      (returning fun _ after => Dressed runId db after) db := by
  unfold Dispatcher.bumpInputSpec
  split
  · exact .refl runId db
  · refine solo_listJobs ?_
    split
    · exact .commit_returning fun _ _ done => dressed_setInputSpec done
    · exact .refl runId db

theorem solo_finishPatchJob {job : NodeJob} {fields : Dict} :
    (Dispatcher.finishPatchJob cfg host run job fields).Solo
      (returning fun _ after => Dressed runId db after) db := by
  unfold Dispatcher.finishPatchJob
  refine solo_listJobs ?_
  refine .ofExcept_bind fun _ _ => ?_
  exact solo_bumpInputSpec

theorem solo_flagPatchError {job : NodeJob} {fields : Dict} :
    (Dispatcher.flagPatchError cfg run job fields).Solo
      (returning fun _ after => Dressed runId db after) db := by
  unfold Dispatcher.flagPatchError
  exact solo_bumpInputSpec

theorem solo_onNodeAwaitingInput :
    (Dispatcher.onNodeAwaitingInput cfg host runId nodeId).Solo
      (returning fun _ after => Dressed runId db after) db := by
  unfold Dispatcher.onNodeAwaitingInput
  refine solo_getRun ?_
  split
  · exact .refl runId db
  · rename_i run found
    split
    · exact .refl runId db
    · refine .ofExcept_bind fun wf _ => ?_
      split
      · exact .refl runId db
      · refine solo_readSiblings (.ofExcept_bind fun spec _ => ?_)
        exact dressed_setInputSpec rfl

/-! ### The phases of a drain -/

/-- How far the events delivered so far have taken the run. -/
inductive Phase where
  | waiting
  | settled
  | failed
deriving DecidableEq

def Phase.join : Phase → Phase → Phase
  | .failed, _ => .failed
  | _, .failed => .failed
  | .settled, _ => .settled
  | _, .settled => .settled
  | .waiting, .waiting => .waiting

/-- Where an event on its own takes the run: a patch row takes it nowhere. -/
def drive (origin : Db) (event : DispatchEvent) : Phase :=
  if isPatch origin event.runId event.nodeId then .waiting
  else
    match event.kind with
    | .completed => .settled
    | .failed => .failed
    | .awaitingInput => .waiting

def reached (origin : Db) (phase : Phase) (events : List DispatchEvent) : Phase :=
  events.foldl (fun phase event => phase.join (drive origin event)) phase

/-- The status a run has in a phase, given its rows. -/
def Phase.status (nodes : List DagNode) (cells : List Cell) : Phase → RunStatus
  | .waiting => .running
  | .settled => if Cells.finished nodes cells then .completed else .running
  | .failed => .failed

/-- The run and its rows in a phase of the drain that set out from `origin`. -/
def At (cfg : Config) (origin : Db) (run : RunRow) (nodes : List DagNode) (db : Db) :
    Phase → Prop
  | .waiting => ∃ now, db.run? run.id = some now ∧ Alike run now ∧ now.status = .running ∧
      db.cards run.id = origin.cards run.id
  | .settled => ∃ now, db.run? run.id = some now ∧ Alike run now ∧
      now.status = (if Cells.finished nodes (db.cells run.id) then .completed else .running) ∧
      origin.cards run.id <+: db.cards run.id ∧
      Cells.Settles cfg run.context nodes (origin.cells run.id) (db.cells run.id)
  | .failed => ∃ now, db.run? run.id = some now ∧ Alike run now ∧ now.status = .failed

variable {origin : Db} {nodes : List DagNode} {phase : Phase} {fuel : Nat}

theorem At.dressed (there : At cfg origin run nodes db phase) (dressed : Dressed run.id db after) :
    At cfg origin run nodes after phase := by
  obtain ⟨runs, cards⟩ := dressed
  have row : after.run? run.id = db.run? run.id := by rw [Db.run?, runs, Db.run?]
  have cells : after.cells run.id = db.cells run.id := by
    rw [Db.cells_eq, Db.cells_eq, cards]
  cases phase with
  | waiting =>
    obtain ⟨now, found, alike, status, same⟩ := there
    exact ⟨now, row.trans found, alike, status, cards.trans same⟩
  | settled =>
    obtain ⟨now, found, alike, status, starts, settles⟩ := there
    exact ⟨now, row.trans found, alike, cells ▸ status, cards ▸ starts, cells ▸ settles⟩
  | failed =>
    obtain ⟨now, found, alike, status⟩ := there
    exact ⟨now, row.trans found, alike, status⟩

/-- Short of a failure the run is not halted, and the rows it had are there still. -/
theorem At.live (there : At cfg origin run nodes db phase) (going : phase ≠ .failed) :
    ∃ now, db.run? run.id = some now ∧ Alike run now ∧ now.status.halted = false ∧
      origin.cards run.id <+: db.cards run.id := by
  cases phase with
  | waiting =>
    obtain ⟨now, found, alike, status, same⟩ := there
    exact ⟨now, found, alike, by rw [status]; rfl, same ▸ List.prefix_refl _⟩
  | settled =>
    obtain ⟨now, found, alike, status, starts, -⟩ := there
    refine ⟨now, found, alike, ?_, starts⟩
    rw [status]
    split <;> rfl
  | failed => exact absurd rfl going

theorem alike_updateRun {now : RunRow} {fields : RunStore.RunUpdate}
    (found : db.run? runId = some now) (done : RunStore.updateRun runId fields db = .ok ((), after)) :
    after.jobs = db.jobs ∧ ∃ new, after.run? runId = some new ∧ Alike now new ∧
      new.status = fields.status := by
  cases done
  refine ⟨rfl, _, Db.run?_update.trans (congrArg _ found), ?_⟩
  have named : (now.id == runId) = true := beq_iff_eq.mpr (Db.run?_mem found).2
  simp only [named, if_true]
  exact ⟨rfl, trivial⟩

theorem solo_completeIfSatisfied {now : RunRow} (found : db.run? runId = some now) :
    (Dispatcher.completeIfSatisfied runId nodes (db.jobsOf runId)).Solo
      (returning fun _ after => after.jobs = db.jobs ∧ ∃ new, after.run? runId = some new ∧
        Alike now new ∧ new.status =
          (if Cells.finished nodes (db.cells runId) then .completed else now.status)) db := by
  unfold Dispatcher.completeIfSatisfied
  rw [Cells.finished_eq, ← Db.cells]
  split
  · exact .commit_returning fun _ _ done => alike_updateRun found done
  · exact ⟨rfl, now, found, rfl, rfl⟩

theorem Alike.trans {first second third : RunRow} (early : Alike first second)
    (late : Alike second third) : Alike first third := by
  unfold Alike at *
  rw [late, early]

theorem Alike.id {old new : RunRow} (alike : Alike old new) : new.id = old.id := by
  rw [alike]

theorem Alike.dagOf_eq {old new : RunRow} (alike : Alike old new) :
    dagOf cfg new = dagOf cfg old := by
  rw [alike]
  rfl

/-- One more expansion, from the table the drain set out from or from a settled one. -/
theorem At.settles {now : RunRow} {cells : List Cell} (there : At cfg origin run nodes db phase)
    (going : phase ≠ .failed) (found : db.run? run.id = some now)
    (more : Cells.Settles cfg run.context nodes (db.cells run.id) cells) :
    Cells.Settles cfg run.context nodes (origin.cells run.id) cells ∧
      (Cells.finished nodes cells = false → now.status = .running) := by
  cases phase with
  | waiting =>
    obtain ⟨row, present, -, status, same⟩ := there
    cases found.symm.trans present
    have cells : db.cells run.id = origin.cells run.id := by
      rw [Db.cells_eq, Db.cells_eq, same]
    exact ⟨cells ▸ more, fun _ => status⟩
  | settled =>
    obtain ⟨row, present, -, status, -, settles⟩ := there
    cases found.symm.trans present
    obtain rfl := settles.settled.unique more
    refine ⟨settles, fun unfinished => ?_⟩
    rw [status, unfinished]
    rfl
  | failed => exact absurd rfl going

theorem nodesOf_of_dagOf {wf : Workflow} (expands : dagOf cfg run = .ok nodes)
    (loads : cfg.workflowLoader run.workflowName = .ok wf) :
    Dispatcher.nodesOf cfg wf run = .ok nodes := by
  unfold Dispatcher.dagOf at expands
  rw [loads] at expands
  exact expands

/-- Before the failure, an expansion leaves the run settled. -/
theorem solo_advanceRun {now : RunRow} (there : At cfg origin run nodes db phase)
    (going : phase ≠ .failed) (found : db.run? run.id = some now)
    (expands : dagOf cfg run = .ok nodes) (enough : nodes.length < fuel) :
    (Dispatcher.advanceRun cfg host run.id now fuel).Solo
      (returning fun _ after => At cfg origin run nodes after .settled) db := by
  obtain ⟨row, present, alike, -, starts⟩ := there.live going
  cases found.symm.trans present
  have named := alike.id
  have context : now.context = run.context := by rw [alike]
  unfold Dispatcher.advanceRun
  refine .ofExcept_bind fun wf loads => ?_
  have nodes_eq := nodesOf_of_dagOf (alike.dagOf_eq.trans expands) loads
  have bound := Cells.missing_le nodes ((db.jobsOf now.id).map NodeJob.cell)
  refine Solo.seq (solo_processReady nodes_eq (by omega)) ?_
  intro _ middle grown
  obtain ⟨cells, placed, more⟩ := grown
  rw [named, context] at more
  rw [named] at placed
  obtain ⟨runs, new, rows, looks⟩ := placed
  have table : middle.cells run.id = db.cells run.id ++ cells := by
    rw [Db.cells, rows, List.map_append, looks, Db.cells]
  obtain ⟨settles, idle⟩ := there.settles going found more
  refine solo_listJobs ?_
  rw [nodes_eq]
  refine Solo.ofExcept_bind fun _ same => ?_
  cases same
  have still : middle.run? run.id = some now := by rw [Db.run?, runs]; exact found
  refine Solo.seq (solo_completeIfSatisfied still) ?_
  intro _ last completed
  obtain ⟨jobs, new, row, alike', status⟩ := completed
  have kept : last.jobsOf run.id = middle.jobsOf run.id := by rw [Db.jobsOf, jobs, Db.jobsOf]
  have cells_eq : last.cells run.id = db.cells run.id ++ cells := by
    rw [Db.cells, kept, ← Db.cells, table]
  refine ⟨new, row, alike.trans alike', ?_, ?_, cells_eq ▸ settles⟩
  · rw [status, cells_eq, table]
    split
    · rfl
    · rename_i unfinished
      exact idle (Bool.eq_false_iff.mpr unfinished)
  · refine starts.trans ?_
    rw [Db.cards, Db.cards, kept, rows, List.map_append]
    exact List.prefix_append _ _

/-- The lookup of both callbacks, as `isPatch` has it. -/
theorem patchRow_cases (db : Db) (runId nodeId : String) :
    (isPatch db runId nodeId = true ∧ ∃ job fields,
      (((db.jobsOf runId).find? fun job => job.nodeId == nodeId).bind fun job =>
        (patchMeta job).map (Prod.mk job)) = some (job, fields)) ∨
    (isPatch db runId nodeId = false ∧
      (((db.jobsOf runId).find? fun job => job.nodeId == nodeId).bind fun job =>
        (patchMeta job).map (Prod.mk job)) = none) := by
  unfold isPatch
  cases (db.jobsOf runId).find? fun job => job.nodeId == nodeId with
  | none => exact .inr ⟨rfl, rfl⟩
  | some job =>
    cases marked : patchMeta job with
    | none => exact .inr ⟨by simp [marked], by simp [marked]⟩
    | some fields => exact .inl ⟨by simp [marked], job, fields, by simp [marked]⟩

theorem At.halted (there : At cfg origin run nodes db .failed) :
    ∃ now, db.run? run.id = some now ∧ now.status.halted = true := by
  obtain ⟨now, found, -, status⟩ := there
  exact ⟨now, found, by rw [status]; rfl⟩

theorem Phase.join_waiting (phase : Phase) : phase.join .waiting = phase := by
  cases phase <;> rfl

theorem Phase.join_failed (phase : Phase) : phase.join .failed = .failed := by
  cases phase <;> rfl

theorem Phase.join_settled {phase : Phase} (going : phase ≠ .failed) :
    phase.join .settled = .settled := by
  cases phase with
  | failed => exact absurd rfl going
  | _ => rfl

variable (present : ∃ job ∈ origin.jobsOf run.id, job.nodeId = nodeId)

include present in
theorem solo_onNodeCompleted (there : At cfg origin run nodes db phase)
    (expands : dagOf cfg run = .ok nodes) (enough : nodes.length < fuel) :
    (Dispatcher.onNodeCompleted cfg host run.id nodeId fuel).Solo
      (returning fun _ after => At cfg origin run nodes after
        (phase.join (if isPatch origin run.id nodeId then .waiting else .settled))) db := by
  unfold Dispatcher.onNodeCompleted
  refine solo_getRun ?_
  by_cases going : phase = .failed
  · cases going
    obtain ⟨now, found, halted⟩ := there.halted
    simp only [found, halted, if_true]
    exact there
  · obtain ⟨now, found, -, unhalted, starts⟩ := there.live going
    rw [← isPatch_eq starts present]
    simp only [found, unhalted]
    refine solo_listJobs ?_
    rcases patchRow_cases db run.id nodeId with ⟨patch, job, fields, row⟩ | ⟨patch, row⟩
    · simp only [row, patch, if_true, Phase.join_waiting]
      exact Solo.seq solo_finishPatchJob fun _ after dressed => there.dressed dressed
    · simp only [row, patch]
      rw [if_neg (by simp), Phase.join_settled going]
      exact solo_advanceRun there going found expands enough

theorem solo_failRun {now : RunRow} (found : db.run? run.id = some now) (alike : Alike run now) :
    (Dispatcher.failRun run.id nodeId).Solo
      (returning fun _ after => At cfg origin run nodes after .failed) db := by
  unfold Dispatcher.failRun
  have cancels : (commit ⟨.cancelSiblings nodeId, run.id, []⟩
      (NodeQueue.cancelSiblingsAfterFailure run.id) : Program Unit).Solo
      (returning fun _ middle => middle.runs = db.runs) db := rfl
  refine cancels.seq fun _ middle same => ?_
  have still : middle.run? run.id = some now := by rw [Db.run?, same]; exact found
  refine .commit_returning fun _ after done => ?_
  obtain ⟨-, new, row, alike', status⟩ := alike_updateRun still done
  exact ⟨new, row, alike.trans alike', status⟩

include present in
theorem solo_onNodeFailed (there : At cfg origin run nodes db phase) :
    (Dispatcher.onNodeFailed cfg run.id nodeId).Solo
      (returning fun _ after => At cfg origin run nodes after
        (phase.join (if isPatch origin run.id nodeId then .waiting else .failed))) db := by
  unfold Dispatcher.onNodeFailed
  refine solo_getRun ?_
  by_cases going : phase = .failed
  · cases going
    obtain ⟨now, found, halted⟩ := there.halted
    simp only [found, Option.map_some, Option.any_some, halted, if_true]
    exact there
  · obtain ⟨now, found, alike, unhalted, starts⟩ := there.live going
    rw [← isPatch_eq starts present]
    simp only [found, Option.map_some, Option.any_some, unhalted]
    refine solo_listJobs ?_
    rcases patchRow_cases db run.id nodeId with ⟨patch, job, fields, row⟩ | ⟨patch, row⟩
    · simp only [row, patch, if_true, Phase.join_waiting]
      exact solo_flagPatchError.returning_weaken fun _ _ dressed => there.dressed dressed
    · simp only [row, patch]
      rw [if_neg (by simp), Phase.join_failed]
      exact solo_failRun found alike

include present in
/-- The step lemma: delivering one event joins in the phase it drives at. -/
theorem solo_callback {event : DispatchEvent} (there : At cfg origin run nodes db phase)
    (expands : dagOf cfg run = .ok nodes) (enough : nodes.length < fuel)
    (mine : event.runId = run.id) (named : event.nodeId = nodeId) :
    (NodePool.callback cfg host fuel event).Solo
      (returning fun _ after => At cfg origin run nodes after
        (phase.join (drive origin event))) db := by
  subst named
  unfold NodePool.callback drive
  rw [mine]
  cases event.kind with
  | completed =>
    exact (solo_onNodeCompleted present there expands enough).seq fun _ after there => there
  | failed => exact solo_onNodeFailed present there
  | awaitingInput =>
    simp only [ite_self, Phase.join_waiting]
    exact solo_onNodeAwaitingInput.returning_weaken fun _ _ dressed => there.dressed dressed

end Callbacks

/-! ### Passes of the drain -/

/-- One call of `_drain_dispatch_events`: what it sees of the host, the bound on
its expansions, and the events it was handed, in their order. -/
structure Pass where
  host : Host
  fuel : Nat
  batch : List DispatchEvent

def raises : Option (Except PyErr Unit) → Bool
  | some (.error _) => true
  | _ => false

/-- No callback of the batch raises, each in the state it finds. -/
def quiet (cfg : Config) (host : Host) (fuel : Nat) : List DispatchEvent → Db → Bool
  | [], _ => true
  | event :: rest, db =>
    !raises ((NodePool.callback cfg host fuel event).run db).1 &&
      quiet cfg host fuel rest ((NodePool.callback cfg host fuel event).run db).2

def Pass.drain (cfg : Config) (pass : Pass) (db : Db) : Db :=
  ((NodePool.drainDispatchEvents cfg pass.host pass.fuel pass.batch).run db).2

def drained (cfg : Config) (passes : List Pass) (db : Db) : Db :=
  passes.foldl (fun db pass => pass.drain cfg db) db

def allQuiet (cfg : Config) : List Pass → Db → Bool
  | [], _ => true
  | pass :: rest, db =>
    quiet cfg pass.host pass.fuel pass.batch db && allQuiet cfg rest (pass.drain cfg db)

def EventKind.status : EventKind → JobStatus
  | .completed => .completed
  | .failed => .failed
  | .awaitingInput => .awaitingInput

/-- The event is of this run, and announces the status of its row. -/
def Announces (origin : Db) (run : RunRow) (event : DispatchEvent) : Prop :=
  event.runId = run.id ∧ ∃ job ∈ origin.jobsOf run.id, job.nodeId = event.nodeId ∧
    job.status = event.kind.status

/-- Some event of this kind is not about a patch row. -/
def Drives (origin : Db) (run : RunRow) (events : List DispatchEvent) (kind : EventKind) : Prop :=
  ∃ event ∈ events, event.kind = kind ∧ isPatch origin run.id event.nodeId = false

def Db.statusOf (db : Db) (runId : String) : Option RunStatus := (db.run? runId).map RunRow.status

def Db.statuses (db : Db) (runId : String) : List (String × JobStatus) :=
  (db.jobsOf runId).map fun job => (job.nodeId, job.status)

/-- A way to process the events: in any order and any number of passes, each event
at least once and as often again as it may be delivered. -/
structure Processing (cfg : Config) (origin : Db) (nodes : List DagNode)
    (events : List DispatchEvent) (passes : List Pass) : Prop where
  drawn : ∀ pass ∈ passes, ∀ event ∈ pass.batch, event ∈ events
  covers : ∀ event ∈ events, ∃ pass ∈ passes, event ∈ pass.batch
  fuelled : ∀ pass ∈ passes, nodes.length < pass.fuel
  quiet : allQuiet cfg passes origin = true

section Passes

variable {cfg : Config} {origin db : Db} {run : RunRow} {nodes : List DagNode} {phase : Phase}
  {events : List DispatchEvent}

theorem solo_handleEvent {host : Host} {fuel : Nat} {event : DispatchEvent}
    (there : At cfg origin run nodes db phase) (expands : dagOf cfg run = .ok nodes)
    (enough : nodes.length < fuel) (announces : Announces origin run event)
    (silent : raises ((NodePool.callback cfg host fuel event).run db).1 = false) :
    (NodePool.handleEvent cfg host fuel event).Solo (fun outcome after =>
      outcome = .ok (.succeeded event) ∧
        after = ((NodePool.callback cfg host fuel event).run db).2) db ∧
      At cfg origin run nodes ((NodePool.callback cfg host fuel event).run db).2
        (phase.join (drive origin event)) := by
  obtain ⟨mine, job, member, named, -⟩ := announces
  have alone : (NodePool.callback cfg host fuel event).Solo (returning fun _ after =>
      At cfg origin run nodes after (phase.join (drive origin event))) db :=
    solo_callback ⟨job, member, named⟩ there expands enough mine rfl
  obtain ⟨outcome, ends, holds⟩ := solo_iff.mp alone
  cases outcome with
  | error error => rw [ends] at silent; cases silent
  | ok value =>
    have returns : (NodePool.callback cfg host fuel event).Solo (fun outcome after =>
        outcome = .ok value ∧ after = ((NodePool.callback cfg host fuel event).run db).2) db :=
      solo_iff.mpr ⟨_, ends, rfl, rfl⟩
    have body : (NodePool.callback cfg host fuel event >>= fun _ =>
        pure (.succeeded event) : Program NodePool.Handled).Solo (fun outcome after =>
        outcome = .ok (.succeeded event) ∧
          after = ((NodePool.callback cfg host fuel event).run db).2) db :=
      returns.bind (fun _ _ ⟨_, same⟩ => ⟨rfl, same⟩) (by rintro _ _ ⟨clash, -⟩; cases clash)
    exact ⟨body.handle (fun _ _ done => done) (by rintro _ _ ⟨clash, -⟩; cases clash), holds⟩

theorem writesRun_nil (site : Site) : NodePool.writesRun [] site = false := by
  unfold NodePool.writesRun
  split <;> rfl

/-- A batch of which no callback raises is handled in full. -/
theorem solo_handleEvents {host : Host} {fuel : Nat} {batch : List DispatchEvent}
    (there : At cfg origin run nodes db phase) (expands : dagOf cfg run = .ok nodes)
    (enough : nodes.length < fuel) (announced : ∀ event ∈ batch, Announces origin run event)
    (silent : quiet cfg host fuel batch db = true) :
    (NodePool.handleEvents cfg host fuel [] batch).Solo (fun outcome after =>
      outcome = .ok (batch.map .succeeded) ∧
        At cfg origin run nodes after (reached origin phase batch)) db := by
  induction batch generalizing db phase with
  | nil => exact ⟨rfl, there⟩
  | cons event rest ih =>
    simp only [quiet, Bool.and_eq_true, Bool.not_eq_true'] at silent
    obtain ⟨head, there⟩ :=
      solo_handleEvent there expands enough (announced event List.mem_cons_self) silent.1
    have tail := ih there (fun event member => announced event (List.mem_cons_of_mem _ member))
      silent.2
    refine (head.awaiting fun site _ => writesRun_nil site).bind
      (fun handled middle ⟨done, same⟩ => ?_) (by rintro _ _ ⟨clash, -⟩; cases clash)
    cases done
    subst same
    refine tail.bind (fun others after ⟨done, there⟩ => ?_) (by rintro _ _ ⟨clash, -⟩; cases clash)
    cases done
    exact ⟨rfl, there⟩

theorem settle_succeeded (batch : List DispatchEvent) (db : Db) :
    ((batch.map NodePool.Handled.succeeded).foldl NodePool.settleEvent db).runs = db.runs ∧
      ((batch.map NodePool.Handled.succeeded).foldl NodePool.settleEvent db).jobs = db.jobs := by
  induction batch generalizing db with
  | nil => exact ⟨rfl, rfl⟩
  | cons event rest ih => exact ih _

theorem At.drain {pass : Pass} (there : At cfg origin run nodes db phase)
    (expands : dagOf cfg run = .ok nodes) (enough : nodes.length < pass.fuel)
    (announced : ∀ event ∈ pass.batch, Announces origin run event)
    (silent : quiet cfg pass.host pass.fuel pass.batch db = true) :
    At cfg origin run nodes (pass.drain cfg db) (reached origin phase pass.batch) := by
  have alone : (NodePool.drainDispatchEvents cfg pass.host pass.fuel pass.batch).Solo
      (fun _ after => At cfg origin run nodes after (reached origin phase pass.batch)) db := by
    have handles := solo_handleEvents there expands enough announced silent
    refine handles.bind (fun handled middle ⟨done, there⟩ => ?_) fun _ _ holds => holds.2
    cases done
    obtain ⟨runs, jobs⟩ := settle_succeeded pass.batch middle
    refine there.dressed ⟨runs, ?_⟩
    exact congrArg (List.map NodeJob.card) (congrArg (List.filter _) (congrArg _ jobs))
  obtain ⟨-, -, holds⟩ := solo_iff.mp alone
  exact holds

/-- The run lemma: after all the passes, the run is where their events take it. -/
theorem At.drained {passes : List Pass} (there : At cfg origin run nodes db phase)
    (expands : dagOf cfg run = .ok nodes) (enough : ∀ pass ∈ passes, nodes.length < pass.fuel)
    (announced : ∀ pass ∈ passes, ∀ event ∈ pass.batch, Announces origin run event)
    (silent : allQuiet cfg passes db = true) :
    At cfg origin run nodes (drained cfg passes db)
      (reached origin phase (passes.flatMap Pass.batch)) := by
  induction passes generalizing db phase with
  | nil => exact there
  | cons pass rest ih =>
    simp only [allQuiet, Bool.and_eq_true] at silent
    have first := there.drain expands (enough pass List.mem_cons_self)
      (announced pass List.mem_cons_self) silent.1
    have last := ih first (fun other member => enough other (List.mem_cons_of_mem _ member))
      (fun other member => announced other (List.mem_cons_of_mem _ member)) silent.2
    rw [List.flatMap_cons, reached, List.foldl_append]
    exact last

/-! ### Where a drain ends -/

theorem reached_failed :
    reached origin phase events = .failed ↔
      phase = .failed ∨ ∃ event ∈ events, drive origin event = .failed := by
  induction events generalizing phase with
  | nil => simp [reached]
  | cons event rest ih =>
    have joined : phase.join (drive origin event) = .failed ↔
        phase = .failed ∨ drive origin event = .failed := by
      cases phase <;> cases drive origin event <;> decide
    rw [reached, List.foldl_cons, ← reached, ih, joined, List.exists_mem_cons_iff, or_assoc]

theorem reached_waiting :
    reached origin phase events = .waiting ↔
      phase = .waiting ∧ ∀ event ∈ events, drive origin event = .waiting := by
  induction events generalizing phase with
  | nil => simp [reached]
  | cons event rest ih =>
    have joined : phase.join (drive origin event) = .waiting ↔
        phase = .waiting ∧ drive origin event = .waiting := by
      cases phase <;> cases drive origin event <;> decide
    rw [reached, List.foldl_cons, ← reached, ih, joined, List.forall_mem_cons, and_assoc]

/-- Neither the order of the events nor their number matters. -/
theorem reached_congr {others : List DispatchEvent} (same : ∀ event, event ∈ events ↔ event ∈ others) :
    reached origin phase events = reached origin phase others := by
  have failed : reached origin phase events = .failed ↔ reached origin phase others = .failed := by
    simp only [reached_failed, same]
  have waiting : reached origin phase events = .waiting ↔
      reached origin phase others = .waiting := by
    simp only [reached_waiting, same]
  cases first : reached origin phase events <;> cases second : reached origin phase others <;>
    simp_all

theorem drive_eq {event : DispatchEvent} (mine : event.runId = run.id) :
    (drive origin event = .failed ↔
      event.kind = .failed ∧ isPatch origin run.id event.nodeId = false) ∧
    (drive origin event = .settled ↔
      event.kind = .completed ∧ isPatch origin run.id event.nodeId = false) := by
  rw [drive, mine]
  cases isPatch origin run.id event.nodeId <;> cases event.kind <;> decide

theorem drives_failed (announced : ∀ event ∈ events, Announces origin run event) :
    reached origin .waiting events = .failed ↔ Drives origin run events .failed := by
  rw [reached_failed]
  constructor
  · rintro (clash | ⟨event, member, drives⟩)
    · cases clash
    · exact ⟨event, member, (drive_eq (announced event member).1).1.mp drives⟩
  · rintro ⟨event, member, drives⟩
    exact .inr ⟨event, member, (drive_eq (announced event member).1).1.mpr drives⟩

theorem drives_completed (announced : ∀ event ∈ events, Announces origin run event)
    (going : ¬ Drives origin run events .failed) :
    reached origin .waiting events = .settled ↔ Drives origin run events .completed := by
  rw [← drives_failed announced] at going
  constructor
  · intro settled
    have moved : ¬ ∀ event ∈ events, drive origin event = .waiting := fun all => by
      rw [reached_waiting.mpr ⟨rfl, all⟩] at settled
      cases settled
    push Not at moved
    obtain ⟨event, member, moves⟩ := moved
    refine ⟨event, member, (drive_eq (announced event member).1).2.mp ?_⟩
    cases drives : drive origin event with
    | waiting => exact absurd drives moves
    | settled => rfl
    | failed => exact absurd (reached_failed.mpr (.inr ⟨event, member, drives⟩)) going
  · rintro ⟨event, member, drives⟩
    have drives := (drive_eq (announced event member).1).2.mpr drives
    cases ends : reached origin .waiting events with
    | waiting =>
      rw [(reached_waiting.mp ends).2 event member] at drives
      cases drives
    | settled => rfl
    | failed => exact absurd ends going

theorem Phase.status_completed {cells : List Cell} :
    phase.status nodes cells = .completed ↔ phase = .settled ∧ Cells.finished nodes cells = true := by
  cases phase with
  | settled => cases finished : Cells.finished nodes cells <;> simp [status, finished]
  | _ => simp [status]

theorem Phase.status_going (nodes : List DagNode) (cells : List Cell) (going : phase ≠ .failed) :
    phase.status nodes cells = .completed ∨ phase.status nodes cells = .running := by
  cases phase with
  | waiting => exact .inr rfl
  | settled => exact ite_eq_or_eq _ _ _
  | failed => exact absurd rfl going

theorem At.statusOf (there : At cfg origin run nodes db phase) :
    db.statusOf run.id = some (phase.status nodes (db.cells run.id)) := by
  unfold Db.statusOf
  cases phase with
  | waiting =>
    obtain ⟨now, found, -, status, -⟩ := there
    rw [found, Option.map_some, status, Phase.status]
  | settled =>
    obtain ⟨now, found, -, status, -⟩ := there
    rw [found, Option.map_some, status, Phase.status]
  | failed =>
    obtain ⟨now, found, -, status⟩ := there
    rw [found, Option.map_some, status, Phase.status]

/-- Short of a failure, the rows are a function of the phase. -/
theorem At.cells_eq {other : Db} (here : At cfg origin run nodes db phase)
    (there : At cfg origin run nodes other phase) (going : phase ≠ .failed) :
    db.cells run.id = other.cells run.id := by
  cases phase with
  | waiting =>
    obtain ⟨-, -, -, -, same⟩ := here
    obtain ⟨-, -, -, -, same'⟩ := there
    rw [Db.cells_eq, Db.cells_eq, same, same']
  | settled =>
    obtain ⟨-, -, -, -, -, settles⟩ := here
    obtain ⟨-, -, -, -, -, settles'⟩ := there
    exact settles.unique settles'
  | failed => exact absurd rfl going

theorem Db.statuses_eq (db : Db) (runId : String) :
    db.statuses runId = (db.cells runId).map fun cell => (cell.nodeId, cell.status) := by
  simp [statuses, cells, Function.comp_def, NodeJob.cell]

theorem finished_iff : Cells.finished nodes (db.cells run.id) = true ↔
    nodes ≠ [] ∧ ∀ node ∈ nodes, Satisfied db run.id node.id := by
  rw [Db.cells, ← Cells.finished_eq]
  simp only [Dispatcher.allSatisfied, Bool.and_eq_true, Bool.not_eq_true',
    List.isEmpty_eq_false_iff, List.all_eq_true, satisfied_iff]

theorem Processing.ends {passes : List Pass} (found : origin.run? run.id = some run)
    (running : run.status = .running) (expands : dagOf cfg run = .ok nodes)
    (announced : ∀ event ∈ events, Announces origin run event)
    (processing : Processing cfg origin nodes events passes) :
    At cfg origin run nodes (QueueWorkflows.drained cfg passes origin)
      (reached origin .waiting events) := by
  have start : At cfg origin run nodes origin .waiting := ⟨run, found, rfl, running, rfl⟩
  have ended := start.drained expands processing.fuelled
    (fun pass member event inside => announced event (processing.drawn pass member event inside))
    processing.quiet
  have same : ∀ event, event ∈ passes.flatMap Pass.batch ↔ event ∈ events := by
    intro event
    rw [List.mem_flatMap]
    exact ⟨fun ⟨pass, member, inside⟩ => processing.drawn pass member event inside,
      processing.covers event⟩
  rw [reached_congr same] at ended
  exact ended

/-- Order- and duplication-independence of the drain. Whatever the order and the
number of deliveries, the run ends `failed` if a failed event is about a row that is
no patch; else `completed` if a completed event is and the DAG, which is not empty,
ends satisfied; else `running`. Short of a failure the rows are the same too. -/
theorem drain_order_independent {first second : List Pass}
    (found : origin.run? run.id = some run) (running : run.status = .running)
    (expands : dagOf cfg run = .ok nodes)
    (announced : ∀ event ∈ events, Announces origin run event)
    (one : Processing cfg origin nodes events first)
    (two : Processing cfg origin nodes events second) :
    (drained cfg first origin).statusOf run.id = (drained cfg second origin).statusOf run.id ∧
    ((drained cfg first origin).statusOf run.id = some .failed ↔
      Drives origin run events .failed) ∧
    (¬ Drives origin run events .failed →
      ((drained cfg first origin).statusOf run.id = some .completed ↔
        Drives origin run events .completed ∧ nodes ≠ [] ∧
          ∀ node ∈ nodes, Satisfied (drained cfg first origin) run.id node.id) ∧
      ((drained cfg first origin).statusOf run.id = some .completed ∨
        (drained cfg first origin).statusOf run.id = some .running) ∧
      (drained cfg first origin).statuses run.id =
        (drained cfg second origin).statuses run.id) := by
  have here := one.ends found running expands announced
  have there := two.ends found running expands announced
  have failing := drives_failed announced
  have completing := drives_completed announced
  by_cases phase : reached origin .waiting events = .failed
  · rw [phase] at here there
    have drives := failing.mp phase
    refine ⟨here.statusOf.trans there.statusOf.symm, ?_, fun none => absurd drives none⟩
    exact iff_of_true here.statusOf drives
  · have rows := here.cells_eq there phase
    have none := fun drives => phase (failing.mpr drives)
    have status := here.statusOf
    have live := Phase.status_going nodes ((drained cfg first origin).cells run.id) phase
    refine ⟨by rw [status, there.statusOf, rows], iff_of_false ?_ none, fun _ => ⟨?_, ?_, ?_⟩⟩
    · rw [status]
      rcases live with live | live <;> simp [live]
    · rw [status, Option.some_inj, Phase.status_completed, completing none, finished_iff]
    · rw [status, Option.some_inj, Option.some_inj]
      exact live
    · rw [Db.statuses_eq, Db.statuses_eq, rows]

end Passes

def Sample.nodes : List DagNode :=
  match dagOf Sample.config Sample.run with
  | .ok nodes => nodes
  | .error _ => []

/-- Both pipeline rows are executed, and their events wait. -/
def Sample.executed : Db :=
  (Sample.after (Sample.answered ++ [.claimCpu { host := "a" } Sample.host false] ++
    List.replicate 5 (.advance 2) ++ [.claimCpu { host := "b" } Sample.host false] ++
    List.replicate 5 (.advance 3))).store

/-- Drained once in order, or backwards and then all over again. -/
theorem sample_drained_in_any_order :
    (drained Sample.config [⟨Sample.host, 4, Sample.executed.events⟩]
      Sample.executed).statusOf "r" = some .completed ∧
    (drained Sample.config [⟨Sample.host, 4, Sample.executed.events.reverse⟩,
      ⟨Sample.host, 4, Sample.executed.events⟩] Sample.executed).statusOf "r" = some .completed := by
  have live : (Sample.executed.run? "r").map RunRow.status = some .running := by decide
  obtain ⟨run, found, running⟩ := Option.map_eq_some_iff.mp live
  have named : run.id = "r" := (Db.run?_mem found).2
  have announced : ∀ event ∈ Sample.executed.events, Announces Sample.executed run event := by
    unfold Announces
    rw [named]
    decide
  have once : Processing Sample.config Sample.executed Sample.nodes Sample.executed.events
      [⟨Sample.host, 4, Sample.executed.events⟩] :=
    ⟨by simp, by simp, by decide, by decide⟩
  have again : Processing Sample.config Sample.executed Sample.nodes Sample.executed.events
      [⟨Sample.host, 4, Sample.executed.events.reverse⟩,
        ⟨Sample.host, 4, Sample.executed.events⟩] :=
    ⟨by simp, by simp, by decide, by decide⟩
  have same := (drain_order_independent (named.symm ▸ found) running rfl announced once again).1
  rw [named] at same
  have ends : (drained Sample.config [⟨Sample.host, 4, Sample.executed.events⟩]
      Sample.executed).statusOf "r" = some .completed := by decide
  exact ⟨ends, same.symm.trans ends⟩

/-- The workflow of the sample has lost its steps. -/
def Sample.emptied : Config :=
  { Sample.config with workflowLoader := fun _ => .ok { steps := [] } }

/-- `right` hangs on `left`, and its guard cannot be read. -/
def Sample.unreadable : Config :=
  { Sample.config with
    workflowLoader := fun _ => .ok { steps := [
      { id := "left", kind := .pipeline, pipeline := "one" },
      { id := "right", kind := .pipeline, pipeline := "one", dependsOn := ["left"]
        skipIf := some (.str "answer") }] }
    resolveRef := fun _ _ => .error ⟨.valueError, "answer"⟩ }

/-- `left/n` has completed, and nine deliveries of its event have failed. -/
def Sample.undeliverable : Db :=
  let sys := (follow (step Sample.unreadable) anyStep Sys.empty
    ([.insertRun Sample.run, .expand Sample.host 2] ++ List.replicate 6 (.advance 0) ++
      [.claimCpu { host := "a" } Sample.host false] ++ List.replicate 5 (.advance 1))).getD Sys.empty
  { sys.store with events := sys.store.events.map fun event => { event with attempts := 9 } }

/-- The events alone do not settle the status. With an empty DAG every node of it is
satisfied, and the run stays `running`; and a callback that keeps raising fails the
run with no failed event at all. -/
theorem drain_not_by_events_alone :
    (Sample.executed.statusOf "r" = some .running ∧
      (∀ event ∈ Sample.executed.events, Announces Sample.executed Sample.run event) ∧
      Drives Sample.executed Sample.run Sample.executed.events .completed ∧
      ¬ Drives Sample.executed Sample.run Sample.executed.events .failed ∧
      dagOf Sample.emptied Sample.run = .ok [] ∧
      (drained Sample.emptied [⟨Sample.host, 4, Sample.executed.events⟩]
        Sample.executed).statusOf "r" = some .running) ∧
    (Sample.undeliverable.statusOf "r" = some .running ∧
      (∀ event ∈ Sample.undeliverable.events, Announces Sample.undeliverable Sample.run event) ∧
      ¬ Drives Sample.undeliverable Sample.run Sample.undeliverable.events .failed ∧
      (drained Sample.unreadable [⟨Sample.host, 4, Sample.undeliverable.events⟩]
        Sample.undeliverable).statusOf "r" = some .failed) := by
  unfold Announces Drives
  refine ⟨⟨by decide, by decide, by decide, by decide, rfl, by decide⟩, ?_⟩
  exact ⟨by decide, by decide, by decide, by decide⟩

end QueueWorkflows
