import QueueWorkflows.Engine.Fixpoint

/-! The rows that `_process_ready` writes when nobody else moves: one for each node it
comes to, in the order of their dispatch, up to the first that raises. -/

namespace QueueWorkflows

open Transaction (Prog)
open Transaction.Prog (Solo returning commit ofExcept)
open Dispatcher (findReadyNodes byModel)

/-! ### The verdict on a node -/

/-- The status of the row that a ready node gets, or what it raises. -/
def rowStatus (cfg : Config) (host : Host) (run : RunRow) (existing : List NodeJob)
    (node : DagNode) : Except PyErr JobStatus := do
  let skip ← Dispatcher.shouldSkipNode cfg node run existing
  if skip then return .skipped
  else if node.input then return .queued
  else
    let context ← Dispatcher.refContext host run existing
    let _ ← Dispatcher.resolveInputs cfg context node.inputs
    return .queued

section Verdicts

variable {cfg : Config} {host : Host} {run : RunRow} {existing added : List NodeJob}
  {node : DagNode}

theorem rowStatus_cases {status : JobStatus}
    (given : rowStatus cfg host run existing node = .ok status) :
    status = .skipped ∨ status = .queued := by
  simp only [rowStatus, bind, Except.bind] at given
  cases decided : Dispatcher.shouldSkipNode cfg node run existing with
  | error error => simp [decided] at given
  | ok skip =>
    simp only [decided] at given
    cases skip with
    | true =>
      cases given
      exact .inl rfl
    | false =>
      right
      by_cases input : node.input = true
      · simpa [input, pure, Except.pure] using given.symm
      · simp only [Bool.false_eq_true, if_false, input] at given
        cases merged : Dispatcher.refContext host run existing with
        | error error => simp [merged] at given
        | ok context =>
          cases resolved : Dispatcher.resolveInputs cfg context node.inputs with
          | error error => simp [merged, resolved] at given
          | ok inputs => simpa [merged, resolved, pure, Except.pure] using given.symm

/-- Rows that are not completed leave the context of a `skip_if` alone. -/
theorem evalSkipContext_append (uncompleted : ∀ job ∈ added, job.status ≠ .completed) :
    Dispatcher.evalSkipContext run (existing ++ added) = Dispatcher.evalSkipContext run existing := by
  unfold Dispatcher.evalSkipContext
  rw [List.foldl_append]
  generalize existing.foldl _ run.context = context
  induction added with
  | nil => rfl
  | cons job rest ih =>
    rw [List.foldl_cons, if_neg fun both => uncompleted job List.mem_cons_self both.1]
    exact ih fun other member => uncompleted other (List.mem_cons_of_mem _ member)

theorem mergeSiblings_open {context : Dict} (uncompleted : ∀ job ∈ added, job.status ≠ .completed) :
    Dispatcher.mergeSiblings context added = context := by
  induction added with
  | nil => rfl
  | cons job rest ih =>
    rw [Dispatcher.mergeSiblings, if_neg fun both => uncompleted job List.mem_cons_self both.1]
    exact ih fun other member => uncompleted other (List.mem_cons_of_mem _ member)

theorem mergeSiblings_append {context : Dict} (uncompleted : ∀ job ∈ added, job.status ≠ .completed) :
    Dispatcher.mergeSiblings context (existing ++ added) =
      Dispatcher.mergeSiblings context existing := by
  induction existing generalizing context with
  | nil => exact mergeSiblings_open uncompleted
  | cons job rest ih =>
    rw [List.cons_append, Dispatcher.mergeSiblings, Dispatcher.mergeSiblings]
    split
    · split
      · exact ih
      · rfl
    · exact ih

theorem shouldSkipNode_append (uncompleted : ∀ job ∈ added, job.status ≠ .completed) :
    Dispatcher.shouldSkipNode cfg node run (existing ++ added) =
      Dispatcher.shouldSkipNode cfg node run existing := by
  unfold Dispatcher.shouldSkipNode
  rw [evalSkipContext_append uncompleted]

theorem refContext_append (uncompleted : ∀ job ∈ added, job.status ≠ .completed) :
    Dispatcher.refContext host run (existing ++ added) = Dispatcher.refContext host run existing := by
  unfold Dispatcher.refContext
  rw [mergeSiblings_append uncompleted]

theorem rowStatus_append (uncompleted : ∀ job ∈ added, job.status ≠ .completed) :
    rowStatus cfg host run (existing ++ added) node = rowStatus cfg host run existing node := by
  unfold rowStatus
  rw [shouldSkipNode_append uncompleted, refContext_append uncompleted]

end Verdicts

/-! ### The order of dispatch -/

namespace Cells

/-- The nodes that some rounds of the loop come to, in the order of their dispatch. -/
def reaches (cfg : Config) (context : Dict) (nodes : List DagNode) : Nat → List Cell → List DagNode
  | 0, _ => []
  | rounds + 1, cells =>
    byModel (ready nodes cells) ++ reaches cfg context nodes rounds (round cfg context nodes cells)

variable {cfg : Config} {context : Dict} {nodes : List DagNode} {cells : List Cell} {rounds : Nat}

theorem round_of_none (none : ready nodes cells = []) : round cfg context nodes cells = cells := by
  simp [round, none, byModel]

theorem reaches_of_none (none : ready nodes cells = []) :
    reaches cfg context nodes rounds cells = [] := by
  induction rounds with
  | zero => rfl
  | succ rounds ih =>
    rw [reaches, round_of_none none, ih, none]
    rfl

/-- A node that the loop comes to has no row to begin with. -/
theorem vacant_of_reached {node : DagNode} (reached : node ∈ reaches cfg context nodes rounds cells) :
    ∀ cell ∈ cells, cell.nodeId ≠ node.id := by
  induction rounds generalizing cells with
  | zero => exact absurd reached List.not_mem_nil
  | succ rounds ih =>
    rcases List.mem_append.mp reached with now | later
    · have able := (List.mem_filter.mp (mem_byModel.mp now)).2
      simp only [Bool.and_eq_true, Bool.not_eq_true', List.any_eq_false, beq_iff_eq] at able
      exact able.1
    · exact fun cell present => ih later cell (List.mem_append_left _ present)

theorem missing_pos {node : DagNode} (able : node ∈ ready nodes cells) : 0 < missing nodes cells := by
  have both := List.mem_filter.mp able
  refine List.countP_pos_iff.mpr ⟨node, both.1, ?_⟩
  simp only [Bool.and_eq_true] at both
  exact both.2.1

end Cells

/-- All the nodes an expansion comes to, from the table it reads first. -/
def trail (cfg : Config) (run : RunRow) (nodes : List DagNode) (existing : List NodeJob) :
    List DagNode :=
  Cells.reaches cfg run.context nodes nodes.length (existing.map NodeJob.cell)

/-- The rows that are written before a node raises, or meets a row in its cell. -/
def placedRows (cfg : Config) (host : Host) (run : RunRow) (existing : List NodeJob) :
    List String → List DagNode → List (String × JobStatus)
  | _, [] => []
  | taken, node :: rest =>
    if node.id ∈ taken then []
    else
      match rowStatus cfg host run existing node with
      | .ok status => (node.id, status) :: placedRows cfg host run existing (node.id :: taken) rest
      | .error _ => []

section Placed

variable {cfg : Config} {host : Host} {run : RunRow} {existing added : List NodeJob}
  {taken other : List String} {front nodes : List DagNode}

theorem placedRows_cons {node : DagNode} :
    placedRows cfg host run existing taken (node :: nodes) =
      if node.id ∈ taken then []
      else
        match rowStatus cfg host run existing node with
        | .ok status => (node.id, status) :: placedRows cfg host run existing (node.id :: taken) nodes
        | .error _ => [] := by
  rw [placedRows]

/-- The rows go by the names of their nodes. -/
theorem placedRows_names :
    (placedRows cfg host run existing taken nodes).map Prod.fst <+: nodes.map DagNode.id := by
  induction nodes generalizing taken with
  | nil => exact List.prefix_rfl
  | cons node rest ih =>
    rw [placedRows_cons]
    split
    · exact List.nil_prefix
    · split
      · exact List.prefix_cons_inj _ |>.mpr ih
      · exact List.nil_prefix

theorem placedRows_status {row : String × JobStatus}
    (member : row ∈ placedRows cfg host run existing taken nodes) :
    row.2 = .skipped ∨ row.2 = .queued := by
  induction nodes generalizing taken with
  | nil => exact absurd member List.not_mem_nil
  | cons node rest ih =>
    unfold placedRows at member
    split at member
    · exact absurd member List.not_mem_nil
    · split at member
      · rename_i status given
        rcases List.mem_cons.mp member with rfl | later
        · exact rowStatus_cases given
        · exact ih later
      · exact absurd member List.not_mem_nil

theorem placedRows_taken (same : ∀ node ∈ nodes, (node.id ∈ taken ↔ node.id ∈ other)) :
    placedRows cfg host run existing taken nodes = placedRows cfg host run existing other nodes := by
  induction nodes generalizing taken other with
  | nil => rfl
  | cons node rest ih =>
    have here := same node List.mem_cons_self
    have later : placedRows cfg host run existing (node.id :: taken) rest =
        placedRows cfg host run existing (node.id :: other) rest := by
      refine ih fun another member => ?_
      rw [List.mem_cons, List.mem_cons, same another (List.mem_cons_of_mem _ member)]
    unfold placedRows
    simp only [here, later]

theorem placedRows_added (uncompleted : ∀ job ∈ added, job.status ≠ .completed) :
    placedRows cfg host run (existing ++ added) taken nodes =
      placedRows cfg host run existing taken nodes := by
  induction nodes generalizing taken with
  | nil => rfl
  | cons node rest ih =>
    unfold placedRows
    simp only [rowStatus_append uncompleted, ih]

/-- Nothing is written behind a node that raises. -/
theorem placedRows_append_of_stuck
    (stuck : (placedRows cfg host run existing taken front).length < front.length) :
    placedRows cfg host run existing taken (front ++ nodes) =
      placedRows cfg host run existing taken front := by
  induction front generalizing taken with
  | nil => exact absurd stuck (Nat.not_lt_zero _)
  | cons node rest ih =>
    unfold placedRows at stuck
    rw [List.cons_append]
    unfold placedRows
    split
    · rfl
    · rename_i free
      rw [if_neg free] at stuck
      split
      · rename_i given
        rw [given] at stuck
        rw [ih (Nat.lt_of_succ_lt_succ stuck)]
      · rfl

/-- Where all of the first nodes get their rows, the others get theirs as if alone. -/
theorem placedRows_append_of_full
    (full : (placedRows cfg host run existing taken front).length = front.length)
    (apart : ∀ node ∈ nodes, node.id ∉ taken ∧ ∀ before ∈ front, before.id ≠ node.id) :
    placedRows cfg host run existing taken (front ++ nodes) =
      placedRows cfg host run existing taken front ++ placedRows cfg host run existing [] nodes := by
  induction front generalizing taken with
  | nil =>
    refine placedRows_taken fun node member => ?_
    exact iff_of_false (apart node member).1 List.not_mem_nil
  | cons node rest ih =>
    rw [placedRows_cons] at full
    rw [List.cons_append, placedRows_cons, placedRows_cons]
    split
    · rename_i occupied
      rw [if_pos occupied] at full
      cases full
    · rename_i free
      rw [if_neg free] at full
      split
      · rename_i given
        rw [given] at full
        refine congrArg (List.cons _) (ih (Nat.succ.inj full) fun another member => ?_)
        have clear := apart another member
        refine ⟨?_, fun before inside => clear.2 before (List.mem_cons_of_mem _ inside)⟩
        rw [List.mem_cons, not_or]
        exact ⟨fun same => clear.2 node List.mem_cons_self same.symm, clear.1⟩
      · rename_i raised
        rw [raised] at full
        cases full

/-- Every node gets its row exactly where none raises, and no two share a cell. -/
theorem placedRows_full : (placedRows cfg host run existing taken nodes).length = nodes.length ↔
    (∀ node ∈ nodes, node.id ∉ taken) ∧ (nodes.map DagNode.id).Nodup ∧
      ∀ node ∈ nodes, (rowStatus cfg host run existing node).isOk = true := by
  induction nodes generalizing taken with
  | nil => simp [placedRows]
  | cons node rest ih =>
    rw [placedRows_cons, List.length_cons, List.map_cons, List.nodup_cons, List.forall_mem_cons,
      List.forall_mem_cons]
    by_cases occupied : node.id ∈ taken
    · rw [if_pos occupied]
      exact iff_of_false (by simp) fun all => all.1.1 occupied
    · rw [if_neg occupied]
      cases given : rowStatus cfg host run existing node with
      | error error => exact iff_of_false (by simp) fun all => nomatch all.2.2.1
      | ok status =>
        have fresh : node.id ∉ rest.map DagNode.id ↔ ∀ other ∈ rest, other.id ≠ node.id := by
          simp
        have apart : (∀ other ∈ rest, other.id ∉ node.id :: taken) ↔
            (∀ other ∈ rest, other.id ≠ node.id) ∧ ∀ other ∈ rest, other.id ∉ taken := by
          simp only [List.mem_cons, not_or, forall_and]
        rw [List.length_cons, Nat.succ_inj, ih, apart, fresh]
        have fine : (Except.ok status : Except PyErr JobStatus).isOk = true := rfl
        simp only [occupied, not_false_eq_true, true_and, fine]
        tauto

/-- Nothing raises that an expansion of the table comes to, and no two nodes share a cell. -/
def Smooth (cfg : Config) (host : Host) (run : RunRow) (nodes : List DagNode)
    (existing : List NodeJob) : Prop :=
  ((trail cfg run nodes existing).map DagNode.id).Nodup ∧
    ∀ node ∈ trail cfg run nodes existing, (rowStatus cfg host run existing node).isOk = true

theorem smooth_iff : Smooth cfg host run nodes existing ↔
    (placedRows cfg host run existing [] (trail cfg run nodes existing)).length =
      (trail cfg run nodes existing).length := by
  rw [placedRows_full, Smooth, and_iff_right fun _ _ => List.not_mem_nil]

end Placed

/-! ### The loop on the store -/

section Loop

variable {cfg : Config} {host : Host} {run : RunRow} {stale : List String} {db : Db}
  {existing added : List NodeJob} {taken : List String} {nodes : List DagNode}

theorem insertJob_occupied {job : Nat → Time → NodeJob} {nodeId : String}
    (occupied : ¬ Vacant run.id nodeId db) (mine : ∀ id now, (job id now).runId = run.id)
    (about : ∀ id now, (job id now).nodeId = nodeId) :
    ∃ error, NodeQueue.insertJob job db = .error error := by
  unfold Vacant at occupied
  push Not at occupied
  obtain ⟨other, present, same⟩ := occupied
  obtain ⟨stored, ours⟩ := Db.mem_jobsOf.mp present
  unfold NodeQueue.insertJob
  simp only
  split
  · exact ⟨_, rfl⟩
  · cases inserted : db.jobs.insert? (job db.nextJob db.clock) with
    | none => exact ⟨_, rfl⟩
    | some jobs =>
      refine absurd (.inr (Prod.ext ?_ ?_)) (Relational.Table.apart_of_insert? inserted other stored)
      · exact ours.trans (mine _ _).symm
      · exact same.trans (about _ _).symm

/-- Some rows are written, one for each node counted; or an exception comes before that. -/
def Writes {α : Type} (run : RunRow) (db : Db) (rows : List (String × JobStatus)) (whole : Nat)
    (counts : α → Nat) (outcome : Except PyErr α) (after : Db) : Prop :=
  ∃ new, Grown run.id db after new ∧ new.map (fun job => (job.nodeId, job.status)) = rows ∧
    match outcome with
    | .ok value => rows.length = whole ∧ counts value = whole
    | .error _ => rows.length < whole

theorem solo_insert_writes {site : Site} {job : Nat → Time → NodeJob} {node : DagNode}
    {status : JobStatus} (stored : (db.run? run.id).isSome) (bounded : Bounded db)
    (mine : ∀ id now, (job id now).runId = run.id) (about : ∀ id now, (job id now).nodeId = node.id)
    (numbered : ∀ id now, (job id now).id = id) (marked : ∀ id now, (job id now).status = status)
    (occupancy : node.id ∈ taken ↔ ¬ Vacant run.id node.id db)
    (given : rowStatus cfg host run existing node = .ok status) :
    (do let _ ← commit site (NodeQueue.insertJob job) : Program Unit).Solo
      (Writes run db (placedRows cfg host run existing taken [node]) 1 fun _ => 1) db := by
  unfold placedRows
  by_cases occupied : node.id ∈ taken
  · obtain ⟨error, failed⟩ := insertJob_occupied (occupancy.mp occupied) mine about
    rw [if_pos occupied]
    have raises : (commit site (NodeQueue.insertJob job)).Solo
        (fun outcome final => outcome = .error error ∧ final = db) db := .of_error failed
    refine raises.bind (fun value final ends => absurd ends.1 (by nofun)) fun error final ends => ?_
    obtain ⟨-, rfl⟩ := ends
    exact ⟨[], .refl bounded, rfl, Nat.zero_lt_one⟩
  · obtain ⟨id, after, inserted, grown⟩ := grown_insertJob stored bounded
      (not_not.mp fun vacant => occupied (occupancy.mpr vacant)) mine about numbered
    rw [if_neg occupied, given]
    have placed : (commit site (NodeQueue.insertJob job)).Solo
        (fun outcome final => outcome = .ok id ∧ final = after) db := .of_ok inserted
    refine placed.bind (fun value final ends => ?_) fun error final ends => absurd ends.1 (by nofun)
    obtain ⟨-, rfl⟩ := ends
    refine ⟨_, grown, ?_, rfl, rfl⟩
    rw [List.map_singleton, about, marked]
    rfl

theorem writes_nothing {α : Type} {counts : α → Nat} {error : PyErr} {node : DagNode}
    (bounded : Bounded db) (fails : rowStatus cfg host run existing node = .error error) :
    Writes run db (placedRows cfg host run existing taken [node]) 1 counts (.error error) db := by
  have none : placedRows cfg host run existing taken [node] = [] := by
    unfold placedRows
    split
    · rfl
    · rw [fails]
  rw [none]
  exact ⟨[], .refl bounded, rfl, Nat.zero_lt_one⟩

theorem solo_enqueue_writes {node : DagNode} (stored : (db.run? run.id).isSome)
    (bounded : Bounded db) (rows : db.jobsOf run.id = existing ++ added)
    (uncompleted : ∀ job ∈ added, job.status ≠ .completed)
    (occupancy : node.id ∈ taken ↔ ¬ Vacant run.id node.id db)
    (kept : Dispatcher.shouldSkipNode cfg node run existing = .ok false) :
    (Dispatcher.enqueue cfg host stale node run).Solo
      (Writes run db (placedRows cfg host run existing taken [node]) 1 fun _ => 1) db := by
  unfold Dispatcher.enqueue
  by_cases input : node.input = true
  · have given : rowStatus cfg host run existing node = .ok .queued := by
      simp [rowStatus, kept, input, bind, Except.bind, pure, Except.pure]
    rw [if_pos input, enqueueNodeJob_eq fun _ => rfl]
    exact solo_insert_writes stored bounded (fun _ _ => rfl) (fun _ _ => rfl) (fun _ _ => rfl)
      (fun _ _ => rfl) occupancy given
  · rw [if_neg input]
    refine solo_readSiblings ?_
    rw [rows, refContext_append uncompleted]
    cases merged : Dispatcher.refContext host run existing with
    | error error =>
      refine writes_nothing bounded ?_
      simp [rowStatus, kept, input, merged, bind, Except.bind]
    | ok context =>
      simp only [Prog.ofExcept_ok, Prog.bind_pure']
      cases resolved : Dispatcher.resolveInputs cfg context node.inputs with
      | error error =>
        refine writes_nothing bounded ?_
        simp [rowStatus, kept, input, merged, resolved, bind, Except.bind]
      | ok inputs =>
        have given : rowStatus cfg host run existing node = .ok .queued := by
          simp [rowStatus, kept, input, merged, resolved, bind, Except.bind, pure, Except.pure]
        simp only [Prog.ofExcept_ok, Prog.bind_pure', enqueueNodeJob_eq pipelineJob_legal]
        exact solo_insert_writes stored bounded (fun _ _ => rfl) (fun _ _ => rfl) (fun _ _ => rfl)
          (fun _ _ => rfl) occupancy given

theorem solo_dispatchNode_writes {node : DagNode} (stored : (db.run? run.id).isSome)
    (bounded : Bounded db) (rows : db.jobsOf run.id = existing ++ added)
    (uncompleted : ∀ job ∈ added, job.status ≠ .completed)
    (occupancy : node.id ∈ taken ↔ ¬ Vacant run.id node.id db) :
    (Dispatcher.dispatchNode cfg host stale run existing node).Solo
      (Writes run db (placedRows cfg host run existing taken [node]) 1 fun _ => 1) db := by
  unfold Dispatcher.dispatchNode
  cases decided : Dispatcher.shouldSkipNode cfg node run existing with
  | error error =>
    refine writes_nothing bounded ?_
    simp [rowStatus, decided, bind, Except.bind]
  | ok skip =>
    cases skip with
    | true =>
      have given : rowStatus cfg host run existing node = .ok .skipped := by
        simp [rowStatus, decided, bind, Except.bind, pure, Except.pure]
      exact solo_insert_writes stored bounded (fun _ _ => rfl) (fun _ _ => rfl) (fun _ _ => rfl)
        (fun _ _ => rfl) occupancy given
    | false => exact solo_enqueue_writes stored bounded rows uncompleted occupancy decided

theorem Writes.following {α : Type} {middle after : Db} {new : List NodeJob}
    {rows more : List (String × JobStatus)} {few : Nat} {counts : α → Nat}
    {outcome : Except PyErr α} (grown : Grown run.id db middle new)
    (looks : new.map (fun job => (job.nodeId, job.status)) = rows)
    (rest : Writes run middle more few counts outcome after) :
    Writes run db (rows ++ more) (rows.length + few) (fun value => rows.length + counts value)
      outcome after := by
  obtain ⟨later, further, seen, ends⟩ := rest
  refine ⟨new ++ later, grown.trans further, by rw [List.map_append, looks, seen], ?_⟩
  rw [List.length_append]
  cases outcome with
  | ok value => exact ⟨congrArg _ ends.1, congrArg _ ends.2⟩
  | error error => exact Nat.add_lt_add_left ends _

theorem Writes.returns {α β : Type} {after : Db} {rows : List (String × JobStatus)} {whole : Nat}
    {counts : α → Nat} {recount : β → Nat} {value : α} {result : β}
    (writes : Writes run db rows whole counts (.ok value) after)
    (same : recount result = counts value) : Writes run db rows whole recount (.ok result) after := by
  obtain ⟨new, grown, looks, whole, counted⟩ := writes
  exact ⟨new, grown, looks, whole, same.trans counted⟩

/-- What is written is not completed. -/
theorem uncompleted_of_placed {new : List NodeJob}
    (looks : new.map (fun job => (job.nodeId, job.status)) =
      placedRows cfg host run existing taken nodes) : ∀ job ∈ new, job.status ≠ .completed := by
  intro job present completed
  have listed : (job.nodeId, job.status) ∈ placedRows cfg host run existing taken nodes :=
    looks ▸ List.mem_map_of_mem present
  rcases placedRows_status listed with skipped | queued
  · cases completed.symm.trans skipped
  · cases completed.symm.trans queued

theorem placedRows_head {node : DagNode}
    (one : (placedRows cfg host run existing taken [node]).length = 1) :
    ∃ status, placedRows cfg host run existing taken [node] = [(node.id, status)] ∧
      ∀ rest, placedRows cfg host run existing taken (node :: rest) =
        (node.id, status) :: placedRows cfg host run existing (node.id :: taken) rest := by
  simp only [placedRows_cons] at one ⊢
  by_cases occupied : node.id ∈ taken
  · rw [if_pos occupied] at one
    cases one
  · simp only [if_neg occupied] at one ⊢
    cases given : rowStatus cfg host run existing node with
    | ok status => exact ⟨status, rfl, fun _ => rfl⟩
    | error error =>
      rw [given] at one
      cases one

theorem solo_dispatchReady_writes {ready : List DagNode} (stored : (db.run? run.id).isSome)
    (bounded : Bounded db) (rows : db.jobsOf run.id = existing ++ added)
    (uncompleted : ∀ job ∈ added, job.status ≠ .completed)
    (occupancy : ∀ node ∈ ready, (node.id ∈ taken ↔ ¬ Vacant run.id node.id db)) :
    (Dispatcher.dispatchReady cfg host stale run existing ready).Solo
      (Writes run db (placedRows cfg host run existing taken ready) ready.length id) db := by
  induction ready generalizing db added taken with
  | nil => exact ⟨[], .refl bounded, rfl, rfl, rfl⟩
  | cons node rest ih =>
    refine Solo.bind (solo_dispatchNode_writes stored bounded rows uncompleted
      (occupancy node List.mem_cons_self)) (fun _ middle done => ?_) fun error middle done => ?_
    · obtain ⟨new, grown, looks, one, -⟩ := done
      obtain ⟨status, only, first⟩ := placedRows_head one
      rw [only] at looks
      have known : (middle.run? run.id).isSome := by
        rw [Db.run?, grown.runs]
        exact stored
      have later : middle.jobsOf run.id = existing ++ (added ++ new) := by
        rw [grown.jobsOf, rows, List.append_assoc]
      have quiet : ∀ job ∈ added ++ new, job.status ≠ .completed := fun job present =>
        (List.mem_append.mp present).elim (uncompleted job)
          (uncompleted_of_placed (looks.trans only.symm) job)
      have cells : ∀ other ∈ rest,
          (other.id ∈ node.id :: taken ↔ ¬ Vacant run.id other.id middle) := by
        intro other member
        have named : new.map NodeJob.nodeId = [node.id] := by
          have mapped := congrArg (List.map Prod.fst) looks
          rwa [List.map_map] at mapped
        have vacant : Vacant run.id other.id middle ↔
            Vacant run.id other.id db ∧ other.id ≠ node.id := by
          unfold Vacant
          simp only [grown.jobsOf, List.mem_append, or_imp, forall_and]
          refine and_congr_right fun _ => ?_
          rw [← List.forall_mem_map (f := NodeJob.nodeId) (P := fun nodeId => nodeId ≠ other.id),
            named, List.forall_mem_singleton]
          exact ne_comm
        rw [vacant, List.mem_cons, occupancy other (List.mem_cons_of_mem _ member), not_and_or,
          ne_eq, not_not, or_comm]
      refine (ih known grown.bounded later quiet cells).bind (fun inserted after more => ?_) ?_
      · rw [first rest, List.length_cons, Nat.add_comm]
        refine (more.following grown looks).returns ?_
        simp [Nat.add_comm]
      · intro error after more
        rw [first rest, List.length_cons, Nat.add_comm]
        obtain ⟨later, further, seen, short⟩ := more.following grown looks
        exact ⟨later, further, seen, short⟩
    · obtain ⟨new, grown, looks, short⟩ := done
      have stuck : placedRows cfg host run existing taken ([node] ++ rest) =
          placedRows cfg host run existing taken [node] := placedRows_append_of_stuck short
      rw [List.singleton_append] at stuck
      rw [stuck]
      exact ⟨new, grown, looks, short.trans_le (Nat.succ_le_succ (Nat.zero_le _))⟩

/-- The rows that the loop writes, alone and with fuel enough. -/
theorem solo_processReady_writes {wf : Workflow} {fuel rounds : Nat}
    (expands : Dispatcher.nodesOf cfg wf run = .ok nodes) (stored : (db.run? run.id).isSome)
    (bounded : Bounded db)
    (enough : Cells.missing nodes ((db.jobsOf run.id).map NodeJob.cell) < fuel)
    (deep : Cells.missing nodes ((db.jobsOf run.id).map NodeJob.cell) ≤ rounds) :
    (Dispatcher.processReady cfg host stale wf run fuel).Solo
      (Writes run db
        (placedRows cfg host run (db.jobsOf run.id) []
          (Cells.reaches cfg run.context nodes rounds ((db.jobsOf run.id).map NodeJob.cell)))
        (Cells.reaches cfg run.context nodes rounds ((db.jobsOf run.id).map NodeJob.cell)).length
        id) db := by
  induction fuel generalizing db rounds with
  | zero => exact absurd enough (Nat.not_lt_zero _)
  | succ fuel ih =>
    unfold Dispatcher.processReady
    refine solo_listJobs ?_
    rw [expands]
    simp only [Prog.ofExcept_ok, Prog.bind_pure', Cells.ready_eq]
    split
    · rename_i none
      rw [Cells.reaches_of_none (List.isEmpty_iff.mp none)]
      exact ⟨[], .refl bounded, rfl, rfl, rfl⟩
    · rename_i some
      have able : Cells.ready nodes ((db.jobsOf run.id).map NodeJob.cell) ≠ [] := by
        simpa using some
      obtain ⟨node, listed⟩ := List.exists_mem_of_ne_nil _ able
      have more := Cells.missing_pos listed
      obtain ⟨rounds, rfl⟩ := Nat.exists_eq_add_one_of_ne_zero
        (Nat.pos_iff_ne_zero.mp (more.trans_le deep))
      rw [Cells.reaches]
      generalize shape : byModel (Cells.ready nodes ((db.jobsOf run.id).map NodeJob.cell)) = ready
      have vacant : ∀ node ∈ ready, (node.id ∈ ([] : List String) ↔
          ¬ Vacant run.id node.id db) := by
        intro node member
        subst shape
        rw [← Cells.ready_eq] at member
        exact iff_of_false List.not_mem_nil
          (not_not.mpr (vacant_of_ready (mem_byModel.mp member)))
      refine Solo.bind ((solo_dispatchReady_writes stored bounded (List.append_nil _).symm
        (fun _ member => absurd member List.not_mem_nil) vacant).both
          (solo_dispatchReady (db.jobsOf run.id) ready))
        (fun inserted middle done => ?_) fun error middle done => ?_
      · obtain ⟨⟨new, grown, looks, full, counted⟩, placed⟩ := done
        subst shape
        have next := Placed.next placed
        have fewer := Cells.missing_round cfg run.context able
        have known : (middle.run? run.id).isSome := by
          rw [Db.run?, grown.runs]
          exact stored
        have fuelled : Cells.missing nodes ((middle.jobsOf run.id).map NodeJob.cell) < fuel := by
          rw [next]
          omega
        have deeper : Cells.missing nodes ((middle.jobsOf run.id).map NodeJob.cell) ≤ rounds := by
          rw [next]
          omega
        have rest := ih known grown.bounded fuelled deeper
        rw [next, grown.jobsOf, placedRows_added (uncompleted_of_placed looks)] at rest
        have apart : ∀ node ∈ Cells.reaches cfg run.context nodes rounds
            (Cells.round cfg run.context nodes ((db.jobsOf run.id).map NodeJob.cell)),
            node.id ∉ ([] : List String) ∧ ∀ before ∈
              byModel (Cells.ready nodes ((db.jobsOf run.id).map NodeJob.cell)),
              before.id ≠ node.id := by
          refine fun node reached => ⟨List.not_mem_nil, fun before member => ?_⟩
          exact Cells.vacant_of_reached reached _
            (List.mem_append_right _ (List.mem_map_of_mem member))
        rw [placedRows_append_of_full full apart, List.length_append, ← full]
        refine rest.bind (fun more after done => ?_) fun error after done => ?_
        · refine (done.following grown looks).returns ?_
          simp only [id] at counted ⊢
          omega
        · exact done.following grown looks
      · obtain ⟨new, grown, looks, short⟩ := done.1
        rw [placedRows_append_of_stuck short, List.length_append]
        exact ⟨new, grown, looks, Nat.lt_add_right _ short⟩

theorem trail_eq_nil : trail cfg run nodes existing = [] ↔ findReadyNodes nodes existing = [] := by
  unfold trail
  rw [Cells.ready_eq]
  constructor
  · intro none
    by_contra some
    obtain ⟨node, listed⟩ := List.exists_mem_of_ne_nil _ some
    have long : 0 < nodes.length := (Cells.missing_pos listed).trans_le (Cells.missing_le _ _)
    obtain ⟨rounds, length⟩ := Nat.exists_eq_add_one_of_ne_zero long.ne'
    rw [length, Cells.reaches, List.append_eq_nil_iff] at none
    exact List.ne_nil_of_mem (mem_byModel.mpr listed) none.1
  · exact Cells.reaches_of_none

/-- **What an expansion writes**, alone and with fuel enough. -/
theorem solo_expansion {wf : Workflow} {fuel : Nat}
    (expands : Dispatcher.nodesOf cfg wf run = .ok nodes) (stored : (db.run? run.id).isSome)
    (bounded : Bounded db) (enough : nodes.length < fuel) :
    (Dispatcher.processReady cfg host stale wf run fuel).Solo
      (Writes run db
        (placedRows cfg host run (db.jobsOf run.id) [] (trail cfg run nodes (db.jobsOf run.id)))
        (trail cfg run nodes (db.jobsOf run.id)).length id) db :=
  solo_processReady_writes expands stored bounded ((Cells.missing_le _ _).trans_lt enough)
    (Cells.missing_le _ _)

end Loop

end QueueWorkflows
