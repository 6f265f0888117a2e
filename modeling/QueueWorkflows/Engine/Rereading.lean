import QueueWorkflows.Engine.LateInputs

/-! A second resolution in the same context. The stored values are data by then, but data
that looks like a reference is evaluated again. -/

namespace QueueWorkflows

open Transaction (Prog Reach follow)
open Transaction.Prog (commit)
open Dispatcher (refContext resolveInputs reresolve resolveInputsForJob)

section Rereading

variable {py : Python} {cfg : Config} {context : Dict}

theorem readInputs_self_iff {nodeModule : String} {stored : Dict}
    (resolver : cfg.resolveRef = fun value context => Refs.resolveRef py context value) :
    readInputs cfg nodeModule context stored = .ok stored ↔
      Dispatcher.isInputModule nodeModule = true ∨
        ∀ entry ∈ stored, Refs.Harmless py context entry.2 := by
  induction stored with
  | nil => simp [readInputs, reresolve]
  | cons entry rest ih =>
    obtain ⟨key, value⟩ := entry
    rw [readInputs_cons, List.forall_mem_cons]
    have both : (do
          let resolved ← readAgain cfg nodeModule context value
          let others ← readInputs cfg nodeModule context rest
          return (key, resolved) :: others) = (.ok ((key, value) :: rest) : Except PyErr Dict) ↔
        readAgain cfg nodeModule context value = .ok value ∧
          readInputs cfg nodeModule context rest = .ok rest := by
      cases readAgain cfg nodeModule context value with
      | error error => simp [bind, Except.bind]
      | ok resolved =>
        cases readInputs cfg nodeModule context rest <;>
          simp [bind, Except.bind, pure, Except.pure]
    rw [both, readAgain_self_iff resolver, ih]
    exact or_and_left.symm

theorem forall_resolved_iff {declared stored : Dict} {P : Json → Prop}
    (resolved : resolveInputs cfg context declared = .ok stored) :
    (∀ entry ∈ stored, P entry.2) ↔
      ∀ entry ∈ declared, ∀ value, cfg.resolveRef entry.2 context = .ok value → P value := by
  induction declared generalizing stored with
  | nil =>
    cases resolved
    simp
  | cons entry refs ih =>
    obtain ⟨key, ref⟩ := entry
    obtain ⟨value, values, first, rest, rfl⟩ := resolveInputs_cons resolved
    rw [List.forall_mem_cons, List.forall_mem_cons, ih rest, first]
    simp

theorem isInputModule_append (widget : String) :
    Dispatcher.isInputModule ("__input__" ++ widget) = true := by
  unfold Dispatcher.isInputModule
  rw [String.toList_append, List.isPrefixOf_iff_prefix]
  exact List.prefix_append _ _

/-- What `_enqueue` inserts for an input node. -/
theorem enqueue_inserts_input {host : Host} {stale : List String} {node : DagNode} {run : RunRow}
    {db after : Db} (asks : node.input = true)
    (done : (Dispatcher.enqueue cfg host stale node run).run db = (some (.ok ()), after)) :
    after.jobs.rows = db.jobs.rows ++
      [(Dispatcher.inputJob node run).row db.nextJob db.clock] := by
  simp only [Dispatcher.enqueue, asks, if_true] at done
  exact insertQueued_rows done

end Rereading

/-- **Re-resolution.** Where the context is the same at enqueue and at execution, the node body
receives the inputs that the row was written with exactly where the row is an input node's or
each stored value is harmless. -/
theorem reresolution_iff {py : Python} {cfg : Config} {host later : Host} {stale : List String}
    {node : DagNode} {run : RunRow} {db after now : Db} {row job : NodeJob} {context : Dict}
    (resolver : cfg.resolveRef = fun value context => Refs.resolveRef py context value)
    (enqueued : (Dispatcher.enqueue cfg host stale node run).run db = (some (.ok ()), after))
    (inserted : row ∈ after.jobs.rows) (fresh : row ∉ db.jobs.rows)
    (carried : job.runId = row.runId ∧ job.nodeModule = row.nodeModule ∧ job.inputs = row.inputs)
    (built : refContext host run (db.jobsOf run.id) = .ok context)
    (rebuilt : contextAt later job.runId now = .ok context) :
    (resolveInputsForJob cfg later job).run now = (some (.ok row.inputs), now) ↔
      Dispatcher.isInputModule row.nodeModule = true ∨
        ∀ entry ∈ node.inputs, ∀ value, cfg.resolveRef entry.2 context = .ok value →
          Refs.Harmless py context value := by
  rw [resolveInputsForJob_run rebuilt, carried.2.1, carried.2.2, Prod.mk.injEq,
    Option.some.injEq, eq_self, and_true, readInputs_self_iff resolver]
  cases kind : node.input with
  | true =>
    rw [enqueue_inserts_input kind enqueued] at inserted
    rcases List.mem_append.mp inserted with old | last
    · exact absurd old fresh
    · have asks : Dispatcher.isInputModule row.nodeModule = true := by
        rw [List.mem_singleton.mp last]
        exact isInputModule_append _
      simp [asks]
  | false =>
    obtain ⟨known, stored, same, resolved, rows⟩ := enqueue_inserts kind enqueued
    cases built.symm.trans same
    rw [rows] at inserted
    rcases List.mem_append.mp inserted with old | last
    · exact absurd old fresh
    · have inputs : row.inputs = stored := by
        rw [List.mem_singleton.mp last]
        rfl
      rw [inputs, forall_resolved_iff resolved]

/-! ### A literal that looks like a reference -/

namespace Sample

/-- The literal `{"$from": "topic"}`. -/
def quotingNode : DagNode :=
  { topicNode with inputs := [("k", .obj [("$value", .obj [("$from", .str "topic")])])] }

def quotedStore : Db :=
  ((Dispatcher.enqueue lateConfig naming [] quotingNode topicRun).run topicStore).2

def quotedJob : NodeJob :=
  (Dispatcher.pipelineJob quotingNode topicRun [("k", .obj [("$from", .str "topic")])]).row 0 0

end Sample

/-- The literal is stored as it is, and the node body receives the topic. -/
theorem literal_reread : ¬ ∀ (py : Python) (cfg : Config) (host later : Host) (stale : List String)
    (node : DagNode) (run : RunRow) (db after now : Db) (row job : NodeJob) (context : Dict),
    cfg.resolveRef = (fun value context => Refs.resolveRef py context value) →
    (Dispatcher.enqueue cfg host stale node run).run db = (some (.ok ()), after) →
    row ∈ after.jobs.rows → row ∉ db.jobs.rows →
    (job.runId = row.runId ∧ job.nodeModule = row.nodeModule ∧ job.inputs = row.inputs) →
    refContext host run (db.jobsOf run.id) = .ok context →
    contextAt later job.runId now = .ok context →
    (resolveInputsForJob cfg later job).run now = (some (.ok row.inputs), now) := by
  intro harmless
  have enqueued : (Dispatcher.enqueue Sample.lateConfig Sample.naming [] Sample.quotingNode
      Sample.topicRun).run Sample.topicStore = (some (.ok ()), Sample.quotedStore) :=
    Prod.ext (by rfl) rfl
  have rows : Sample.quotedStore.jobs.rows = [Sample.quotedJob] := by
    rfl
  have none_before : Sample.topicStore.jobs.rows = [] := by
    rfl
  have received := harmless Sample.python Sample.lateConfig Sample.naming Sample.naming []
    Sample.quotingNode Sample.topicRun Sample.topicStore Sample.quotedStore Sample.quotedStore
    Sample.quotedJob Sample.quotedJob [("topic", .str "tea")] rfl enqueued
    (by rw [rows]; exact List.mem_singleton_self _) (by rw [none_before]; exact List.not_mem_nil)
    ⟨rfl, rfl, rfl⟩ rfl rfl
  have inputs := congrArg (fun result => Sample.textsOf (result.1.bind Except.toOption)) received
  revert inputs
  decide +kernel

/-- A plain topic is received as it was stored. -/
theorem topic_reread :
    (resolveInputsForJob Sample.lateConfig Sample.naming Sample.talkJob).run Sample.talkStore =
      (some (.ok Sample.talkJob.inputs), Sample.talkStore) := by
  obtain ⟨inserted, fresh⟩ := Sample.talkJob_inserted
  refine (@reresolution_iff Sample.python Sample.lateConfig Sample.naming Sample.naming []
    Sample.topicNode Sample.topicRun Sample.topicStore Sample.talkStore Sample.talkStore
    Sample.talkJob Sample.talkJob [("topic", .str "tea")] rfl Sample.talk_enqueued inserted fresh
    ⟨rfl, rfl, rfl⟩ rfl rfl).mpr (.inr ?_)
  intro entry member value resolved
  rw [List.mem_singleton.mp member] at resolved
  cases resolved
  exact .inl fun _ none => absurd none List.not_mem_nil

end QueueWorkflows
