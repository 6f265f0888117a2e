import QueueWorkflows.Engine.Evolution
import QueueWorkflows.Engine.SelfReference
import QueueWorkflows.Engine.System

/-! Late input resolution. `_enqueue` resolves the declared refs and stores the values;
`resolve_inputs_for_job` resolves again at execution time, but what it finds in the row
are values, not refs. -/

namespace QueueWorkflows

open Transaction (Prog Reach follow)
open Transaction.Prog (commit ofExcept)
open Dispatcher (refContext resolveInputs reresolve resolveInputsForJob)

/-- The context refs of a run resolve against, in a store. -/
def contextAt (host : Host) (runId : String) (db : Db) : Except PyErr Dict :=
  match db.run? runId with
  | none => .ok []
  | some run => refContext host run (db.jobsOf run.id)

/-- What late resolution is for: the declared ref at execution time, and the stored
value only where the ref does not resolve any more. -/
def lateValue (cfg : Config) (context : Dict) (ref stored : Json) : Except PyErr Json :=
  match cfg.resolveRef ref context with
  | .ok resolved => .ok resolved
  | .error error => if error.kind = .keyError then .ok stored else .error error

def lateInputs (cfg : Config) (context : Dict) : (declared stored : Dict) → Except PyErr Dict
  | (key, ref) :: refs, (_, value) :: values => do
    let resolved ← lateValue cfg context ref value
    let others ← lateInputs cfg context refs values
    return (key, resolved) :: others
  | _, _ => .ok []

/-- What the second resolution makes of a value the row holds. -/
def readAgain (cfg : Config) (nodeModule : String) (context : Dict) (value : Json) :
    Except PyErr Json :=
  if Dispatcher.isInputModule nodeModule then .ok value else lateValue cfg context value value

/-- The second resolution leaves the value of a row as it is. -/
def Kept (py : Python) (nodeModule : String) (context : Dict) (value : Json) : Prop :=
  Dispatcher.isInputModule nodeModule = true ∨ Refs.Harmless py context value

/-- The ref means at the later context what it meant at the earlier, or nothing at all. Where the
references in that value are replaced by what they mean later, the ref has to mean the outcome. -/
def Unmoved (py : Python) (cfg : Config) (nodeModule : String) (earlier later : Dict)
    (ref : Json) : Prop :=
  ∃ value, cfg.resolveRef ref earlier = .ok value ∧
    ((Kept py nodeModule later value ∧ (cfg.resolveRef ref later = .ok value ∨
        ∃ error, cfg.resolveRef ref later = .error error ∧ error.kind = .keyError)) ∨
      (¬ Kept py nodeModule later value ∧ ∃ outcome, Refs.Rewritten py later value outcome ∧
        cfg.resolveRef ref later = .ok outcome))

section Inputs

variable {py : Python} {cfg : Config} {earlier later : Dict}

theorem resolveInputs_cons {key : String} {ref : Json} {refs stored : Dict}
    (resolved : resolveInputs cfg earlier ((key, ref) :: refs) = .ok stored) :
    ∃ value values, cfg.resolveRef ref earlier = .ok value ∧
      resolveInputs cfg earlier refs = .ok values ∧ stored = (key, value) :: values := by
  cases first : cfg.resolveRef ref earlier with
  | error error =>
    simp only [resolveInputs, first] at resolved
    cases resolved
  | ok value =>
    cases rest : resolveInputs cfg earlier refs with
    | error error =>
      simp only [resolveInputs, first, rest] at resolved
      cases resolved
    | ok values =>
      simp only [resolveInputs, first, rest] at resolved
      cases resolved
      exact ⟨value, values, rfl, rfl, rfl⟩

theorem lateValue_eq_stored_iff {ref value : Json} :
    lateValue cfg later ref value = .ok value ↔ cfg.resolveRef ref later = .ok value ∨
      ∃ error, cfg.resolveRef ref later = .error error ∧ error.kind = .keyError := by
  unfold lateValue
  cases now : cfg.resolveRef ref later with
  | ok found => simp
  | error error => simp

theorem lateValue_other {ref value received : Json} (other : received ≠ value) :
    lateValue cfg later ref value = .ok received ↔ cfg.resolveRef ref later = .ok received := by
  unfold lateValue
  cases cfg.resolveRef ref later with
  | ok found => rfl
  | error error => by_cases missing : error.kind = .keyError <;> simp [missing, Ne.symm other]

theorem lateValue_self_iff {value : Json}
    (resolver : cfg.resolveRef = fun value context => Refs.resolveRef py context value) :
    lateValue cfg later value value = .ok value ↔ Refs.Harmless py later value := by
  rw [lateValue_eq_stored_iff, Refs.harmless_iff, resolver]

theorem readAgain_self_iff {nodeModule : String} {value : Json}
    (resolver : cfg.resolveRef = fun value context => Refs.resolveRef py context value) :
    readAgain cfg nodeModule later value = .ok value ↔ Kept py nodeModule later value := by
  unfold readAgain Kept
  split
  · rename_i inputNode
    simp [inputNode]
  · rename_i pipeline
    simp [pipeline, lateValue_self_iff resolver]

theorem unmoved_iff {nodeModule : String} {ref value : Json}
    (resolver : cfg.resolveRef = fun value context => Refs.resolveRef py context value)
    (enqueued : cfg.resolveRef ref earlier = .ok value) :
    Unmoved py cfg nodeModule earlier later ref ↔
      ∃ received, readAgain cfg nodeModule later value = .ok received ∧
        lateValue cfg later ref value = .ok received := by
  have only (P : Json → Prop) : (∃ found, cfg.resolveRef ref earlier = .ok found ∧ P found) ↔
      P value := by
    rw [enqueued]
    simp
  unfold Unmoved
  rw [only, ← lateValue_eq_stored_iff]
  by_cases kept : Kept py nodeModule later value
  · rw [(readAgain_self_iff resolver).mpr kept]
    simp [kept]
  · have pipeline : Dispatcher.isInputModule nodeModule ≠ true := fun asks => kept (.inl asks)
    have stored : readAgain cfg nodeModule later value = lateValue cfg later value value :=
      if_neg pipeline
    have resolves : cfg.resolveRef value later = Refs.resolveRef py later value := by
      rw [resolver]
    have again (received : Json) : (readAgain cfg nodeModule later value = .ok received ∧
          lateValue cfg later ref value = .ok received) ↔
        (Refs.Rewritten py later value received ∧ cfg.resolveRef ref later = .ok received) := by
      by_cases same : received = value
      · have loud : readAgain cfg nodeModule later value ≠ .ok value :=
          fun silent => kept ((readAgain_self_iff resolver).mp silent)
        have changed : ¬ Refs.Rewritten py later value value := fun silent =>
          kept (.inr ((Refs.harmless_iff value).mpr
            (.inl ((Refs.resolveRef_rewritten_iff value value).mpr silent))))
        simp [same, loud, changed]
      · rw [stored, lateValue_other same, lateValue_other same, resolves,
          Refs.resolveRef_rewritten_iff]
    simp only [kept, false_and, not_false_eq_true, true_and, false_or, again]

/-- What the row's values become, as a whole. -/
def readInputs (cfg : Config) (nodeModule : String) (context stored : Dict) : Except PyErr Dict :=
  if Dispatcher.isInputModule nodeModule then .ok stored else reresolve cfg context stored

theorem readInputs_cons {nodeModule : String} {key : String} {value : Json} {values : Dict} :
    readInputs cfg nodeModule later ((key, value) :: values) = (do
      let resolved ← readAgain cfg nodeModule later value
      let others ← readInputs cfg nodeModule later values
      return (key, resolved) :: others) := by
  unfold readInputs readAgain lateValue
  split
  · rfl
  · rw [reresolve]
    cases cfg.resolveRef value later with
    | ok resolved => rfl
    | error error =>
      by_cases missing : error.kind = .keyError
      · simp only [missing, if_true]
      · simp only [missing, if_false]

theorem received_late_iff {nodeModule : String} {declared stored : Dict}
    (resolver : cfg.resolveRef = fun value context => Refs.resolveRef py context value)
    (enqueued : resolveInputs cfg earlier declared = .ok stored) :
    (∃ inputs, readInputs cfg nodeModule later stored = .ok inputs ∧
        lateInputs cfg later declared stored = .ok inputs) ↔
      ∀ entry ∈ declared, Unmoved py cfg nodeModule earlier later entry.2 := by
  induction declared generalizing stored with
  | nil =>
    cases enqueued
    simp [readInputs, lateInputs, reresolve]
  | cons entry refs ih =>
    obtain ⟨key, ref⟩ := entry
    obtain ⟨value, values, first, rest, rfl⟩ := resolveInputs_cons enqueued
    rw [List.forall_mem_cons, ← ih rest, unmoved_iff resolver first, readInputs_cons, lateInputs]
    cases readAgain cfg nodeModule later value with
    | error error => simp [bind, Except.bind]
    | ok received =>
      cases lateValue cfg later ref value with
      | error error => simp [bind, Except.bind]
      | ok found =>
        cases readInputs cfg nodeModule later values with
        | error error => simp [bind, Except.bind]
        | ok others =>
          cases lateInputs cfg later refs values with
          | error error => simp [bind, Except.bind]
          | ok late => simp [bind, Except.bind, pure, Except.pure]

theorem readSiblings_run {α : Type} {site : Site} {run : RunRow}
    {rest : List NodeJob → Program α} {db : Db} :
    (Dispatcher.readSiblings site run >>= rest).run db = (rest (db.jobsOf run.id)).run db := rfl

/-- The last statement of `_enqueue`. -/
theorem insertQueued_rows {site : Site} {new : NodeQueue.NewJob} {db after : Db}
    (done : (do let _ ← commit site (NodeQueue.enqueueNodeJob new) : Program Unit).run db =
      (some (.ok ()), after)) :
    after.jobs.rows = db.jobs.rows ++ [new.row db.nextJob db.clock] := by
  simp only [commit, Prog.bind_txn, Prog.run] at done
  cases inserted : NodeQueue.enqueueNodeJob new db with
  | error error =>
    simp only [inserted, Prog.bind_raise, Prog.run] at done
    cases done
  | ok result =>
    obtain ⟨id, final⟩ := result
    simp only [inserted] at done
    cases done
    unfold NodeQueue.enqueueNodeJob at inserted
    split at inserted
    · cases inserted
    · exact (insertJob_cases inserted).2.1

/-- What `_enqueue` inserts for a pipeline node. -/
theorem enqueue_inserts {host : Host} {stale : List String} {node : DagNode} {run : RunRow}
    {db after : Db} (pipeline : node.input = false)
    (done : (Dispatcher.enqueue cfg host stale node run).run db = (some (.ok ()), after)) :
    ∃ context stored, refContext host run (db.jobsOf run.id) = .ok context ∧
      resolveInputs cfg context node.inputs = .ok stored ∧
      after.jobs.rows = db.jobs.rows ++
        [(Dispatcher.pipelineJob node run stored).row db.nextJob db.clock] := by
  simp only [Dispatcher.enqueue, pipeline, Bool.false_eq_true, if_false, readSiblings_run] at done
  cases built : refContext host run (db.jobsOf run.id) with
  | error error =>
    simp only [built, Prog.ofExcept_error, Prog.bind_raise, Prog.run] at done
    cases done
  | ok context =>
    simp only [built, Prog.ofExcept_ok, Prog.bind_pure'] at done
    cases resolved : resolveInputs cfg context node.inputs with
    | error error =>
      simp only [resolved, Prog.ofExcept_error, Prog.bind_raise, Prog.run] at done
      cases done
    | ok stored =>
      simp only [resolved, Prog.ofExcept_ok, Prog.bind_pure'] at done
      exact ⟨context, stored, rfl, resolved, insertQueued_rows done⟩

/-- What `resolve_inputs_for_job` returns. -/
theorem resolveInputsForJob_run {host : Host} {job : NodeJob} {db : Db} {context : Dict}
    (built : contextAt host job.runId db = .ok context) :
    (resolveInputsForJob cfg host job).run db =
      (some (readInputs cfg job.nodeModule context job.inputs), db) := by
  have ends (result : Except PyErr Dict) : (ofExcept result : Program Dict).run db =
      (some result, db) := by
    cases result <;> rfl
  unfold resolveInputsForJob readInputs
  split
  · rfl
  · simp only [commit, Prog.bind_txn, Prog.run, RunStore.getRun, Prog.bind_pure']
    unfold contextAt at built
    cases found : db.run? job.runId with
    | none =>
      simp only [found] at built
      cases built
      exact ends _
    | some run =>
      simp only [found] at built
      simp only [readSiblings_run, built, Prog.ofExcept_ok, Prog.bind_pure']
      exact ends _

end Inputs

/-- Late resolution as the code has it. A pipeline node's row is inserted by `_enqueue`;
whatever is committed afterwards, the node body receives the declared refs as they
resolve then (and the stored value of a ref that does not) exactly where every ref
still resolves to what it did, or not at all. -/
theorem late_resolution_iff {py : Python} {cfg : Config} {host later : Host}
    {stale : List String} {node : DagNode} {run : RunRow} {db after now : Db} {row job : NodeJob}
    {before context : Dict}
    (resolver : cfg.resolveRef = fun value context => Refs.resolveRef py context value)
    (pipeline : node.input = false)
    (enqueued : (Dispatcher.enqueue cfg host stale node run).run db = (some (.ok ()), after))
    (inserted : row ∈ after.jobs.rows) (fresh : row ∉ db.jobs.rows)
    (carried : job.runId = row.runId ∧ job.nodeModule = row.nodeModule ∧ job.inputs = row.inputs)
    (built : refContext host run (db.jobsOf run.id) = .ok before)
    (rebuilt : contextAt later job.runId now = .ok context) :
    (∃ inputs, (resolveInputsForJob cfg later job).run now = (some (.ok inputs), now) ∧
        lateInputs cfg context node.inputs row.inputs = .ok inputs) ↔
      ∀ entry ∈ node.inputs, Unmoved py cfg row.nodeModule before context entry.2 := by
  obtain ⟨known, stored, same, resolved, rows⟩ := enqueue_inserts pipeline enqueued
  cases built.symm.trans same
  rw [rows] at inserted
  rcases List.mem_append.mp inserted with old | last
  · exact absurd old fresh
  have row_inputs : row.inputs = stored := by
    rw [List.mem_singleton.mp last]
    rfl
  rw [resolveInputsForJob_run rebuilt, carried.2.1, carried.2.2, row_inputs,
    ← received_late_iff resolver resolved]
  simp

/-! ### A ref whose meaning changes -/

namespace Sample

/-- Whichever of the two other nodes has an output, the first one before the second. -/
def pick : Json :=
  .obj [("$coalesce",
    .arr [.obj [("$from", .str "late/n.out")], .obj [("$from", .str "soon/n.out")]])]

def lateConfig : Config where
  workflowLoader _ := .ok { steps := [
    { id := "soon", kind := .pipeline, pipeline := "one" },
    { id := "late", kind := .pipeline, pipeline := "one" },
    { id := "pick", kind := .pipeline, pipeline := "two", dependsOn := ["soon"]
      inputs := [("k", pick)] }] }
  pipelineSchemaLoader name := .ok (if name = "one" then [{ id := "n" }]
    else [{ id := "n", inputs := [{ name := "k", source := "pipeline.k" }] }])
  resolveRef value context := Refs.resolveRef python context value
  literalEval _ := none
  jsonLoads _ := none
  strOf _ := ""

def naming : Host :=
  { Sample.host with
    invoke := fun job _ =>
      .ok (.json (.obj [("context_delta", .obj [("out", .str job.nodeId)])])) }

/-- `soon` completes and `pick` is enqueued; then `late` completes, and `pick` is
claimed and its inputs are resolved again. -/
def pickedEarly : List Label :=
  List.flatten [
    [.insertRun run, .expand naming 2], List.replicate 8 (.advance 0),
    [.claimCpu { host := "a" } naming false], List.replicate 5 (.advance 1),
    [.drain naming 2], List.replicate 8 (.advance 2),
    [.claimCpu { host := "a" } naming false], List.replicate 5 (.advance 3),
    [.claimCpu { host := "a" } naming false], List.replicate 4 (.advance 4)]

/-- A value that is a text, as that text. -/
def textOf : Json → String
  | .str text => text
  | _ => ""

def textsOf (inputs : Option Dict) : Option (List (String × String)) :=
  inputs.map fun entries => entries.map fun entry => (entry.1, textOf entry.2)

/-- What the declared ref of `pick` means to a run, in a store. -/
def meant (runId : String) (db : Db) : Option String :=
  (contextAt naming runId db >>= lateConfig.resolveRef pick).toOption.map textOf

def early : Sys := (follow (step lateConfig) anyStep Sys.empty pickedEarly).getD Sys.empty

end Sample

/-- The node body of `pick` receives what the ref meant when the row was enqueued, although
`late` has completed since and the ref means something else. -/
theorem stale_value_received : ∃ sys, Reach (step Sample.lateConfig) anyStep Sys.empty sys ∧
    ∃ job ∈ sys.store.jobs.rows, job.nodeId = "pick/n" ∧ job.status = .running ∧
      Sample.textsOf job.resolvedInputs = some [("k", "soon/n")] ∧
      Sample.meant job.runId sys.store = some "late/n" := by
  have reached : Reach (step Sample.lateConfig) anyStep Sys.empty Sample.early :=
    Reach.follow_getD Sample.pickedEarly (by decide +kernel)
  exact ⟨_, reached, by decide +kernel⟩

/-! ### A ref that keeps its meaning -/

namespace Sample

def topicNode : DagNode where
  id := "talk/n"
  input := false
  node := "n"
  dependsOn := []
  inputs := [("k", .obj [("$from", .str "topic")])]
  pipelineName := some "one"

def topicRun : RunRow := { run with context := [("topic", .str "tea")] }

/-- The store with the run, and with the run and the node's row. -/
def topicStore : Db :=
  ((follow (step lateConfig) anyStep Sys.empty [.insertRun topicRun]).getD Sys.empty).store

def talkStore : Db := ((Dispatcher.enqueue lateConfig naming [] topicNode topicRun).run topicStore).2

def talkJob : NodeJob :=
  (Dispatcher.pipelineJob topicNode topicRun [("k", .str "tea")]).row 0 0

theorem talk_enqueued : (Dispatcher.enqueue lateConfig naming [] topicNode topicRun).run topicStore =
    (some (.ok ()), talkStore) :=
  Prod.ext (by rfl) rfl

theorem talkJob_inserted : talkJob ∈ talkStore.jobs.rows ∧ talkJob ∉ topicStore.jobs.rows :=
  ⟨List.mem_singleton_self _, List.not_mem_nil⟩

end Sample

/-- The body of `talk/n` receives the topic: nothing has changed it since the enqueue. -/
theorem topic_received : ∃ inputs,
    (resolveInputsForJob Sample.lateConfig Sample.naming Sample.talkJob).run Sample.talkStore =
        (some (.ok inputs), Sample.talkStore) ∧
      lateInputs Sample.lateConfig Sample.topicRun.context Sample.topicNode.inputs
        Sample.talkJob.inputs = .ok inputs := by
  have same : Sample.lateConfig.resolveRef (.obj [("$from", .str "topic")])
      Sample.topicRun.context = .ok (.str "tea") := by
    rfl
  have steady : ∀ entry ∈ Sample.topicNode.inputs, Unmoved Sample.python Sample.lateConfig
      Sample.talkJob.nodeModule Sample.topicRun.context Sample.topicRun.context entry.2 := by
    intro entry member
    rw [List.mem_singleton.mp member]
    have no_ref : Refs.Harmless Sample.python Sample.topicRun.context (.str "tea") :=
      .inl fun _ none => absurd none List.not_mem_nil
    exact ⟨_, same, .inl ⟨.inr no_ref, .inl same⟩⟩
  obtain ⟨inserted, fresh⟩ := Sample.talkJob_inserted
  refine (late_resolution_iff rfl rfl Sample.talk_enqueued inserted fresh ⟨rfl, rfl, rfl⟩ ?_ ?_).mpr
    steady
  · rfl
  · rfl

end QueueWorkflows
