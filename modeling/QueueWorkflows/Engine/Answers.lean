import QueueWorkflows.Engine.Contexts
import QueueWorkflows.Engine.Frames
import QueueWorkflows.Engine.System

/-! A submitted answer on its way into the context of the nodes that refer to it. -/

namespace QueueWorkflows

open Transaction (Prog)
open Transaction.Prog (Always commit ofExcept)

/-! ### The stored answer -/

/-- Completed rows stay, with their output. -/
def KeepsCompleted (before after : Db) : Prop :=
  ∀ job ∈ before.jobs.rows, job.status = .completed →
    ∃ now ∈ after.jobs.rows, now.key = job.key ∧ now.status = .completed ∧
      now.contextDelta = job.contextDelta

theorem keepsCompleted_of_jobs {before after : Db} (same : after.jobs = before.jobs) :
    KeepsCompleted before after :=
  fun job present completed => ⟨job, same ▸ present, rfl, completed, rfl⟩

theorem keepsCompleted_frame {scope : String → Prop} : Advances scope KeepsCompleted where
  refl _ := keepsCompleted_of_jobs rfl
  insert db job jobs _ inserted := by
    intro old present completed
    refine ⟨old, ?_, rfl, completed, rfl⟩
    rw [Relational.Table.rows_insert? inserted]
    exact List.mem_append_left _ present
  setInputSpec runId nodeId _ db spec after done := by
    intro job present completed
    cases done
    refine ⟨job, List.mem_map.mpr ⟨job, present, if_neg ?_⟩, rfl, completed, rfl⟩
    simp [completed]
  updateRun runId _ db fields after done := by
    cases done
    exact keepsCompleted_of_jobs rfl

/-- A row that is completed with this output. -/
def Stored (key : Nat × String × String) (delta : Json) (db : Db) : Prop :=
  ∃ now ∈ db.jobs.rows, now.key = key ∧ now.status = .completed ∧ now.contextDelta = delta

theorem Stored.stays {key : Nat × String × String} {delta : Json} {before after : Db}
    (keeps : KeepsCompleted before after) (stored : Stored key delta before) :
    Stored key delta after := by
  obtain ⟨now, present, same, completed, output⟩ := stored
  obtain ⟨later, kept, key', completed', output'⟩ := keeps now present completed
  exact ⟨later, kept, key'.trans same, completed', output'.trans output⟩

section Process

variable {cfg : Config} {host : Host} {fuel : Nat} {row : InputSubmission} {db : Db}
  {job : NodeJob} {delta : Json}

/-- What comes after the row is marked: the cascade, and the submission's own status. -/
theorem cascade_keeps {settle : Option PyErr → Program Unit}
    (settles : ∀ failure, (settle failure).Always KeepsCompleted) :
    (Prog.handle (Dispatcher.onNodeCompleted cfg host row.runId row.nodeId fuel >>= fun _ =>
      pure none) (fun error => pure (some error)) >>= settle).Always KeepsCompleted := by
  have frame : Advances (fun _ => True) KeepsCompleted := keepsCompleted_frame
  have cascades : (Dispatcher.onNodeCompleted cfg host row.runId row.nodeId fuel >>= fun _ =>
      (pure none : Program (Option PyErr))).Always KeepsCompleted :=
    (frame.onNodeCompleted trivial).bind fun _ => trivial
  exact Always.bind (Always.handle cascades fun error => trivial) settles

/-- `_process` marks the parked row completed with the answer's delta; whatever the cascade
comes to, the row keeps it. -/
theorem processRow_stores (present : job ∈ db.jobs.rows) (run : job.runId = row.runId)
    (node : job.nodeId = row.nodeId) (parked : job.status = .awaitingInput ∨ job.status = .queued)
    (answer : Dispatcher.answerDelta cfg job (InputListener.submittedValue cfg row.value) =
      .ok delta) :
    Stored job.key delta ((InputListener.processRow cfg host fuel row).run db).2 := by
  have closed : job.status.closed = false := by
    rcases parked with waiting | queued
    · rw [waiting]
      rfl
    · rw [queued]
      rfl
  simp only [InputListener.processRow, InputListener.resumeRow, Dispatcher.resumeAfterInput, commit,
    Prog.bind_txn, Prog.handle, Prog.run, NodeQueue.listJobsForRun, Db.find_node present run node,
    parked, if_true, answer, Prog.ofExcept_ok, Prog.bind_pure']
  cases marked : NodeQueue.markCompletedInTxn job.id delta db with
  | error error => cases marked
  | ok pair =>
    have stored : Stored job.key delta pair.2 := by
      cases marked
      refine ⟨_, List.mem_map.mpr ⟨job, present, if_pos ?_⟩, rfl, rfl, rfl⟩
      simp [closed]
    refine Always.run (cascade_keeps fun failure => ?_) (fun _ _ => Stored.stays) stored
    cases failure <;>
    · refine Always.commit fun db _ after done => ?_
      cases done
      exact keepsCompleted_of_jobs rfl

end Process

/-! ### The answer in a context -/

/-- The context has the value under the node's id and the target. -/
def HasAnswer (nodeId target : String) (value : Json) (context : Dict) : Prop :=
  ∃ fields, Dict.get? context nodeId = some (.obj fields) ∧ Dict.get? fields target = some value

/-- A `$from` ref to the answer resolves to the value, and comparisons see the value. -/
structure RefersTo (py : Python) (context : Dict) (path : String) (value : Json) : Prop where
  plain : Refs.evaluate py context (.obj [("$from", .str path)]) = .ok (.json value)
  eq : ∀ expected, Refs.evaluate py context (.obj [("$from", .str path), ("$eq", expected)]) =
    .ok (.json (.bool (value.same expected)))
  ne : ∀ expected, Refs.evaluate py context (.obj [("$from", .str path), ("$ne", expected)]) =
    .ok (.json (.bool (!value.same expected)))

section Context

variable {py : Python} {context : Dict} {nodeId target : String} {value : Json}

theorem segments_answer (node : '.' ∉ nodeId.toList) (clear : '.' ∉ target.toList) :
    Refs.segments (nodeId ++ "." ++ target) = [nodeId, target] := by
  have letters : (nodeId ++ "." ++ target).toList = nodeId.toList ++ '.' :: target.toList := by
    simp
  unfold Refs.segments
  rw [letters, List.splitOn_append_cons_self, List.splitOn_eq_singleton node,
    List.splitOn_eq_singleton clear]
  simp

theorem HasAnswer.refersTo (has : HasAnswer nodeId target value context)
    (node : '.' ∉ nodeId.toList) (clear : '.' ∉ target.toList) :
    RefersTo py context (nodeId ++ "." ++ target) value := by
  obtain ⟨fields, entry, found⟩ := has
  have dug : Refs.dig py (nodeId ++ "." ++ target) (.json (.obj context))
      (Refs.segments (nodeId ++ "." ++ target)) = .ok (.json value) := by
    rw [segments_answer node clear]
    simp [Refs.dig, Found.attr?, entry, found]
  have resolves (others : Dict) (literal : Dict.get? others "$value" = none)
      (single : Dict.get? others "$coalesce" = none) :
      Refs.evaluate py context (.obj (("$from", .str (nodeId ++ "." ++ target)) :: others)) =
        Refs.applyTo py (nodeId ++ "." ++ target)
          (("$from", .str (nodeId ++ "." ++ target)) :: others) (.json value) := by
    have noValue : Dict.get? (("$from", .str (nodeId ++ "." ++ target)) :: others) "$value" =
        none := by rw [Dict.get?_cons, if_neg (by decide), literal]
    have noCoalesce : Dict.get? (("$from", .str (nodeId ++ "." ++ target)) :: others) "$coalesce" =
        none := by rw [Dict.get?_cons, if_neg (by decide), single]
    have path : Dict.get? (("$from", .str (nodeId ++ "." ++ target)) :: others) "$from" =
        some (.str (nodeId ++ "." ++ target)) := by rw [Dict.get?_cons, if_pos rfl]
    unfold Refs.evaluate
    simp only [noValue, Refs.coalesce_eq_none noCoalesce, path, Refs.resolveFrom, dug]
    rfl
  constructor
  · exact resolves [] rfl rfl
  · exact fun expected => resolves [("$eq", expected)] rfl rfl
  · exact fun expected => resolves [("$ne", expected)] rfl rfl

/-- The scan of the run's directories sets `files` keys alone. -/
theorem HasAnswer.mergeFiles {steps : List (String × List Json)} {merged : Dict}
    (has : HasAnswer nodeId target value context) (other : target ≠ "files")
    (built : Dispatcher.mergeFiles context steps = .ok merged) :
    HasAnswer nodeId target value merged := by
  induction steps generalizing context with
  | nil =>
    cases built
    exact has
  | cons step rest ih =>
    obtain ⟨name, files⟩ := step
    unfold Dispatcher.mergeFiles at built
    split at built
    · rename_i old entry
      refine ih ?_ built
      obtain ⟨fields, here, found⟩ := has
      by_cases same : nodeId = name
      · subst same
        rcases entryOf_cases entry with mine | rfl
        · cases here.symm.trans mine
          refine ⟨_, by rw [Dict.get?_set, if_pos rfl], ?_⟩
          rw [Dict.get?_set, if_neg other]
          exact found
        · have empty : entryOf context nodeId = .obj fields := entryOf_obj here
          cases empty.symm.trans entry
          cases found
      · exact ⟨fields, by rw [Dict.get?_set, if_neg same]; exact here, found⟩
    · cases built

end Context

/-- A context in which the row's output is read: the skip context, or the ref context where its
loop merges the row and the scan of the directories cannot cover the target. -/
def ReadsOutput (host : Host) (run : RunRow) (rows : List NodeJob) (job : NodeJob)
    (target : String) (context : Dict) : Prop :=
  context = Dispatcher.evalSkipContext run rows ∨
    (Dispatcher.refContext host run rows = .ok context ∧ job ∈ mergedRows run.context rows ∧
      job.nodeId ≠ "" ∧ target ≠ "files")

theorem ReadsOutput.hasAnswer {host : Host} {run : RunRow} {db : Db} {job : NodeJob}
    {target : String} {context : Dict} {value : Json}
    (reads : ReadsOutput host run (db.jobsOf run.id) job target context)
    (present : job ∈ db.jobsOf run.id) (completed : job.status = .completed)
    (output : job.contextDelta = .obj [(target, value)]) :
    HasAnswer job.nodeId target value context := by
  have gives : Gives job := ⟨completed, by rw [output]; rfl⟩
  have answer : Dict.get? [(target, value)] target = some value := by
    rw [Dict.get?_cons, if_pos rfl]
  rcases reads with rfl | ⟨built, merged, named, other⟩
  · have entry : Dict.get? (Dispatcher.evalSkipContext run (db.jobsOf run.id)) job.nodeId =
        some job.contextDelta :=
      overlay_given nodup_nodeIds present gives
    exact ⟨_, entry.trans (congrArg some output), answer⟩
  · obtain ⟨old, delta, -, same, entry⟩ := merge_merged nodup_nodeIds merged gives named
    cases output.symm.trans same
    have has : HasAnswer job.nodeId target value
        (Dispatcher.mergeSiblings run.context (db.jobsOf run.id)) := by
      refine ⟨_, entry, ?_⟩
      have unique : (Dict.keys [(target, value)]).Nodup := List.nodup_singleton _
      rw [Dict.get?_merge unique, answer]
      rfl
    unfold Dispatcher.refContext at built
    dsimp only at built
    split at built
    · cases built
      exact has
    · exact has.mergeFiles other built

theorem answerDelta_eq {cfg : Config} {job : NodeJob} {target : String}
    (asked : Dict.get? job.inputs "target" = some (.str target)) (named : target ≠ "")
    (value : Json) : Dispatcher.answerDelta cfg job value =
      .ok (if value matches .null then .obj [] else .obj [(target, value)]) := by
  have truthy : (Json.str target).truthy = true := by simpa [Json.truthy] using named
  unfold Dispatcher.answerDelta
  rw [asked, Option.filter_some, if_pos truthy]
  cases value <;> rfl

/-- **Input answers.** A submitted value other than `null` that is no JSON text becomes the
node's output under its target, and the refs of other nodes resolve to it; for `null` the output
is empty. -/
theorem answer_round_trip {cfg : Config} {host : Host} {fuel : Nat} {row : InputSubmission}
    {db : Db} {job : NodeJob} {target : String} (present : job ∈ db.jobs.rows)
    (cell : job.runId = row.runId ∧ job.nodeId = row.nodeId)
    (parked : job.status = .awaitingInput ∨ job.status = .queued)
    (asked : Dict.get? job.inputs "target" = some (.str target)) (named : target ≠ "") :
    ∃ now ∈ ((InputListener.processRow cfg host fuel row).run db).2.jobs.rows,
      now.key = job.key ∧ now.status = .completed ∧
      (row.value = .null → now.contextDelta = .obj []) ∧
      (row.value ≠ .null → (∀ text, row.value = .str text → cfg.jsonLoads text = none) →
        now.contextDelta = .obj [(target, row.value)] ∧
        ∀ py later run context, run.id = row.runId →
          ReadsOutput later run
            (((InputListener.processRow cfg host fuel row).run db).2.jobsOf run.id) now target
            context →
          '.' ∉ row.nodeId.toList → '.' ∉ target.toList →
            RefersTo py context (row.nodeId ++ "." ++ target) row.value) := by
  have answer : Dispatcher.answerDelta cfg job (InputListener.submittedValue cfg row.value) = _ :=
    answerDelta_eq asked named _
  obtain ⟨now, stored, key, completed, output⟩ : Stored job.key _
      ((InputListener.processRow cfg host fuel row).run db).2 :=
    processRow_stores present cell.1 cell.2 parked answer
  have run : now.runId = row.runId := (congrArg (fun key => key.2.1) key).trans cell.1
  have node : now.nodeId = row.nodeId := (congrArg (fun key => key.2.2) key).trans cell.2
  refine ⟨now, stored, key, completed, fun null => ?_, fun given text => ?_⟩
  · rw [output, null]
    rfl
  · have itself : InputListener.submittedValue cfg row.value = row.value := by
      cases value : row.value with
      | str letters => simp [InputListener.submittedValue, text letters value]
      | _ => rfl
    have held : now.contextDelta = .obj [(target, row.value)] := by
      rw [output, itself]
      cases value : row.value with
      | null => exact absurd value given
      | _ => rfl
    refine ⟨held, fun py later run' context same reads clear dotless => ?_⟩
    have mine : now ∈ ((InputListener.processRow cfg host fuel row).run db).2.jobsOf run'.id :=
      Db.mem_jobsOf.mpr ⟨stored, run.trans same.symm⟩
    rw [← node] at clear ⊢
    exact (reads.hasAnswer mine completed held).refersTo clear dotless

/-! ### A null answer -/

/-- The run of the sample, with the row of its input node. -/
def Sample.asking : Db := (Sample.after Sample.expanded).store

def Sample.askRow : NodeJob :=
  (Dispatcher.inputJob
    { id := "ask", input := true, widget := "turnout", target := some "answer"
      dependsOn := [] } Sample.run).row 0 0

theorem askRow_mem : Sample.askRow ∈ Sample.asking.jobs.rows :=
  List.mem_of_mem_head? (by rfl)

/-- `null` leaves no entry under the target. -/
theorem null_answer_dropped : ¬ ∀ (cfg : Config) (host : Host) (fuel : Nat) (row : InputSubmission)
    (db : Db) (job : NodeJob) (target : String), job ∈ db.jobs.rows →
    (job.runId = row.runId ∧ job.nodeId = row.nodeId) →
    (job.status = .awaitingInput ∨ job.status = .queued) →
    Dict.get? job.inputs "target" = some (.str target) → target ≠ "" →
    ∃ now ∈ ((InputListener.processRow cfg host fuel row).run db).2.jobs.rows,
      now.key = job.key ∧ now.status = .completed ∧
      now.contextDelta = .obj [(target, row.value)] := by
  intro promised
  let row : InputSubmission := { id := 0, runId := "r", nodeId := "ask", value := .null }
  obtain ⟨now, stored, key, -, output⟩ := promised Sample.config Sample.host 2 row Sample.asking
    Sample.askRow "answer" askRow_mem ⟨rfl, rfl⟩ (.inr rfl) rfl (by decide)
  have parked : Sample.askRow.status = .awaitingInput ∨ Sample.askRow.status = .queued := .inr rfl
  obtain ⟨same, kept, key', -, dropped⟩ : Stored Sample.askRow.key (.obj [])
      ((InputListener.processRow Sample.config Sample.host 2 row).run Sample.asking).2 :=
    processRow_stores askRow_mem rfl rfl parked rfl
  have one : now = same := Db.eq_of_id stored kept (congrArg Prod.fst (key.trans key'.symm))
  rw [one, dropped] at output
  cases output

/-- A submitted text is found under the node's id and the target. -/
theorem text_answer_stored : ∃ now ∈ ((InputListener.processRow Sample.config Sample.host 2
      { id := 0, runId := "r", nodeId := "ask", value := .str "yes" }).run
        Sample.asking).2.jobs.rows,
    now.key = Sample.askRow.key ∧ now.contextDelta = .obj [("answer", .str "yes")] := by
  obtain ⟨now, stored, key, -, -, given⟩ := @answer_round_trip Sample.config Sample.host 2
    { id := 0, runId := "r", nodeId := "ask", value := .str "yes" } Sample.asking Sample.askRow
    "answer" askRow_mem ⟨rfl, rfl⟩ (.inr rfl) rfl (by decide)
  exact ⟨now, stored, key, (given nofun fun _ _ => rfl).1⟩

end QueueWorkflows
