import QueueWorkflows.Engine.Settlement

/-! A transient GPU error under the retry cap. The requeue takes effect on a row that
is still `running`; otherwise the call falls back to a terminal mark, whose own guard
lets every row through that is not closed. -/

namespace QueueWorkflows

open Relation (ReflTransGen)
open Transaction (Prog)
open Transaction.Prog (Course commit)

/-- The row is completed or cancelled, or gone. -/
def RowDone (jobId : Nat) (db : Db) : Prop :=
  ∀ row ∈ db.jobs.rows, row.id = jobId → row.status = .completed ∨ row.status = .cancelled

def RowFailed (jobId : Nat) (db : Db) : Prop :=
  ∃ row ∈ db.jobs.rows, row.id = jobId ∧ row.status = .failed

/-- No transaction of the call writes a `failed` event. -/
def SilentOnFailure (trace : List (Db × Db)) : Prop :=
  ∀ move ∈ trace, ∀ event ∈ move.2.events, event.kind = .failed → event ∈ move.1.events

theorem rowDone_iff {jobId : Nat} {db : Db} : RowDone jobId db ↔
    (∀ row ∈ db.jobs.rows, row.id = jobId → row.status.closed = true) ∧ ¬ RowFailed jobId db := by
  constructor
  · intro finished
    refine ⟨fun row present mine => ?_, ?_⟩
    · rcases finished row present mine with completed | cancelled
      · rw [completed]
        rfl
      · rw [cancelled]
        rfl
    · rintro ⟨row, present, mine, failed⟩
      rcases finished row present mine with completed | cancelled
      · cases failed.symm.trans completed
      · cases failed.symm.trans cancelled
  · rintro ⟨closed, sound⟩ row present mine
    have shut := closed row present mine
    cases status : row.status with
    | completed => exact .inl rfl
    | cancelled => exact .inr rfl
    | failed => exact absurd ⟨row, present, mine, status⟩ sound
    | _ =>
      rw [status] at shut
      cases shut

section Call

variable {cfg : Config} {job : NodeJob} {db after : Db}

theorem requeue_events {row : Option NodeJob}
    (done : NodeQueue.requeueJobForRetry job.id db = .ok (row, after)) : after.events = db.events := by
  cases done
  rfl

/-- What is not `running` is not handed back. -/
theorem not_held_of_missed (done : NodeQueue.requeueJobForRetry job.id db = .ok (none, after)) :
    ¬ RowHeld job.id db := by
  have head := (Prod.mk.inj (Except.ok.inj done)).1
  rintro ⟨row, present, mine, running⟩
  rw [List.head?_eq_none_iff, List.map_eq_nil_iff, List.filter_eq_nil_iff] at head
  exact head row present (by simp [mine, running])

variable {change : NodeJob → NodeJob} {keeps : ∀ row, (change row).key = row.key}
  {marking : Txn (Option NodeJob)} {runId nodeId : String} {kind : EventKind}
  {outcome result : Executor.Outcome}

/-- A row that is not closed takes the mark. -/
theorem failed_of_open (marks : marking db = NodeQueue.mark job.id change keeps db)
    (fails : ∀ row, (change row).status = .failed)
    (done : Executor.markWithEvent marking runId nodeId kind outcome db = .ok (result, after))
    (unclosed : ∃ row ∈ db.jobs.rows, row.id = job.id ∧ row.status.closed = false) :
    RowFailed job.id after := by
  obtain ⟨row, present, mine, closed⟩ := unclosed
  rcases markWithEvent_cases done with ⟨-, unmarked⟩ | ⟨new, mid, marked, -, written⟩
  · obtain ⟨-, ⟨-, none⟩ | ⟨-, -, -, -, ⟨⟩⟩⟩ := mark_cases (marks.symm.trans unmarked)
    rw [none row present mine] at closed
    cases closed
  · obtain ⟨rfl, -⟩ := mark_cases (marks.symm.trans marked)
    cases written
    refine ⟨_, List.mem_map_of_mem present, ?_⟩
    rw [if_pos (by simp [mine, closed])]
    exact ⟨(congrArg Prod.fst (keeps row)).trans mine, fails row⟩

/-- A closed row stays as it is, and nothing is announced. -/
theorem unmarked_of_closed (marks : marking db = NodeQueue.mark job.id change keeps db)
    (done : Executor.markWithEvent marking runId nodeId kind outcome db = .ok (result, after))
    (closed : ∀ row ∈ db.jobs.rows, row.id = job.id → row.status.closed = true) :
    after.jobs.rows = db.jobs.rows ∧ after.events = db.events := by
  rcases markWithEvent_cases done with ⟨-, unmarked⟩ | ⟨new, mid, marked, -, -⟩
  · obtain ⟨rfl, -⟩ := mark_cases (marks.symm.trans unmarked)
    refine ⟨?_, rfl⟩
    rw [Relational.Table.rows_update]
    refine (List.map_congr_left fun row present => ?_).trans (List.map_id _)
    refine if_neg fun selected => ?_
    simp only [Bool.and_eq_true, beq_iff_eq, Bool.not_eq_true'] at selected
    rw [closed row present selected.1] at selected
    cases selected.2
  · obtain ⟨-, ⟨⟨⟩, -⟩ | ⟨row, present, mine, unclosed, -⟩⟩ := mark_cases (marks.symm.trans marked)
    rw [closed row present mine] at unclosed
    cases unclosed

/-- What the fallback leaves: the row is unfailed where it was done, and only there. -/
theorem fallback_spares (marks : marking db = NodeQueue.mark job.id change keeps db)
    (fails : ∀ row, (change row).status = .failed)
    (done : Executor.markWithEvent marking runId nodeId kind outcome db = .ok (result, after)) :
    ¬ RowFailed job.id after ∧ SilentOnFailure [(db, after)] ↔ RowDone job.id db := by
  by_cases closed : ∀ row ∈ db.jobs.rows, row.id = job.id → row.status.closed = true
  · obtain ⟨rows, events⟩ := unmarked_of_closed marks done closed
    have silent : SilentOnFailure [(db, after)] := by
      intro move member event present _
      rw [List.mem_singleton.mp member] at present ⊢
      exact events ▸ present
    have same : RowFailed job.id after ↔ RowFailed job.id db := by
      unfold RowFailed
      rw [rows]
    rw [rowDone_iff, same]
    exact ⟨fun both => ⟨closed, both.1⟩, fun both => ⟨both.2, silent⟩⟩
  · have unclosed : ∃ row ∈ db.jobs.rows, row.id = job.id ∧ row.status.closed = false := by
      simpa only [not_forall, exists_prop, Bool.not_eq_true] using closed
    have failed := failed_of_open marks fails done unclosed
    exact iff_of_false (fun both => both.1 failed) fun finished => closed (rowDone_iff.mp finished).1

/-- **A transient error below the cap.** The call leaves the row unfailed, and writes no
`failed` event, exactly where its requeue finds the row `running`, or its fallback finds
it completed, cancelled or gone. -/
theorem transient_error_spares_row {R : Db → Db → Prop} {start last : Db}
    {moves : List (Db × Db)} {ends : Except PyErr Executor.Outcome} {short error : String}
    (transient : Executor.isTransientGpuError short = true)
    (below : job.watchdogRetries < cfg.watchdogMaxRetries)
    (course : (Executor.settleError cfg job short error).Course R start moves ends last) :
    ¬ RowFailed job.id last ∧ SilentOnFailure moves ↔
      (∃ move, moves[0]? = some move ∧ RowHeld job.id move.1) ∨
        ∃ move, moves[1]? = some move ∧ RowDone job.id move.1 := by
  unfold Executor.settleError Executor.requeueForTransientGpu at course
  rw [if_pos transient, if_neg (Nat.not_le.mpr below)] at course
  obtain ⟨found, -, ⟨row, middle, rest, done, rfl, course⟩ | ⟨_, ⟨⟩, -⟩⟩ := course.commit_bind
  have quiet : ∀ event ∈ middle.events, event ∈ found.events :=
    fun event present => requeue_events done ▸ present
  cases row with
  | some row =>
    obtain ⟨rfl, -, rfl⟩ := course.pure_cases
    have held := held_of_requeued done rfl
    refine iff_of_true ⟨?_, fun move member event present _ => ?_⟩ (.inl ⟨_, rfl, held⟩)
    · rintro ⟨other, present, mine, failed⟩
      cases failed.symm.trans (queued_requeue held done other present mine)
    · rw [List.mem_singleton.mp member] at present ⊢
      exact quiet event present
  | none =>
    obtain ⟨late, -, rfl, ⟨result, marked, -⟩ | ⟨_, failed, -⟩⟩ := course.commit_cases
    · have missed : ¬ ∃ move, [(found, middle), (late, last)][0]? = some move ∧
          RowHeld job.id move.1 := by
        rintro ⟨move, same, held⟩
        cases same
        exact not_held_of_missed done held
      have second : (∃ move, [(found, middle), (late, last)][1]? = some move ∧
          RowDone job.id move.1) ↔ RowDone job.id late := by
        simp
      have first : SilentOnFailure [(found, middle), (late, last)] ↔
          SilentOnFailure [(late, last)] := by
        unfold SilentOnFailure
        rw [List.forall_mem_cons]
        exact and_iff_right fun event present _ => quiet event present
      rw [or_iff_right missed, second, first]
      exact fallback_spares rfl (fun _ => rfl) marked
    · exact absurd failed (markWithEvent_ne_error rfl)

end Call

/-! ### Samples -/

/-- Row 1 is claimed under a lease of a second. -/
def Sample.leased : List Label :=
  Sample.expanded ++ [.prioritize 1, .claimCpu { host := "a", leaseS := 1 } Sample.host false]

/-- The row as its worker holds it. -/
def Sample.leasedJob : NodeJob :=
  ((Sample.after Sample.leased).store.job? 1).getD {
    id := 1, runId := "", nodeId := "", nodeModule := "", queue := .cpu, status := .queued
    createdAt := 0 }

/-- The lease has lapsed, and the row has been reclaimed. -/
def Sample.reclaimed : Db :=
  (Sample.after (Sample.leased ++ [.clock (seconds 2), .reclaimExpired])).store

def Sample.outOfMemory : Program Executor.Outcome :=
  Executor.settleError Sample.config Sample.leasedJob "CUDA error: out of memory"
    "CUDA error: out of memory"

theorem leased_row_spared : ∃ moves ends last,
    Sample.outOfMemory.Course (fun _ _ => True) (Sample.after Sample.leased).store moves ends last ∧
    (¬ RowFailed Sample.leasedJob.id last ∧ SilentOnFailure moves ↔
      (∃ move, moves[0]? = some move ∧ RowHeld Sample.leasedJob.id move.1) ∨
        ∃ move, moves[1]? = some move ∧ RowDone Sample.leasedJob.id move.1) := by
  obtain ⟨ends, ran⟩ := Option.isSome_iff_exists.mp (by decide +kernel :
    (Sample.outOfMemory.run (Sample.after Sample.leased).store).1.isSome = true)
  obtain ⟨moves, course⟩ := Course.of_run (R := fun _ _ => True) ran
  exact ⟨moves, _, _, course,
    transient_error_spares_row (by decide +kernel) (by decide +kernel) course⟩

/-- The worker that lost the row to a reclaim fails it, while it waits for another. -/
theorem reclaimed_row_failed : ¬ ∀ moves ends last,
    Sample.outOfMemory.Course (fun _ _ => False) Sample.reclaimed moves ends last →
      ¬ RowFailed Sample.leasedJob.id last ∧ SilentOnFailure moves := by
  intro spared
  obtain ⟨ends, ran⟩ := Option.isSome_iff_exists.mp
    (by decide +kernel : (Sample.outOfMemory.run Sample.reclaimed).1.isSome = true)
  obtain ⟨moves, course⟩ := Course.of_run (R := fun _ _ => False) ran
  refine (spared _ _ _ course).1 ?_
  unfold RowFailed
  decide +kernel

end QueueWorkflows
