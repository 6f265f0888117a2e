import QueueWorkflows.Engine.Evolution
import QueueWorkflows.Engine.System

/-! Rows that are over. Every statement of `node_queue` that moves a row has a guard of its
own on the status it finds, and those of the `mark_*` statements leave out `skipped`. -/

namespace QueueWorkflows

/-- The operations of `node_queue` on stored rows. -/
inductive NodeQueue.Operation where
  | markCompleted (jobId : Nat) (contextDelta : Json)
  | markFailed (jobId : Nat) (error : String)
  | markAwaitingInput (jobId : Nat)
  | requeueForRetry (jobId : Nat)
  | claimCpu (claim : NodeQueue.Claim)
  | claimGpu (claim : NodeQueue.Claim) (gpu : NodeQueue.GpuClaim)
  | renewLease (jobId : Nat) (claimedBy : String) (leaseS : Int)
  | reclaimExpired
  | reclaimAllRunning (project : String)
  | requeueForWorker (hostLabel : String) (queue : Queue) (project : String)
  | prioritize (jobId : Nat)
  | cancelQueued (runId : String)
  | cancelSiblings (runId : String)
  | cancelOrphaned (project : String)
  | setInputSpec (runId nodeId : String) (spec : Option Json)
  | setResolvedInputs (jobId : Nat) (resolvedInputs : Dict)

namespace NodeQueue.Operation

/-- The store after the operation; what it returns is dropped. -/
def run : Operation → Txn Unit
  | .markCompleted jobId contextDelta =>
    (NodeQueue.markCompletedInTxn jobId contextDelta).map fun _ => ()
  | .markFailed jobId error => (NodeQueue.markFailedInTxn jobId error).map fun _ => ()
  | .markAwaitingInput jobId => (NodeQueue.markAwaitingInputInTxn jobId).map fun _ => ()
  | .requeueForRetry jobId => (NodeQueue.requeueJobForRetry jobId).map fun _ => ()
  | .claimCpu claim => (NodeQueue.claimNextCpuJob claim).map fun _ => ()
  | .claimGpu claim gpu => (NodeQueue.claimNextGpuJob claim gpu).map fun _ => ()
  | .renewLease jobId claimedBy leaseS =>
    (NodeQueue.renewLease jobId claimedBy leaseS).map fun _ => ()
  | .reclaimExpired => NodeQueue.reclaimExpiredLeases.map fun _ => ()
  | .reclaimAllRunning project => (NodeQueue.reclaimAllRunningForResume project).map fun _ => ()
  | .requeueForWorker hostLabel queue project =>
    (NodeQueue.requeueRunningForWorker hostLabel queue project).map fun _ => ()
  | .prioritize jobId => (NodeQueue.prioritizeNodeJob jobId).map fun _ => ()
  | .cancelQueued runId => NodeQueue.cancelQueuedJobsForRun runId
  | .cancelSiblings runId => NodeQueue.cancelSiblingsAfterFailure runId
  | .cancelOrphaned project => NodeQueue.cancelOrphanedQueuedJobs project
  | .setInputSpec runId nodeId spec => NodeQueue.setInputSpec runId nodeId spec
  | .setResolvedInputs jobId resolvedInputs => NodeQueue.setResolvedInputs jobId resolvedInputs

/-- A `mark_*` statement on the row of this id. -/
def marks (jobId : Nat) : Operation → Prop
  | .markCompleted id _ | .markFailed id _ | .markAwaitingInput id => id = jobId
  | _ => False

end NodeQueue.Operation

/-- The columns in which the outcome of a node is written. -/
structure SameOutcome (old new : NodeJob) : Prop where
  status : new.status = old.status
  contextDelta : new.contextDelta = old.contextDelta
  error : new.error = old.error
  finishedAt : new.finishedAt = old.finishedAt

theorem SameOutcome.refl (job : NodeJob) : SameOutcome job job := ⟨rfl, rfl, rfl, rfl⟩

theorem Txn.map_cases {α β : Type} {act : Txn α} {result : α → β} {value : β} {db after : Db}
    (done : act.map result db = .ok (value, after)) :
    ∃ found, act db = .ok (found, after) ∧ value = result found := by
  cases ran : act db with
  | error error =>
    have raised : act.map result db = .error error := by
      simp [StateT.map, ran, bind, Except.bind]
    rw [raised] at done
    cases done
  | ok found =>
    have mapped : act.map result db = .ok (result found.1, found.2) := by
      simp [StateT.map, ran, bind, Except.bind, pure, Except.pure]
    rw [mapped] at done
    cases done
    exact ⟨found.1, rfl, rfl⟩

section Rows

variable {db after : Db} {job : NodeJob} {selects : NodeJob → Bool} {change : NodeJob → NodeJob}
  {keeps : ∀ job, (change job).key = job.key}

theorem spared_of_guard (present : job ∈ db.jobs.rows)
    (rows : after.jobs.rows = db.jobs.rows.map fun job => if selects job then change job else job)
    (guarded : selects job = false) :
    ∃ now, after.job? job.id = some now ∧ SameOutcome job now := by
  have stays : job ∈ after.jobs.rows := by
    rw [rows]
    exact List.mem_map.mpr ⟨job, present, by simp [guarded]⟩
  exact ⟨job, Db.job?_of_mem stays, .refl job⟩

theorem spared_of_change (present : job ∈ db.jobs.rows)
    (rows : after.jobs.rows = db.jobs.rows.map fun job => if selects job then change job else job)
    (same : SameOutcome job (change job)) (id : (change job).id = job.id) :
    ∃ now, after.job? job.id = some now ∧ SameOutcome job now := by
  cases taken : selects job with
  | false => exact spared_of_guard present rows taken
  | true =>
    have moved : change job ∈ after.jobs.rows := by
      rw [rows]
      exact List.mem_map.mpr ⟨job, present, by simp [taken]⟩
    exact ⟨change job, id ▸ Db.job?_of_mem moved, same⟩

theorem not_running (ended : job.status.final = true) : (job.status == .running) = false := by
  cases status : job.status <;> rw [status] at ended <;> first | rfl | cases ended

theorem not_queued (ended : job.status.final = true) : (job.status == .queued) = false := by
  cases status : job.status <;> rw [status] at ended <;> first | rfl | cases ended

/-- A claim takes a queued row. -/
theorem spared_of_claim {claim : NodeQueue.Claim} {queue : Queue} {capability : NodeJob → Bool}
    {rank : NodeJob → List Int} {result : Option NodeJob} (present : job ∈ db.jobs.rows)
    (ended : job.status.final = true)
    (done : NodeQueue.claimNext claim queue capability rank db = .ok (result, after)) :
    ∃ now, after.job? job.id = some now ∧ SameOutcome job now := by
  unfold NodeQueue.claimNext at done
  split at done
  · cases done
    exact ⟨job, Db.job?_of_mem present, .refl job⟩
  · rename_i chosen first
    obtain ⟨candidate, claimable⟩ := List.mem_filter.mp (NodeQueue.firstBy_mem first)
    cases done
    refine spared_of_guard present rfl ?_
    cases same : job.id == chosen.id with
    | false => rfl
    | true =>
      rw [Db.eq_of_id candidate present (beq_iff_eq.mp same).symm] at claimable
      simp [NodeQueue.claimable, not_queued ended] at claimable

/-- A `mark_*` statement takes a skipped row, and no other row that is over. -/
theorem mark_row {jobId : Nat} {result : Option NodeJob} (present : job ∈ db.jobs.rows)
    (ended : job.status.final = true) (moves : (change job).status ≠ .skipped)
    (done : NodeQueue.mark jobId change keeps db = .ok (result, after)) :
    (∃ now, after.job? job.id = some now ∧ SameOutcome job now) ↔
      ¬ (jobId = job.id ∧ job.status = .skipped) := by
  have rows : after.jobs.rows = db.jobs.rows.map fun row =>
      if row.id == jobId && !row.status.closed then change row else row := by
    cases done
    rfl
  constructor
  · rintro ⟨now, found, spared⟩ ⟨rfl, skipped⟩
    have moved : change job ∈ after.jobs.rows := by
      rw [rows]
      exact List.mem_map.mpr ⟨job, present, by simp [skipped, JobStatus.closed]⟩
    have same : (change job).id = job.id := congrArg Prod.fst (keeps job)
    rw [← same, Db.job?_of_mem moved] at found
    cases found
    exact moves (spared.status.trans skipped)
  · intro apart
    refine spared_of_guard present rows ?_
    by_cases mine : job.id = jobId
    · have other : job.status ≠ .skipped := fun skipped => apart ⟨mine.symm, skipped⟩
      have closed : job.status.closed = true := by simpa [JobStatus.final, other] using ended
      simp [closed]
    · simp [mine]

end Rows

/-- **Terminal absorption.** A row that is over keeps its outcome through an operation, unless
it is a skip marker and the operation a `mark_*` statement on it. -/
theorem outcome_kept_iff {operation : NodeQueue.Operation} {db after : Db} {job : NodeJob}
    (present : job ∈ db.jobs.rows) (ended : job.status.final = true)
    (done : operation.run db = .ok ((), after)) :
    (∃ now, after.job? job.id = some now ∧ SameOutcome job now) ↔
      ¬ (operation.marks job.id ∧ job.status = .skipped) := by
  have spared (kept : ∃ now, after.job? job.id = some now ∧ SameOutcome job now)
      (unmarked : ¬ operation.marks job.id) :
      (∃ now, after.job? job.id = some now ∧ SameOutcome job now) ↔
        ¬ (operation.marks job.id ∧ job.status = .skipped) := by
    simp [kept, unmarked]
  cases operation with
  | markCompleted jobId contextDelta =>
    cases done
    exact mark_row present ended (by simp) rfl
  | markFailed jobId error =>
    cases done
    exact mark_row present ended (by simp) rfl
  | markAwaitingInput jobId =>
    cases done
    exact mark_row present ended (by simp) rfl
  | claimCpu claim =>
    dsimp only [NodeQueue.Operation.run] at done
    obtain ⟨result, claimed, -⟩ := Txn.map_cases done
    exact spared (spared_of_claim present ended claimed) id
  | claimGpu claim gpu =>
    dsimp only [NodeQueue.Operation.run] at done
    obtain ⟨result, claimed, -⟩ := Txn.map_cases done
    exact spared (spared_of_claim present ended claimed) id
  | setInputSpec runId nodeId spec =>
    cases done
    exact spared (spared_of_change present rfl ⟨rfl, rfl, rfl, rfl⟩ rfl) id
  | setResolvedInputs jobId resolvedInputs =>
    cases done
    exact spared (spared_of_change present rfl ⟨rfl, rfl, rfl, rfl⟩ rfl) id
  | prioritize jobId =>
    cases done
    exact spared (spared_of_change present rfl ⟨rfl, rfl, rfl, rfl⟩ rfl) id
  | renewLease jobId claimedBy leaseS =>
    cases done
    exact spared (spared_of_change present rfl ⟨rfl, rfl, rfl, rfl⟩ rfl) id
  | requeueForRetry | reclaimExpired | reclaimAllRunning | requeueForWorker =>
    cases done
    exact spared (spared_of_guard present rfl (by simp [not_running ended])) id
  | cancelQueued | cancelSiblings | cancelOrphaned =>
    cases done
    exact spared (spared_of_guard present rfl (by simp [not_queued ended])) id

/-! ### A skip marker -/

def Sample.marker : NodeJob where
  id := 0
  runId := "r"
  nodeId := "right/n"
  nodeModule := ""
  queue := .cpu
  status := .skipped
  createdAt := 0
  finishedAt := some 0

/-- The store of a run whose one row is a skip marker. -/
def Sample.marked : Db :=
  ((NodeQueue.insertSkippedJob "r" "right/n" none "").run
    (Sample.after [.insertRun Sample.run]).store).toOption.elim Db.empty Prod.snd

theorem marked_rows : Sample.marked.jobs.rows = [Sample.marker] := rfl

/-- `mark_completed` on a skip marker makes it a completed row. -/
theorem skip_marker_completed : ¬ ∀ (operation : NodeQueue.Operation) (db after : Db) (job : NodeJob),
    job ∈ db.jobs.rows → job.status.final = true → operation.run db = .ok ((), after) →
      ∃ now, after.job? job.id = some now ∧ SameOutcome job now := by
  intro absorbed
  have present : Sample.marker ∈ Sample.marked.jobs.rows := by simp [marked_rows]
  obtain ⟨now, found, same⟩ :=
    absorbed (.markCompleted 0 (.obj [("k", .str "v")])) Sample.marked _ Sample.marker present rfl rfl
  cases found
  cases same.status

/-- `requeue_job_for_retry` leaves it alone. -/
theorem skip_marker_kept : ∃ now, Sample.marked.job? 0 = some now ∧
    SameOutcome Sample.marker now := by
  have present : Sample.marker ∈ Sample.marked.jobs.rows := by simp [marked_rows]
  have done : (NodeQueue.Operation.requeueForRetry 0).run Sample.marked = .ok ((), Sample.marked) := rfl
  exact (outcome_kept_iff present rfl done).mpr fun marked => marked.1

end QueueWorkflows
