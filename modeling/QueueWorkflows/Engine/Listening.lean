import QueueWorkflows.Base.Wakes
import QueueWorkflows.Engine.Capacity

/-! The claim loops between two jobs. The trigger on `workflow_node_jobs` notifies the channel of
every row that becomes `queued`; a loop claims until the queue has nothing for it, and then sleeps
on the channel. -/

namespace QueueWorkflows.Listening

open NodeQueue (Claim claimNext)
open Transaction (Reach)
open Wakes (Look Loop World Rested)

/-- A claim loop: that of a CPU worker, or of one of the two lanes of a GPU worker. -/
inductive Lane where
  | cpu (claim : Claim)
  | inline (worker : GpuWorker) (registry : ModelRegistry)
  | pool (worker : GpuWorker) (registry : ModelRegistry)

/-- `_claim` and `_claim_pool`. -/
def Lane.claim : Lane → List Nat → Txn (Option NodeJob)
  | .cpu claim, locked => NodeQueue.claimNextCpuJob { claim with locked := locked }
  | .inline worker registry, locked => worker.claim registry locked
  | .pool worker registry, locked => worker.claimPool registry locked

/-- A row that a statement inserts as queued, or whose status it sets to `queued`. -/
def becomesReady (db : Db) (job : NodeJob) : Bool :=
  job.status == .queued && !db.jobs.rows.any fun old => old.id == job.id && old.status == .queued

/-- `notify_node_job_ready` need not fire. -/
def quiet (db after : Db) : Bool :=
  !after.jobs.rows.any (becomesReady db)

/-- One round of the loop. It passes where the lanes are full, where the pool defers to another
machine, and where the claim raises, which is logged. -/
def runOnce (lane : Lane) (locked : Option (List Nat)) (db : Db) : Look Db :=
  match locked with
  | none => .passed
  | some locked =>
    match lane.claim locked db with
    | .ok (some _, after) => .found after
    | .ok (none, _) => .nothing
    | .error _ => .passed

def LISTEN_RECONNECT_BASE_S : ℚ := 1

def LISTEN_RECONNECT_MAX_S : ℚ := 30

/-- The loop under `listen_with_reconnect`. -/
def claimLoop (lane : Lane) : Loop Db (Option (List Nat)) where
  quiet := quiet
  look := runOnce lane
  looksFirst := true
  returns := false
  base := LISTEN_RECONNECT_BASE_S
  cap := LISTEN_RECONNECT_MAX_S

/-! ### What the trigger tells -/

section Trigger

variable {db after : Db} {job : NodeJob}

/-- The row was queued under this id. -/
def WasQueued (db : Db) (jobId : Nat) : Prop :=
  ∃ old ∈ db.jobs.rows, old.id = jobId ∧ old.status = .queued

/-- What is queued now was so before. -/
def Known (before db : Db) : Prop :=
  ∀ jobId, WasQueued db jobId → WasQueued before jobId

theorem becomesReady_iff :
    becomesReady db job = true ↔ job.status = .queued ∧ ¬ WasQueued db job.id := by
  simp [becomesReady, WasQueued]

theorem wasQueued_of_quiet (silent : quiet db after = true) {jobId : Nat}
    (queued : WasQueued after jobId) : WasQueued db jobId := by
  obtain ⟨job, present, rfl, waits⟩ := queued
  by_contra fresh
  have loud : after.jobs.rows.any (becomesReady db) = true :=
    List.any_eq_true.mpr ⟨job, present, becomesReady_iff.mpr ⟨waits, fresh⟩⟩
  rw [quiet, loud] at silent
  cases silent

end Trigger

/-! ### What a claim that returns nothing has seen -/

section Claims

variable {lane : Lane} {claim : Claim} {queue : Queue} {capability : NodeJob → Bool}
  {rank : NodeJob → List Int} {db after : Db} {job : NodeJob} {locked : List Nat}

/-- A claim is a gate in front of one statement. -/
theorem claim_shape (lane : Lane) :
    ∃ (barred : Bool) (claim : Claim) (queue : Queue) (capability : NodeJob → Bool)
      (rank : NodeJob → List Int), ∀ locked, lane.claim locked =
        if barred then pure none
        else claimNext { claim with locked := locked } queue capability rank := by
  cases lane with
  | cpu claim =>
    exact ⟨false, claim, .cpu, fun _ => true, fun job => [NodeQueue.priorityRank job, job.priority,
      job.createdAt * NodeQueue.hostDir claim.hostPriority], fun locked => rfl⟩
  | inline worker registry =>
    exact ⟨worker.barred registry, worker.claimArgs [], .gpu,
      NodeQueue.gpuCapability (worker.inlineFilter registry), fun job =>
        [NodeQueue.priorityRank job, if job.requiredModel = worker.currentModel then 0 else 1,
          job.priority, job.createdAt * NodeQueue.hostDir worker.hostPriority],
      claim_eq worker registry⟩
  | pool worker registry =>
    exact ⟨false, worker.claimArgs [], .gpu,
      NodeQueue.gpuCapability {
        currentModel := none, knownModels := registry.knownIds, requireModel := some false
        poolModules := worker.vlmPoolNodeModules }, fun job =>
        [NodeQueue.priorityRank job, if job.requiredModel = none then 0 else 1,
          job.priority, job.createdAt * NodeQueue.hostDir worker.hostPriority],
      fun locked => rfl⟩

theorem claimable_unlocked :
    NodeQueue.claimable { claim with locked := locked } queue capability db job = true ↔
      NodeQueue.claimable { claim with locked := [] } queue capability db job = true ∧
        job.id ∉ locked := by
  simp [NodeQueue.claimable]

/-- A statement that returns no row has no candidate. -/
theorem not_claimable_of_none (empty : claimNext claim queue capability rank db = .ok (none, after))
    (present : job ∈ db.jobs.rows) :
    NodeQueue.claimable claim queue capability db job = false := by
  by_contra open'
  have able : NodeQueue.claimable claim queue capability db job = true := by simpa using open'
  have candidate : job ∈ db.jobs.rows.filter (NodeQueue.claimable claim queue capability db) :=
    List.mem_filter.mpr ⟨present, able⟩
  have some : (NodeQueue.firstBy rank (db.jobs.rows.filter
      (NodeQueue.claimable claim queue capability db))).isSome = true :=
    NodeQueue.firstBy_isSome (List.ne_nil_of_mem candidate)
  obtain ⟨chosen, first⟩ := Option.isSome_iff_exists.mp some
  have listed := (List.mem_filter.mp (NodeQueue.firstBy_mem first)).1
  unfold claimNext at empty
  rw [first] at empty
  have head := (Prod.mk.inj (Except.ok.inj empty)).1
  have none := List.head?_eq_none_iff.mp head
  rw [List.map_eq_nil_iff, List.filter_eq_nil_iff] at none
  exact none chosen listed (by simp)

/-- What a claim has not returned it cannot return, unless the row was locked. -/
theorem passed_over (empty : lane.claim locked db = .ok (none, after)) {jobId : Nat}
    (free : jobId ∉ locked) : ¬ Takes lane.claim jobId db := by
  obtain ⟨barred, claim, queue, capability, rank, shape⟩ := claim_shape lane
  rintro ⟨held, row, reached, claimed, rfl⟩
  rw [shape] at claimed empty
  cases barred with
  | true => cases claimed
  | false =>
    obtain ⟨chosen, present, able, rfl, -⟩ := NodeQueue.claimNext_cases claimed
    have here := claimable_unlocked.mpr ⟨(claimable_unlocked.mp able).1, free⟩
    rw [not_claimable_of_none empty present] at here
    cases here

end Claims

/-! ### No wake is lost -/

section Loops

variable {lane : Lane} {first seen : Db} {world : World Db (Option (List Nat))}

theorem runOnce_nothing {locked : List Nat} (empty : runOnce lane (some locked) seen = .nothing) :
    ∃ after, lane.claim locked seen = .ok (none, after) := by
  unfold runOnce at empty
  cases outcome : lane.claim locked seen with
  | error error => simp [outcome] at empty
  | ok result =>
    obtain ⟨row, after⟩ := result
    cases row with
    | some row => simp [outcome] at empty
    | none => exact ⟨after, rfl⟩

/-- **No lost wake-up.** Others write whatever they like and connections break at any time. When
a claim loop sleeps after a claim that returned nothing, and no notice is pending, every job that
is queued was queued at that claim already, and it was locked then or could not be claimed. -/
theorem no_lost_wake_up {locked : List Nat}
    (reached : Reach (Wakes.step (claimLoop lane)) Wakes.anything
      (Wakes.start (claimLoop lane) first) world)
    (asleep : world.place = .blocked 0 (some (some locked, seen))) :
    ∀ job ∈ world.store.jobs.rows, job.status = .queued →
      WasQueued seen job.id ∧ (job.id ∈ locked ∨ ¬ Takes lane.claim job.id seen) := by
  intro job present waits
  constructor
  · have known : Known seen world.store := by
      apply Wakes.kept _ reached asleep
      · exact fun _ queued => queued
      · intro before after silent known jobId queued
        exact known jobId (wasQueued_of_quiet silent queued)
    exact known job.id ⟨job, present, rfl, waits⟩
  · obtain ⟨after, empty⟩ := runOnce_nothing (Wakes.rested reached _ _ asleep).1
    by_cases listed : job.id ∈ locked
    · exact .inl listed
    · exact .inr (passed_over empty listed)

/-- However often the database goes away, the loop is on its way back to it. -/
theorem reconnects_paced
    (reached : Reach (Wakes.step (claimLoop lane)) Wakes.anything
      (Wakes.start (claimLoop lane) first) world) :
    world.slept = (List.range world.slept.length).map fun n => min (2 ^ n) LISTEN_RECONNECT_MAX_S := by
  have nonneg : 0 ≤ LISTEN_RECONNECT_MAX_S := by decide
  have bounded : LISTEN_RECONNECT_BASE_S ≤ LISTEN_RECONNECT_MAX_S := by decide
  have paced := (Wakes.paced nonneg bounded reached).slept
  simpa [claimLoop, LISTEN_RECONNECT_BASE_S] using paced

end Loops

/-! ### Samples -/

def Sample.pool : Lane := .pool Sample.smallBox Sample.bigOnly

/-- The connection breaks before the loop has looked at all. It sleeps after a claim that has
passed over the only job, which was locked, and the run's row is written meanwhile. -/
def Sample.passes : List (Wakes.Label Db (Option (List Nat))) :=
  [.connect, .fail, .commit (Sample.waitingQueue "" "vlm" none) 1, .retry, .connect,
    .look (some [0]), .commit (Sample.waitingQueue "" "vlm" none) 0]

/-- The loop sleeps with no notice pending. -/
def Sample.slept : World Db (Option (List Nat)) :=
  (Transaction.follow (Wakes.step (claimLoop Sample.pool)) Wakes.anything
    (Wakes.start (claimLoop Sample.pool) Db.empty) Sample.passes).getD
      (Wakes.start (claimLoop Sample.pool) Db.empty)

theorem locked_job_slept_over :
    Sample.slept.place = .blocked 0 (some (some [0], Sample.waitingQueue "" "vlm" none)) ∧
      ∀ job ∈ Sample.slept.store.jobs.rows, job.status = .queued →
        WasQueued (Sample.waitingQueue "" "vlm" none) job.id ∧
          (job.id ∈ [0] ∨ ¬ Takes Sample.pool.claim job.id (Sample.waitingQueue "" "vlm" none)) :=
  ⟨rfl, no_lost_wake_up (Reach.follow_getD Sample.passes rfl) rfl⟩

end QueueWorkflows.Listening
