import Mathlib.Algebra.Order.Ring.Rat
import Mathlib.Data.Fintype.EquivFin
import Mathlib.Data.List.Sort
import Mathlib.Data.String.Basic
import Mathlib.Tactic.Linarith
import QueueWorkflows.Engine.NodeQueue

/-! What a GPU worker may claim. Two lanes share one machine: the inline lane runs the
warm-model jobs one at a time, the pool lane the jobs without a model. The registry of
models and the machine's VRAM decide which models fit. -/

namespace QueueWorkflows

/-- The id and the VRAM estimate of a registered model; its loaders are not read by a claim. -/
structure ModelSpec where
  id : String
  estVramGb : ℚ := 0

/-- `MODELS`: one entry an id. -/
structure ModelRegistry where
  specs : List ModelSpec
  distinct : (specs.map ModelSpec.id).Nodup

namespace ModelRegistry

/-- `register`: replaces the entry of the id. -/
def register (registry : ModelRegistry) (spec : ModelSpec) : ModelRegistry where
  specs := registry.specs.filter (·.id != spec.id) ++ [spec]
  distinct := by
    rw [List.map_append]
    have others := registry.distinct.sublist
      (List.filter_sublist (p := fun other => other.id != spec.id).map ModelSpec.id)
    refine List.Nodup.append others (by simp) ?_
    intro id old new
    obtain ⟨other, kept, rfl⟩ := List.mem_map.mp old
    have apart := (List.mem_filter.mp kept).2
    simp only [List.map_cons, List.map_nil, List.mem_singleton] at new
    simp [new] at apart

def knownIds (registry : ModelRegistry) : List String :=
  (registry.specs.map ModelSpec.id).insertionSort (· ≤ ·)

/-- The estimate in MB, with its margin, is no more than the machine has. An estimate that
is not positive claims nothing. -/
def fits (vramTotalMb : Nat) (headroom : ℚ) (spec : ModelSpec) : Bool :=
  decide (spec.estVramGb ≤ 0) || decide (spec.estVramGb * 1024 * max 1 headroom ≤ vramTotalMb)

def fitsWithin (registry : ModelRegistry) (vramTotalMb : Option Nat) (headroom : ℚ := 1) :
    List String :=
  match vramTotalMb with
  | none => registry.knownIds
  | some cap => ((registry.specs.filter (fits cap headroom)).map ModelSpec.id).insertionSort (· ≤ ·)

end ModelRegistry

/-- The machine of a GPU worker, with its VRAM as probed, and how it was configured. -/
structure GpuWorker where
  host : String
  project : String := ""
  leaseS : Int := 600
  hostPriority : Int := 0
  vramTotalMb : Option Nat := none
  currentModel : Option String := none
  vlmPoolNodeModules : List String := []

namespace GpuWorker

/-- `_gpu_capacity_for_claim`. -/
def gpuCapacityForClaim (worker : GpuWorker) (registry : ModelRegistry) :
    Option Nat × List String × Bool :=
  let known := registry.knownIds
  let fits := (registry.fitsWithin worker.vramTotalMb).filter known.contains
  (worker.vramTotalMb, fits, !known.isEmpty)

/-- `locked` are the rows other transactions hold. -/
def claimArgs (worker : GpuWorker) (locked : List Nat) : NodeQueue.Claim where
  host := worker.host
  leaseS := worker.leaseS
  hostPriority := worker.hostPriority
  project := worker.project
  locked := locked

/-- `_claim` on the GPU queue. -/
def claim (worker : GpuWorker) (registry : ModelRegistry) (locked : List Nat) :
    Txn (Option NodeJob) :=
  let (vramTotal, fits, hasModels) := worker.gpuCapacityForClaim registry
  -- The machine can run no registered model: an empty list would let it claim any.
  if hasModels && vramTotal.isSome && fits.isEmpty then pure none
  else NodeQueue.claimNextGpuJob (worker.claimArgs locked) {
    currentModel := worker.currentModel, knownModels := fits, requireModel := some true
    poolModules := worker.vlmPoolNodeModules }

/-- `_claim_pool`. -/
def claimPool (worker : GpuWorker) (registry : ModelRegistry) (locked : List Nat) :
    Txn (Option NodeJob) :=
  NodeQueue.claimNextGpuJob (worker.claimArgs locked) {
    currentModel := none, knownModels := registry.knownIds, requireModel := some false
    poolModules := worker.vlmPoolNodeModules }

end GpuWorker

/-! ### What a claim can return -/

/-- The claim returns this row, whichever rows others hold at that moment. -/
def Takes (lane : List Nat → Txn (Option NodeJob)) (jobId : Nat) (db : Db) : Prop :=
  ∃ locked row after, lane locked db = .ok (some row, after) ∧ row.id = jobId

namespace NodeQueue

variable {claim : Claim} {queue : Queue} {capability : NodeJob → Bool} {rank : NodeJob → List Int}
  {db : Db} {job : NodeJob}

/-- The only claimable row is the one that is claimed. -/
theorem claimNext_only (member : job ∈ db.jobs.rows)
    (claimable : claimable claim queue capability db job = true)
    (only : ∀ other ∈ db.jobs.rows, NodeQueue.claimable claim queue capability db other = true →
      other.id = job.id) :
    ∃ row after, claimNext claim queue capability rank db = .ok (some row, after) ∧
      row.id = job.id := by
  have candidate : job ∈ db.jobs.rows.filter (NodeQueue.claimable claim queue capability db) :=
    List.mem_filter.mpr ⟨member, claimable⟩
  have found : (firstBy rank _).isSome = true := firstBy_isSome (List.ne_nil_of_mem candidate)
  obtain ⟨chosen, first⟩ := Option.isSome_iff_exists.mp found
  obtain ⟨present, fits⟩ := List.mem_filter.mp (firstBy_mem first)
  have listed : taken claim db.clock chosen ∈
      (db.jobs.rows.filter (·.id == chosen.id)).map (taken claim db.clock) :=
    List.mem_map_of_mem (List.mem_filter.mpr ⟨present, by simp⟩)
  obtain ⟨row, head⟩ := Option.isSome_iff_exists.mp
    (List.isSome_head?.mpr (List.ne_nil_of_mem listed))
  refine ⟨row, { db with
    jobs := db.jobs.update (·.id == chosen.id) (taken claim db.clock) (by intro; rfl) }, ?_, ?_⟩
  · unfold claimNext
    rw [first, ← head]
    rfl
  · obtain ⟨source, selected, rfl⟩ := List.mem_map.mp (List.mem_of_mem_head? head)
    have same : source.id = chosen.id := by simpa using (List.mem_filter.mp selected).2
    exact same.trans (only chosen present fits)

end NodeQueue

section Lanes

variable {worker : GpuWorker} {registry : ModelRegistry} {db : Db} {job : NodeJob}

/-- A queued row of the worker's project, on the GPU queue, whose run goes on. -/
structure Waiting (worker : GpuWorker) (db : Db) (job : NodeJob) : Prop where
  member : job ∈ db.jobs.rows
  queue : job.queue = .gpu
  queued : job.status = .queued
  project : job.project = worker.project
  parent : ∃ run, db.run? job.runId = some run ∧ run.status.terminal = false

theorem Waiting.parentClaimable (waiting : Waiting worker db job) :
    NodeQueue.parentClaimable db job = true := by
  obtain ⟨run, found, goesOn⟩ := waiting.parent
  unfold NodeQueue.parentClaimable
  have claimable : run.status.halted ≠ true := by
    intro halted
    rw [RunStatus.terminal_of_halted halted] at goesOn
    cases goesOn
  simp [found, claimable]

/-- A GPU claim can return a waiting row exactly when the row passes its filter. -/
theorem takes_claimNextGpuJob {gpu : NodeQueue.GpuClaim} (waiting : Waiting worker db job) :
    Takes (fun locked => NodeQueue.claimNextGpuJob (worker.claimArgs locked) gpu) job.id db ↔
      NodeQueue.gpuCapability gpu job = true := by
  constructor
  · rintro ⟨locked, row, after, claimed, same⟩
    obtain ⟨chosen, member, claimable, rfl, -⟩ := NodeQueue.claimNext_cases claimed
    have mine : chosen = job := Db.eq_of_id member waiting.member same
    subst mine
    simp only [NodeQueue.claimable, Bool.and_eq_true] at claimable
    exact claimable.1.2
  · intro capable
    -- Every other row is held by someone else.
    let locked := (db.jobs.rows.map NodeJob.id).filter (· != job.id)
    have claimable : NodeQueue.claimable (worker.claimArgs locked) .gpu
        (NodeQueue.gpuCapability gpu) db job = true := by
      have free : job.id ∉ locked := by simp [locked]
      simp [NodeQueue.claimable, GpuWorker.claimArgs, waiting.queue, waiting.queued,
        waiting.project, waiting.parentClaimable, capable, free]
    obtain ⟨row, after, claimed, same⟩ := NodeQueue.claimNext_only waiting.member claimable
      (by
        intro other member fits
        by_contra apart
        have held : other.id ∈ locked :=
          List.mem_filter.mpr ⟨List.mem_map_of_mem member, by simpa using apart⟩
        simp [NodeQueue.claimable, GpuWorker.claimArgs, held] at fits)
    exact ⟨locked, row, after, claimed, same⟩

/-! ### Samples -/

namespace Sample

/-- A queue with one job. -/
def waitingJob (project nodeModule : String) (model : Option String) : NodeJob where
  id := 0
  runId := "r"
  nodeId := "n"
  nodeModule := nodeModule
  queue := .gpu
  requiredModel := model
  status := .queued
  project := project
  createdAt := 0

def waitingQueue (project nodeModule : String) (model : Option String) : Db :=
  { Db.empty with
    runs := ⟨[{ id := "r", workflowName := "w", status := .running, project := project }], by simp⟩
    jobs := ⟨[waitingJob project nodeModule model], by simp⟩ }

/-- A machine with 8 GB. -/
def smallBox : GpuWorker where
  host := "small"
  vramTotalMb := some 8192
  vlmPoolNodeModules := ["vlm"]

def flux : ModelSpec where
  id := "flux"
  estVramGb := 24

/-- One model is registered. -/
def bigOnly : ModelRegistry := ⟨[flux], by simp⟩

/-- A model without a name, and one with. -/
def nameless : ModelRegistry := ⟨[{ id := "" }, flux], by simp [flux]⟩

end Sample

theorem waiting_waitingJob (worker : GpuWorker) (nodeModule : String) (model : Option String) :
    Waiting worker (Sample.waitingQueue worker.project nodeModule model)
      (Sample.waitingJob worker.project nodeModule model) := by
  refine ⟨List.mem_singleton_self _, rfl, rfl, rfl, ?_⟩
  exact ⟨{ id := "r", workflowName := "w", status := .running, project := worker.project }, rfl, rfl⟩

/-! ### The lanes -/

/-- The capacity gate of the inline lane: models are registered, the VRAM is known and
nothing fits. -/
def GpuWorker.barred (worker : GpuWorker) (registry : ModelRegistry) : Bool :=
  !registry.knownIds.isEmpty && worker.vramTotalMb.isSome &&
    (worker.gpuCapacityForClaim registry).2.1.isEmpty

/-- The models that fit the machine, as the worker advertises them. -/
def GpuWorker.fitting (worker : GpuWorker) (registry : ModelRegistry) : List String :=
  (worker.gpuCapacityForClaim registry).2.1

/-- The module is named among the pool's, so that the pool lane runs it. -/
def GpuWorker.pools (worker : GpuWorker) (job : NodeJob) : Bool :=
  let pool := worker.vlmPoolNodeModules.filter (· != "")
  pool.isEmpty || pool.contains job.nodeModule

/-- The inline lane's filter. -/
def GpuWorker.inlineFilter (worker : GpuWorker) (registry : ModelRegistry) : NodeQueue.GpuClaim where
  currentModel := worker.currentModel
  knownModels := worker.fitting registry
  requireModel := some true
  poolModules := worker.vlmPoolNodeModules

theorem claim_eq (worker : GpuWorker) (registry : ModelRegistry) (locked : List Nat) :
    worker.claim registry locked =
      if worker.barred registry then pure none
      else NodeQueue.claimNextGpuJob (worker.claimArgs locked) (worker.inlineFilter registry) :=
  rfl

theorem claim_cases {locked : List Nat} {row : NodeJob} {after : Db}
    (claimed : worker.claim registry locked db = .ok (some row, after)) :
    worker.barred registry = false ∧
      NodeQueue.claimNextGpuJob (worker.claimArgs locked) (worker.inlineFilter registry) db =
        .ok (some row, after) := by
  rw [claim_eq] at claimed
  cases gate : worker.barred registry with
  | true =>
    rw [gate] at claimed
    cases claimed
  | false =>
    rw [gate] at claimed
    exact ⟨rfl, claimed⟩

theorem takes_claim (waiting : Waiting worker db job) :
    Takes (worker.claim registry) job.id db ↔
      worker.barred registry = false ∧
        NodeQueue.gpuCapability (worker.inlineFilter registry) job = true := by
  rw [← takes_claimNextGpuJob waiting]
  constructor
  · rintro ⟨locked, row, after, claimed, same⟩
    obtain ⟨passes, claimed⟩ := claim_cases claimed
    exact ⟨passes, locked, row, after, claimed, same⟩
  · rintro ⟨passes, locked, row, after, claimed, same⟩
    refine ⟨locked, row, after, ?_, same⟩
    rw [claim_eq, passes]
    exact claimed

theorem gpuCapability_none (none : job.requiredModel = none) :
    NodeQueue.gpuCapability (worker.inlineFilter registry) job = !worker.pools job := by
  simp [NodeQueue.gpuCapability, GpuWorker.inlineFilter, GpuWorker.pools, none]

theorem gpuCapability_some {model : String} (needs : job.requiredModel = some model) :
    NodeQueue.gpuCapability (worker.inlineFilter registry) job = true ↔
      (∀ other ∈ worker.fitting registry, other = "") ∨
        model ∈ worker.fitting registry ∧ model ≠ "" := by
  simp [NodeQueue.gpuCapability, GpuWorker.inlineFilter, needs]

theorem takes_claimPool (waiting : Waiting worker db job) :
    Takes (worker.claimPool registry) job.id db ↔
      job.requiredModel = none ∧ worker.pools job = true := by
  refine (takes_claimNextGpuJob waiting).trans ?_
  cases needs : job.requiredModel with
  | none => simp [NodeQueue.gpuCapability, GpuWorker.pools, needs]
  | some model => simp [NodeQueue.gpuCapability, needs]

/-- Where the lanes divide a job's claims between them: a job without a model is the
pool's, or the gate leaves the inline lane open; and the id of a job's model is a text
that the claim does not drop from its list. -/
def Laned (worker : GpuWorker) (registry : ModelRegistry) (job : NodeJob) : Prop :=
  (job.requiredModel = none → worker.barred registry = true → worker.pools job = true) ∧
    (job.requiredModel = some "" → ∀ model ∈ worker.fitting registry, model = "")

/-- Exactly one lane can return a job the machine can run. -/
theorem one_lane_iff (waiting : Waiting worker db job)
    (runs : ∀ model, job.requiredModel = some model → model ∈ worker.fitting registry) :
    Xor (Takes (worker.claim registry) job.id db) (Takes (worker.claimPool registry) job.id db) ↔
      Laned worker registry job := by
  rw [takes_claim waiting, takes_claimPool waiting]
  cases needs : job.requiredModel with
  | none =>
    rw [gpuCapability_none needs]
    cases barred : worker.barred registry <;> cases pooled : worker.pools job <;>
      simp [Laned, Xor, needs, barred, pooled]
  | some model =>
    have fits := runs model needs
    have passes : worker.barred registry = false := by
      have some : (worker.gpuCapacityForClaim registry).2.1.isEmpty = false :=
        List.isEmpty_eq_false_iff.mpr (List.ne_nil_of_mem fits)
      simp [GpuWorker.barred, some]
    rw [gpuCapability_some needs]
    constructor
    · rintro (⟨⟨-, inline⟩, -⟩ | ⟨⟨pooled, -⟩, -⟩)
      · refine ⟨fun none => ?_, fun empty => ?_⟩
        · rw [needs] at none
          cases none
        · rcases inline with only | ⟨-, named⟩
          · exact only
          · rw [needs] at empty
            exact absurd (Option.some.inj empty) named
      · cases pooled
    · rintro ⟨-, only⟩
      refine .inl ⟨⟨passes, ?_⟩, fun pooled => nomatch pooled.1⟩
      by_cases empty : model = ""
      · exact .inl (only (empty ▸ needs))
      · exact .inr ⟨fits, empty⟩

/-! ### What fits -/

theorem mem_fitting {vram : Nat} (known : worker.vramTotalMb = some vram) {model : String} :
    model ∈ worker.fitting registry ↔
      ∃ spec ∈ registry.specs, spec.id = model ∧ spec.estVramGb * 1024 ≤ vram := by
  have enough : ∀ spec : ModelSpec,
      ModelRegistry.fits vram 1 spec = true ↔ spec.estVramGb * 1024 ≤ vram := by
    intro spec
    have some : (0 : ℚ) ≤ vram := Nat.cast_nonneg vram
    simp only [ModelRegistry.fits, max_self, mul_one, Bool.or_eq_true, decide_eq_true_eq]
    constructor
    · rintro (unset | fits)
      · linarith
      · exact fits
    · exact .inr
  simp only [GpuWorker.fitting, GpuWorker.gpuCapacityForClaim, ModelRegistry.fitsWithin, known,
    List.mem_filter, List.mem_insertionSort, List.mem_map, enough, List.contains_iff_mem,
    ModelRegistry.knownIds]
  constructor
  · rintro ⟨⟨spec, ⟨member, fits⟩, rfl⟩, -⟩
    exact ⟨spec, member, rfl, fits⟩
  · rintro ⟨spec, member, rfl, fits⟩
    exact ⟨⟨spec, ⟨member, fits⟩, rfl⟩, spec, member, rfl⟩

/-- The row a lane returns passed the lane's filter. -/
theorem claimed_capable {gpu : NodeQueue.GpuClaim} {locked : List Nat} {row : NodeJob} {after : Db}
    (claimed : NodeQueue.claimNextGpuJob (worker.claimArgs locked) gpu db =
      .ok (some row, after)) : NodeQueue.gpuCapability gpu row = true := by
  obtain ⟨chosen, -, claimable, rfl, -⟩ := NodeQueue.claimNext_cases claimed
  simp only [NodeQueue.claimable, Bool.and_eq_true] at claimable
  exact claimable.1.2

/-- A machine of known VRAM whose registry is populated claims no job, in either lane, that
needs a model it does not hold: exactly when nothing fits it or a model with a name does.
An empty name is dropped from the list of the claim, and an empty list there claims any. -/
theorem capacity_respected_iff {vram : Nat} (known : worker.vramTotalMb = some vram)
    (populated : registry.specs ≠ []) :
    (∀ db locked row after, worker.claim registry locked db = .ok (some row, after) ∨
        worker.claimPool registry locked db = .ok (some row, after) →
      ∀ model, row.requiredModel = some model →
        ∃ spec ∈ registry.specs, spec.id = model ∧ spec.estVramGb * 1024 ≤ vram) ↔
      (worker.fitting registry = [] ∨ ∃ model ∈ worker.fitting registry, model ≠ "") := by
  have full : registry.knownIds.isEmpty = false := by
    obtain ⟨spec, member⟩ := List.exists_mem_of_ne_nil _ populated
    refine List.isEmpty_eq_false_iff.mpr (List.ne_nil_of_mem (a := spec.id) ?_)
    exact (List.mem_insertionSort _).mpr (List.mem_map_of_mem member)
  constructor
  · intro safe
    by_contra only
    push Not at only
    obtain ⟨nonempty, only⟩ := only
    -- Nothing restricts the claim: it takes a job whose model is not even registered.
    obtain ⟨model, unregistered⟩ :=
      Infinite.exists_notMem_finset (registry.specs.map ModelSpec.id).toFinset
    have waiting := waiting_waitingJob worker "m" (some model)
    have passes : worker.barred registry = false := by
      have fits : (worker.gpuCapacityForClaim registry).2.1.isEmpty = false :=
        List.isEmpty_eq_false_iff.mpr nonempty
      simp [GpuWorker.barred, fits]
    obtain ⟨locked, row, after, claimed, -⟩ := (takes_claim waiting).mpr
      ⟨passes, (gpuCapability_some rfl).mpr (.inl only)⟩
    obtain ⟨chosen, member, -, rfl, -⟩ := NodeQueue.claimNext_cases (claim_cases claimed).2
    rw [List.mem_singleton.mp member] at claimed
    obtain ⟨spec, listed, rfl, -⟩ := safe _ _ _ _ (.inl claimed) model rfl
    exact unregistered (List.mem_toFinset.mpr (List.mem_map_of_mem listed))
  · intro named db locked row after claimed model needs
    rcases claimed with inline | pool
    · obtain ⟨passes, claimed⟩ := claim_cases inline
      have some : worker.fitting registry ≠ [] := by
        intro none
        have empty : (worker.gpuCapacityForClaim registry).2.1.isEmpty = true :=
          List.isEmpty_iff.mpr none
        simp [GpuWorker.barred, full, known, empty] at passes
      obtain ⟨other, fits, name⟩ := named.resolve_left some
      rcases (gpuCapability_some needs).mp (claimed_capable claimed) with only | ⟨mine, -⟩
      · exact absurd (only other fits) name
      · exact (mem_fitting known).mp mine
    · have capable := claimed_capable pool
      simp [NodeQueue.gpuCapability, needs] at capable

end Lanes

/-- A machine nothing fits: its pool takes the job of a pooled module. -/
theorem pooled_job_has_one_lane :
    Waiting Sample.smallBox (Sample.waitingQueue "" "vlm" none) (Sample.waitingJob "" "vlm" none) ∧
      Xor (Takes (Sample.smallBox.claim Sample.bigOnly) 0 (Sample.waitingQueue "" "vlm" none))
        (Takes (Sample.smallBox.claimPool Sample.bigOnly) 0
          (Sample.waitingQueue "" "vlm" none)) := by
  have waiting := waiting_waitingJob Sample.smallBox "vlm" none
  refine ⟨waiting, (one_lane_iff waiting fun _ needs => by cases needs).mpr ⟨fun _ _ => ?_, ?_⟩⟩
  · decide
  · intro needs
    cases needs

/-- The gate shuts the inline lane for a job that needs no model, and the pool does not
run its module. -/
theorem heavy_job_has_no_lane :
    ¬ ∀ (worker : GpuWorker) (registry : ModelRegistry) (db : Db) (job : NodeJob),
      Waiting worker db job →
        (∀ model, job.requiredModel = some model → model ∈ worker.fitting registry) →
          Xor (Takes (worker.claim registry) job.id db)
            (Takes (worker.claimPool registry) job.id db) := by
  intro partition
  have waiting := waiting_waitingJob Sample.smallBox "erase" none
  rcases partition _ Sample.bigOnly _ _ waiting (fun _ needs => by cases needs) with
    ⟨inline, -⟩ | ⟨pooled, -⟩
  · have shut : Sample.smallBox.barred Sample.bigOnly = true := by decide +kernel
    rw [((takes_claim waiting).mp inline).1] at shut
    cases shut
  · have unpooled : Sample.smallBox.pools (Sample.waitingJob "" "erase" none) = false := by decide
    have runs := ((takes_claimPool waiting).mp pooled).2
    rw [show Sample.smallBox.project = "" from rfl, unpooled] at runs
    cases runs

namespace Sample

/-- A model that fits the small machine, and one that does not. -/
def mixed : ModelRegistry := ⟨[{ id := "moondream", estVramGb := 4 }, flux], by simp [flux]⟩

/-- A job for each of them, the big one's first. -/
def mixedQueue : Db :=
  { waitingQueue "" "erase" (some "flux") with
    jobs := ⟨[waitingJob "" "erase" (some "flux"),
      { waitingJob "" "erase" (some "moondream") with id := 1, nodeId := "m" }],
      by simp [waitingJob, NodeJob.Clash, NodeJob.key]⟩ }

end Sample

/-- The model that fits has its job claimed, and no other is. -/
theorem small_box_respects_capacity :
    (∃ row after, Sample.smallBox.claim Sample.mixed [] Sample.mixedQueue = .ok (some row, after) ∧
      row.requiredModel = some "moondream") ∧
    ∀ db locked row after,
      Sample.smallBox.claim Sample.mixed locked db = .ok (some row, after) ∨
        Sample.smallBox.claimPool Sample.mixed locked db = .ok (some row, after) →
      ∀ model, row.requiredModel = some model → ∃ spec ∈ Sample.mixed.specs,
        spec.id = model ∧ spec.estVramGb * 1024 ≤ (8192 : Nat) := by
  have fits : "moondream" ∈ Sample.smallBox.fitting Sample.mixed := by decide +kernel
  refine ⟨?_, (capacity_respected_iff rfl (by simp [Sample.mixed])).mpr
    (.inr ⟨"moondream", fits, by decide⟩)⟩
  have claimed : ((Sample.smallBox.claim Sample.mixed [] Sample.mixedQueue).toOption.bind
      Prod.fst).map NodeJob.requiredModel = some (some "moondream") := by decide +kernel
  cases outcome : Sample.smallBox.claim Sample.mixed [] Sample.mixedQueue with
  | error error => simp [outcome, Except.toOption] at claimed
  | ok result =>
    obtain ⟨found, after⟩ := result
    obtain ⟨row, rfl, model⟩ : ∃ row, found = some row ∧ row.requiredModel = some "moondream" := by
      simpa [outcome, Except.toOption] using claimed
    exact ⟨row, after, rfl, model⟩

/-- Only the model without a name fits: the machine claims one three times its size. -/
theorem big_model_claimed :
    ¬ ∀ (worker : GpuWorker) (registry : ModelRegistry) (vram : Nat),
      worker.vramTotalMb = some vram → registry.specs ≠ [] →
        ∀ db locked row after, worker.claim registry locked db = .ok (some row, after) ∨
            worker.claimPool registry locked db = .ok (some row, after) →
          ∀ model, row.requiredModel = some model →
            ∃ spec ∈ registry.specs, spec.id = model ∧ spec.estVramGb * 1024 ≤ vram := by
  intro safe
  have waiting := waiting_waitingJob Sample.smallBox "erase" (some "flux")
  have passes : Sample.smallBox.barred Sample.nameless = false := by decide +kernel
  have only : ∀ model ∈ Sample.smallBox.fitting Sample.nameless, model = "" := by decide +kernel
  obtain ⟨locked, row, after, claimed, -⟩ := (takes_claim waiting).mpr
    ⟨passes, (gpuCapability_some rfl).mpr (.inl only)⟩
  obtain ⟨chosen, member, -, rfl, -⟩ := NodeQueue.claimNext_cases (claim_cases claimed).2
  rw [List.mem_singleton.mp member] at claimed
  obtain ⟨spec, listed, named, fits⟩ := safe _ Sample.nameless 8192 rfl (by simp [Sample.nameless])
    _ _ _ _ (.inl claimed) "flux" rfl
  simp only [Sample.nameless, List.mem_cons, List.not_mem_nil, or_false] at listed
  rcases listed with rfl | rfl
  · simp at named
  · norm_num [Sample.flux] at fits

end QueueWorkflows
