import QueueWorkflows.Engine.Confinement

/-! Projects that share a broker. Whatever the clients of all projects have done before,
the operations of one project's engine leave the rows of another as they are; only the
reclaim of lapsed leases goes by no project, and does to the other's rows what its own
would. -/

namespace QueueWorkflows

open Relation (ReflTransGen)
open Transaction (Actor Pool Reach)
open Transaction.Pool (Outlined)

/-! ### Clients -/

/-- What the engine's own processes do; the rest is the host's, or time's. -/
def Label.engine : Label → Bool
  | .insertRun _ | .cancelRun _ | .cancelQueued _ | .enqueuePatch _ | .prioritize _
  | .submit _ _ _ | .restart _ _ _ | .clock _ => false
  | _ => true

namespace Operation

def engine : Operation → Bool
  | .node label => label.engine
  | _ => true

/-- The two statements that are broker-wide on purpose. -/
def reclaims : Operation → Bool
  | .node .reclaimExpired | .reclaimIngest => true
  | _ => false

end Operation

namespace Broker

/-- A client acts in its own name: it claims, beats and goes on with its paths under the
project of its configuration, restarts its own runs, and tags a patch job with the
project of the job's run. -/
def inOwnName (broker : Broker) : Config × Operation → Bool
  | (cfg, .node label) =>
    match label with
    | .claimCpu claim _ _ => claim.project == cfg.project
    | .claimGpu claim _ _ _ => claim.project == cfg.project
    | .heartbeat row => row.project == cfg.project
    | .restart runId _ _ => (broker.store.run? runId).any fun run => run.project == cfg.project
    | .enqueuePatch new =>
      (broker.store.run? new.runId).any fun run => run.project == new.project
    | .redeliver index _ _ | .trip index _ | .renew index _ | .advance index | .blip index _
    | .crash index => broker.owners[index]? == some cfg.project
    | _ => true
  | (cfg, .executeIngest index) | (cfg, .tripIngest index _) | (cfg, .renewIngest index _) =>
    broker.fetches[index]?.any fun entry => entry.1 == cfg.project
  | _ => true

/-- An operation of the project's engine, or time passing. -/
def actsFor (project : String) (broker : Broker) (client : Config × Operation) : Bool :=
  broker.inOwnName client && client.1.project == project &&
    (client.2.engine || client.2 matches .node (.clock _))

end Broker

/-! ### The rows of a project -/

/-- A project's rows in every table. -/
@[ext] structure Rows where
  runs : List RunRow
  jobs : List NodeJob
  events : List DispatchEvent
  submissions : List InputSubmission
  heartbeats : List WorkerHeartbeat
  ingest : List IngestJob

/-- The rows under the project's tag; an event or a submission is its run's. -/
def rowsOf (project : String) (broker : Broker) : Rows where
  runs := broker.store.runs.rows.filter fun run => run.project == project
  jobs := broker.store.jobs.rows.filter fun job => job.project == project
  events := broker.store.events.filter fun event =>
    (broker.store.run? event.runId).any fun run => run.project == project
  submissions := broker.store.submissions.filter fun row =>
    (broker.store.run? row.runId).any fun run => run.project == project
  heartbeats := broker.store.heartbeats.filter fun beat => beat.project == project
  ingest := broker.ingest.rows.filter fun job => job.project == project

namespace Rows

def parent? (rows : Rows) (job : NodeJob) : Option RunRow :=
  rows.runs.find? fun run => run.id == job.runId

/-- The lease reclaim on these rows alone. -/
def reclaimLeases (now : Time) (rows : Rows) : Rows :=
  let lapsed := fun job : NodeJob => job.status == .running &&
    (job.leaseExpiresAt.any fun lease => lease < now) && (rows.parent? job).isSome
  let reclaimed := fun job : NodeJob =>
    if (rows.parent? job).any fun run => run.status == .running then NodeQueue.released job
    else { job with
      status := .cancelled, claimedBy := none, leaseExpiresAt := none, finishedAt := some now }
  { rows with jobs := rows.jobs.map fun job => if lapsed job then reclaimed job else job }

/-- The reclaim of the ingest queue on these rows alone. -/
def reclaimIngest (now : Time) (rows : Rows) : Rows :=
  { rows with ingest := rows.ingest.map fun job =>
      if NodeQueue.ingestLapsed now job then NodeQueue.releasedIngest job else job }

/-- What is left of an operation in the rows of a project that is not the client's. -/
def reclaimed (now : Time) (rows : Rows) : Operation → Rows
  | .node .reclaimExpired => rows.reclaimLeases now
  | .reclaimIngest => rows.reclaimIngest now
  | _ => rows

/-- What is left of a sequence of them: its reclaims, each at the time of the clock. -/
def reclaimedAlong (now : Time) (rows : Rows) : List Operation → Rows
  | [] => rows
  | .node (.clock later) :: rest => reclaimedAlong later rows rest
  | op :: rest => reclaimedAlong now (rows.reclaimed now op) rest

end Rows

/-! ### Paths and their owners -/

/-- What a path was started for. -/
def Role.footing : Role → Footing
  | .expansion runIds => { runs := fun runId => runId ∈ runIds }
  | .sweep runIds => { runs := fun runId => runId ∈ runIds }
  | .drain batch =>
    { runs := fun runId => ∃ event ∈ batch, event.runId = runId
      events := fun eventId => ∃ event ∈ batch, event.id = eventId }
  | .listener rows =>
    { runs := fun runId => ∃ row ∈ rows, row.runId = runId
      submissions := fun subId => ∃ row ∈ rows, row.id = subId }
  | .execution job => { runs := fun runId => runId = job.runId, rows := fun jobId => jobId = job.id }
  | .trip job => { runs := fun runId => runId = job.runId, rows := fun jobId => jobId = job.id }
  | .restart runId => { runs := fun other => other = runId }

/-- The path stands on ground of the project and stays there. -/
def Housed (project : String) (path : Path) (db : Db) : Prop :=
  path.role.footing.Holds project db ∧
    Outlined (tenantTerms project path.role.footing) path db

section Housed

variable {project : String} {path : Path} {db after : Db}

theorem Housed.later (housed : Housed project path db) (tenanted : Tenanted db after) :
    Housed project path after :=
  ⟨housed.1.later tenanted, housed.2.undisturbed fun _ _ _ kept => kept db after tenanted⟩

theorem Housed.step {role : Role} {prog rest : Program Unit}
    (housed : Housed project ⟨role, prog⟩ db) (tagged : WellTagged db)
    (stepped : prog.step db = some (rest, after)) :
    Confined project db after ∧ Housed project ⟨role, rest⟩ after := by
  obtain ⟨moved, outlined⟩ := housed.2.step (fun _ _ => ⟨tagged, housed.1⟩) stepped
  have confined : Confined project db after := by
    rcases moved with rfl | good
    · exact .refl project _
    · exact good
  exact ⟨confined, housed.1.later confined.tenanted, outlined⟩

theorem Housed.blip {role : Role} {prog rest : Program Unit} {error : PyErr}
    (housed : Housed project ⟨role, prog⟩ db) (failed : prog.blip error = some rest) :
    Housed project ⟨role, rest⟩ db :=
  ⟨housed.1, housed.2.blip failed⟩

/-- A path that starts on ground of the project. -/
theorem Housed.start {role : Role} {prog : Program Unit} (holds : role.footing.Holds project db)
    (keeps : Keeps project role.footing prog) : Housed project ⟨role, prog⟩ db :=
  ⟨holds, fun _ => True, trivial, keeps⟩

end Housed

/-! ### Pools of paths -/

/-- Every path is housed with the project it belongs to. -/
def AllHoused (actors : List Path) (owners : List String) (db : Db) : Prop :=
  owners.length = actors.length ∧ ∀ (index : Nat) (path : Path) (project : String),
    actors[index]? = some path → owners[index]? = some project → Housed project path db

theorem AllHoused.later {actors : List Path} {owners : List String} {db after : Db}
    (all : AllHoused actors owners db) (tenanted : Tenanted db after) :
    AllHoused actors owners after :=
  ⟨all.1, fun index path project found owner => (all.2 index path project found owner).later tenanted⟩

theorem AllHoused.spawn {actors : List Path} {owners : List String} {db : Db} {path : Path}
    {project : String} (all : AllHoused actors owners db) (new : Housed project path db) :
    AllHoused (actors ++ [path]) (owners ++ [project]) db := by
  obtain ⟨same, housed⟩ := all
  refine ⟨by simp [same], fun index other owner found owned => ?_⟩
  by_cases old : index < actors.length
  · rw [List.getElem?_append_left old] at found
    rw [List.getElem?_append_left (same ▸ old)] at owned
    exact housed index other owner found owned
  · rw [List.getElem?_append_right (Nat.le_of_not_lt old)] at found
    rw [List.getElem?_append_right (same ▸ Nat.le_of_not_lt old), same] at owned
    cases last : index - actors.length with
    | zero =>
      rw [last] at found owned
      cases found
      cases owned
      exact new
    | succ further =>
      rw [last] at found
      cases found

theorem AllHoused.set {actors : List Path} {owners : List String} {db : Db} {index : Nat}
    {path : Path} (all : AllHoused actors owners db)
    (new : ∀ project, owners[index]? = some project → Housed project path db) :
    AllHoused (actors.set index path) owners db := by
  obtain ⟨same, housed⟩ := all
  refine ⟨by simp [same], fun other actor owner found owned => ?_⟩
  rw [List.getElem?_set] at found
  by_cases here : index = other
  · rw [if_pos here] at found
    subst here
    split at found
    · cases found
      exact new owner owned
    · cases found
  · rw [if_neg here] at found
    exact housed other actor owner found owned

theorem AllHoused.crash {actors : List Path} {owners : List String} {db : Db} (index : Nat)
    (all : AllHoused actors owners db) :
    AllHoused (actors.eraseIdx index) (owners.eraseIdx index) db := by
  obtain ⟨same, housed⟩ := all
  refine ⟨by simp [List.length_eraseIdx, same], fun other actor owner found owned => ?_⟩
  rw [List.getElem?_eraseIdx] at found owned
  split at found
  · rename_i below
    rw [if_pos below] at owned
    exact housed other actor owner found owned
  · rename_i above
    rw [if_neg above] at owned
    exact housed (other + 1) actor owner found owned

/-! ### Statements of one project -/

section Statements

variable {cfg : Config} {project : String} {db after : Db}

theorem confined_beat {row : WorkerHeartbeat} (tagged : row.project = project)
    (done : beat row db = .ok ((), after)) : Confined project db after := by
  cases done
  refine confined_heartbeats ?_
  have mine : (row.project != project) = false := by simp [tagged]
  simp only [List.filter_append, List.filter_cons, mine, List.filter_nil, List.append_nil,
    Bool.false_eq_true, if_false, List.filter_filter]
  apply List.filter_congr
  intro other _
  by_cases foreign : other.project = project
  · simp [foreign]
  · have apart : (other.project == row.project) = false := by simpa [tagged] using foreign
    simp [apart]

/-- An update of heartbeats in place. -/
theorem confined_mapHeartbeats {change : WorkerHeartbeat → WorkerHeartbeat}
    (keeps : ∀ beat, (change beat).project = beat.project)
    (spares : ∀ beat, beat.project ≠ project → change beat = beat) :
    Confined project db { db with heartbeats := db.heartbeats.map change } := by
  refine confined_heartbeats ?_
  induction db.heartbeats with
  | nil => rfl
  | cons beat rest ih =>
    rw [List.map_cons, List.filter_cons, List.filter_cons, ih, keeps]
    by_cases foreign : beat.project = project
    · simp [foreign]
    · simp [foreign, spares beat foreign]

theorem confined_flagStaleWorkers {staleAfterS : Int} {flagged : List (WorkerHeartbeat × Nat)}
    (done : NodeQueue.flagStaleWorkers staleAfterS project db = .ok (flagged, after)) :
    Confined project db after := by
  cases done
  refine confined_mapHeartbeats (fun beat => ?_) fun beat foreign => ?_
  · split <;> rfl
  · rw [if_neg]
    simp [foreign]

theorem confined_clearWorkerCurrentModel {hostLabel queue : String}
    (done : NodeQueue.clearWorkerCurrentModel hostLabel queue project db = .ok ((), after)) :
    Confined project db after := by
  cases done
  refine confined_mapHeartbeats (fun beat => ?_) fun beat foreign => ?_
  · split <;> rfl
  · rw [if_neg]
    simp [foreign]

theorem confined_flagUnassignable {staleS : Int} {rows : List NodeJob}
    (done : NodeQueue.flagUnassignableGpuJobs staleS project db = .ok (rows, after)) :
    Confined project db after := by
  have clears : ∀ {db after : Db} {rows : List NodeJob},
      NodeQueue.clearUnassignable staleS project db = .ok (rows, after) →
        Confined project db after := by
    intro db after rows cleared
    cases cleared
    refine confined_updateJobs (fun job _ selected => ?_) fun _ => rfl
    simp only [Bool.and_eq_true, beq_iff_eq] at selected
    exact selected.1.2
  have raises : ∀ {db after : Db} {rows : List NodeJob},
      NodeQueue.raiseUnassignable staleS project db = .ok (rows, after) →
        Confined project db after := by
    intro db after rows raised
    cases raised
    refine confined_updateJobs (fun job _ selected => ?_) fun _ => rfl
    simp only [Bool.and_eq_true, beq_iff_eq] at selected
    exact selected.1.1.1.1.1.2
  exact (clears rfl).trans (raises done)

theorem confined_reclaimAllRunning {rows : List NodeJob}
    (done : NodeQueue.reclaimAllRunningForResume project db = .ok (rows, after)) :
    Confined project db after := by
  cases done
  refine confined_updateJobs (fun job _ selected => ?_) fun _ => rfl
  simp only [Bool.and_eq_true, beq_iff_eq] at selected
  exact selected.1.2

theorem confined_requeueForWorker {hostLabel : String} {queue : Queue} {rows : List NodeJob}
    (done : NodeQueue.requeueRunningForWorker hostLabel queue project db = .ok (rows, after)) :
    Confined project db after := by
  cases done
  refine confined_updateJobs (fun job _ selected => ?_) fun _ => rfl
  simp only [Bool.and_eq_true, beq_iff_eq] at selected
  exact selected.2

theorem confined_cancelOrphaned
    (done : NodeQueue.cancelOrphanedQueuedJobs project db = .ok ((), after)) :
    Confined project db after := by
  cases done
  refine confined_updateJobs (fun job _ selected => ?_) fun _ => rfl
  simp only [Bool.and_eq_true, beq_iff_eq] at selected
  exact selected.1.2

theorem confined_reenqueueRuns {rows : List RunRow}
    (done : RunStore.reenqueueRunningForResume project db = .ok (rows, after)) :
    Confined project db after := by
  cases done
  refine confined_updateRuns (fun run _ selected => ?_) fun _ => rfl
  simp only [Bool.and_eq_true, beq_iff_eq] at selected
  exact selected.2

theorem confined_renewLease {jobId : Nat} {claimedBy : String} {leaseS : Int} {renewed : Bool}
    (owned : RowOwned project jobId db)
    (done : NodeQueue.renewLease jobId claimedBy leaseS db = .ok (renewed, after)) :
    Confined project db after := by
  cases done
  refine confined_updateJobs (fun job member selected => ?_) fun _ => rfl
  simp only [Bool.and_eq_true, beq_iff_eq] at selected
  exact owned.2 job member selected.1.1

theorem confined_claimPending (tagged : WellTagged db) :
    Confined cfg.project db (InputListener.claimPending cfg db).2 := by
  refine confined_submissions (fun row => ?_) fun row member foreign => ?_
  · split
    · exact ⟨rfl, rfl⟩
    · exact ⟨rfl, rfl⟩
  · split
    · rename_i claimed
      obtain ⟨other, taken, same⟩ := List.any_eq_true.mp claimed
      obtain ⟨present, eligible⟩ := List.mem_filter.mp (List.mem_of_mem_take taken)
      simp only [InputListener.eligible, Bool.and_eq_true] at eligible
      have owned := tagged.submissionOwned present (owns_iff.mpr eligible.2)
      exact absurd (owned.2 row member (by simpa using (beq_iff_eq.mp same).symm)) foreign
    · rfl

/-- A claim takes a row of the claim's project, which is then held by its id. -/
theorem confined_claims {claim : NodeQueue.Claim} {queue : Queue} {capability : NodeJob → Bool}
    {rank : NodeJob → List Int} {job : NodeJob} (tagged : WellTagged db)
    (own : claim.project = project)
    (done : NodeQueue.claimNext claim queue capability rank db = .ok (some job, after)) :
    Confined project db after ∧ Owns project job.runId db ∧ RowOwned project job.id db := by
  obtain ⟨chosen, member, claimable, rfl, rfl⟩ := NodeQueue.claimNext_cases done
  simp only [NodeQueue.claimable, Bool.and_eq_true, beq_iff_eq] at claimable
  have tag : chosen.project = project := claimable.1.1.1.2.trans own
  refine ⟨confined_updateJobs (fun row present selected => ?_) fun _ => rfl, ?_, ?_⟩
  · rw [Db.eq_of_id present member (by simpa using selected)]
    exact tag
  · exact tag ▸ (tagged.rows chosen member).2
  · exact tag ▸ tagged.rowOwned member

theorem owns_of_queued {limit : Nat} {runId : String}
    (listed : runId ∈ RunStore.listQueuedNodeRunIds project limit db) : Owns project runId db := by
  obtain ⟨run, taken, rfl⟩ := List.mem_map.mp listed
  have sorted := (List.perm_insertionSort _ _).mem_iff.mp (List.mem_of_mem_take taken)
  obtain ⟨member, queued⟩ := List.mem_filter.mp sorted
  simp only [Bool.and_eq_true, beq_iff_eq] at queued
  exact ⟨run, member, rfl, queued.2⟩

theorem owns_of_stuck {runId : String} (listed : runId ∈ RunStore.listStuckNodeRunIds project db) :
    Owns project runId db := by
  obtain ⟨run, taken, rfl⟩ := List.mem_map.mp listed
  obtain ⟨member, stuck⟩ := List.mem_filter.mp taken
  simp only [Bool.and_eq_true, beq_iff_eq] at stuck
  exact ⟨run, member, rfl, stuck.1.2⟩

/-! ### Statements of the host, and of everyone -/

theorem tenanted_refl (db : Db) : Tenanted db db := (Confined.refl "" db).tenanted

theorem tenanted_updateJobs {selects : NodeJob → Bool} {change : NodeJob → NodeJob}
    {keeps : ∀ job, (change job).key = job.key}
    (tagged : ∀ job, (change job).project = job.project) :
    Tenanted db { db with jobs := db.jobs.update selects change keeps } := by
  refine { tenanted_refl db with rows := fun job member => .inl ?_ }
  obtain ⟨old, present, rfl⟩ := List.mem_map.mp member
  refine ⟨old, present, ?_⟩
  split
  · exact ⟨congrArg Prod.fst (keeps old).symm, congrArg (·.2.1) (keeps old).symm,
      (tagged old).symm⟩
  · exact ⟨rfl, rfl, rfl⟩

theorem reclaimed_project (job : NodeJob) :
    (NodeQueue.reclaimed db job).project = job.project := by
  unfold NodeQueue.reclaimed
  split <;> rfl

theorem tenanted_reclaimExpired {rows : List NodeJob}
    (done : NodeQueue.reclaimExpiredLeases db = .ok (rows, after)) : Tenanted db after := by
  cases done
  exact tenanted_updateJobs reclaimed_project

theorem tenanted_cancelQueued {runId : String}
    (done : NodeQueue.cancelQueuedJobsForRun runId db = .ok ((), after)) : Tenanted db after := by
  cases done
  exact tenanted_updateJobs fun _ => rfl

theorem tenanted_prioritize {jobId : Nat} {row : Option NodeJob}
    (done : NodeQueue.prioritizeNodeJob jobId db = .ok (row, after)) : Tenanted db after := by
  cases done
  exact tenanted_updateJobs fun _ => rfl

theorem tenanted_insertRun {run : RunRow} (done : insertRun run db = .ok ((), after)) :
    Tenanted db after := by
  unfold insertRun at done
  split at done
  · rename_i runs inserted
    cases done
    refine { tenanted_refl db with
      present := fun old member => ⟨old, ?_, rfl, rfl⟩
      rows := fun job member => .inl ⟨job, member, rfl, rfl, rfl⟩ }
    dsimp only
    rw [Relational.Table.rows_insert? inserted]
    exact List.mem_append_left _ member
  · cases done

theorem tenanted_cancelRun {runId : String} (done : cancelRun runId db = .ok ((), after)) :
    Tenanted db after := by
  cases done
  refine { tenanted_refl db with
    present := fun old member => ⟨_, List.mem_map_of_mem member, ?_⟩
    rows := fun job member => .inl ⟨job, member, rfl, rfl, rfl⟩ }
  split
  · exact ⟨rfl, rfl⟩
  · exact ⟨rfl, rfl⟩

theorem tenanted_submit {runId nodeId : String} {value : Json}
    (done : submitInput runId nodeId value db = .ok ((), after)) : Tenanted db after := by
  cases done
  refine { tenanted_refl db with submissions := ?_ }
  dsimp only
  rw [List.length_append]
  exact .of_append _ rfl trivial

end Statements

/-! ### The ingest queue -/

/-- No row of another project has, or will have, this id. -/
def IngestOwned (project : String) (jobId next : Nat) (table : IngestTable) : Prop :=
  jobId < next ∧ ∀ row ∈ table.rows, row.id = jobId → row.project = project

/-- What any client does to the ingest queue: a row keeps its id and its tag, and a new
one takes a fresh id. -/
structure IngestTenanted (next later : Nat) (before after : IngestTable) : Prop where
  ordered : next ≤ later
  rows : ∀ row ∈ after.rows, (∃ old ∈ before.rows, old.id = row.id ∧ old.project = row.project) ∨
    next ≤ row.id ∧ row.id < later

/-- What a process of the project does to it. -/
structure IngestConfined (project : String) (next later : Nat) (before after : IngestTable) : Prop
    extends IngestTenanted next later before after where
  spared : after.rows.filter (fun row => row.project != project) =
    before.rows.filter fun row => row.project != project

section Ingest

variable {cfg : Config} {project : String} {next following : Nat} {table after : IngestTable}

theorem IngestOwned.later {jobId : Nat} (tenanted : IngestTenanted next following table after)
    (owned : IngestOwned project jobId next table) : IngestOwned project jobId following after := by
  obtain ⟨used, own⟩ := owned
  refine ⟨used.trans_le tenanted.ordered, fun row member same => ?_⟩
  rcases tenanted.rows row member with ⟨old, present, id, tag⟩ | ⟨fresh, -⟩
  · exact tag ▸ own old present (id.trans same)
  · omega

theorem IngestTenanted.numbered (tenanted : IngestTenanted next following table after)
    (below : ∀ row ∈ table.rows, row.id < next) : ∀ row ∈ after.rows, row.id < following := by
  intro row member
  rcases tenanted.rows row member with ⟨old, present, id, -⟩ | ⟨-, high⟩
  · exact id ▸ (below old present).trans_le tenanted.ordered
  · exact high

theorem ingestTenanted_update {selects : IngestJob → Bool} {change : IngestJob → IngestJob}
    {keeps : ∀ job, (change job).id = job.id}
    (tagged : ∀ job, (change job).project = job.project) :
    IngestTenanted next next table (table.update selects change keeps) where
  ordered := le_rfl
  rows row member := by
    obtain ⟨old, present, rfl⟩ := List.mem_map.mp member
    refine .inl ⟨old, present, ?_⟩
    split
    · exact ⟨(keeps old).symm, (tagged old).symm⟩
    · exact ⟨rfl, rfl⟩

theorem ingestConfined_update {selects : IngestJob → Bool} {change : IngestJob → IngestJob}
    {keeps : ∀ job, (change job).id = job.id}
    (own : ∀ job ∈ table.rows, selects job = true → job.project = project)
    (tagged : ∀ job, (change job).project = job.project) :
    IngestConfined project next next table (table.update selects change keeps) := by
  refine { toIngestTenanted := ingestTenanted_update tagged, spared := ?_ }
  refine filter_update (fun job member selected => ?_) fun job => ?_
  · simp [own job member selected]
  · rw [tagged]

theorem IngestConfined.refl (project : String) (next : Nat) (table : IngestTable) :
    IngestConfined project next next table table where
  ordered := le_rfl
  rows row member := .inl ⟨row, member, rfl, rfl⟩
  spared := rfl

theorem ingestConfined_insert {row : IngestJob} (numbered : row.id = next)
    (tagged : row.project = project) (inserted : table.insert? row = some after) :
    IngestConfined project next (next + 1) table after where
  ordered := Nat.le_succ _
  rows other member := by
    rw [Relational.Table.rows_insert? inserted] at member
    rcases List.mem_append.mp member with old | last
    · exact .inl ⟨other, old, rfl, rfl⟩
    · rw [List.mem_singleton.mp last, numbered]
      exact .inr ⟨le_rfl, Nat.lt_succ_self _⟩
  spared := by
    rw [Relational.Table.rows_insert? inserted, List.filter_append]
    simp [tagged]

/-- A claim takes a row of the project. -/
theorem ingestConfined_claim {claim : NodeQueue.IngestClaim} {now : Time} {job : IngestJob}
    (claimed : NodeQueue.claimNextIngestJob claim project now table = some (job, after)) :
    IngestConfined project next next table after ∧
      ∃ chosen ∈ table.rows, chosen.id = job.id ∧ chosen.project = project := by
  obtain ⟨chosen, first, taken⟩ := Option.map_eq_some_iff.mp claimed
  obtain ⟨present, selected⟩ := List.mem_filter.mp (NodeQueue.firstBy_mem first)
  simp only [Bool.and_eq_true, beq_iff_eq] at selected
  cases taken
  refine ⟨?_, chosen, present, rfl, selected.1.2⟩
  refine ingestConfined_update (fun other member same => ?_) fun _ => rfl
  rw [table.eq_of_clash Eq.symm member present (by simpa using same)]
  exact selected.1.2

/-- An update of the row an execution of the project holds. -/
theorem ingestConfined_held {jobId : Nat} {selects : IngestJob → Bool}
    {change : IngestJob → IngestJob} {keeps : ∀ job, (change job).id = job.id}
    (owned : IngestOwned project jobId next table)
    (only : ∀ job, selects job = true → job.id = jobId)
    (tagged : ∀ job, (change job).project = job.project) :
    IngestConfined project next next table (table.update selects change keeps) :=
  ingestConfined_update (fun job member selected => owned.2 job member (only job selected)) tagged

theorem ingestConfined_failed {jobId : Nat} {error : String} {now : Time}
    (owned : IngestOwned project jobId next table) :
    IngestConfined project next next table
      (NodeQueue.markIngestFailed jobId error now table) := by
  unfold NodeQueue.markIngestFailed
  refine ingestConfined_held owned (fun job selected => ?_) fun _ => rfl
  simp only [Bool.and_eq_true, beq_iff_eq] at selected
  exact selected.1

theorem ingestConfined_execute {job : IngestJob} {now : Time}
    (owned : IngestOwned project job.id next table) :
    IngestConfined project next next table
      (IngestExecutor.executeIngestJob cfg job now table) := by
  unfold IngestExecutor.executeIngestJob
  cases IngestExecutor.runTask cfg job with
  | ok result =>
    dsimp only
    cases result.dumps with
    | ok encoded =>
      dsimp only [NodeQueue.markIngestCompleted]
      refine ingestConfined_held owned (fun other selected => ?_) fun _ => rfl
      simp only [Bool.and_eq_true, beq_iff_eq] at selected
      exact selected.1
    | error error => exact .refl project next table
  | error error => exact ingestConfined_failed owned

theorem ingestConfined_renew {jobId : Nat} {host : Option String} {leaseS : Int} {now : Time}
    (owned : IngestOwned project jobId next table) :
    IngestConfined project next next table
      (NodeQueue.renewIngestLease jobId host leaseS now table) := by
  unfold NodeQueue.renewIngestLease
  refine ingestConfined_held owned (fun job selected => ?_) fun _ => rfl
  simp only [Bool.and_eq_true, beq_iff_eq] at selected
  exact selected.1.1.1

theorem ingestConfined_requeue {hostLabel queue : String} :
    IngestConfined project next next table
      (NodeQueue.requeueIngestForWorker hostLabel queue project table) := by
  unfold NodeQueue.requeueIngestForWorker
  refine ingestConfined_update (fun job _ selected => ?_) fun _ => rfl
  simp only [Bool.and_eq_true, beq_iff_eq] at selected
  exact selected.2

theorem ingestTenanted_reclaim {now : Time} :
    IngestTenanted next next table (NodeQueue.reclaimExpiredIngestLeases now table) := by
  unfold NodeQueue.reclaimExpiredIngestLeases
  exact ingestTenanted_update fun _ => rfl

end Ingest

/-! ### The broker -/

/-- What every history of the broker keeps. -/
structure Broker.Sound (broker : Broker) : Prop where
  tagged : WellTagged broker.store
  paths : AllHoused broker.sys.actors broker.owners broker.store
  numbered : ∀ job ∈ broker.ingest.rows, job.id < broker.nextIngest
  fetches : ∀ entry ∈ broker.fetches,
    IngestOwned entry.1 entry.2.id broker.nextIngest broker.ingest

section Broker

variable {cfg : Config} {broker : Broker} {label : Label} {after : Sys}

/-- The path of this index belongs to the client. -/
theorem Broker.Sound.housed (sound : broker.Sound) {index : Nat} {path : Path}
    (found : broker.sys.actors[index]? = some path)
    (own : (broker.owners[index]? == some cfg.project) = true) :
    Housed cfg.project path broker.store :=
  sound.paths.2 index path cfg.project found (by simpa using own)

/-- An operation of a project's engine on the node tables. -/
theorem Broker.Sound.confined (sound : broker.Sound)
    (own : broker.inOwnName (cfg, .node label) = true) (engine : label.engine = true)
    (bounded : (Operation.node label).reclaims = false)
    (stepped : QueueWorkflows.step cfg broker.sys label = some after) :
    Confined cfg.project broker.store after.store := by
  have tagged := sound.tagged
  unfold QueueWorkflows.step at stepped
  cases label with
  | heartbeat row =>
    obtain ⟨_, done, -⟩ := Sys.commit_cases stepped
    exact confined_beat (by simpa [Broker.inOwnName] using own) done
  | expand host fuel =>
    cases stepped
    exact .refl _ _
  | drain host fuel =>
    cases stepped
    exact .refl _ _
  | sweep host fuel =>
    cases stepped
    exact .refl _ _
  | poll host fuel =>
    cases stepped
    exact confined_claimPending tagged
  | reclaimAllRunning =>
    obtain ⟨_, done, -⟩ := Sys.commit_cases stepped
    exact confined_reclaimAllRunning done
  | reenqueueRuns =>
    obtain ⟨_, done, -⟩ := Sys.commit_cases stepped
    exact confined_reenqueueRuns done
  | cancelOrphaned =>
    obtain ⟨_, done, -⟩ := Sys.commit_cases stepped
    exact confined_cancelOrphaned done
  | claimCpu claim host hasCache =>
    obtain ⟨job, done, -⟩ := Sys.start_cases stepped
    exact (confined_claims tagged (by simpa [Broker.inOwnName] using own) done).1
  | claimGpu claim gpu host hasCache =>
    obtain ⟨job, done, -⟩ := Sys.start_cases stepped
    exact (confined_claims tagged (by simpa [Broker.inOwnName] using own) done).1
  | redeliver index host hasCache =>
    obtain ⟨actor, -, again⟩ := Option.bind_eq_some_iff.mp stepped
    split at again
    · cases again
      exact .refl _ _
    · cases again
  | trip index error =>
    obtain ⟨job, -, rfl⟩ := Option.map_eq_some_iff.mp stepped
    exact .refl _ _
  | renew index leaseS =>
    obtain ⟨job, found, owned⟩ := Option.bind_eq_some_iff.mp stepped
    obtain ⟨claimedBy, -, committed⟩ := Option.bind_eq_some_iff.mp owned
    obtain ⟨_, done, -⟩ := Sys.commit_cases committed
    obtain ⟨actor, present, role, -⟩ := Sys.execution?_cases found
    have housed := sound.housed present own
    refine confined_renewLease (housed.1.rows job.id ?_) done
    rw [role]
    rfl
  | requeueForWorker hostLabel queue =>
    obtain ⟨_, done, -⟩ := Sys.commit_cases stepped
    exact confined_requeueForWorker done
  | advance index =>
    obtain ⟨actor, rest, found, moved, -⟩ := Pool.advance_cases stepped
    exact ((sound.housed found own).step tagged moved).1
  | blip index error =>
    obtain ⟨_, _, _, _, store, _⟩ := Pool.blip_cases stepped
    unfold Broker.store
    rw [store]
    exact .refl _ _
  | crash index =>
    cases stepped
    exact .refl _ _
  | reclaimExpired => cases bounded
  | _ => cases engine

theorem Broker.Sound.tenanted (sound : broker.Sound)
    (own : broker.inOwnName (cfg, .node label) = true)
    (stepped : QueueWorkflows.step cfg broker.sys label = some after) :
    Tenanted broker.store after.store := by
  by_cases engine : label.engine = true
  · by_cases bounded : (Operation.node label).reclaims = false
    · exact (sound.confined own engine bounded stepped).tenanted
    · unfold QueueWorkflows.step at stepped
      cases label with
      | reclaimExpired =>
        obtain ⟨_, done, -⟩ := Sys.commit_cases stepped
        exact tenanted_reclaimExpired done
      | _ => exact absurd rfl bounded
  · unfold QueueWorkflows.step at stepped
    cases label with
    | insertRun run =>
      obtain ⟨_, done, -⟩ := Sys.commit_cases stepped
      exact tenanted_insertRun done
    | cancelRun runId =>
      obtain ⟨_, done, -⟩ := Sys.commit_cases stepped
      exact tenanted_cancelRun done
    | cancelQueued runId =>
      obtain ⟨_, done, -⟩ := Sys.commit_cases stepped
      exact tenanted_cancelQueued done
    | enqueuePatch new =>
      dsimp only at stepped
      split at stepped
      · obtain ⟨_, done, -⟩ := Sys.commit_cases stepped
        exact (confined_enqueue rfl (owns_iff.mpr own) done).tenanted
      · cases stepped
    | prioritize jobId =>
      obtain ⟨_, done, -⟩ := Sys.commit_cases stepped
      exact tenanted_prioritize done
    | submit runId nodeId value =>
      obtain ⟨_, done, -⟩ := Sys.commit_cases stepped
      exact tenanted_submit done
    | restart runId host fuel =>
      cases stepped
      exact tenanted_refl _
    | clock now =>
      dsimp only at stepped
      split at stepped
      · cases stepped
        exact { tenanted_refl broker.store with }
      · cases stepped
    | _ => exact absurd rfl engine

/-- A path starts on ground of the client that starts it. -/
theorem Broker.Sound.housed_start (sound : broker.Sound)
    (own : broker.inOwnName (cfg, .node label) = true) {db : Db} {role : Role}
    {prog : Program Unit} (tenanted : Tenanted broker.store db)
    (starts : Starts cfg broker.sys label db role prog) : Housed cfg.project ⟨role, prog⟩ db := by
  have tagged := sound.tagged
  have worker {job : NodeJob} (owns : Owns cfg.project job.runId db)
      (owned : RowOwned cfg.project job.id db) :
      (Role.execution job).footing.Holds cfg.project db :=
    ⟨fun _ mine => mine ▸ owns, fun _ mine => mine ▸ owned, fun _ => False.elim,
      fun _ => False.elim⟩
  cases starts with
  | restart runId host fuel =>
    refine Housed.start ⟨fun other mine => ?_, fun _ => False.elim, fun _ => False.elim,
      fun _ => False.elim⟩ (keeps_restartRun rfl)
    rw [mine]
    exact owns_iff.mpr own
  | expand host fuel =>
    exact Housed.start ⟨fun _ listed => owns_of_queued listed, fun _ => False.elim,
      fun _ => False.elim, fun _ => False.elim⟩ (keeps_expandRuns fun _ listed => listed)
  | sweep host fuel =>
    exact Housed.start ⟨fun _ listed => owns_of_stuck listed, fun _ => False.elim,
      fun _ => False.elim, fun _ => False.elim⟩ (keeps_sweepStuckRuns fun _ listed => listed)
  | drain host fuel =>
    have mine : ∀ event ∈ NodePool.drainBatch cfg broker.sys.lockedEvents broker.store,
        event ∈ broker.store.events ∧ Owns cfg.project event.runId broker.store := by
      intro event taken
      obtain ⟨present, selected⟩ := List.mem_filter.mp (List.mem_of_mem_take taken)
      simp only [Bool.and_eq_true] at selected
      exact ⟨present, owns_iff.mpr selected.2⟩
    refine Housed.start ⟨?_, fun _ => False.elim, ?_, fun _ => False.elim⟩
      (keeps_drainDispatchEvents fun event taken => ⟨⟨event, taken, rfl⟩, ⟨event, taken, rfl⟩⟩)
    · rintro _ ⟨event, taken, rfl⟩
      exact (mine event taken).2
    · rintro _ ⟨event, taken, rfl⟩
      exact tagged.eventOwned (mine event taken).1 (mine event taken).2
  | poll host fuel =>
    have mine : ∀ row ∈ (InputListener.claimPending cfg broker.store).1,
        row ∈ broker.store.submissions ∧ Owns cfg.project row.runId broker.store := by
      intro row taken
      obtain ⟨present, eligible⟩ := List.mem_filter.mp (List.mem_of_mem_take taken)
      simp only [InputListener.eligible, Bool.and_eq_true] at eligible
      exact ⟨present, owns_iff.mpr eligible.2⟩
    refine Housed.start ⟨?_, fun _ => False.elim, fun _ => False.elim, ?_⟩
      (keeps_processRows fun row taken => ⟨⟨row, taken, rfl⟩, ⟨row, taken, rfl⟩⟩)
    · rintro _ ⟨row, taken, rfl⟩
      exact tenanted.owns (mine row taken).2
    · rintro _ ⟨row, taken, rfl⟩
      exact (tagged.submissionOwned (mine row taken).1 (mine row taken).2).later tenanted
  | claimCpu claim host hasCache job db claimed =>
    obtain ⟨-, owns, owned⟩ := confined_claims tagged (by simpa [Broker.inOwnName] using own) claimed
    exact Housed.start (worker (tenanted.owns owns) (owned.later tenanted))
      (keeps_of_worker (workerConfined_frame job).runNode rfl rfl)
  | claimGpu claim gpu host hasCache job db claimed =>
    obtain ⟨-, owns, owned⟩ := confined_claims tagged (by simpa [Broker.inOwnName] using own) claimed
    exact Housed.start (worker (tenanted.owns owns) (owned.later tenanted))
      (keeps_of_worker (workerConfined_frame job).runNode rfl rfl)
  | redeliver index actor job host hasCache present role =>
    have holds := (sound.housed present own).1
    rw [role] at holds
    exact Housed.start holds (keeps_of_worker (workerConfined_frame job).runNode rfl rfl)
  | trip index actor job error present role =>
    have holds := (sound.housed present own).1
    rw [role] at holds
    have same : (Role.trip job).footing = (Role.execution job).footing := rfl
    exact Housed.start (same ▸ holds)
      (keeps_of_worker (workerConfined_frame job).watchdogTrip rfl rfl)

/-- The paths of the broker after an operation on the node tables. -/
theorem Broker.Sound.allHoused (sound : broker.Sound)
    (own : broker.inOwnName (cfg, .node label) = true)
    (stepped : QueueWorkflows.step cfg broker.sys label = some after) :
    AllHoused after.actors
      (Broker.ownersAfter cfg.project broker.owners broker.sys after label) after.store := by
  have tenanted := sound.tenanted own stepped
  have all := sound.paths
  by_cases crashed : ∃ index, label = .crash index
  · obtain ⟨index, rfl⟩ := crashed
    cases stepped
    exact all.crash index
  have owners : Broker.ownersAfter cfg.project broker.owners broker.sys after label =
      if broker.sys.actors.length < after.actors.length then broker.owners ++ [cfg.project]
      else broker.owners := by
    cases label with
    | crash index => exact absurd ⟨index, rfl⟩ crashed
    | _ => rfl
  rw [owners]
  rcases step_cases stepped with ⟨-, same⟩ | ⟨role, prog, starts, spawned⟩ |
    ⟨index, rfl, advanced⟩ | ⟨index, error, rfl, failed⟩ | ⟨index, rfl, -⟩
  · rw [same, if_neg (lt_irrefl _)]
    exact all.later tenanted
  · rw [spawned, if_pos (by simp)]
    exact (all.later tenanted).spawn (sound.housed_start own tenanted starts)
  · obtain ⟨actor, rest, found, moved, actors⟩ := Pool.advance_cases advanced
    rw [actors, if_neg (by simp)]
    refine (all.later tenanted).set fun project owner => ?_
    exact ((all.2 index actor project found owner).step sound.tagged moved).2
  · obtain ⟨actor, rest, found, moved, store, actors⟩ := Pool.blip_cases failed
    rw [actors, if_neg (by simp), store]
    exact all.set fun project owner => (all.2 index actor project found owner).blip moved
  · exact absurd ⟨index, rfl⟩ crashed

end Broker

/-! ### Every history -/

/-- What an operation outside the node tables does to the broker. -/
structure Operated (project : String) (before after : Broker) : Prop where
  store : Confined project before.store after.store
  ingest : IngestConfined project before.nextIngest after.nextIngest before.ingest after.ingest
  fetches : ∀ entry ∈ after.fetches,
    IngestOwned entry.1 entry.2.id before.nextIngest before.ingest
  paths : after.sys.actors = before.sys.actors ∧ after.owners = before.owners

section Histories

variable {cfg : Config} {broker after : Broker} {op : Operation}

theorem Broker.Sound.later (sound : broker.Sound) (tenanted : Tenanted broker.store after.store)
    (ingest : IngestTenanted broker.nextIngest after.nextIngest broker.ingest after.ingest)
    (fetches : ∀ entry ∈ after.fetches,
      IngestOwned entry.1 entry.2.id broker.nextIngest broker.ingest)
    (paths : AllHoused after.sys.actors after.owners after.store) : after.Sound where
  tagged := sound.tagged.later tenanted
  paths := paths
  numbered := ingest.numbered sound.numbered
  fetches entry member := (fetches entry member).later ingest

theorem Operated.sound {project : String} (operated : Operated project broker after)
    (sound : broker.Sound) : after.Sound := by
  refine sound.later operated.store.tenanted operated.ingest.toIngestTenanted operated.fetches ?_
  rw [operated.paths.1, operated.paths.2]
  exact sound.paths.later operated.store.tenanted

theorem Operated.of_commit {α : Type} {project : String} {act : Txn α} (sound : broker.Sound)
    (confined : ∀ {value : α} {db : Db}, act broker.store = .ok (value, db) →
      Confined project broker.store db)
    (done : broker.commit act = some after) : Operated project broker after := by
  obtain ⟨sys, committed, rfl⟩ := Option.map_eq_some_iff.mp done
  obtain ⟨value, written, same⟩ := Sys.commit_cases committed
  exact ⟨confined written, .refl _ _ _, sound.fetches, same, rfl⟩

/-- An operation on the ingest queue alone. -/
theorem Operated.of_ingest {project : String} {table : IngestTable} {next : Nat}
    {fetches : List (String × IngestJob)}
    (ingest : IngestConfined project broker.nextIngest next broker.ingest table)
    (fetched : ∀ entry ∈ fetches,
      IngestOwned entry.1 entry.2.id broker.nextIngest broker.ingest) :
    Operated project broker
      { broker with ingest := table, nextIngest := next, fetches := fetches } :=
  ⟨.refl _ _, ingest, fetched, rfl, rfl⟩

/-- The execution of this index belongs to the client. -/
theorem Broker.Sound.fetched (sound : broker.Sound) {index : Nat} {entry : String × IngestJob}
    (found : broker.fetches[index]? = some entry)
    (own : (broker.fetches[index]?.any fun entry => entry.1 == cfg.project) = true) :
    IngestOwned cfg.project entry.2.id broker.nextIngest broker.ingest := by
  rw [found] at own
  have mine : entry.1 = cfg.project := by simpa using own
  exact mine ▸ sound.fetches entry (List.mem_of_getElem? found)

theorem Broker.Sound.operated (sound : broker.Sound) (own : broker.inOwnName (cfg, op) = true)
    (outside : ∀ label, op ≠ .node label) (bounded : op.reclaims = false)
    (stepped : broker.step (cfg, op) = some after) : Operated cfg.project broker after := by
  have kept {index : Nat} : ∀ entry ∈ broker.fetches.eraseIdx index,
      IngestOwned entry.1 entry.2.id broker.nextIngest broker.ingest :=
    fun entry member => sound.fetches entry (List.mem_of_mem_eraseIdx member)
  unfold Broker.step at stepped
  cases op with
  | node label => exact absurd rfl (outside label)
  | flagStaleWorkers staleAfterS => exact .of_commit sound confined_flagStaleWorkers stepped
  | flagUnassignable staleS => exact .of_commit sound confined_flagUnassignable stepped
  | clearWorkerCurrentModel hostLabel queue =>
    exact .of_commit sound confined_clearWorkerCurrentModel stepped
  | enqueueIngest taskName queue reason priority args =>
    dsimp only at stepped
    cases checked : NodeQueue.checkIngest cfg taskName queue with
    | error error =>
      rw [checked] at stepped
      cases stepped
    | ok =>
      rw [checked] at stepped
      obtain ⟨table, inserted, rfl⟩ := Option.map_eq_some_iff.mp stepped
      exact .of_ingest (ingestConfined_insert rfl rfl inserted) sound.fetches
  | claimIngest claim =>
    obtain ⟨⟨job, table⟩, claimed, rfl⟩ := Option.map_eq_some_iff.mp stepped
    obtain ⟨confined, chosen, present, same, tagged⟩ :=
      ingestConfined_claim claimed
    refine .of_ingest confined fun entry member => ?_
    rcases List.mem_append.mp member with old | last
    · exact sound.fetches entry old
    · rw [List.mem_singleton.mp last, ← same]
      refine ⟨sound.numbered chosen present, fun row there equal => ?_⟩
      rw [broker.ingest.eq_of_clash Eq.symm there present equal]
      exact tagged
  | executeIngest index =>
    obtain ⟨entry, found, rfl⟩ := Option.map_eq_some_iff.mp stepped
    exact .of_ingest (ingestConfined_execute (sound.fetched found own)) kept
  | tripIngest index error =>
    obtain ⟨entry, found, rfl⟩ := Option.map_eq_some_iff.mp stepped
    exact .of_ingest (ingestConfined_failed (sound.fetched found own)) kept
  | renewIngest index leaseS =>
    obtain ⟨entry, found, rfl⟩ := Option.map_eq_some_iff.mp stepped
    exact .of_ingest (ingestConfined_renew (sound.fetched found own)) sound.fetches
  | reclaimIngest => cases bounded
  | requeueIngestForWorker hostLabel queue =>
    dsimp only at stepped
    split at stepped
    · cases stepped
      exact .of_ingest ingestConfined_requeue sound.fetches
    · cases stepped

theorem Broker.Sound.step (sound : broker.Sound) (own : broker.inOwnName (cfg, op) = true)
    (stepped : broker.step (cfg, op) = some after) : after.Sound := by
  by_cases outside : ∀ label, op ≠ .node label
  · by_cases bounded : op.reclaims = false
    · exact (sound.operated own outside bounded stepped).sound sound
    · cases op with
      | reclaimIngest =>
        cases stepped
        exact sound.later (tenanted_refl _) ingestTenanted_reclaim sound.fetches sound.paths
      | node label => exact absurd rfl (outside label)
      | _ => exact absurd rfl bounded
  · push Not at outside
    obtain ⟨label, rfl⟩ := outside
    obtain ⟨sys, moved, rfl⟩ := Option.map_eq_some_iff.mp stepped
    exact sound.later (sound.tenanted own moved) (IngestConfined.refl "" _ _).toIngestTenanted
      sound.fetches (sound.allHoused own moved)

theorem Broker.sound_empty : Broker.empty.Sound where
  tagged := ⟨by simp [Broker.store, Broker.empty, Sys.empty, Db.empty],
    by simp [Broker.store, Broker.empty, Sys.empty, Db.empty],
    by simp [Broker.store, Broker.empty, Sys.empty, Db.empty],
    by simp [Broker.store, Broker.empty, Sys.empty, Db.empty],
    by simp [Broker.store, Broker.empty, Sys.empty, Db.empty]⟩
  paths := ⟨rfl, fun _ _ _ found => by cases found⟩
  numbered _ member := by cases member
  fetches _ member := by cases member

theorem Broker.reach_sound (reached : Reach Broker.step Broker.inOwnName Broker.empty broker) :
    broker.Sound :=
  reached.invariant Broker.sound_empty fun _ (_, _) _ sound own stepped => sound.step own stepped

end Histories

/-! ### The rows of another project -/

section Views

variable {cfg : Config} {project other : String} {broker after : Broker} {op : Operation}

/-- Rows that are not the project's include those of the other. -/
theorem filter_of_spared {α : Type} {tag : α → String} {rows later : List α}
    (apart : other ≠ project)
    (spared : later.filter (fun row => tag row != project) =
      rows.filter fun row => tag row != project) :
    later.filter (fun row => tag row == other) = rows.filter fun row => tag row == other := by
  have within : ∀ list : List α, list.filter (fun row => tag row == other) =
      (list.filter fun row => tag row != project).filter fun row => tag row == other := by
    intro list
    rw [List.filter_filter]
    apply List.filter_congr
    intro row _
    by_cases theirs : tag row = other
    · simp [theirs, apart]
    · simp [theirs]
  rw [within later, spared, ← within rows]

theorem Confined.runsOf {before after : Db} (confined : Confined project before after)
    (apart : other ≠ project) :
    after.runs.rows.filter (fun run => run.project == other) =
      before.runs.rows.filter fun run => run.project == other := by
  obtain ⟨change, rows, keeps⟩ := confined.runs
  have selects : (fun run : RunRow => run.project == other) ∘ change =
      fun run => run.project == other := by
    funext run
    simp only [Function.comp_apply, (keeps run).2.1]
  rw [rows, List.filter_map, selects]
  conv_rhs => rw [← List.map_id (before.runs.rows.filter _)]
  apply List.map_congr_left
  intro run member
  have theirs : run.project = other := by simpa using (List.mem_filter.mp member).2
  exact (keeps run).2.2 (theirs ▸ apart)

/-- A log of the runs, seen through the runs of the other project. -/
theorem Confined.logOf {before after : Db} (confined : Confined project before after)
    (apart : other ≠ project) {α : Type} {number : α → Nat} {owner : α → String}
    {first last : Nat} {rows later : List α}
    (grows : Relational.Grows number owner (fun runId => Owns project runId before) first last
      rows later) :
    later.filter (fun row => (after.run? (owner row)).any fun run => run.project == other) =
      rows.filter fun row => (before.run? (owner row)).any fun run => run.project == other := by
  have same : ∀ runId, ((after.run? runId).any fun run => run.project == other) =
      (before.run? runId).any fun run => run.project == other := by
    intro runId
    rw [Bool.eq_iff_iff, ← QueueWorkflows.owns_iff, ← QueueWorkflows.owns_iff]
    exact confined.owns_iff
  simp only [same]
  refine grows.filter_eq (fun runId => (before.run? runId).any fun run => run.project == other)
    fun runId theirs mine => ?_
  exact apart ((QueueWorkflows.owns_iff.mpr theirs).unique mine)

/-- What a process of one project does is not seen in the rows of another. -/
theorem rowsOf_confined (apart : other ≠ project)
    (confined : Confined project broker.store after.store)
    (spared : after.ingest.rows.filter (fun row => row.project != project) =
      broker.ingest.rows.filter fun row => row.project != project) :
    rowsOf other after = rowsOf other broker :=
  Rows.ext (confined.runsOf apart) (filter_of_spared apart confined.jobs)
    (confined.logOf apart confined.events) (confined.logOf apart confined.submissions)
    (filter_of_spared apart confined.heartbeats) (filter_of_spared apart spared)

/-- The project's own runs suffice to look up the run of one of its rows. -/
theorem parent?_rowsOf {job : NodeJob} (owns : Owns other job.runId broker.store) :
    (rowsOf other broker).parent? job = broker.store.run? job.runId := by
  obtain ⟨run, member, named, tagged⟩ := owns
  have listed : run ∈ (rowsOf other broker).runs :=
    List.mem_filter.mpr ⟨member, by simpa using tagged⟩
  rw [← named, Db.run?_of_mem member]
  cases found : (rowsOf other broker).parent? job with
  | none => simpa [named] using List.find?_eq_none.mp found run listed
  | some first =>
    have present := List.mem_of_mem_filter (List.mem_of_find?_eq_some found)
    have same : first.id = job.runId := by simpa using List.find?_some found
    rw [broker.store.runs.eq_of_clash Eq.symm present member (same.trans named.symm)]

theorem filter_map_tagged {α : Type} {tag : α → String} {change change' : α → α} {rows : List α}
    (tagged : ∀ row, tag (change row) = tag row)
    (same : ∀ row ∈ rows, tag row = other → change row = change' row) :
    (rows.map change).filter (fun row => tag row == other) =
      (rows.filter fun row => tag row == other).map change' := by
  have selects : (fun row => tag row == other) ∘ change = fun row => tag row == other := by
    funext row
    simp only [Function.comp_apply, tagged row]
  rw [List.filter_map, selects]
  apply List.map_congr_left
  intro row member
  obtain ⟨present, theirs⟩ := List.mem_filter.mp member
  exact same row present (by simpa using theirs)

/-- Whoever reclaims lapsed leases does to a project's rows what is done on them alone. -/
theorem rowsOf_reclaimExpired (sound : broker.Sound)
    (stepped : broker.step (cfg, .node .reclaimExpired) = some after) :
    rowsOf other after = (rowsOf other broker).reclaimLeases broker.store.clock ∧
      after.store.clock = broker.store.clock := by
  unfold Broker.step at stepped
  obtain ⟨sys, moved, rfl⟩ := Option.map_eq_some_iff.mp stepped
  unfold QueueWorkflows.step at moved
  obtain ⟨_, done, -⟩ := Sys.commit_cases moved
  obtain ⟨db, actors⟩ := sys
  dsimp only at done
  cases done
  refine ⟨Rows.ext rfl (filter_map_tagged (fun job => ?_) fun job member theirs => ?_) rfl rfl rfl
    rfl, rfl⟩
  · split
    · exact reclaimed_project job
    · rfl
  · have owns : Owns other job.runId broker.store := theirs ▸ (sound.tagged.rows job member).2
    simp only [parent?_rowsOf owns]
    rfl

theorem rowsOf_reclaimIngest (stepped : broker.step (cfg, .reclaimIngest) = some after) :
    rowsOf other after = (rowsOf other broker).reclaimIngest broker.store.clock ∧
      after.store.clock = broker.store.clock := by
  cases stepped
  refine ⟨Rows.ext rfl rfl rfl rfl rfl (filter_map_tagged (fun job => ?_) fun _ _ _ => rfl), rfl⟩
  split <;> rfl

/-- One operation of a project's engine, or of time, in the rows of another project. -/
theorem rowsOf_step (sound : broker.Sound) (apart : other ≠ project)
    (acts : broker.actsFor project (cfg, op) = true)
    (stepped : broker.step (cfg, op) = some after) (rest : List Operation) :
    (rowsOf other after).reclaimedAlong after.store.clock rest =
      (rowsOf other broker).reclaimedAlong broker.store.clock (op :: rest) := by
  simp only [Broker.actsFor, Bool.and_eq_true, beq_iff_eq, Bool.or_eq_true] at acts
  obtain ⟨⟨own, rfl⟩, acts⟩ := acts
  -- Nothing is left of an operation that is neither a reclaim nor the clock's.
  have silent (confined : Confined cfg.project broker.store after.store)
      (spared : after.ingest.rows.filter (fun row => row.project != cfg.project) =
        broker.ingest.rows.filter fun row => row.project != cfg.project)
      (along : (rowsOf other broker).reclaimedAlong broker.store.clock (op :: rest) =
        (rowsOf other broker).reclaimedAlong broker.store.clock rest) :
      (rowsOf other after).reclaimedAlong after.store.clock rest =
        (rowsOf other broker).reclaimedAlong broker.store.clock (op :: rest) := by
    rw [along, rowsOf_confined apart confined spared, confined.clock]
  by_cases bounded : op.reclaims = false
  · by_cases outside : ∀ label, op ≠ .node label
    · have operated := sound.operated own outside bounded stepped
      refine silent operated.store operated.ingest.spared ?_
      cases op with
      | node label => exact absurd rfl (outside label)
      | reclaimIngest => cases bounded
      | _ => rfl
    · push Not at outside
      obtain ⟨label, rfl⟩ := outside
      unfold Broker.step at stepped
      obtain ⟨sys, moved, rfl⟩ := Option.map_eq_some_iff.mp stepped
      rcases acts with engine | ticks
      · refine silent (sound.confined own engine bounded moved) rfl ?_
        cases label with
        | clock now => cases engine
        | reclaimExpired => cases bounded
        | _ => rfl
      · cases label with
        | clock now =>
          unfold QueueWorkflows.step at moved
          dsimp only at moved
          split at moved
          · cases moved
            rfl
          · cases moved
        | _ => cases ticks
  · cases op with
    | node label =>
      cases label with
      | reclaimExpired =>
        obtain ⟨rows, clock⟩ := rowsOf_reclaimExpired sound stepped
        rw [rows, clock]
        rfl
      | _ => exact absurd rfl bounded
    | reclaimIngest =>
      obtain ⟨rows, clock⟩ := rowsOf_reclaimIngest stepped
      rw [rows, clock]
      rfl
    | _ => exact absurd rfl bounded

/-- A sequence of them. -/
theorem rowsOf_follow {history : List (Config × Operation)} (sound : broker.Sound)
    (apart : other ≠ project)
    (followed : Transaction.follow Broker.step (Broker.actsFor project) broker history =
      some after) :
    rowsOf other after =
      (rowsOf other broker).reclaimedAlong broker.store.clock (history.map Prod.snd) := by
  induction history generalizing broker with
  | nil =>
    cases followed
    rfl
  | cons client history ih =>
    obtain ⟨cfg, op⟩ := client
    simp only [Transaction.follow] at followed
    split at followed
    · rename_i acts
      obtain ⟨between, stepped, rest⟩ := Option.bind_eq_some_iff.mp followed
      have own : broker.inOwnName (cfg, op) = true := by
        simp only [Broker.actsFor, Bool.and_eq_true] at acts
        exact acts.1.1
      rw [ih (sound.step own stepped) rest, rowsOf_step sound apart acts stepped]
      rfl
    · cases followed

/-- Without a reclaim nothing is left. -/
theorem Rows.reclaimedAlong_silent {rows : Rows} {now : Time} {ops : List Operation}
    (none : ∀ op ∈ ops, op.reclaims = false) : rows.reclaimedAlong now ops = rows := by
  induction ops generalizing now with
  | nil => rfl
  | cons op rest ih =>
    have onward : ∀ later, rows.reclaimedAlong later rest = rows := fun _ =>
      ih fun other member => none other (List.mem_cons_of_mem _ member)
    have bounded := none op List.mem_cons_self
    cases op with
    | node label =>
      cases label with
      | reclaimExpired => cases bounded
      | clock later => exact onward later
      | _ => exact onward now
    | reclaimIngest => cases bounded
    | _ => exact onward now

/-- Whatever all clients did before: of any sequence of one project's engine operations,
only the reclaims are left in the rows of another project, each as on that project's rows
alone, which is what its own reclaim does to them. -/
theorem projects_do_not_interfere
    (reached : Reach Broker.step Broker.inOwnName Broker.empty broker) (apart : other ≠ project) :
    (∀ (history : List (Config × Operation)) (after : Broker),
      Transaction.follow Broker.step (Broker.actsFor project) broker history = some after →
        rowsOf other after =
            (rowsOf other broker).reclaimedAlong broker.store.clock (history.map Prod.snd) ∧
          ((∀ client ∈ history, client.2.reclaims = false) →
            rowsOf other after = rowsOf other broker)) ∧
      ∀ (own : Config) (op : Operation) (after : Broker), own.project = other →
        op.reclaims = true → broker.step (own, op) = some after →
          rowsOf other after = (rowsOf other broker).reclaimed broker.store.clock op := by
  have sound := Broker.reach_sound reached
  constructor
  · intro history after followed
    have rows := rowsOf_follow sound apart followed
    refine ⟨rows, fun bounded => ?_⟩
    rw [rows]
    apply Rows.reclaimedAlong_silent
    intro op member
    obtain ⟨client, listed, rfl⟩ := List.mem_map.mp member
    exact bounded client listed
  · intro own op after _ reclaims stepped
    cases op with
    | node label =>
      cases label with
      | reclaimExpired => exact (rowsOf_reclaimExpired sound stepped).1
      | _ => cases reclaims
    | reclaimIngest => exact (rowsOf_reclaimIngest stepped).1
    | _ => cases reclaims

end Views

/-! ### A sample -/

namespace Sample

def north : Config := { config with project := "north" }

def south : Config := { config with project := "south" }

/-- A run of `south` has an executor whose lease lapses. -/
def abandoned : List (Config × Operation) :=
  List.flatten [
    [(south, .node (.insertRun { run with project := "south" })), (south, .node (.expand host 2))],
    List.replicate 7 (south, .node (.advance 0)),
    [(south, .node (.claimCpu { host := "s", project := "south" } host false)),
      (south, .node (.clock (seconds 3600)))]]

/-- What `north` does on a boot. -/
def boot : List (Config × Operation) :=
  [(north, .node .reclaimAllRunning), (north, .node .reenqueueRuns), (north, .node .cancelOrphaned),
    (north, .node .reclaimExpired), (north, .node (.expand host 2)), (north, .flagUnassignable 90)]

def shared : Broker :=
  (Transaction.follow Broker.step Broker.inOwnName Broker.empty abandoned).getD Broker.empty

def booted : Broker :=
  (Transaction.follow Broker.step (Broker.actsFor "north") shared boot).getD Broker.empty

end Sample

theorem boot_of_another_project :
    ((rowsOf "south" Sample.shared).jobs.map NodeJob.status = [.running, .queued] ∧
      (rowsOf "south" Sample.booted).jobs.map NodeJob.status = [.queued, .queued]) ∧
    rowsOf "south" Sample.booted =
      (rowsOf "south" Sample.shared).reclaimLeases Sample.shared.store.clock := by
  have able : (Transaction.follow Broker.step Broker.inOwnName Broker.empty
      Sample.abandoned).isSome = true := by decide +kernel
  have boots : (Transaction.follow Broker.step (Broker.actsFor "north") Sample.shared
      Sample.boot).isSome = true := by decide +kernel
  obtain ⟨after, followed⟩ := Option.isSome_iff_exists.mp boots
  have booted : Sample.booted = after := by simp [Sample.booted, followed]
  refine ⟨⟨by decide +kernel, by decide +kernel⟩, ?_⟩
  have reached := Reach.follow_getD Sample.abandoned able
  rw [booted]
  exact ((projects_do_not_interfere reached (by decide)).1 Sample.boot after followed).1

end QueueWorkflows
