import QueueWorkflows.Base.Journal
import QueueWorkflows.Base.Outline
import QueueWorkflows.Engine.Broker
import QueueWorkflows.Engine.Evolution

/-! Whose rows a statement touches. A process of one project selects its work by the
project column, its own or that of the parent run; from there on its statements go by
run, row, event and submission ids. `Confined` is what such a process may do to the
tables, `Tenanted` what any client of the broker may. -/

namespace QueueWorkflows

open Relational (Grows)

/-- The run exists and is the project's. -/
def Owns (project runId : String) (db : Db) : Prop :=
  ∃ run ∈ db.runs.rows, run.id = runId ∧ run.project = project

theorem owns_iff {project runId : String} {db : Db} :
    Owns project runId db ↔ ((db.run? runId).any fun run => run.project == project) = true := by
  constructor
  · rintro ⟨run, member, rfl, rfl⟩
    rw [Db.run?_of_mem member]
    simp
  · intro found
    obtain ⟨run, row, same⟩ := (Option.any_eq_true _ _).mp found
    obtain ⟨member, named⟩ := Db.run?_mem row
    exact ⟨run, member, named, by simpa using same⟩

theorem Owns.unique {project other runId : String} {db : Db} (owns : Owns project runId db)
    (also : Owns other runId db) : project = other := by
  obtain ⟨run, member, named, rfl⟩ := owns
  obtain ⟨row, present, same, rfl⟩ := also
  rw [db.runs.eq_of_clash Eq.symm member present (named.trans same.symm)]

theorem Owns.project {project runId : String} {db : Db} (owns : Owns project runId db)
    {run : RunRow} (found : db.run? runId = some run) : run.project = project := by
  obtain ⟨member, named⟩ := Db.run?_mem found
  exact Owns.unique ⟨run, member, named, rfl⟩ owns

/-- The row is one that was there before, in its cell and under its tag. -/
def Continues (db : Db) (job : NodeJob) : Prop :=
  ∃ old ∈ db.jobs.rows, old.id = job.id ∧ old.runId = job.runId ∧ old.project = job.project

/-- What any client does to the tables: runs stay and keep their project, a new row is
tagged with the project of its run, and the two logs only grow. -/
structure Tenanted (before after : Db) : Prop where
  present : ∀ run ∈ before.runs.rows, ∃ now ∈ after.runs.rows,
    now.id = run.id ∧ now.project = run.project
  sequence : before.nextJob ≤ after.nextJob
  rows : ∀ job ∈ after.jobs.rows, Continues before job ∨
    before.nextJob ≤ job.id ∧ job.id < after.nextJob ∧ Owns job.project job.runId after
  events : Grows DispatchEvent.id DispatchEvent.runId (fun _ => True) before.nextEvent
    after.nextEvent before.events after.events
  submissions : Grows InputSubmission.id InputSubmission.runId (fun _ => True)
    before.submissions.length after.submissions.length before.submissions after.submissions

/-- What a process of the project does to them: it changes, adds or deletes rows of the
project only, and events and submissions of the project's runs only. -/
structure Confined (project : String) (before after : Db) : Prop where
  clock : after.clock = before.clock
  runs : ∃ change : RunRow → RunRow, after.runs.rows = before.runs.rows.map change ∧
    ∀ run, (change run).id = run.id ∧ (change run).project = run.project ∧
      (run.project ≠ project → change run = run)
  sequence : before.nextJob ≤ after.nextJob
  rows : ∀ job ∈ after.jobs.rows, Continues before job ∨
    before.nextJob ≤ job.id ∧ job.id < after.nextJob ∧ Owns job.project job.runId before
  jobs : after.jobs.rows.filter (fun job => job.project != project) =
    before.jobs.rows.filter fun job => job.project != project
  events : Grows DispatchEvent.id DispatchEvent.runId (fun runId => Owns project runId before)
    before.nextEvent after.nextEvent before.events after.events
  submissions : Grows InputSubmission.id InputSubmission.runId
    (fun runId => Owns project runId before)
    before.submissions.length after.submissions.length before.submissions after.submissions
  heartbeats : after.heartbeats.filter (fun beat => beat.project != project) =
    before.heartbeats.filter fun beat => beat.project != project

section Relations

variable {project : String} {before between after db : Db}

theorem Tenanted.owns (tenanted : Tenanted before after) {runId : String}
    (owns : Owns project runId before) : Owns project runId after := by
  obtain ⟨run, member, named, tagged⟩ := owns
  obtain ⟨now, stays, same, kept⟩ := tenanted.present run member
  exact ⟨now, stays, same.trans named, kept.trans tagged⟩

theorem Confined.owns_iff (confined : Confined project before after) {other runId : String} :
    Owns other runId after ↔ Owns other runId before := by
  obtain ⟨change, rows, keeps⟩ := confined.runs
  constructor
  · rintro ⟨run, member, named, tagged⟩
    rw [rows] at member
    obtain ⟨old, present, rfl⟩ := List.mem_map.mp member
    obtain ⟨same, kept, -⟩ := keeps old
    exact ⟨old, present, same.symm.trans named, kept.symm.trans tagged⟩
  · rintro ⟨run, member, named, tagged⟩
    refine ⟨change run, ?_, (keeps run).1.trans named, (keeps run).2.1.trans tagged⟩
    rw [rows]
    exact List.mem_map_of_mem member

theorem Confined.tenanted (confined : Confined project before after) :
    Tenanted before after where
  present run member := by
    obtain ⟨change, rows, keeps⟩ := confined.runs
    refine ⟨change run, ?_, (keeps run).1, (keeps run).2.1⟩
    rw [rows]
    exact List.mem_map_of_mem member
  sequence := confined.sequence
  rows job member := by
    rcases confined.rows job member with old | ⟨low, high, owns⟩
    · exact .inl old
    · exact .inr ⟨low, high, confined.owns_iff.mpr owns⟩
  events := confined.events.mono fun _ _ => trivial
  submissions := confined.submissions.mono fun _ _ => trivial

theorem Confined.trans (early : Confined project before between)
    (late : Confined project between after) : Confined project before after where
  clock := late.clock.trans early.clock
  runs := by
    obtain ⟨change, rows, keeps⟩ := early.runs
    obtain ⟨change', rows', keeps'⟩ := late.runs
    refine ⟨change' ∘ change, by rw [rows', rows, List.map_map], fun run => ?_⟩
    obtain ⟨same, tagged, spared⟩ := keeps run
    obtain ⟨same', tagged', spared'⟩ := keeps' (change run)
    refine ⟨same'.trans same, tagged'.trans tagged, fun foreign => ?_⟩
    rw [Function.comp_apply, spared' (tagged ▸ foreign), spared foreign]
  sequence := early.sequence.trans late.sequence
  rows job member := by
    rcases late.rows job member with ⟨old, present, id, run, tag⟩ | ⟨low, high, owns⟩
    · rcases early.rows old present with ⟨first, there, id', run', tag'⟩ | ⟨low, high, owns⟩
      · exact .inl ⟨first, there, id'.trans id, run'.trans run, tag'.trans tag⟩
      · rw [← id, ← run, ← tag]
        exact .inr ⟨low, high.trans_le late.sequence, owns⟩
    · exact .inr ⟨early.sequence.trans low, high, early.owns_iff.mp owns⟩
  jobs := late.jobs.trans early.jobs
  events := early.events.trans (late.events.mono fun _ owns => early.owns_iff.mp owns)
  submissions := early.submissions.trans
    (late.submissions.mono fun _ owns => early.owns_iff.mp owns)
  heartbeats := late.heartbeats.trans early.heartbeats

theorem Confined.refl (project : String) (db : Db) : Confined project db db where
  clock := rfl
  runs := ⟨id, by simp, fun _ => ⟨rfl, rfl, fun _ => rfl⟩⟩
  sequence := le_rfl
  rows job member := .inl ⟨job, member, rfl, rfl, rfl⟩
  jobs := rfl
  events := .refl _ _ _
  submissions := .refl _ _ _
  heartbeats := rfl

/-! ### Statements -/

/-- A foreign row is left alone by an update that selects the project's rows. -/
theorem filter_update {α : Type} {keep selects : α → Bool} {change : α → α}
    {rows : List α} (own : ∀ row ∈ rows, selects row = true → keep row = false)
    (kept : ∀ row, keep (change row) = keep row) :
    (rows.map fun row => if selects row then change row else row).filter keep =
      rows.filter keep := by
  induction rows with
  | nil => rfl
  | cons row rest ih =>
    have others := ih fun other member => own other (List.mem_cons_of_mem _ member)
    rw [List.map_cons, List.filter_cons, List.filter_cons, others]
    by_cases selected : selects row = true
    · simp [selected, kept, own row List.mem_cons_self selected]
    · simp [selected]

theorem confined_updateJobs {selects : NodeJob → Bool} {change : NodeJob → NodeJob}
    {keeps : ∀ job, (change job).key = job.key}
    (own : ∀ job ∈ db.jobs.rows, selects job = true → job.project = project)
    (tagged : ∀ job, (change job).project = job.project) :
    Confined project db { db with jobs := db.jobs.update selects change keeps } := by
  refine { Confined.refl project db with rows := fun job member => .inl ?_, jobs := ?_ }
  · obtain ⟨old, present, rfl⟩ := List.mem_map.mp member
    refine ⟨old, present, ?_⟩
    split
    · exact ⟨congrArg Prod.fst (keeps old).symm, congrArg (·.2.1) (keeps old).symm,
        (tagged old).symm⟩
    · exact ⟨rfl, rfl, rfl⟩
  · refine filter_update (fun job member selected => ?_) fun job => ?_
    · simp [own job member selected]
    · rw [tagged]

theorem confined_deleteJobs {selects : NodeJob → Bool}
    (own : ∀ job ∈ db.jobs.rows, selects job = true → job.project = project) :
    Confined project db { db with jobs := db.jobs.delete selects } := by
  refine { Confined.refl project db with rows := fun job member => .inl ?_, jobs := ?_ }
  · exact ⟨job, List.mem_of_mem_filter member, rfl, rfl, rfl⟩
  · simp only [Relational.Table.rows_delete, List.filter_filter]
    apply List.filter_congr
    intro job member
    by_cases selected : selects job = true
    · simp [own job member selected]
    · simp [selected]

theorem confined_insertJob {job : Nat → Time → NodeJob} {id : Nat}
    (numbered : ∀ id now, (job id now).id = id)
    (tagged : (job db.nextJob db.clock).project = project)
    (owns : Owns project (job db.nextJob db.clock).runId db)
    (done : NodeQueue.insertJob job db = .ok (id, after)) : Confined project db after := by
  simp only [NodeQueue.insertJob] at done
  split at done
  · cases done
  · split at done
    · cases done
    · rename_i jobs inserted
      cases done
      have rows := Relational.Table.rows_insert? inserted
      refine { Confined.refl project db with
        sequence := Nat.le_succ _, rows := fun other member => ?_, jobs := ?_ }
      · dsimp only at member ⊢
        rw [rows] at member
        rcases List.mem_append.mp member with old | last
        · exact .inl ⟨other, old, rfl, rfl, rfl⟩
        · rw [List.mem_singleton.mp last, numbered, tagged]
          exact .inr ⟨le_rfl, Nat.lt_succ_self _, owns⟩
      · dsimp only
        rw [rows, List.filter_append]
        simp [tagged]

theorem confined_updateRuns {selects : RunRow → Bool} {change : RunRow → RunRow}
    {keeps : ∀ run, (change run).id = run.id}
    (own : ∀ run ∈ db.runs.rows, selects run = true → run.project = project)
    (tagged : ∀ run, (change run).project = run.project) :
    Confined project db { db with runs := db.runs.update selects change keeps } := by
  refine { Confined.refl project db with runs := ?_ }
  refine ⟨fun run => if selects run = true ∧ run.project = project then change run else run,
    ?_, fun run => ?_⟩
  · rw [Relational.Table.rows_update]
    apply List.map_congr_left
    intro run member
    by_cases selected : selects run = true
    · simp [selected, own run member selected]
    · simp [selected]
  · by_cases both : selects run = true ∧ run.project = project
    · simp only [if_pos both]
      exact ⟨keeps run, tagged run, fun foreign => absurd both.2 foreign⟩
    · simp [both]

theorem confined_events {events : List DispatchEvent} {next : Nat}
    (grows : Grows DispatchEvent.id DispatchEvent.runId (fun runId => Owns project runId db)
      db.nextEvent next db.events events) :
    Confined project db { db with events := events, nextEvent := next } :=
  { Confined.refl project db with events := grows }

theorem confined_submissions {change : InputSubmission → InputSubmission}
    (keeps : ∀ row, (change row).id = row.id ∧ (change row).runId = row.runId)
    (spares : ∀ row ∈ db.submissions, ¬ Owns project row.runId db → change row = row) :
    Confined project db { db with submissions := db.submissions.map change } := by
  refine { Confined.refl project db with submissions := ?_ }
  dsimp only
  rw [List.length_map]
  exact .of_map _ keeps spares

theorem confined_heartbeats {beats : List WorkerHeartbeat}
    (spared : beats.filter (fun beat => beat.project != project) =
      db.heartbeats.filter fun beat => beat.project != project) :
    Confined project db { db with heartbeats := beats } :=
  { Confined.refl project db with heartbeats := spared }

end Relations

/-! ### What a process holds on to -/

/-- Every row is tagged with the project of its run, and each table is numbered by its
sequence. -/
structure WellTagged (db : Db) : Prop where
  rows : ∀ job ∈ db.jobs.rows, job.id < db.nextJob ∧ Owns job.project job.runId db
  eventsBelow : ∀ event ∈ db.events, event.id < db.nextEvent
  eventsApart : (db.events.map DispatchEvent.id).Nodup
  submissionsBelow : ∀ row ∈ db.submissions, row.id < db.submissions.length
  submissionsApart : (db.submissions.map InputSubmission.id).Nodup

def RowOwned (project : String) (jobId : Nat) (db : Db) : Prop :=
  jobId < db.nextJob ∧ ∀ row ∈ db.jobs.rows, row.id = jobId → row.project = project

def EventOwned (project : String) (eventId : Nat) (db : Db) : Prop :=
  eventId < db.nextEvent ∧ ∀ event ∈ db.events, event.id = eventId → Owns project event.runId db

def SubmissionOwned (project : String) (subId : Nat) (db : Db) : Prop :=
  subId < db.submissions.length ∧
    ∀ row ∈ db.submissions, row.id = subId → Owns project row.runId db

/-- The runs, rows, events and submissions a path was started for. -/
structure Footing where
  runs : String → Prop := fun _ => False
  rows : Nat → Prop := fun _ => False
  events : Nat → Prop := fun _ => False
  submissions : Nat → Prop := fun _ => False

/-- All of them are the project's. -/
structure Footing.Holds (footing : Footing) (project : String) (db : Db) : Prop where
  runs : ∀ runId, footing.runs runId → Owns project runId db
  rows : ∀ jobId, footing.rows jobId → RowOwned project jobId db
  events : ∀ eventId, footing.events eventId → EventOwned project eventId db
  submissions : ∀ subId, footing.submissions subId → SubmissionOwned project subId db

section Stable

variable {project : String} {before after : Db}

theorem RowOwned.later {jobId : Nat} (tenanted : Tenanted before after)
    (owned : RowOwned project jobId before) : RowOwned project jobId after := by
  obtain ⟨used, own⟩ := owned
  refine ⟨used.trans_le tenanted.sequence, fun row member same => ?_⟩
  rcases tenanted.rows row member with ⟨old, present, id, -, tag⟩ | ⟨fresh, -, -⟩
  · exact tag ▸ own old present (id.trans same)
  · omega

/-- A numbered row of a log stays the project's. -/
private theorem owned_later {α : Type} {number : α → Nat} {owner : α → String} {first last : Nat}
    {rows later : List α} {sought : Nat} (tenanted : Tenanted before after)
    (grows : Grows number owner (fun _ => True) first last rows later)
    (owned : sought < first ∧ ∀ row ∈ rows, number row = sought → Owns project (owner row) before) :
    sought < last ∧ ∀ row ∈ later, number row = sought → Owns project (owner row) after := by
  obtain ⟨used, own⟩ := owned
  refine ⟨?_, fun row member same => ?_⟩
  · obtain ⟨-, -, -, -, -, -, ordered⟩ := grows
    exact used.trans_le ordered
  · rcases grows.mem member with ⟨old, present, id, run⟩ | ⟨fresh, -, -⟩
    · exact tenanted.owns (run ▸ own old present (id.trans same))
    · omega

theorem EventOwned.later {eventId : Nat} (tenanted : Tenanted before after)
    (owned : EventOwned project eventId before) : EventOwned project eventId after :=
  owned_later tenanted tenanted.events owned

theorem SubmissionOwned.later {subId : Nat} (tenanted : Tenanted before after)
    (owned : SubmissionOwned project subId before) : SubmissionOwned project subId after :=
  owned_later tenanted tenanted.submissions owned

theorem Footing.Holds.later {footing : Footing} (tenanted : Tenanted before after)
    (holds : footing.Holds project before) : footing.Holds project after where
  runs runId mine := tenanted.owns (holds.runs runId mine)
  rows jobId mine := (holds.rows jobId mine).later tenanted
  events eventId mine := (holds.events eventId mine).later tenanted
  submissions subId mine := (holds.submissions subId mine).later tenanted

theorem WellTagged.later (tenanted : Tenanted before after) (tagged : WellTagged before) :
    WellTagged after where
  rows job member := by
    rcases tenanted.rows job member with ⟨old, present, id, run, tag⟩ | ⟨-, high, owns⟩
    · obtain ⟨used, owns⟩ := tagged.rows old present
      rw [← id, ← run, ← tag]
      exact ⟨used.trans_le tenanted.sequence, tenanted.owns owns⟩
    · exact ⟨high, owns⟩
  eventsBelow := tenanted.events.numbered tagged.eventsBelow
  eventsApart := tenanted.events.nodup tagged.eventsBelow tagged.eventsApart
  submissionsBelow := tenanted.submissions.numbered tagged.submissionsBelow
  submissionsApart := tenanted.submissions.nodup tagged.submissionsBelow tagged.submissionsApart

/-- The rows of a run of the project are the project's. -/
theorem WellTagged.own {db : Db} (tagged : WellTagged db) {job : NodeJob}
    (member : job ∈ db.jobs.rows) (owns : Owns project job.runId db) : job.project = project :=
  (tagged.rows job member).2.unique owns

theorem WellTagged.rowOwned {db : Db} (tagged : WellTagged db) {job : NodeJob}
    (member : job ∈ db.jobs.rows) : RowOwned job.project job.id db := by
  refine ⟨(tagged.rows job member).1, fun row present same => ?_⟩
  rw [Db.eq_of_id present member same]

theorem WellTagged.eventOwned {db : Db} (tagged : WellTagged db) {event : DispatchEvent}
    (member : event ∈ db.events) (owns : Owns project event.runId db) :
    EventOwned project event.id db := by
  refine ⟨tagged.eventsBelow event member, fun other present same => ?_⟩
  rw [List.inj_on_of_nodup_map tagged.eventsApart present member same]
  exact owns

theorem WellTagged.submissionOwned {db : Db} (tagged : WellTagged db) {row : InputSubmission}
    (member : row ∈ db.submissions) (owns : Owns project row.runId db) :
    SubmissionOwned project row.id db := by
  refine ⟨tagged.submissionsBelow row member, fun other present same => ?_⟩
  rw [List.inj_on_of_nodup_map tagged.submissionsApart present member same]
  exact owns

end Stable

end QueueWorkflows
