import QueueWorkflows.Backend.Lifecycle
import QueueWorkflows.Backend.Mongo

/-! Both row stores keep every job within its life cycle, whatever is called: the
status that a statement relies on is in the row it updates. -/

namespace QueueWorkflows.Backend

def anyCall {σ ι : Type} (_ : σ) (_ : ι) : Bool := true

theorem Job.status_lapsed {queue : Option String} {now : Int} {row : Job}
    (lapsed : row.lapsed queue now = true) : row.status = .running := by
  simp only [Job.lapsed, Bool.and_eq_true, beq_iff_eq] at lapsed
  exact lapsed.1.1

@[simp] theorem Job.lapsed_release (queue : Option String) (cutoff now : Int) (row : Job) :
    (row.release now).lapsed queue cutoff = false := rfl

/-- A row that is not terminal, put back in the queue. -/
theorem Job.release_turn (recovers : Bool) (now : Int) (row : Job)
    (live : row.status.terminal = false) (recovering : recovers = true) :
    (row.release now).result = row.result ∧ ((row.release now).status = row.status ∨
      row.status = .running ∧ (row.release now).status = .queued ∧ recovers = true) := by
  refine ⟨rfl, ?_⟩
  cases status : row.status with
  | queued => exact .inl rfl
  | running => exact .inr ⟨rfl, rfl, recovering⟩
  | completed => simp [status, Status.terminal] at live
  | failed => simp [status, Status.terminal] at live

section Life

variable {σ ι : Type} {port : Port σ ι} {state : σ} {step : ι} {jobId : String}

/-- A claim that found `chosen` in the queue. -/
theorem Life.started {worker : String} {leaseS now : Int} {chosen : Job}
    (found : port.get state chosen.id = some chosen) (queued : chosen.status = .queued)
    (own : ∀ row, port.get state jobId = some row → row.id = jobId)
    (seen : port.get (port.after state step) jobId = (port.get state jobId).map fun row =>
      if row.id == chosen.id then row.start worker leaseS now else row)
    (admits : port.admits state step jobId = false)
    (hands : port.hands state step jobId = (chosen.id == jobId))
    (silent : port.outbox (port.after state step) jobId = port.outbox state jobId) :
    Life port state step jobId := by
  by_cases mine : chosen.id = jobId
  · subst mine
    refine .handed chosen.result ?_ ?_ admits silent
    · simp [Port.standing, found, queued]
    · simp [Port.standing, seen, found, Job.start]
  · refine .untouched ?_ admits (by rw [hands]; simpa using mine) silent
    rw [seen]
    cases stored : port.get state jobId with
    | none => rfl
    | some row => simp [own row stored, Ne.symm mine]

/-- A terminal call: it ends its job if it finds it open, and only then may write
an event, for that job. -/
theorem Life.ended (ending : Ending) (now : Int)
    (seen : port.get (port.after state step) jobId = (port.get state jobId).map fun row =>
      if row.id == ending.jobId && !row.status.terminal then row.finish ending now else row)
    (admits : port.admits state step jobId = false)
    (hands : port.hands state step jobId = false)
    (written : port.outbox (port.after state step) jobId = port.outbox state jobId ∨
      (∃ row, port.get state jobId = some row ∧ row.id = ending.jobId ∧
        row.status.terminal = false) ∧
      (port.outbox (port.after state step) jobId).length ≤
        (port.outbox state jobId).length + 1) : Life port state step jobId := by
  by_cases open_ : ∃ row, port.get state jobId = some row ∧ row.id = ending.jobId ∧
      row.status.terminal = false
  · obtain ⟨row, found, mine, live⟩ := open_
    refine .settled row.status ending.status row.result ending.result ?_ live ?_ ending.terminal
      admits hands ?_
    · simp [Port.standing, found]
    · simp [Port.standing, seen, found, mine, live, Job.finish]
    · rcases written with same | ⟨-, once⟩
      · rw [same]
        exact Nat.le_succ _
      · exact once
  · refine .untouched ?_ admits hands (written.resolve_right fun wrote => open_ wrote.1)
    rw [seen]
    cases found : port.get state jobId with
    | none => rfl
    | some row =>
      have kept : ¬ (row.id = ending.jobId ∧ row.status.terminal = false) :=
        fun selected => open_ ⟨row, found, selected⟩
      simp [kept]

end Life

namespace Postgres

variable {nameSpace : String} {db : Db} {step : Step} {jobId : String}

theorem get_update (nameSpace : String) {after : Db} (selects : Job → Bool) (change : Job → Job)
    (keeps : ∀ row, (change row).id = row.id)
    (jobs : after.jobs = db.jobs.update selects change keeps)
    (same : ∀ row, (change row).nameSpace = row.nameSpace) (jobId : String) :
    get nameSpace after jobId =
      (get nameSpace db jobId).map fun row => if selects row then change row else row := by
  unfold get
  rw [jobs, Relational.Table.find?_update, Option.filter_map]
  congr 2
  funext row
  simp only [Function.comp_apply]
  split
  · rw [same]
  · rfl

theorem get_of_mem {row : Job} (present : row ∈ db.jobs.rows)
    (mine : row.nameSpace = nameSpace) : get nameSpace db row.id = some row := by
  unfold get
  rw [Relational.Table.find?_of_mem present]
  simp [mine]

theorem get_cases {row : Job} (found : get nameSpace db jobId = some row) :
    row ∈ db.jobs.rows ∧ row.id = jobId ∧ row.nameSpace = nameSpace := by
  obtain ⟨found, mine⟩ := Option.filter_eq_some_iff.mp found
  exact ⟨List.mem_of_find?_eq_some found, by simpa using List.find?_some found, by simpa using mine⟩

theorem find?_openRow (nameSpace : String) (db : Db) (jobId : String) :
    db.jobs.rows.find? (openRow nameSpace jobId) =
      (get nameSpace db jobId).filter fun row => !row.status.terminal := by
  cases found : db.jobs.rows.find? (openRow nameSpace jobId) with
  | none =>
    symm
    rw [Option.filter_eq_none_iff]
    intro row stored
    obtain ⟨present, rfl, rfl⟩ := get_cases stored
    have missed := List.find?_eq_none.mp found row present
    simpa [openRow, owns] using missed
  | some row =>
    have open_ := List.find?_some found
    simp only [openRow, owns, Bool.and_eq_true, beq_iff_eq] at open_
    obtain ⟨⟨rfl, mine⟩, live⟩ := open_
    rw [get_of_mem (List.mem_of_find?_eq_some found) mine]
    symm
    rw [Option.filter_eq_some_iff]
    exact ⟨rfl, live⟩

/-- A statement that rewrites rows and writes no event. -/
theorem life_rewritten (selects : Job → Bool) (change : Job → Job)
    (keeps : ∀ row, (change row).id = row.id)
    (after : (port nameSpace).after db step =
      { db with jobs := db.jobs.update selects change keeps })
    (same : ∀ row, (change row).nameSpace = row.nameSpace)
    (turn : ∀ row, selects row = true → (change row).result = row.result ∧
      ((change row).status = row.status ∨
        row.status = .running ∧ (change row).status = .queued ∧ step.op.recovers = true))
    (admits : (port nameSpace).admits db step jobId = false)
    (hands : (port nameSpace).hands db step jobId = false) :
    Life (port nameSpace) db step jobId := by
  have seen := get_update nameSpace selects change keeps (congrArg Db.jobs after) same jobId
  exact .rewritten seen turn admits hands (by rw [after]; rfl)

theorem life_enqueue {queue : String} {payload : Dict} {given : Option String} {priority : Int}
    {uuid : String} (called : step.op = .enqueue queue payload given priority uuid) :
    Life (port nameSpace) db step jobId := by
  have run : call nameSpace db step =
      enqueue nameSpace queue payload (newId given uuid) priority step.now db := by
    simp [call, called]
  have op : (port nameSpace).op step = .enqueue queue payload given priority uuid := called
  unfold enqueue at run
  split at run
  · refine .untouched ?_ ?_ ?_ ?_ <;>
      simp [Port.after, Port.admits, Port.hands, Port.reply, Port.outbox, port, run, called]
  · split at run
    · rename_i jobs inserted
      have seen := fun sought => Relational.Table.find?_insert? inserted sought
      by_cases mine : newId given uuid = jobId
      · subst mine
        have absent := Relational.Table.find?_of_insert? inserted
        refine .admitted ?_ ?_ ?_ ?_ ?_
        · simp [Port.standing, port, get, absent]
        · simp [Port.standing, port, Port.after, run, get, seen]
        · simp [Port.admits, Port.reply, port, run, called]
        · simp [Port.hands, Port.reply, port, run, called]
        · simp [Port.outbox, port, Port.after, run]
      · refine .untouched ?_ ?_ ?_ ?_
        · simp [port, Port.after, run, get, seen, mine]
        · simp [Port.admits, Port.reply, port, run, called, mine]
        · simp [Port.hands, Port.reply, port, run, called]
        · simp [Port.outbox, port, Port.after, run]
    · refine .untouched ?_ ?_ ?_ ?_ <;>
        simp [Port.after, Port.admits, Port.hands, Port.reply, Port.outbox, port, run, called]

theorem life_claim {queue worker : String} {leaseS : Int}
    (called : step.op = .claim queue worker leaseS) : Life (port nameSpace) db step jobId := by
  have run : call nameSpace db step =
      claim nameSpace queue worker leaseS step.now step.locked db := by
    simp [call, called]
  unfold claim at run
  split at run
  · refine .untouched ?_ ?_ ?_ ?_ <;>
      simp [Port.after, Port.admits, Port.hands, Port.reply, Port.outbox, port, run, called]
  · rename_i chosen first
    have listed : chosen ∈ db.jobs.rows.filter (claimable nameSpace queue step.locked) :=
      (List.mem_insertionSort _).mp (List.mem_of_head? first)
    obtain ⟨present, able⟩ := List.mem_filter.mp listed
    simp only [claimable, Bool.and_eq_true, beq_iff_eq] at able
    have seen := get_update nameSpace (·.id == chosen.id) (Job.start worker leaseS step.now)
      (Job.id_start worker leaseS step.now) (congrArg (fun done => done.2.jobs) run)
      (fun _ => rfl) jobId
    refine .started (get_of_mem present able.1.1.1) able.1.2 (fun row found => ?_) seen ?_ ?_ ?_
    · exact (get_cases found).2.1
    · simp [Port.admits, port, called]
    · simp [Port.hands, Port.reply, port, run, called, Job.start]
    · simp [Port.outbox, port, Port.after, run]

theorem life_terminal {ending : Ending} (called : step.op = .terminal ending) :
    Life (port nameSpace) db step jobId := by
  have run : call nameSpace db step = terminal nameSpace ending step.now db := by
    simp [call, called]
  have admits : (port nameSpace).admits db step jobId = false := by
    simp [Port.admits, port, called]
  have hands : (port nameSpace).hands db step jobId = false := by
    simp [Port.hands, port, called]
  unfold terminal markIn at run
  rw [find?_openRow] at run
  cases stored : (get nameSpace db ending.jobId).filter fun row => !row.status.terminal with
  | none =>
    rw [stored] at run
    refine .untouched ?_ admits hands ?_ <;> simp [Port.after, Port.outbox, port, run]
  | some row =>
    rw [stored] at run
    obtain ⟨found, live⟩ := Option.filter_eq_some_iff.mp stored
    simp only [Bool.not_eq_true'] at live
    have own := (get_cases found).2.1
    have jobs : ((port nameSpace).after db step).jobs = db.jobs.update
        (openRow nameSpace ending.jobId) (Job.finish ending step.now)
        (Job.id_finish ending step.now) := by
      simp only [Port.after, port, run, Option.map_some]
      split <;> rfl
    have seen := get_update nameSpace _ _ _ jobs (fun _ => rfl) jobId
    refine .ended ending step.now (seen.trans ?_) admits hands ?_
    · refine Option.map_congr fun row stored => ?_
      obtain ⟨-, -, owned⟩ := get_cases stored
      simp [openRow, owns, owned]
    · by_cases mine : jobId = ending.jobId
      · refine .inr ⟨⟨row, mine ▸ found, own, live⟩, ?_⟩
        simp only [Port.outbox, Port.after, port, run, Option.map_some]
        split
        · exact Nat.le_succ _
        · simp [mine]
      · refine .inl ?_
        simp only [Port.outbox, Port.after, port, run, Option.map_some]
        split
        · rfl
        · simp [List.filter_append, Ne.symm mine]

/-- Postgres keeps every job within its life cycle. -/
theorem lives (nameSpace : String) : Lives (port nameSpace) anyCall fun _ => True where
  keeps _ _ := trivial
  life {db step} _ _ jobId := by
    cases called : step.op with
    | enqueue queue payload given priority uuid => exact life_enqueue called
    | claim queue worker leaseS => exact life_claim called
    | renewLease other worker leaseS =>
      refine life_rewritten (renews nameSpace other worker) (Job.extend leaseS step.now)
        (Job.id_extend leaseS step.now) ?_ (fun _ => rfl) (fun row _ => ⟨rfl, .inl rfl⟩) ?_ ?_ <;>
        simp [Port.after, Port.admits, Port.hands, port, call, called, renewLease]
    | reclaimExpired queue =>
      refine life_rewritten (lapsed nameSpace queue step.now) (Job.release step.now)
        (Job.id_release step.now) ?_ (fun _ => rfl) (fun row lapsed => ?_) ?_ ?_
      · simp [Port.after, port, call, called, reclaimExpired]
      · simp only [Postgres.lapsed, Bool.and_eq_true] at lapsed
        exact ⟨rfl, .inr ⟨Job.status_lapsed lapsed.2, rfl, by simp [called, Op.recovers]⟩⟩
      · simp [Port.admits, port, called]
      · simp [Port.hands, port, called]
    | requeueForRetry other =>
      refine life_rewritten (openRow nameSpace other) (Job.release step.now)
        (Job.id_release step.now) ?_ (fun _ => rfl) (fun row live => ?_) ?_ ?_
      · simp [Port.after, port, call, called, requeueForRetry]
      · simp only [openRow, Bool.and_eq_true, Bool.not_eq_true'] at live
        exact Job.release_turn _ _ row live.2 (by simp [called, Op.recovers])
      · simp [Port.admits, port, called]
      · simp [Port.hands, port, called]
    | terminal ending => exact life_terminal called

end Postgres

namespace Mongo

variable {nameSpace : String} {db : Db} {step : Step} {jobId : String}

theorem get_updateJobs (selects : Job → Bool) (change : Job → Job)
    (keeps : ∀ row, (change row).id = row.id) (db : Db) (jobId : String) :
    get (updateJobs selects change keeps db) jobId =
      (get db jobId).map fun row => if selects row then change row else row := by
  unfold get updateJobs
  rw [Relational.Table.find?_update, Option.map_map, Option.map_map]
  congr 1
  funext document
  simp only [Function.comp_apply]
  split <;> rfl

theorem get_of_mem {document : Document} (present : document ∈ db.jobs.rows) :
    get db document.id = some document.job := by
  unfold get
  rw [Relational.Table.find?_of_mem present]
  rfl

theorem get_cases {row : Job} (found : get db jobId = some row) :
    ∃ document ∈ db.jobs.rows, document.job = row ∧ row.id = jobId := by
  obtain ⟨document, stored, rfl⟩ := Option.map_eq_some_iff.mp found
  have own : document.id = jobId := by simpa using List.find?_some stored
  exact ⟨document, List.mem_of_find?_eq_some stored, rfl, own⟩

theorem find?_openRow (db : Db) (jobId : String) :
    (db.jobs.rows.find? fun document => openRow jobId document.job).map Document.job =
      (get db jobId).filter fun row => !row.status.terminal := by
  cases found : db.jobs.rows.find? fun document => openRow jobId document.job with
  | none =>
    symm
    rw [Option.map_none, Option.filter_eq_none_iff]
    intro row stored
    obtain ⟨document, present, rfl, rfl⟩ := get_cases stored
    have missed := List.find?_eq_none.mp found document present
    simpa [openRow] using missed
  | some document =>
    have open_ := List.find?_some found
    simp only [openRow, Bool.and_eq_true, beq_iff_eq] at open_
    obtain ⟨rfl, live⟩ := open_
    rw [← Document.id, get_of_mem (List.mem_of_find?_eq_some found)]
    symm
    rw [Option.map_some, Option.filter_eq_some_iff]
    exact ⟨rfl, live⟩

/-- A whole sweep takes back each of its documents that has lapsed, once. -/
theorem get_reclaims (queue : Option String) (cutoff now : Int) (ids : List String) (db : Db)
    (jobId : String) :
    get (ids.foldl (fun db id => reclaimNext queue cutoff id now db) db) jobId =
      (get db jobId).map fun row =>
        if ids.contains row.id && row.lapsed queue cutoff then row.release now else row := by
  induction ids generalizing db with
  | nil => simp
  | cons id ids ih =>
    rw [List.foldl_cons, ih, reclaimNext, get_updateJobs, Option.map_map]
    congr 1
    funext row
    simp only [Function.comp_apply, List.contains_cons]
    by_cases lapsed : row.lapsed queue cutoff = true
    · by_cases mine : (row.id == id) = true
      · simp [lapsed, mine]
      · simp [lapsed, mine]
    · simp [lapsed]

theorem events_reclaims (queue : Option String) (cutoff now : Int) (ids : List String) (db : Db) :
    (ids.foldl (fun db id => reclaimNext queue cutoff id now db) db).events = db.events := by
  induction ids generalizing db with
  | nil => rfl
  | cons id ids ih => exact (ih _).trans rfl

theorem life_insertOne (start : Db) {seq : Nat} {queue : String} {payload : Dict} {given : Option String}
    {priority now : Int} {uuid : String}
    (called : step.op = .enqueue queue payload given priority uuid)
    (jobs : start.jobs = db.jobs) (events : start.events = db.events)
    (run : call nameSpace db step =
      insertOne nameSpace seq queue payload (newId given uuid) priority now start) :
    Life (port nameSpace) db step jobId := by
  unfold insertOne at run
  split at run
  · refine .untouched ?_ ?_ ?_ ?_ <;>
      simp [Port.after, Port.admits, Port.hands, Port.reply, Port.outbox, port, get, run, called,
        jobs, events]
  · split at run
    · rename_i table inserted
      rw [jobs] at inserted
      have seen := fun sought => Relational.Table.find?_insert? inserted sought
      by_cases mine : newId given uuid = jobId
      · subst mine
        have absent := Relational.Table.find?_of_insert? inserted
        refine .admitted ?_ ?_ ?_ ?_ ?_
        · have missing : get db (newId given uuid) = none := Option.map_eq_none_iff.mpr absent
          simp [Port.standing, port, missing]
        · simp [Port.standing, port, Port.after, run, get, seen]
        · simp [Port.admits, Port.reply, port, run, called]
        · simp [Port.hands, Port.reply, port, run, called]
        · simp [Port.outbox, port, Port.after, run, events]
      · refine .untouched ?_ ?_ ?_ ?_
        · simp [port, Port.after, run, get, seen, mine]
        · simp [Port.admits, Port.reply, port, run, called, mine]
        · simp [Port.hands, Port.reply, port, run, called]
        · simp [Port.outbox, port, Port.after, run, events]
    · refine .untouched ?_ ?_ ?_ ?_ <;>
        simp [Port.after, Port.admits, Port.hands, Port.reply, Port.outbox, port, get, run, called,
          jobs, events]

/-- An operation that rewrites documents and writes no event. -/
theorem life_rewritten (selects : Job → Bool) (change : Job → Job)
    (keeps : ∀ row, (change row).id = row.id)
    (after : (port nameSpace).after db step = updateJobs selects change keeps db)
    (turn : ∀ row, selects row = true → (change row).result = row.result ∧
      ((change row).status = row.status ∨
        row.status = .running ∧ (change row).status = .queued ∧ step.op.recovers = true))
    (admits : (port nameSpace).admits db step jobId = false)
    (hands : (port nameSpace).hands db step jobId = false) :
    Life (port nameSpace) db step jobId := by
  have seen := get_updateJobs selects change keeps db jobId
  rw [← after] at seen
  exact .rewritten seen turn admits hands (by rw [after]; rfl)

theorem life_claim {queue worker : String} {leaseS now : Int}
    (called : step = .whole (.claim queue worker leaseS) now) :
    Life (port nameSpace) db step jobId := by
  subst called
  have run : call nameSpace db (.whole (.claim queue worker leaseS) now) =
      claim queue worker leaseS now db := rfl
  unfold claim at run
  split at run
  · refine .untouched ?_ ?_ ?_ ?_ <;>
      simp [Port.after, Port.admits, Port.hands, Port.reply, Port.outbox, port, run, Step.op]
  · rename_i chosen first
    have listed : chosen ∈ db.jobs.rows.filter (claimable queue) :=
      (List.mem_insertionSort _).mp (List.mem_of_head? first)
    obtain ⟨present, able⟩ := List.mem_filter.mp listed
    simp only [claimable, Bool.and_eq_true, beq_iff_eq] at able
    have stored : get db chosen.job.id = some chosen.job := get_of_mem present
    refine .started stored able.2 (fun row found => ?_)
      (?_ : _ = (get db jobId).map fun row =>
        if row.id == chosen.job.id then row.start worker leaseS now else row) ?_ ?_ ?_
    · obtain ⟨_, _, _, own⟩ := get_cases found
      exact own
    · simp only [Port.after, port, run]
      exact get_updateJobs _ _ _ db jobId
    · simp [Port.admits, port, Step.op]
    · simp [Port.hands, Port.reply, port, run, Step.op]
    · simp [Port.outbox, port, Port.after, run, updateJobs]

theorem life_terminal {ending : Ending} {now : Int} (called : step = .whole (.terminal ending) now) :
    Life (port nameSpace) db step jobId := by
  subst called
  have run : call nameSpace db (.whole (.terminal ending) now) =
      terminal nameSpace ending now db := rfl
  have admits : (port nameSpace).admits db (.whole (.terminal ending) now) jobId = false := by
    simp [Port.admits, port, Step.op]
  have hands : (port nameSpace).hands db (.whole (.terminal ending) now) jobId = false := by
    simp [Port.hands, port, Step.op]
  have stored := find?_openRow db ending.jobId
  unfold terminal at run
  split at run
  · refine .untouched ?_ admits hands ?_ <;> simp [Port.after, Port.outbox, port, run]
  · rename_i document first
    rw [first, Option.map_some, eq_comm, Option.filter_eq_some_iff] at stored
    obtain ⟨found, live⟩ := stored
    simp only [Bool.not_eq_true'] at live
    obtain ⟨_, _, _, own⟩ := get_cases found
    refine .ended ending now ?_ admits hands ?_
    · refine Eq.trans ?_ (get_updateJobs (openRow ending.jobId) _ (Job.id_finish ending now) db jobId)
      simp only [Port.after, port, run]
      split <;> rfl
    · by_cases mine : jobId = ending.jobId
      · refine .inr ⟨⟨document.job, mine ▸ found, own, live⟩, ?_⟩
        simp only [Port.outbox, Port.after, port, run]
        split
        · exact Nat.le_succ _
        · simp [mine, updateJobs]
      · refine .inl ?_
        simp only [Port.outbox, Port.after, port, run]
        split
        · rfl
        · simp [List.filter_append, Ne.symm mine, updateJobs]

/-- MongoDB keeps every job within its life cycle. -/
theorem lives (nameSpace : String) : Lives (port nameSpace) anyCall fun _ => True where
  keeps _ _ := trivial
  life {db step} _ _ jobId := by
    cases step with
    | nextSeq queue payload given priority uuid =>
      refine .untouched ?_ ?_ ?_ ?_ <;> rfl
    | insertOne seq queue payload given priority uuid now =>
      exact life_insertOne db rfl rfl rfl rfl
    | reclaimNext queue cutoff other now =>
      refine life_rewritten (fun row => row.id == other && row.lapsed queue cutoff)
        (Job.release now) (Job.id_release now) rfl (fun row lapsed => ?_) rfl rfl
      simp only [Bool.and_eq_true] at lapsed
      exact ⟨rfl, .inr ⟨Job.status_lapsed lapsed.2, rfl, rfl⟩⟩
    | whole op now =>
      cases op with
      | enqueue queue payload given priority uuid =>
        exact life_insertOne (nextSeq db).2 rfl rfl rfl rfl
      | claim queue worker leaseS => exact life_claim rfl
      | renewLease other worker leaseS =>
        exact life_rewritten (renews other worker) (Job.extend leaseS now)
          (Job.id_extend leaseS now) rfl (fun row _ => ⟨rfl, .inl rfl⟩) rfl rfl
      | reclaimExpired queue =>
        refine .rewritten (get_reclaims _ _ _ _ db jobId) (fun row lapsed => ?_) rfl rfl ?_
        · simp only [Bool.and_eq_true] at lapsed
          exact ⟨rfl, .inr ⟨Job.status_lapsed lapsed.2, rfl, rfl⟩⟩
        · exact congrArg (List.filter _) (events_reclaims _ _ _ _ db)
      | requeueForRetry other =>
        refine life_rewritten (openRow other) (Job.release now) (Job.id_release now) rfl
          (fun row live => ?_) rfl rfl
        simp only [openRow, Bool.and_eq_true, Bool.not_eq_true'] at live
        exact Job.release_turn _ _ row live.2 rfl
      | terminal ending => exact life_terminal rfl

end Mongo

end QueueWorkflows.Backend
