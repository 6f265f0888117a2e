import QueueWorkflows.Backend.Contract
import QueueWorkflows.Backend.Mirror

/-! What a call may do to the row of one job: what the job was submitted with stays, and what
it ends with is what one terminal call said. -/

namespace QueueWorkflows.Backend

/-- What a terminal call wrote. An empty error reads as none on Redis. -/
structure Job.Tells (ending : Ending) (row : Job) : Prop where
  status : row.status = ending.status
  result : row.result = ending.result
  error : nonEmpty row.error = nonEmpty ending.error

/-- What a call may do to the row of a job. Where the backend is `firm`, a job that has ended
is left alone. -/
inductive Fate (firm : Prop) (op : Op) (reply : Reply) (jobId : String) :
    Option Job → Option Job → Prop
  | same {row : Option Job} : Fate firm op reply jobId row row
  | entered {queue : String} {payload : Dict} {given : Option String} {priority : Int}
      {uuid : String} {before : Option Job} {after : Job}
      (called : op = .enqueue queue payload given priority uuid) (own : newId given uuid = jobId)
      (told : reply = .enqueued jobId)
      (vacant : firm → ∀ row, before = some row → row.status.terminal = false)
      (waits : after.status.terminal = false) (payload : after.payload = payload) :
      Fate firm op reply jobId before (some after)
  | moved {before after : Job} (open_ : firm → before.status.terminal = false)
      (waits : after.status.terminal = false) (payload : after.payload = before.payload) :
      Fate firm op reply jobId (some before) (some after)
  | ended {ending : Ending} {before after : Job} (called : op = .terminal ending)
      (own : ending.jobId = jobId) (told : reply = .job (some after))
      (open_ : before.status.terminal = false) (payload : after.payload = before.payload)
      (tells : after.Tells ending) : Fate firm op reply jobId (some before) (some after)

variable {σ ι : Type}

/-- Every allowed call treats every row so; a claim returns the row as it then stands, and a
terminal call returns the row that it ended. -/
structure Fates (port : Port σ ι) (firm : Prop) (ok : σ → ι → Bool) (holds : σ → Prop) : Prop where
  keeps : ∀ {state step}, holds state → ok state step = true → holds (port.after state step)
  fate : ∀ {state step}, holds state → ok state step = true → ∀ jobId,
    Fate firm (port.op step) (port.reply state step) jobId (port.get state jobId)
      (port.get (port.after state step) jobId)
  claimed : ∀ {state step queue worker leaseS row}, holds state → ok state step = true →
    port.op step = .claim queue worker leaseS → port.reply state step = .job (some row) →
      port.get (port.after state step) row.id = some row
  told : ∀ {state step ending row}, holds state → ok state step = true →
    port.op step = .terminal ending → port.reply state step = .job (some row) →
      ∃ before, port.get state ending.jobId = some before ∧ before.status.terminal = false ∧
        port.get (port.after state step) ending.jobId = some row ∧ row.Tells ending

section Rows

variable {firm : Prop} {op : Op} {reply : Reply} {jobId : String} {before : Option Job}

/-- A statement that rewrites open rows without ending them. -/
theorem Fate.rewritten {selects : Job → Bool} {change : Job → Job}
    (turn : ∀ row, before = some row → selects row = true → row.status.terminal = false ∧
      (change row).status.terminal = false ∧ (change row).payload = row.payload) :
    Fate firm op reply jobId before
      (before.map fun row => if selects row then change row else row) := by
  cases before with
  | none => exact .same
  | some row =>
    rw [Option.map_some]
    by_cases selected : selects row = true
    · obtain ⟨open_, waits, payload⟩ := turn row rfl selected
      rw [if_pos selected]
      exact .moved (fun _ => open_) waits payload
    · rw [if_neg selected]
      exact .same

/-- On a firm backend a job that is open now was open before, -/
theorem Fate.open_before {firm : Prop} {after : Option Job}
    (fate : Fate firm op reply jobId before after) (strict : firm)
    (unended : ∀ row, after = some row → row.status.terminal = false) :
    ∀ row, before = some row → row.status.terminal = false := by
  intro row found
  cases fate with
  | same => exact unended row found
  | entered _ _ _ vacant => exact vacant strict row found
  | moved live =>
    cases found
    exact live strict
  | ended _ _ _ live =>
    cases found
    exact live

/-- and one that has ended stays as it is. -/
theorem Fate.absorbed {firm : Prop} {after : Option Job} {row : Job}
    (fate : Fate firm op reply jobId before after) (strict : firm) (found : before = some row)
    (terminal : row.status.terminal = true) : after = some row := by
  cases fate with
  | same => exact found
  | entered _ _ _ vacant =>
    rw [vacant strict row found] at terminal
    cases terminal
  | moved live =>
    cases found
    rw [live strict] at terminal
    cases terminal
  | ended _ _ _ live =>
    cases found
    rw [live] at terminal
    cases terminal

theorem Job.tells_finish (ending : Ending) (now : Int) (row : Job) :
    (row.finish ending now).Tells ending := ⟨rfl, rfl, rfl⟩

/-- A terminal statement. -/
theorem Fate.finished {ending : Ending} {now : Int} (called : op = .terminal ending)
    (own : ∀ row, before = some row → row.id = jobId)
    (told : ∀ row, before = some row → row.id = ending.jobId → row.status.terminal = false →
      reply = .job (some (row.finish ending now))) :
    Fate firm op reply jobId before (before.map fun row =>
      if row.id == ending.jobId && !row.status.terminal then row.finish ending now else row) := by
  cases before with
  | none => exact .same
  | some row =>
    rw [Option.map_some]
    by_cases selected : row.id = ending.jobId ∧ row.status.terminal = false
    · rw [if_pos (by simp [selected])]
      exact .ended called (selected.1.symm.trans (own row rfl)) (told row rfl selected.1 selected.2)
        selected.2 rfl (row.tells_finish ending now)
    · rw [if_neg (by simpa using selected)]
      exact .same

end Rows

namespace Postgres

variable {nameSpace : String} {db : Db} {step : Step} {jobId : String}

theorem fate_rewritten {firm : Prop} {reply : Reply} (selects : Job → Bool) (change : Job → Job)
    (keeps : ∀ row, (change row).id = row.id)
    (after : (port nameSpace).after db step =
      { db with jobs := db.jobs.update selects change keeps })
    (same : ∀ row, (change row).nameSpace = row.nameSpace)
    (turn : ∀ row, selects row = true → row.status.terminal = false ∧
      (change row).status.terminal = false ∧ (change row).payload = row.payload) :
    Fate firm step.op reply jobId (get nameSpace db jobId)
      (get nameSpace ((port nameSpace).after db step) jobId) := by
  rw [get_update nameSpace selects change keeps (congrArg Db.jobs after) same]
  exact .rewritten fun row _ selected => turn row selected

theorem fate_enqueue {firm : Prop} {queue : String} {payload : Dict} {given : Option String}
    {priority : Int} {uuid : String}
    (called : step.op = .enqueue queue payload given priority uuid) :
    Fate firm step.op ((port nameSpace).reply db step) jobId (get nameSpace db jobId)
      (get nameSpace ((port nameSpace).after db step) jobId) := by
  have run : (port nameSpace).call db step =
      enqueue nameSpace queue payload (newId given uuid) priority step.now db := by
    simp [port, call, called]
  unfold Port.reply Port.after
  rw [run]
  unfold enqueue
  split
  · exact .same
  · split
    · rename_i jobs inserted
      have seen := Relational.Table.find?_insert? inserted
      by_cases mine : newId given uuid = jobId
      · have stored : get nameSpace { db with jobs } jobId = some {
            id := newId given uuid, queue, nameSpace, status := .queued, payload, priority,
            attempts := 0, claimedBy := none, leaseExpiresAt := none, result := none,
            error := none, createdAt := step.now, updatedAt := step.now } := by
          simp [get, seen, mine]
        have absent : get nameSpace db jobId = none := by
          have missing := Relational.Table.find?_of_insert? inserted
          rw [mine] at missing
          simp [get, missing]
        rw [stored, absent]
        exact .entered called mine (by rw [mine]) (fun _ _ found => by cases found) rfl rfl
      · have same : get nameSpace { db with jobs } jobId = get nameSpace db jobId := by
          simp [get, seen, mine]
        rw [same]
        exact .same
    · exact .same

/-- A claim, with the row that it hands out. -/
theorem claim_cases {queue worker : String} {leaseS : Int}
    (called : step.op = .claim queue worker leaseS) :
    (port nameSpace).call db step = (.job none, db) ∨
      ∃ chosen, get nameSpace db chosen.id = some chosen ∧ chosen.status = .queued ∧
        (port nameSpace).call db step = (.job (some (chosen.start worker leaseS step.now)), { db with
          jobs := db.jobs.update (·.id == chosen.id) (Job.start worker leaseS step.now)
            (Job.id_start worker leaseS step.now) }) := by
  have run : (port nameSpace).call db step =
      claim nameSpace queue worker leaseS step.now step.locked db := by
    simp [port, call, called]
  rw [run]
  unfold claim
  split
  · exact .inl rfl
  · rename_i chosen first
    have listed : chosen ∈ db.jobs.rows.filter (claimable nameSpace queue step.locked) :=
      (List.mem_insertionSort _).mp (List.mem_of_head? first)
    obtain ⟨present, able⟩ := List.mem_filter.mp listed
    simp only [claimable, Bool.and_eq_true, beq_iff_eq] at able
    exact .inr ⟨chosen, get_of_mem present able.1.1.1, able.1.2, rfl⟩

theorem fate_claim {firm : Prop} {queue worker : String} {leaseS : Int}
    (called : step.op = .claim queue worker leaseS) :
    Fate firm step.op ((port nameSpace).reply db step) jobId (get nameSpace db jobId)
      (get nameSpace ((port nameSpace).after db step) jobId) := by
  rcases claim_cases called with none | ⟨chosen, stored, queued, run⟩
  · unfold Port.after
    rw [none]
    exact .same
  · have seen := get_update nameSpace (·.id == chosen.id) (Job.start worker leaseS step.now)
      (Job.id_start worker leaseS step.now) (congrArg (fun done => done.2.jobs) run)
      (fun _ => rfl) jobId
    unfold Port.after
    rw [seen]
    apply Fate.rewritten
    intro row found selected
    have own := (get_cases found).2.1
    rw [← own, beq_iff_eq.mp selected, stored] at found
    cases found
    exact ⟨by rw [queued]; rfl, rfl, rfl⟩

/-- A terminal call, with the row that it ends. -/
theorem terminal_cases {ending : Ending} (called : step.op = .terminal ending) :
    get nameSpace ((port nameSpace).after db step) jobId = (get nameSpace db jobId).map (fun row =>
        if row.id == ending.jobId && !row.status.terminal then row.finish ending step.now
        else row) ∧
      (port nameSpace).reply db step =
        .job (((get nameSpace db ending.jobId).filter fun row => !row.status.terminal).map
          (Job.finish ending step.now)) := by
  have run : (port nameSpace).call db step = terminal nameSpace ending step.now db := by
    simp [port, call, called]
  unfold terminal markIn at run
  rw [find?_openRow] at run
  unfold Port.after Port.reply
  cases stored : (get nameSpace db ending.jobId).filter fun row => !row.status.terminal with
  | none =>
    rw [stored] at run
    rw [run]
    refine ⟨?_, rfl⟩
    cases found : get nameSpace db jobId with
    | none => exact found
    | some row =>
      have shut : ¬ (row.id = ending.jobId ∧ row.status.terminal = false) := by
        rintro ⟨mine, live⟩
        rw [← mine, (get_cases found).2.1, found, Option.filter_eq_none_iff] at stored
        have ended := stored row rfl
        rw [live] at ended
        exact ended rfl
      rw [Option.map_some, if_neg (by simpa using shut)]
      exact found
  | some row =>
    rw [stored] at run
    have jobs : ((port nameSpace).call db step).2.jobs = db.jobs.update
        (openRow nameSpace ending.jobId) (Job.finish ending step.now)
        (Job.id_finish ending step.now) := by
      rw [run, Option.map_some]
      dsimp only
      split <;> rfl
    constructor
    · refine (get_update nameSpace _ _ _ jobs (fun _ => rfl) jobId).trans ?_
      refine Option.map_congr fun row found => ?_
      have owned := (get_cases found).2.2
      simp [openRow, owns, owned]
    · rw [run, Option.map_some]
      dsimp only
      split <;> rfl

/-- Postgres, whatever is called. -/
theorem fates (nameSpace : String) : Fates (port nameSpace) True anyCall fun _ => True where
  keeps _ _ := trivial
  fate {db step} _ _ jobId := by
    change Fate True step.op _ jobId (get nameSpace db jobId) (get nameSpace _ jobId)
    cases called : step.op with
    | enqueue queue payload given priority uuid =>
      rw [← called]
      exact fate_enqueue called
    | claim queue worker leaseS =>
      rw [← called]
      exact fate_claim called
    | renewLease other worker leaseS =>
      rw [← called]
      apply fate_rewritten (renews nameSpace other worker) (Job.extend leaseS step.now)
        (Job.id_extend leaseS step.now) _ (fun _ => rfl)
      · intro row renewed
        simp only [renews, Bool.and_eq_true, beq_iff_eq] at renewed
        have running : row.status.terminal = false := by
          rw [renewed.1.2]
          rfl
        exact ⟨running, running, rfl⟩
      · simp [Port.after, port, call, called, renewLease]
    | reclaimExpired queue =>
      rw [← called]
      apply fate_rewritten (lapsed nameSpace queue step.now) (Job.release step.now)
        (Job.id_release step.now) _ (fun _ => rfl)
      · intro row late
        simp only [Postgres.lapsed, Bool.and_eq_true] at late
        exact ⟨by rw [Job.status_lapsed late.2]; rfl, rfl, rfl⟩
      · simp [Port.after, port, call, called, reclaimExpired]
    | requeueForRetry other =>
      rw [← called]
      apply fate_rewritten (openRow nameSpace other) (Job.release step.now)
        (Job.id_release step.now) _ (fun _ => rfl)
      · intro row live
        simp only [openRow, Bool.and_eq_true, Bool.not_eq_true'] at live
        exact ⟨live.2, rfl, rfl⟩
      · simp [Port.after, port, call, called, requeueForRetry]
    | terminal ending =>
      obtain ⟨seen, told⟩ := @terminal_cases nameSpace db step jobId ending called
      rw [seen]
      apply Fate.finished rfl
      · exact fun row found => (get_cases found).2.1
      · intro row found mine live
        rw [← mine, (get_cases found).2.1, found, Option.filter_some_pos (by simp [live])] at told
        exact told
  claimed {db step queue worker leaseS row} _ _ called answered := by
    rcases claim_cases called with none | ⟨chosen, stored, queued, run⟩
    · unfold Port.reply at answered
      rw [none] at answered
      cases answered
    · have seen := get_update nameSpace (·.id == chosen.id) (Job.start worker leaseS step.now)
        (Job.id_start worker leaseS step.now) (congrArg (fun done => done.2.jobs) run)
        (fun _ => rfl) chosen.id
      unfold Port.reply at answered
      rw [run] at answered
      cases answered
      refine seen.trans ?_
      simp [stored]
  told {db step ending row} _ _ called answered := by
    obtain ⟨seen, told⟩ := @terminal_cases nameSpace db step ending.jobId ending called
    rw [answered, Reply.job.injEq, eq_comm, Option.map_eq_some_iff] at told
    obtain ⟨before, stored, rfl⟩ := told
    obtain ⟨found, live⟩ := Option.filter_eq_some_iff.mp stored
    rw [Bool.not_eq_true'] at live
    refine ⟨before, found, live, seen.trans ?_, before.tells_finish ending step.now⟩
    have mine := (get_cases found).2.1
    change get nameSpace db ending.jobId = some before at found
    rw [found, Option.map_some, if_pos (by simp [mine, live])]

end Postgres

namespace Mongo

variable {nameSpace : String} {db : Db} {jobId : String} {op : Op} {reply : Reply} {now : Int}

theorem fate_rewritten {firm : Prop} (selects : Job → Bool) (change : Job → Job)
    (keeps : ∀ row, (change row).id = row.id)
    (turn : ∀ row, selects row = true → row.status.terminal = false ∧
      (change row).status.terminal = false ∧ (change row).payload = row.payload) :
    Fate firm op reply jobId (get db jobId) (get (updateJobs selects change keeps db) jobId) := by
  rw [get_updateJobs]
  exact .rewritten fun row _ selected => turn row selected

theorem fate_insertOne {firm : Prop} (start : Db) {seq : Nat} {queue : String} {payload : Dict}
    {given : Option String} {priority : Int} {uuid : String} (jobs : start.jobs = db.jobs)
    (called : op = .enqueue queue payload given priority uuid) :
    Fate firm op (insertOne nameSpace seq queue payload (newId given uuid) priority now start).1
      jobId (get db jobId)
      (get (insertOne nameSpace seq queue payload (newId given uuid) priority now start).2 jobId) := by
  have begun : get start jobId = get db jobId := by
    unfold get
    rw [jobs]
  rw [← begun]
  unfold insertOne
  split
  · exact .same
  · split
    · rename_i table inserted
      have seen := Relational.Table.find?_insert? inserted
      by_cases mine : newId given uuid = jobId
      · have stored : get { start with jobs := table } jobId = some {
            id := newId given uuid, queue, nameSpace, status := .queued, payload, priority,
            attempts := 0, claimedBy := none, leaseExpiresAt := none, result := none,
            error := none, createdAt := now, updatedAt := now } := by
          simp [get, seen, mine]
        have absent : get start jobId = none := by
          have missing := Relational.Table.find?_of_insert? inserted
          rw [← mine]
          exact Option.map_eq_none_iff.mpr missing
        rw [stored, absent]
        exact .entered called mine (by rw [mine]) (fun _ _ found => by cases found) rfl rfl
      · have same : get { start with jobs := table } jobId = get start jobId := by
          simp [get, seen, mine]
        rw [same]
        exact .same
    · exact .same

theorem claim_cases {queue worker : String} {leaseS : Int} :
    claim queue worker leaseS now db = (.job none, db) ∨
      ∃ chosen, get db chosen.id = some chosen ∧ chosen.status = .queued ∧
        claim queue worker leaseS now db = (.job (some (chosen.start worker leaseS now)),
          updateJobs (·.id == chosen.id) (Job.start worker leaseS now)
            (Job.id_start worker leaseS now) db) := by
  unfold claim
  split
  · exact .inl rfl
  · rename_i document first
    have listed : document ∈ db.jobs.rows.filter (claimable queue) :=
      (List.mem_insertionSort _).mp (List.mem_of_head? first)
    obtain ⟨present, able⟩ := List.mem_filter.mp listed
    simp only [claimable, Bool.and_eq_true, beq_iff_eq] at able
    exact .inr ⟨document.job, get_of_mem present, able.2, rfl⟩

theorem fate_claim {firm : Prop} {queue worker : String} {leaseS : Int} :
    Fate firm op reply jobId (get db jobId) (get (claim queue worker leaseS now db).2 jobId) := by
  rcases @claim_cases db now queue worker leaseS with none | ⟨chosen, stored, queued, run⟩
  · rw [none]
    exact .same
  · rw [run, get_updateJobs]
    apply Fate.rewritten
    intro row found selected
    obtain ⟨-, -, -, own⟩ := get_cases found
    rw [← own, beq_iff_eq.mp selected, stored] at found
    cases found
    exact ⟨by rw [queued]; rfl, rfl, rfl⟩

theorem terminal_cases {ending : Ending} :
    get (terminal nameSpace ending now db).2 jobId = (get db jobId).map (fun row =>
        if row.id == ending.jobId && !row.status.terminal then row.finish ending now else row) ∧
      (terminal nameSpace ending now db).1 =
        .job (((get db ending.jobId).filter fun row => !row.status.terminal).map
          (Job.finish ending now)) := by
  rw [← find?_openRow]
  have stored := find?_openRow db ending.jobId
  unfold terminal
  cases first : db.jobs.rows.find? fun document => openRow ending.jobId document.job with
  | none =>
    refine ⟨?_, rfl⟩
    rw [first, Option.map_none, eq_comm] at stored
    cases found : get db jobId with
    | none => rfl
    | some row =>
      have shut : ¬ (row.id = ending.jobId ∧ row.status.terminal = false) := by
        rintro ⟨mine, live⟩
        obtain ⟨-, -, -, own⟩ := get_cases found
        rw [← mine, own, found, Option.filter_eq_none_iff] at stored
        have ended := stored row rfl
        rw [live] at ended
        exact ended rfl
      rw [Option.map_some, if_neg (by simpa using shut)]
  | some document =>
    constructor
    · refine Eq.trans ?_ (get_updateJobs (openRow ending.jobId) _ (Job.id_finish ending now) db jobId)
      dsimp only
      split <;> rfl
    · dsimp only
      split <;> rfl

theorem fate_terminal {firm : Prop} {ending : Ending} (called : op = .terminal ending) :
    Fate firm op (terminal nameSpace ending now db).1 jobId (get db jobId)
      (get (terminal nameSpace ending now db).2 jobId) := by
  obtain ⟨seen, told⟩ := @terminal_cases nameSpace db jobId now ending
  rw [seen]
  apply Fate.finished called
  · intro row found
    obtain ⟨-, -, -, own⟩ := get_cases found
    exact own
  · intro row found mine live
    obtain ⟨-, -, -, own⟩ := get_cases found
    rw [← mine, own, found, Option.filter_some_pos (by simp [live])] at told
    exact told

/-- MongoDB, whatever is called. -/
theorem fates (nameSpace : String) : Fates (port nameSpace) True anyCall fun _ => True where
  keeps _ _ := trivial
  fate {db step} _ _ jobId := by
    cases step with
    | nextSeq queue payload given priority uuid => exact .same
    | insertOne seq queue payload given priority uuid now => exact fate_insertOne db rfl rfl
    | reclaimNext queue cutoff other now =>
      apply fate_rewritten (fun row => row.id == other && row.lapsed queue cutoff)
        (Job.release now) (Job.id_release now)
      intro row late
      rw [Bool.and_eq_true] at late
      exact ⟨by rw [Job.status_lapsed late.2]; rfl, rfl, rfl⟩
    | whole op now =>
      cases op with
      | enqueue queue payload given priority uuid => exact fate_insertOne (nextSeq db).2 rfl rfl
      | claim queue worker leaseS => exact fate_claim
      | renewLease other worker leaseS =>
        apply fate_rewritten (renews other worker) (Job.extend leaseS now) (Job.id_extend leaseS now)
        intro row renewed
        simp only [renews, Bool.and_eq_true, beq_iff_eq] at renewed
        have running : row.status.terminal = false := by
          rw [renewed.1.2]
          rfl
        exact ⟨running, running, rfl⟩
      | reclaimExpired queue =>
        have seen := get_reclaims queue now now
          ((db.jobs.rows.filter fun document => document.job.lapsed queue now).map Document.id)
          db jobId
        change Fate True _ _ jobId (get db jobId) (get (List.foldl _ db _) jobId)
        rw [seen]
        apply Fate.rewritten
        intro row _ late
        rw [Bool.and_eq_true] at late
        exact ⟨by rw [Job.status_lapsed late.2]; rfl, rfl, rfl⟩
      | requeueForRetry other =>
        apply fate_rewritten (openRow other) (Job.release now) (Job.id_release now)
        intro row live
        simp only [openRow, Bool.and_eq_true, Bool.not_eq_true'] at live
        exact ⟨live.2, rfl, rfl⟩
      | terminal ending => exact fate_terminal rfl
  claimed {db step queue worker leaseS row} _ _ called answered := by
    cases step with
    | nextSeq | insertOne | reclaimNext => cases called
    | whole op now =>
      cases called
      change (claim queue worker leaseS now db).1 = _ at answered
      change get (claim queue worker leaseS now db).2 row.id = some row
      rcases @claim_cases db now queue worker leaseS with none | ⟨chosen, stored, queued, run⟩
      · rw [none] at answered
        cases answered
      · rw [run] at answered ⊢
        cases answered
        rw [get_updateJobs, Job.id_start, stored]
        simp
  told {db step ending row} _ _ called answered := by
    cases step with
    | nextSeq | insertOne | reclaimNext => cases called
    | whole op now =>
      cases called
      change (terminal nameSpace ending now db).1 = _ at answered
      obtain ⟨seen, told⟩ := @terminal_cases nameSpace db ending.jobId now ending
      rw [answered, Reply.job.injEq, eq_comm, Option.map_eq_some_iff] at told
      obtain ⟨before, stored, rfl⟩ := told
      obtain ⟨found, live⟩ := Option.filter_eq_some_iff.mp stored
      rw [Bool.not_eq_true'] at live
      refine ⟨before, found, live, seen.trans ?_, before.tells_finish ending now⟩
      obtain ⟨-, -, -, mine⟩ := get_cases found
      rw [found, Option.map_some, if_pos (by simp [mine, live])]

end Mongo

namespace Redis

variable {tostring : Int → Int} {nameSpace keys : String} {server : Server} {jobId : String}
  {op : Op} {reply : Reply} {now : Int}

/-- The row at a key of a job. -/
def rowAt (keys : String) (server : Server) (jobId : String) : Option Job :=
  (server.hashes (jobKey keys jobId)).map toJob

theorem rowAt_of_hashes {after : Server} (same : after.hashes = server.hashes) :
    rowAt keys after jobId = rowAt keys server jobId := by
  unfold rowAt
  rw [same]

theorem rowAt_hset {after : Server} {other : String} {hash : JobHash}
    (same : after.hashes = (server.hset (jobKey keys other) hash).hashes) :
    rowAt keys after jobId = if jobId = other then some (toJob hash) else rowAt keys server jobId := by
  unfold rowAt
  rw [same]
  by_cases mine : jobId = other
  · subst mine
    simp [Server.hset]
  · have apart : jobKey keys jobId ≠ jobKey keys other := fun equal => mine (jobKey_inj.mp equal)
    simp [Server.hset, Function.update_of_ne apart, mine]

theorem face_eq_some {row : Job} (found : rowAt keys server jobId = some row) :
    face keys server jobId = some (row.id, row.status, row.result) := by
  obtain ⟨hash, stored, rfl⟩ := Option.map_eq_some_iff.mp found
  simp [face, stored, toJob]

/-- Writing the hash of one job. -/
theorem Fate.hset {firm : Prop} {after : Server} {other : String} {hash : JobHash}
    (same : after.hashes = (server.hset (jobKey keys other) hash).hashes)
    (fate : Fate firm op reply other (rowAt keys server other) (some (toJob hash))) :
    Fate firm op reply jobId (rowAt keys server jobId) (rowAt keys after jobId) := by
  rw [rowAt_hset same]
  by_cases mine : jobId = other
  · subst mine
    rw [if_pos rfl]
    exact fate
  · rw [if_neg mine]
    exact .same

theorem Fate.hashes {firm : Prop} {after : Server} (same : after.hashes = server.hashes) :
    Fate firm op reply jobId (rowAt keys server jobId) (rowAt keys after jobId) := by
  rw [rowAt_of_hashes same]
  exact .same

/-- A popped member names a stored job. -/
theorem stored_of_popped (sane : Sane keys server) {key : String} {member : Member}
    {members : List Member} (popped : popMin key server.members = some (member, members)) :
    ∃ hash, server.hashes (jobKey keys member.jobId) = some hash ∧ hash.id = member.jobId ∧
      0 < tokens server member.jobId := by
  have some : 0 < tokens server member.jobId := by
    unfold tokens
    rw [(popMin_perm popped).countP_eq, List.countP_cons]
    simp
  cases found : server.hashes (jobKey keys member.jobId) with
  | none =>
    have free := (sane member.jobId).1 (by simp [face, found])
    omega
  | some hash =>
    refine ⟨hash, rfl, ?_, some⟩
    exact (sane member.jobId).2 _ hash.status hash.result (by simp [face, found])

theorem fate_enqueue {firm : Prop} {queue : String} {payload : Dict} {given : Option String}
    {priority : Int} {uuid : String} (called : op = .enqueue queue payload given priority uuid)
    (vacant : firm → ∀ row, rowAt keys server (newId given uuid) = some row →
      row.status.terminal = false) :
    Fate firm op (.enqueued (newId given uuid)) jobId (rowAt keys server jobId)
      (rowAt keys (luaEnqueue keys nameSpace queue payload (newId given uuid) priority now server)
        jobId) := by
  unfold rowAt
  have same : (luaEnqueue keys nameSpace queue payload (newId given uuid) priority now
      server).hashes = (server.hset (jobKey keys (newId given uuid)) {
        id := newId given uuid, nameSpace, queue, status := .queued, payload, priority,
        attempts := 0, claimedBy := "", leaseExpiresAt := none, result := none, error := "",
        createdAt := now, updatedAt := now }).hashes := rfl
  by_cases mine : jobId = newId given uuid
  · have fate := @rowAt_hset keys server jobId _ _ _ same
    unfold rowAt at fate vacant
    rw [fate, if_pos mine, mine]
    exact .entered called rfl rfl vacant rfl rfl
  · have fate := @rowAt_hset keys server jobId _ _ _ same
    unfold rowAt at fate
    rw [fate, if_neg mine]
    exact .same

/-- A claim hands out the row as it leaves it. -/
theorem claim_cases (sane : Sane keys server) {queue worker : String} {leaseS : Int} :
    luaClaim keys tostring queue worker leaseS now server = (none, server) ∨
      ∃ before after, server.hashes (jobKey keys before.id) = some before ∧
        0 < tokens server before.id ∧ after.id = before.id ∧ after.payload = before.payload ∧
        after.status = .running ∧
        (luaClaim keys tostring queue worker leaseS now server).1 = some after ∧
        (luaClaim keys tostring queue worker leaseS now server).2.hashes =
          (server.hset (jobKey keys before.id) after).hashes := by
  unfold luaClaim
  cases popped : popMin (queueKey keys queue) server.members with
  | none => exact .inl rfl
  | some found =>
    obtain ⟨member, members⟩ := found
    obtain ⟨hash, stored, named, some⟩ := stored_of_popped sane popped
    right
    refine ⟨hash, _, by rw [named]; exact stored, by rw [named]; exact some, ?_, ?_, ?_, rfl, ?_⟩
    · simp [stored]
    · simp [stored]
    · rfl
    · rw [named]
      rfl

/-- A sweep leaves a row alone, or puts a running one back in the queue. -/
def Requeues (before after : Option Job) : Prop :=
  after = before ∨ ∃ row back, before = some row ∧ after = some back ∧ row.status = .running ∧
    back.status = .queued ∧ back.payload = row.payload

theorem Requeues.trans {first middle last : Option Job} (one : Requeues first middle)
    (two : Requeues middle last) : Requeues first last := by
  rcases one with rfl | ⟨row, back, before, rfl, running, queued, payload⟩
  · exact two
  · rcases two with rfl | ⟨_, _, same, _, again, _⟩
    · exact .inr ⟨row, back, before, rfl, running, queued, payload⟩
    · cases same
      rw [queued] at again
      cases again

theorem reclaimOne_row (queue : String) (found : List String × Server) (other : String) :
    Requeues (rowAt keys found.2 jobId)
      (rowAt keys (reclaimOne keys queue now found other).2 jobId) := by
  unfold reclaimOne
  cases stored : found.2.hashes (jobKey keys other) with
  | none => exact .inl rfl
  | some hash =>
    by_cases running : hash.status = .running
    · simp only [running, if_true]
      have seen := @rowAt_hset keys found.2 jobId _ _ (hash.requeued now)
        (show _ = (found.2.hset (jobKey keys other) (hash.requeued now)).hashes from rfl)
      by_cases mine : jobId = other
      · subst mine
        refine .inr ⟨toJob hash, toJob (hash.requeued now), by simp [rowAt, stored], ?_, running, rfl, rfl⟩
        refine Eq.trans ?_ (seen.trans (if_pos rfl))
        rfl
      · left
        refine Eq.trans ?_ (seen.trans (if_neg mine))
        rfl
    · simp only [running, if_false]
      exact .inl rfl

theorem swept_foldl {ι : Type} {turn : List String × Server → ι → List String × Server}
    (once : ∀ found item, Requeues (rowAt keys found.2 jobId) (rowAt keys (turn found item).2 jobId))
    (items : List ι) (found : List String × Server) :
    Requeues (rowAt keys found.2 jobId) (rowAt keys (items.foldl turn found).2 jobId) := by
  induction items generalizing found with
  | nil => exact .inl rfl
  | cons item items ih => exact Requeues.trans (once found item) (ih (turn found item))

theorem reclaimExpired_row (queue : Option String) :
    Requeues (rowAt keys server jobId)
      (rowAt keys (reclaimExpired keys queue now server).2 jobId) :=
  swept_foldl (fun found queue => swept_foldl (fun found other => reclaimOne_row queue found other)
    _ found) _ ([], server)

theorem Requeues.fate {firm : Prop} {before after : Option Job} (swept : Requeues before after) :
    Fate firm op reply jobId before after := by
  rcases swept with rfl | ⟨row, back, rfl, rfl, running, queued, payload⟩
  · exact .same
  · exact .moved (fun _ => by rw [running]; rfl) (by rw [queued]; rfl) payload

/-- A terminal script, with the hash that it ends. -/
theorem terminal_cases (nameSpace : String) {ending : Ending} :
    luaTerminal keys nameSpace ending now server = (none, server) ∨
      ∃ before after, rowAt keys server ending.jobId = some before ∧
        before.status.terminal = false ∧ (toJob after).payload = before.payload ∧
        (toJob after).Tells ending ∧
        (luaTerminal keys nameSpace ending now server).1 = some after ∧
        (luaTerminal keys nameSpace ending now server).2.hashes =
          (server.hset (jobKey keys ending.jobId) after).hashes := by
  unfold luaTerminal
  cases stored : server.hashes (jobKey keys ending.jobId) with
  | none => exact .inl rfl
  | some hash =>
    dsimp only
    by_cases ended : hash.status.terminal = true
    · rw [if_pos ended]
      exact .inl rfl
    · rw [if_neg ended]
      right
      refine ⟨toJob hash, { hash with
        status := ending.status, result := ending.result, error := ending.error.getD ""
        updatedAt := now }, by simp [rowAt, stored], Bool.eq_false_iff.mpr ended, rfl, ?_, rfl,
        (appendEvent_frame ..).1.trans rfl⟩
      refine ⟨rfl, rfl, ?_⟩
      cases text : ending.error with
      | none => simp [toJob, nonEmpty]
      | some error => simp [toJob, nonEmpty]

/-- A call, on a server whose members are sane, and matched where the backend is to be firm. -/
theorem fate_call {firm : Prop} {step : Step} (sane : Sane (keysOf nameSpace) server)
    (matched : firm → Matched (keysOf nameSpace) server)
    (allowed : firm → endsRunning nameSpace server step = true) :
    Fate firm step.op ((port tostring nameSpace).reply server step) jobId
      (get nameSpace server jobId) (get nameSpace ((port tostring nameSpace).after server step) jobId) := by
  change Fate firm step.op (call tostring nameSpace server step).1 jobId
    (rowAt (keysOf nameSpace) server jobId)
    (rowAt (keysOf nameSpace) (call tostring nameSpace server step).2 jobId)
  unfold call
  cases called : step.op with
  | enqueue queue payload given priority uuid =>
    refine fate_enqueue rfl fun strict row found => ?_
    have fits := allowed strict
    have status : statusOf nameSpace server (newId given uuid) = some row.status :=
      congrArg (Option.map Job.status) found
    simp only [endsRunning, called, status, reduceCtorEq, Option.some.injEq, false_or,
      decide_eq_true_eq] at fits
    rw [fits]
    rfl
  | claim queue worker leaseS =>
    rcases @claim_cases tostring (keysOf nameSpace) server step.now sane queue worker leaseS with
      none | ⟨before, after, stored, waits, -, payload, running, -, hashes⟩
    · dsimp only
      rw [none]
      exact .same
    · refine Fate.hset hashes ?_
      rw [show rowAt (keysOf nameSpace) server before.id = some (toJob before) by simp [rowAt, stored]]
      refine .moved (fun strict => ?_) ?_ payload
      · have few := (matched strict).2 before.id _ _ _
          (face_eq_some (show rowAt (keysOf nameSpace) server before.id = some (toJob before) by
            simp [rowAt, stored]))
        have queued : ((toJob before).status == .queued) = true := by
          by_contra other
          rw [Bool.not_eq_true] at other
          rw [other] at few
          exact absurd few (not_le.mpr waits)
        rw [beq_iff_eq.mp queued]
        rfl
      · change after.status.terminal = false
        rw [running]
        rfl
  | renewLease other worker leaseS =>
    dsimp only
    unfold luaRenew
    cases stored : server.hashes (jobKey (keysOf nameSpace) other) with
    | none => exact .same
    | some hash =>
      dsimp only
      by_cases held : hash.status = .running ∧ hash.claimedBy = worker
      · rw [if_pos held]
        have live : hash.status.terminal = false := by
          rw [held.1]
          rfl
        refine Fate.hset (show _ = (server.hset (jobKey (keysOf nameSpace) other) _).hashes from rfl) ?_
        rw [show rowAt (keysOf nameSpace) server other = some (toJob hash) by simp [rowAt, stored]]
        exact .moved (fun _ => live) live rfl
      · rw [if_neg held]
        exact .same
  | reclaimExpired queue => exact (reclaimExpired_row queue).fate
  | requeueForRetry other =>
    dsimp only
    unfold luaRequeue
    cases stored : server.hashes (jobKey (keysOf nameSpace) other) with
    | none => exact .same
    | some hash =>
      dsimp only
      by_cases ended : hash.status.terminal = true
      · rw [if_pos ended]
        exact .same
      · rw [if_neg ended]
        refine Fate.hset (show _ = (server.hset (jobKey (keysOf nameSpace) other) _).hashes from rfl) ?_
        rw [show rowAt (keysOf nameSpace) server other = some (toJob hash) by simp [rowAt, stored]]
        exact .moved (fun _ => Bool.eq_false_iff.mpr ended) rfl rfl
  | terminal ending =>
    rcases @terminal_cases (keysOf nameSpace) server step.now nameSpace ending with
      none | ⟨before, after, found, live, payload, tells, told, hashes⟩
    · dsimp only
      rw [none]
      exact .same
    · refine Fate.hset hashes ?_
      rw [found]
      refine .ended rfl rfl ?_ live payload tells
      change Reply.job (Option.map toJob (luaTerminal _ _ _ _ _).1) = _
      rw [told]
      rfl

theorem claimed_call {step : Step} {queue worker : String} {leaseS : Int} {row : Job}
    (sane : Sane (keysOf nameSpace) server) (called : step.op = .claim queue worker leaseS)
    (answered : (port tostring nameSpace).reply server step = .job (some row)) :
    get nameSpace ((port tostring nameSpace).after server step) row.id = some row := by
  change (call tostring nameSpace server step).1 = _ at answered
  change rowAt (keysOf nameSpace) (call tostring nameSpace server step).2 row.id = some row
  unfold call at answered ⊢
  rw [called] at answered ⊢
  dsimp only [Prod.map] at answered ⊢
  rcases @claim_cases tostring (keysOf nameSpace) server step.now sane queue worker leaseS with
    none | ⟨before, after, -, -, named, -, -, told, hashes⟩
  · rw [none] at answered
    cases answered
  · rw [told] at answered
    cases answered
    rw [show (toJob after).id = before.id from named, id, rowAt_hset hashes, if_pos rfl]

theorem told_call {step : Step} {ending : Ending} {row : Job}
    (called : step.op = .terminal ending)
    (answered : (port tostring nameSpace).reply server step = .job (some row)) :
    ∃ before, get nameSpace server ending.jobId = some before ∧ before.status.terminal = false ∧
      get nameSpace ((port tostring nameSpace).after server step) ending.jobId = some row ∧
      row.Tells ending := by
  change (call tostring nameSpace server step).1 = _ at answered
  change ∃ before, _ ∧ _ ∧
    rowAt (keysOf nameSpace) (call tostring nameSpace server step).2 ending.jobId = some row ∧ _
  unfold call at answered ⊢
  rw [called] at answered ⊢
  dsimp only [Prod.map] at answered ⊢
  rcases @terminal_cases (keysOf nameSpace) server step.now nameSpace ending with
    none | ⟨before, after, found, live, payload, tells, told, hashes⟩
  · rw [none] at answered
    cases answered
  · rw [told] at answered
    cases answered
    refine ⟨before, found, live, ?_, tells⟩
    rw [id, rowAt_hset hashes, if_pos rfl]

/-- Redis, whatever is called. -/
theorem fates (tostring : Int → Int) (nameSpace : String) :
    Fates (port tostring nameSpace) False anyCall (Sane (keysOf nameSpace)) where
  keeps sane _ := sane_after tostring nameSpace sane _
  fate sane _ _ := fate_call sane False.elim False.elim
  claimed sane _ called answered := claimed_call sane called answered
  told _ _ called answered := told_call called answered

/-- Redis, while no job is ended or started over outside its turn. -/
theorem fates_firm (tostring : Int → Int) (nameSpace : String) :
    Fates (port tostring nameSpace) True (endsRunning nameSpace) (Matched (keysOf nameSpace)) where
  keeps matched allowed := matched_after matched allowed
  fate matched allowed _ := fate_call matched.1 (fun _ => matched) fun _ => allowed
  claimed matched _ called answered := claimed_call matched.1 called answered
  told _ _ called answered := told_call called answered

end Redis

end QueueWorkflows.Backend
