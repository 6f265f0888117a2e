import QueueWorkflows.Base.History
import QueueWorkflows.Engine.Listening
import QueueWorkflows.Engine.WorkerControl

/-! A worker under its switch. A process that starts while its worker is off parks until the
worker is on. Once it claims, a watcher listens to the switch; when it reads that the worker is
off, it gives the worker's jobs back and ends the process. The supervisor starts the next one. -/

namespace QueueWorkflows.ControlWatch

open BackendFactory (Key)
open Transaction (Reach)
open Wakes (Loop Place Rested)
open WorkerControl

def EXIT_CONTROL_HARD_STOP : Int := 79

/-- A worker; its watcher is left out under `AI_LEADS_DISABLE_WORKER_CONTROL`. -/
structure Settings where
  key : Key
  enabled : Bool := true

abbrev Rows := List ControlRow

/-- What `notify_worker_control` posts: notices of one transaction with one payload are one. -/
def notices (writes : List Write) : ℕ :=
  (writes.map Write.key).dedup.length

/-- A policy that no handler is registered for is taken for `hard`. -/
def handlerFor (stopPolicy : String) : StopPolicy :=
  (StopPolicy.named (if stopPolicy = "" then "hard" else stopPolicy)).getD .hard

/-- `check_once` up to the handler that it calls. -/
def checkOnce (rows : Rows) (key : Key) : Option StopPolicy :=
  match getWorkerControl rows key with
  | some row =>
    if row.control.desiredState = STATE_OFF then some (handlerFor row.control.stopPolicy) else none
  | none => none

/-! ### The two loops that listen -/

/-- The loop of `_park_until_enabled`. An answer that does not come ends the connection. -/
def gateLoop (key : Key) : Loop Rows Bool where
  quiet before after := decide (before = after)
  look _ rows := if desiredStateFor rows key = STATE_OFF then .nothing else .found rows
  looksFirst := true
  returns := true
  base := Listening.LISTEN_RECONNECT_BASE_S
  cap := Listening.LISTEN_RECONNECT_MAX_S

/-- The loop of `WorkerControlWatcher`, which waits before it looks. An answer that does not come
is logged. -/
def watchLoop (key : Key) : Loop Rows Bool where
  quiet before after := decide (before = after)
  look answered rows :=
    if answered then if (checkOnce rows key).isSome then .found rows else .nothing else .passed
  looksFirst := false
  returns := true
  base := Listening.LISTEN_RECONNECT_BASE_S
  cap := Listening.LISTEN_RECONNECT_MAX_S

/-! ### A worker and its processes -/

inductive Watcher where
  | absent
  | starting
  | listening
  | stopping (policy : StopPolicy)
  | released

inductive Stage where
  | down
  | booting
  | parked
  | probing
  | claiming (watcher : Watcher)

inductive Event where
  /-- The state of the worker after a transaction. -/
  | committed (state : String)
  | booted
  | read (state : String)
  | claimed
  | released
  | exited (code : Int)
deriving DecidableEq

/-- The thread is the one that listens, whichever of the two loops it is in; its store is the
table. -/
structure World where
  thread : Wakes.World Rows Bool
  stage : Stage := .down
  trace : List Event := []

def World.tell (event : Event) (world : World) : World :=
  { world with trace := world.trace ++ [event] }

inductive Listen where
  | connect
  | fail
  | retry
  | wake (taken : ℕ)

def Listen.label : Listen → Wakes.Label Rows Bool
  | .connect => .connect
  | .fail => .fail
  | .retry => .retry
  | .wake taken => .wake taken

inductive Label where
  | commit (writes : List Write)
  | boot
  /-- The first read of `_park_until_enabled`. -/
  | read
  | listen (move : Listen)
  | look (answered : Bool)
  /-- `_refuse_blind_gpu`, with what the probe of the device has said. -/
  | probe (usable : Option Bool)
  /-- The read of the watcher before it listens. -/
  | check (answered : Bool)
  /-- The watcher's loop has raised, which is logged. -/
  | lose
  | claim
  | release
  | exit
  /-- The process ends in any other way. -/
  | quit (code : Int)

section Step

variable (settings : Settings)

def World.state (world : World) : String := desiredStateFor world.thread.store settings.key

/-- The watcher acts on what it has read. -/
def World.watched (world : World) : World :=
  match checkOnce world.thread.store settings.key with
  | none => world.tell (.read STATE_ON)
  | some policy => { world with stage := .claiming (.stopping policy) }.tell (.read STATE_OFF)

def step (world : World) : Label → Option World
  | .commit writes =>
    let after := writes.foldl Write.apply world.thread.store
    if writes.all Write.checked then some <| World.tell
      (.committed (desiredStateFor after settings.key)) { world with thread := { world.thread with
        store := after, place := world.thread.place.hear (notices writes) } }
    else none
  | .boot =>
    match world.stage with
    | .down => some ({ world with stage := .booting }.tell .booted)
    | _ => none
  | .read =>
    match world.stage with
    | .booting => some <| World.tell (.read (world.state settings)) <|
      if world.state settings = STATE_OFF then { world with
        stage := .parked, thread := Wakes.start (gateLoop settings.key) world.thread.store }
      else { world with stage := .probing }
    | _ => none
  | .listen move =>
    match world.stage with
    | .parked => (Wakes.step (gateLoop settings.key) world.thread move.label).map fun thread =>
      { world with thread }
    | .claiming .listening =>
      (Wakes.step (watchLoop settings.key) world.thread move.label).map fun thread =>
        { world with thread }
    | _ => none
  | .look answered =>
    match world.stage with
    | .parked => (Wakes.step (gateLoop settings.key) world.thread (.look answered)).map fun thread =>
      World.tell (.read (world.state settings)) { world with
        thread, stage := if world.state settings = STATE_OFF then .parked else .probing }
    | .claiming .listening =>
      (Wakes.step (watchLoop settings.key) world.thread (.look answered)).map fun thread =>
        if answered then World.watched settings { world with thread } else { world with thread }
    | _ => none
  | .probe usable =>
    match world.stage with
    | .probing =>
      if settings.key.2 = Queue.gpu.name ∧ usable = some false then
        some ({ world with stage := .down }.tell (.exited 0))
      else some { world with
        stage := .claiming (if settings.enabled then .starting else .absent) }
    | _ => none
  | .check answered =>
    match world.stage with
    | .claiming .starting =>
      let listening := { world with
        stage := .claiming .listening
        thread := Wakes.start (watchLoop settings.key) world.thread.store }
      some (if answered then World.watched settings listening else listening)
    | _ => none
  | .lose =>
    match world.stage with
    | .claiming .listening => some { world with stage := .claiming .absent }
    | _ => none
  | .claim =>
    match world.stage with
    | .claiming _ => some (world.tell .claimed)
    | _ => none
  | .release =>
    match world.stage with
    | .claiming (.stopping .hard) =>
      some ({ world with stage := .claiming .released }.tell .released)
    | _ => none
  | .exit =>
    match world.stage with
    | .claiming .released =>
      some ({ world with stage := .down }.tell (.exited EXIT_CONTROL_HARD_STOP))
    | _ => none
  | .quit code =>
    match world.stage with
    | .down => none
    | _ =>
      if code = EXIT_CONTROL_HARD_STOP then none
      else some ({ world with stage := .down }.tell (.exited code))

def start (rows : Rows) : World where
  thread := { store := rows, place := .returned, backoff := 0 }

def anything (_ : World) (_ : Label) : Bool := true

end Step

/-! ### What a run tells of the worker -/

/-- `on` and `off` are what the process has read: that its worker is on, and after that, that it
is off. -/
structure Story where
  state : String
  running : Bool := false
  on : Bool := false
  off : Bool := false
  released : Bool := false
deriving DecidableEq

namespace Story

def next (story : Story) : Event → Story
  | .committed state => { story with state }
  | .booted => { state := story.state, running := true }
  | .read state =>
    if state = STATE_OFF then { story with off := story.on } else { story with on := true }
  | .claimed => story
  | .released => { story with released := true }
  | .exited _ => { state := story.state }

/-- A process reads what has been committed. It claims once it has read that its worker is on, and
reads no more once it has read that it is on and then that it is off; then it gives its jobs
back, and only then it exits with the code of the hard stop. -/
def Law (story : Story) : Event → Prop
  | .committed _ => True
  | .booted => story.running = false
  | .read state => story.running = true ∧ story.off = false ∧ state = story.state
  | .claimed => story.running = true ∧ story.on = true
  | .released => story.off = true ∧ story.released = false
  | .exited code => story.running = true ∧
      (code = EXIT_CONTROL_HARD_STOP → story.off = true ∧ story.released = true)

end Story

def tell (rows : Rows) (key : Key) (trace : List Event) : Story :=
  History.after Story.next { state := desiredStateFor rows key } trace

/-! ### The story of a stage -/

/-- What a process at this stage has read and done, when the worker is in this state. -/
def Stage.told (state : String) : Stage → Story
  | .down => { state }
  | .booting | .parked => { state, running := true }
  | .probing => { state, running := true, on := true }
  | .claiming (.stopping _) => { state, running := true, on := true, off := true }
  | .claiming .released => { state, running := true, on := true, off := true, released := true }
  | .claiming _ => { state, running := true, on := true }

section Runs

variable {settings : Settings} {rows : Rows} {world after base : World} {event : Event}
  {thread next : Wakes.World Rows Bool} {label : Label}

theorem checkOnce_none (table : Rows) (key : Key) :
    checkOnce table key = none ↔ desiredStateFor table key = STATE_ON := by
  unfold checkOnce desiredStateFor
  cases getWorkerControl table key with
  | none => simp
  | some row =>
    by_cases off : row.control.desiredState = STATE_OFF
    · simp [off, STATE_ON, STATE_OFF]
    · simp [off]

theorem off_of_checkOnce {table : Rows} {key : Key} {policy : StopPolicy}
    (found : checkOnce table key = some policy) : desiredStateFor table key = STATE_OFF := by
  rcases desiredStateFor_cases table key with on | off
  · rw [(checkOnce_none table key).mpr on] at found
    cases found
  · exact off

theorem store_listen {loop : Loop Rows Bool} {move : Listen}
    (stepped : Wakes.step loop thread move.label = some next) : next.store = thread.store := by
  cases move <;> simp only [Listen.label, Wakes.step] at stepped
  all_goals split at stepped <;> cases stepped
  all_goals rfl

theorem store_look {loop : Loop Rows Bool} {answered : Bool}
    (reads : ∀ table found, loop.look answered table = .found found → found = table)
    (stepped : Wakes.step loop thread (.look answered) = some next) :
    next.store = thread.store := by
  simp only [Wakes.step] at stepped
  split at stepped <;> cases stepped
  unfold Loop.looked
  cases result : loop.look answered thread.store with
  | found other => exact reads _ _ result
  | nothing => rfl
  | passed => rfl

theorem gate_reads {key : Key} {answered : Bool} {table found : Rows}
    (result : (gateLoop key).look answered table = .found found) : found = table := by
  simp only [gateLoop] at result
  split at result <;> cases result
  rfl

theorem watch_reads {key : Key} {answered : Bool} {table found : Rows}
    (result : (watchLoop key).look answered table = .found found) : found = table := by
  simp only [watchLoop] at result
  split at result
  · split at result <;> cases result
    rfl
  · cases result

/-! ### The run is lawful -/

variable (settings rows) in
structure Told (world : World) : Prop where
  lawful : History.Obeyed Story.next Story.Law { state := desiredStateFor rows settings.key }
    world.trace
  story : tell rows settings.key world.trace = world.stage.told (world.state settings)

theorem Told.tell (told : Told settings rows world) (same : base.trace = world.trace)
    (law : Story.Law (world.stage.told (world.state settings)) event)
    (onward : (world.stage.told (world.state settings)).next event =
      base.stage.told (base.state settings)) : Told settings rows (base.tell event) := by
  have before : History.after Story.next { state := desiredStateFor rows settings.key }
      world.trace = world.stage.told (world.state settings) := told.story
  constructor
  · change History.Obeyed _ _ _ (base.trace ++ [event])
    rw [same, History.obeyed_append, before]
    exact ⟨told.lawful, by simpa using law⟩
  · change History.after _ _ (base.trace ++ [event]) = _
    rw [same, History.after_append, before]
    exact onward

theorem Told.silent (told : Told settings rows world) (same : base.trace = world.trace)
    (alike : base.stage.told (base.state settings) = world.stage.told (world.state settings)) :
    Told settings rows base := by
  constructor
  · rw [same]
    exact told.lawful
  · rw [same, alike]
    exact told.story

/-- A process that is on looks at the switch. -/
theorem Told.watched (told : Told settings rows world)
    (claims : world.stage.told (world.state settings) =
      { state := world.state settings, running := true, on := true })
    (same : base.trace = world.trace) (stored : base.thread.store = world.thread.store)
    (onward : base.stage.told (base.state settings) =
      { state := base.state settings, running := true, on := true }) :
    Told settings rows (base.watched settings) := by
  have state : base.state settings = world.state settings := by
    unfold World.state
    rw [stored]
  unfold World.watched
  cases found : checkOnce base.thread.store settings.key with
  | none =>
    have on : base.state settings = STATE_ON := (checkOnce_none _ _).mp found
    refine told.tell same ?_ ?_
    · rw [claims, ← state, on]
      exact ⟨rfl, rfl, rfl⟩
    · rw [claims, onward, ← state]
      rfl
  | some policy =>
    have off : base.state settings = STATE_OFF := off_of_checkOnce found
    refine told.tell same ?_ ?_
    · rw [claims, ← state, off]
      exact ⟨rfl, rfl, rfl⟩
    · rw [claims, ← state]
      rfl

theorem told_state (stage : Stage) (state other : String) :
    { stage.told state with state := other } = stage.told other := by
  cases stage with
  | claiming watcher => cases watcher <;> rfl
  | down | booting | parked | probing => rfl

/-- The gate reads: the process goes on, or parks. -/
theorem told_read (state : String) : Story.next { state, running := true } (.read state) =
    (if state = STATE_OFF then Stage.parked else Stage.probing).told state := by
  by_cases off : state = STATE_OFF
  · rw [if_pos off]
    simp only [Story.next, if_pos off]
    rfl
  · rw [if_neg off]
    simp only [Story.next, if_neg off]
    rfl

theorem told_running {stage : Stage} {state : String} (up : stage ≠ .down) :
    (stage.told state).running = true := by
  cases stage with
  | down => exact absurd rfl up
  | claiming watcher => cases watcher <;> rfl
  | booting | parked | probing => rfl

theorem told_down (stage : Stage) (state : String) (code : Int) :
    (stage.told state).next (.exited code) = Stage.down.told state := by
  cases stage with
  | claiming watcher => cases watcher <;> rfl
  | down | booting | parked | probing => rfl

theorem Told.step (told : Told settings rows world)
    (stepped : ControlWatch.step settings world label = some after) :
    Told settings rows after := by
  cases label with
  | commit writes =>
    simp only [ControlWatch.step] at stepped
    split at stepped <;> cases stepped
    exact told.tell rfl trivial (told_state _ _ _)
  | boot =>
    simp only [ControlWatch.step] at stepped
    split at stepped <;> cases stepped
    rename_i stage
    exact told.tell rfl (by rw [stage]; rfl) (by rw [stage]; rfl)
  | read =>
    simp only [ControlWatch.step] at stepped
    split at stepped <;> cases stepped
    rename_i stage
    refine told.tell (by split <;> rfl) ?_ ?_
    · rw [stage]
      exact ⟨rfl, rfl, rfl⟩
    · rw [stage]
      refine (told_read _).trans ?_
      split <;> rfl
  | listen move =>
    simp only [ControlWatch.step] at stepped
    split at stepped
    · obtain ⟨thread, moved, rfl⟩ := Option.map_eq_some_iff.mp stepped
      exact told.silent rfl (by simp only [World.state, store_listen moved])
    · obtain ⟨thread, moved, rfl⟩ := Option.map_eq_some_iff.mp stepped
      exact told.silent rfl (by simp only [World.state, store_listen moved])
    · cases stepped
  | look answered =>
    simp only [ControlWatch.step] at stepped
    split at stepped
    · rename_i stage
      obtain ⟨thread, moved, rfl⟩ := Option.map_eq_some_iff.mp stepped
      have stored : thread.store = world.thread.store := store_look (fun _ _ => gate_reads) moved
      refine told.tell rfl ?_ ?_
      · rw [stage]
        exact ⟨rfl, rfl, rfl⟩
      · rw [stage]
        simp only [World.state, stored]
        exact told_read _
    · rename_i stage
      obtain ⟨thread, moved, rfl⟩ := Option.map_eq_some_iff.mp stepped
      have stored : thread.store = world.thread.store := store_look (fun _ _ => watch_reads) moved
      split
      · refine told.watched ?_ rfl stored ?_
        · rw [stage]
          rfl
        · rw [stage]
          rfl
      · exact told.silent rfl (by simp only [World.state, stored])
    · cases stepped
  | probe usable =>
    simp only [ControlWatch.step] at stepped
    split at stepped
    · rename_i stage
      split at stepped <;> cases stepped
      · refine told.tell rfl ?_ ?_
        · rw [stage]
          exact ⟨rfl, fun code => absurd code (by decide)⟩
        · rw [stage]
          rfl
      · refine told.silent rfl ?_
        rw [stage]
        split <;> rfl
    · cases stepped
  | check answered =>
    simp only [ControlWatch.step] at stepped
    split at stepped <;> cases stepped
    rename_i stage
    split
    · refine told.watched ?_ rfl rfl rfl
      rw [stage]
      rfl
    · refine told.silent rfl ?_
      rw [stage]
      rfl
  | lose =>
    simp only [ControlWatch.step] at stepped
    split at stepped <;> cases stepped
    rename_i stage
    refine told.silent rfl ?_
    rw [stage]
    rfl
  | claim =>
    simp only [ControlWatch.step] at stepped
    split at stepped <;> cases stepped
    rename_i watcher stage
    refine told.tell rfl ?_ ?_
    · rw [stage]
      cases watcher <;> exact ⟨rfl, rfl⟩
    · rfl
  | release =>
    simp only [ControlWatch.step] at stepped
    split at stepped <;> cases stepped
    rename_i stage
    refine told.tell rfl ?_ ?_
    · rw [stage]
      exact ⟨rfl, rfl⟩
    · rw [stage]
      rfl
  | exit =>
    simp only [ControlWatch.step] at stepped
    split at stepped <;> cases stepped
    rename_i stage
    refine told.tell rfl ?_ ?_
    · rw [stage]
      exact ⟨rfl, fun _ => ⟨rfl, rfl⟩⟩
    · rw [stage]
      rfl
  | quit code =>
    simp only [ControlWatch.step] at stepped
    split at stepped
    · cases stepped
    · rename_i running
      split at stepped <;> cases stepped
      rename_i other
      refine told.tell rfl ?_ ?_
      · exact ⟨told_running running, fun same => absurd same other⟩
      · exact told_down _ _ _

theorem told (reached : Reach (ControlWatch.step settings) anything (start rows) world) :
    Told settings rows world :=
  reached.invariant ⟨History.obeyed_nil, rfl⟩ fun _ _ _ told _ stepped => told.step stepped

variable (settings) in
/-- The thread of either loop is at rest. -/
structure Rests (world : World) : Prop where
  parked : world.stage = .parked → Rested (gateLoop settings.key) world.thread
  watching : world.stage = .claiming .listening → Rested (watchLoop settings.key) world.thread

theorem rests_elsewhere (gate : world.stage ≠ .parked)
    (watch : world.stage ≠ .claiming .listening) : Rests settings world :=
  ⟨fun same => absurd same gate, fun same => absurd same watch⟩

theorem rested_start (loop : Loop Rows Bool) (table : Rows) :
    Rested loop (Wakes.start loop table) :=
  Wakes.rested_of_place (by rintro look ⟨⟩)

/-- A transaction that writes to the table posts a notice. -/
theorem owed (table : Rows) (writes : List Write) :
    (decide (table = writes.foldl Write.apply table) || decide (0 < notices writes)) = true := by
  cases writes with
  | nil => simp
  | cons write writes =>
    have listed : write.key ∈ ((write :: writes).map Write.key).dedup := by simp
    have posted : 0 < notices (write :: writes) := List.length_pos_of_mem listed
    simp [posted]

theorem rests_watched (stage : world.stage = .claiming .listening)
    (rested : Rested (watchLoop settings.key) world.thread) :
    Rests settings (world.watched settings) := by
  unfold World.watched
  split
  · constructor
    · intro other
      cases stage.symm.trans other
    · intro _
      exact rested
  · apply rests_elsewhere
    · rintro ⟨⟩
    · rintro ⟨⟩

theorem Rests.step (rests : Rests settings world)
    (stepped : ControlWatch.step settings world label = some after) : Rests settings after := by
  cases label with
  | commit writes =>
    simp only [ControlWatch.step] at stepped
    split at stepped <;> cases stepped
    constructor
    · intro stage
      exact Wakes.rested_commit (rests.parked stage) (owed _ _)
    · intro stage
      exact Wakes.rested_commit (rests.watching stage) (owed _ _)
  | read =>
    simp only [ControlWatch.step] at stepped
    split at stepped <;> cases stepped
    split
    · constructor
      · intro _
        exact rested_start _ _
      · rintro ⟨⟩
    · apply rests_elsewhere
      · rintro ⟨⟩
      · rintro ⟨⟩
  | listen move =>
    simp only [ControlWatch.step] at stepped
    split at stepped
    · rename_i stage
      obtain ⟨thread, moved, rfl⟩ := Option.map_eq_some_iff.mp stepped
      constructor
      · intro _
        exact (rests.parked stage).step moved
      · intro other
        rw [stage] at other
        cases other
    · rename_i stage
      obtain ⟨thread, moved, rfl⟩ := Option.map_eq_some_iff.mp stepped
      constructor
      · intro other
        rw [stage] at other
        cases other
      · intro _
        exact (rests.watching stage).step moved
    · cases stepped
  | look answered =>
    simp only [ControlWatch.step] at stepped
    split at stepped
    · rename_i stage
      obtain ⟨thread, moved, rfl⟩ := Option.map_eq_some_iff.mp stepped
      constructor
      · intro _
        exact (rests.parked stage).step moved
      · intro other
        simp only [World.tell] at other
        split at other <;> cases other
    · rename_i stage
      obtain ⟨thread, moved, rfl⟩ := Option.map_eq_some_iff.mp stepped
      have rested := (rests.watching stage).step moved
      split
      · exact rests_watched stage rested
      · constructor
        · intro other
          cases stage.symm.trans other
        · intro _
          exact rested
    · cases stepped
  | check answered =>
    simp only [ControlWatch.step] at stepped
    split at stepped <;> cases stepped
    split
    · exact rests_watched rfl (rested_start _ _)
    · constructor
      · rintro ⟨⟩
      · intro _
        exact rested_start _ _
  | probe usable =>
    simp only [ControlWatch.step] at stepped
    split at stepped
    · split at stepped <;> cases stepped
      · apply rests_elsewhere
        · rintro ⟨⟩
        · rintro ⟨⟩
      · apply rests_elsewhere
        · rintro ⟨⟩
        · cases settings.enabled <;> rintro ⟨⟩
    · cases stepped
  | claim =>
    simp only [ControlWatch.step] at stepped
    split at stepped <;> cases stepped
    exact ⟨rests.parked, rests.watching⟩
  | quit code =>
    simp only [ControlWatch.step] at stepped
    split at stepped
    · cases stepped
    · split at stepped <;> cases stepped
      apply rests_elsewhere
      · rintro ⟨⟩
      · rintro ⟨⟩
  | boot | lose | release | exit =>
    simp only [ControlWatch.step] at stepped
    split at stepped <;> cases stepped
    all_goals
      apply rests_elsewhere
      · rintro ⟨⟩
      · rintro ⟨⟩

theorem rests (reached : Reach (ControlWatch.step settings) anything (start rows) world) :
    Rests settings world :=
  reached.invariant (rests_elsewhere (by rintro ⟨⟩) (by rintro ⟨⟩)) fun _ _ _ rests _ stepped =>
    rests.step stepped

end Runs

/-! ### Samples -/

def Sample.worker : Settings where
  key := ("host", "cpu")

def Sample.turned (desiredState : String) : Label :=
  .commit [.configure ("host", "cpu") { parallelism := some 4 },
    .switch ("host", "cpu") { desiredState }]

/-- A worker is turned off while it claims. Its next process parks and is woken, after a broken
connection, as the worker is turned on. -/
def Sample.labels : List Label :=
  [.boot, .read, .probe none, .claim, .check true, .listen .connect, Sample.turned STATE_OFF,
    .listen (.wake 1), .look true, .claim, .release, .exit, .boot, .read, .listen .fail,
    .listen .retry, .listen .connect, .look true, Sample.turned STATE_ON, .listen (.wake 1),
    .look true, .probe none, .claim]

def Sample.ended : World :=
  (Transaction.follow (step Sample.worker) anything (start []) Sample.labels).getD (start [])

end QueueWorkflows.ControlWatch
