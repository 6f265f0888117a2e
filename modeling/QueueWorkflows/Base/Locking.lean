import QueueWorkflows.Base.Pool

/-! Sessions on one database. A session runs its statements in one transaction: it sees what
the others have committed by then and, on top of that, what it has written itself. Where every
session first takes the same lock, the database goes through the states it goes through when
the sessions run one after the other. -/

namespace Locking

open Transaction (Reach)

/-- What a session has still to do in its open transaction. -/
inductive Session (σ ε α : Type) : Type where
  | pure (value : α)
  | raise (error : ε)
  /-- Wait until nobody holds the lock, and hold it until the transaction ends. -/
  | lock (next : Session σ ε α)
  | execute (statement : σ → Except ε σ) (next : Session σ ε α)
  | query (next : σ → Session σ ε α)

namespace Session

variable {σ ε α β : Type}

protected def bind : Session σ ε α → (α → Session σ ε β) → Session σ ε β
  | .pure value, rest => rest value
  | .raise error, _ => .raise error
  | .lock next, rest => .lock (next.bind rest)
  | .execute statement next, rest => .execute statement (next.bind rest)
  | .query next, rest => .query fun view => (next view).bind rest

instance : Monad (Session σ ε) where
  pure := .pure
  bind := Session.bind

def ofExcept : Except ε α → Session σ ε α
  | .ok value => .pure value
  | .error error => .raise error

/-- Alone on the database. -/
def run : Session σ ε α → σ → Except ε (α × σ)
  | .pure value, state => .ok (value, state)
  | .raise error, _ => .error error
  | .lock next, state => next.run state
  | .execute statement next, state =>
    match statement state with
    | .ok after => next.run after
    | .error error => .error error
  | .query next, state => (next state).run state

/-- The session takes the lock before anything else, or does nothing at all. -/
def Guarded : Session σ ε α → Prop
  | .lock _ | .raise _ => True
  | _ => False

@[simp] theorem run_pure (value : α) (state : σ) :
    (Pure.pure value : Session σ ε α).run state = .ok (value, state) := rfl

@[simp] theorem run_ofExcept (outcome : Except ε α) (state : σ) :
    (ofExcept outcome : Session σ ε α).run state = outcome.map fun value => (value, state) := by
  cases outcome <;> rfl

@[simp] theorem run_bind (first : Session σ ε α) (rest : α → Session σ ε β) (state : σ) :
    (first >>= rest).run state =
      first.run state >>= fun outcome => (rest outcome.1).run outcome.2 := by
  induction first generalizing state with
  | pure value => rfl
  | raise error => rfl
  | lock next ih => exact ih state
  | execute statement next ih =>
    change (Session.execute statement (next.bind rest)).run state = _
    simp only [run]
    cases statement state with
    | error error => rfl
    | ok after => exact ih after
  | query next ih => exact ih state state

theorem run_bind_ok {first : Session σ ε α} {rest : α → Session σ ε β} {state : σ}
    {result : β × σ} : (first >>= rest).run state = .ok result ↔
      ∃ value middle, first.run state = .ok (value, middle) ∧
        (rest value).run middle = .ok result := by
  rw [run_bind]
  cases first.run state with
  | error error =>
    constructor
    · intro ran
      cases ran
    · rintro ⟨_, _, ran, _⟩
      cases ran
  | ok outcome =>
    constructor
    · intro ran
      exact ⟨outcome.1, outcome.2, rfl, ran⟩
    · rintro ⟨value, middle, same, ran⟩
      cases same
      exact ran

theorem run_ofExcept_ok {outcome : Except ε α} {value : α} {state after : σ} :
    (ofExcept outcome : Session σ ε α).run state = .ok (value, after) ↔
      outcome = .ok value ∧ after = state := by
  rw [run_ofExcept]
  cases outcome with
  | error error => simp [Except.map]
  | ok result => simp [Except.map, eq_comm]

end Session

inductive Stage (σ ε α : Type) : Type where
  /-- `own` are the statements it has executed, the oldest first. -/
  | running (left : Session σ ε α) (own : List (σ → Except ε σ)) (holds : Bool)
  | committed (value : α)
  | failed (error : ε)
  | died

section Server

variable {ι σ ε α : Type}

/-- What a session sees: its own writes on top of what is committed. -/
def replay (own : List (σ → Except ε σ)) (committed : σ) : Except ε σ :=
  own.foldlM (fun state statement => statement state) committed

def Stage.holds : Stage σ ε α → Bool
  | .running _ _ holds => holds
  | _ => false

/-- One statement of a session, or the end of its transaction. An error rolls it back. -/
def Stage.advance (free : Bool) (committed : σ) : Stage σ ε α → Option (Stage σ ε α × σ)
  | .running (.pure value) own _ =>
    match replay own committed with
    | .ok after => some (.committed value, after)
    | .error error => some (.failed error, committed)
  | .running (.raise error) _ _ => some (.failed error, committed)
  | .running (.lock next) own holds =>
    if free || holds then some (.running next own true, committed) else none
  | .running (.execute statement next) own holds =>
    match replay (own ++ [statement]) committed with
    | .ok _ => some (.running next (own ++ [statement]) holds, committed)
    | .error error => some (.failed error, committed)
  | .running (.query next) own holds =>
    match replay own committed with
    | .ok view => some (.running (next view) own holds, committed)
    | .error error => some (.failed error, committed)
  | _ => none

structure Server (ι σ ε α : Type) where
  committed : σ
  tasks : List (ι × Stage σ ε α) := []

inductive Label (ι : Type) where
  | start (client : ι)
  | advance (index : Nat)
  | crash (index : Nat)

/-- Nobody holds the lock. -/
def Server.free (server : Server ι σ ε α) : Bool :=
  server.tasks.all fun task => !task.2.holds

def Server.advance (server : Server ι σ ε α) (index : Nat) : Option (Server ι σ ε α) :=
  server.tasks[index]?.bind fun (client, stage) =>
    (stage.advance server.free server.committed).map fun (next, after) =>
      ⟨after, server.tasks.set index (client, next)⟩

/-- The clients each run a session of theirs. One that dies is rolled back. -/
def step (program : ι → Session σ ε α) (server : Server ι σ ε α) :
    Label ι → Option (Server ι σ ε α)
  | .start client => some { server with
      tasks := server.tasks ++ [(client, .running (program client) [] false)] }
  | .advance index => server.advance index
  | .crash index => server.tasks[index]?.bind fun (client, stage) =>
      match stage with
      | .running .. => some { server with tasks := server.tasks.set index (client, .died) }
      | _ => none

/-- What a session that has committed returned. -/
def outcome : ι × Stage σ ε α → Option (ι × α)
  | (client, .committed value) => some (client, value)
  | _ => none

def Server.outcomes (server : Server ι σ ε α) : List (ι × α) :=
  server.tasks.filterMap outcome

/-- The sessions of these clients, one after the other. -/
inductive Serial (program : ι → Session σ ε α) (first : σ) : List (ι × α) → σ → Prop
  | none : Serial program first [] first
  | next {order : List (ι × α)} {state after : σ} {client : ι} {value : α}
      (before : Serial program first order state)
      (ran : (program client).run state = .ok (value, after)) :
      Serial program first (order ++ [(client, value)]) after

/-! ### Where a session stands -/

variable {program : ι → Session σ ε α} {state after : σ}

theorem replay_snoc (own : List (σ → Except ε σ)) (statement : σ → Except ε σ) :
    replay (own ++ [statement]) state = replay own state >>= statement := by
  simp [replay, List.foldlM_append]

/-- A session has done nothing yet, or it holds the lock and what is left of it leads to what
the whole of it leads to from the committed state, or it has ended. -/
inductive Standing (program : ι → Session σ ε α) (state : σ) : ι × Stage σ ε α → Prop
  | waiting {client : ι} : Standing program state (client, .running (program client) [] false)
  | holding {client : ι} {left : Session σ ε α} {own : List (σ → Except ε σ)} {view : σ}
      (seen : replay own state = .ok view)
      (rest : left.run view = (program client).run state) :
      Standing program state (client, .running left own true)
  | committed {client : ι} {value : α} : Standing program state (client, .committed value)
  | failed {client : ι} {error : ε} : Standing program state (client, .failed error)
  | died {client : ι} : Standing program state (client, .died)

/-- A session that does not hold the lock stands where it stood. -/
theorem Standing.moved {task : ι × Stage σ ε α} (standing : Standing program state task)
    (idle : task.2.holds = false) : Standing program after task := by
  cases standing with
  | waiting => exact .waiting
  | holding seen rest => cases idle
  | committed => exact .committed
  | failed => exact .failed
  | died => exact .died

/-- What a step of a session may come to: it goes on under the lock, it fails as it would have
failed alone, or it ends, and the change is that of the whole session. -/
inductive Advanced (program : ι → Session σ ε α) (state : σ) (client : ι) (stage : Stage σ ε α)
    (free : Bool) : Stage σ ε α × σ → Prop
  | going {left : Session σ ε α} {own : List (σ → Except ε σ)}
      (stands : Standing program state (client, .running left own true))
      (took : stage.holds = true ∨ free = true) :
      Advanced program state client stage free (.running left own true, state)
  | failing {error : ε} (fails : (program client).run state = .error error) :
      Advanced program state client stage free (.failed error, state)
  | ending {value : α} {after : σ} (held : stage.holds = true)
      (ran : (program client).run state = .ok (value, after)) :
      Advanced program state client stage free (.committed value, after)

theorem Standing.advance (guarded : ∀ client, (program client).Guarded) {client : ι}
    {stage : Stage σ ε α} {free : Bool} {moved : Stage σ ε α × σ}
    (standing : Standing program state (client, stage))
    (advanced : stage.advance free state = some moved) :
    Advanced program state client stage free moved := by
  cases standing with
  | waiting =>
    have guard := guarded client
    cases first : program client with
    | lock rest =>
      rw [first] at advanced
      simp only [Stage.advance, Bool.or_false] at advanced
      cases free with
      | false => cases advanced
      | true =>
        cases advanced
        have begun : rest.run state = (program client).run state := by
          rw [first]
          rfl
        exact .going (.holding rfl begun) (.inr rfl)
    | raise error =>
      rw [first] at advanced
      cases advanced
      apply Advanced.failing
      rw [first]
      rfl
    | pure | execute | query =>
      rw [first] at guard
      exact guard.elim
  | @holding _ left own view seen rest =>
    cases left with
    | pure value =>
      simp only [Stage.advance, seen] at advanced
      cases advanced
      exact .ending rfl rest.symm
    | raise error =>
      cases advanced
      exact .failing rest.symm
    | lock next =>
      simp only [Stage.advance, Bool.or_true, if_true] at advanced
      cases advanced
      exact .going (.holding seen rest) (.inl rfl)
    | execute statement next =>
      have written : replay (own ++ [statement]) state = replay own state >>= statement :=
        replay_snoc own statement
      rw [seen] at written
      simp only [Stage.advance, written] at advanced
      simp only [Session.run] at rest
      cases done : statement view with
      | error error =>
        have refused : (Except.ok view >>= statement) = .error error := done
        rw [refused] at advanced
        rw [done] at rest
        cases advanced
        exact .failing rest.symm
      | ok reached =>
        have accepted : (Except.ok view >>= statement) = .ok reached := done
        rw [accepted] at advanced
        rw [done] at rest
        cases advanced
        exact .going (.holding (written.trans accepted) rest) (.inl rfl)
    | query next =>
      simp only [Stage.advance, seen] at advanced
      cases advanced
      exact .going (.holding seen rest) (.inl rfl)
  | committed | failed | died => cases advanced

/-! ### One after the other -/

structure Sound (program : ι → Session σ ε α) (server : Server ι σ ε α) : Prop where
  standing : ∀ task ∈ server.tasks, Standing program server.committed task
  alone : ∀ (index other : Nat) (first second : ι × Stage σ ε α),
    server.tasks[index]? = some first → server.tasks[other]? = some second →
      first.2.holds = true → second.2.holds = true → index = other

theorem outcomes_set {tasks : List (ι × Stage σ ε α)} {index : Nat} {old new : ι × Stage σ ε α}
    (found : tasks[index]? = some old) (unended : outcome old = none) :
    ((tasks.set index new).filterMap outcome).Perm
      (tasks.filterMap outcome ++ (outcome new).toList) := by
  induction tasks generalizing index with
  | nil => cases found
  | cons task tasks ih =>
    cases index with
    | zero =>
      cases found
      rw [List.set_cons_zero, List.filterMap_cons_none unended]
      cases ended : outcome new with
      | none => simp [List.filterMap_cons_none ended]
      | some result =>
        rw [List.filterMap_cons_some ended]
        exact @List.perm_append_comm _ [result] _
    | succ index =>
      have rest := @ih index found
      rw [List.set_cons_succ]
      cases ended : outcome task with
      | none =>
        rw [List.filterMap_cons_none ended, List.filterMap_cons_none ended]
        exact rest
      | some result =>
        rw [List.filterMap_cons_some ended, List.filterMap_cons_some ended]
        exact rest.cons result

theorem set_cases {tasks : List (ι × Stage σ ε α)} {index place : Nat}
    {new task : ι × Stage σ ε α} (there : (tasks.set index new)[place]? = some task) :
    place = index ∧ task = new ∨ place ≠ index ∧ tasks[place]? = some task := by
  rw [List.getElem?_set] at there
  by_cases same : index = place
  · rw [if_pos same] at there
    split at there
    · exact .inl ⟨same.symm, (Option.some.inj there).symm⟩
    · cases there
  · rw [if_neg same] at there
    exact .inr ⟨Ne.symm same, there⟩

variable {server later : Server ι σ ε α} {index : Nat} {client : ι}

theorem idle_of_free (free : server.free = true) {place : Nat} {task : ι × Stage σ ε α}
    (there : server.tasks[place]? = some task) : task.2.holds = false := by
  have idle := List.all_eq_true.mp free task (List.mem_of_getElem? there)
  simpa using idle

/-- A task takes the lock only when it is free, and keeps it only if it held it. -/
theorem Sound.replace {old new : ι × Stage σ ε α} (sound : Sound program server)
    (found : server.tasks[index]? = some old) (stands : Standing program server.committed new)
    (modest : new.2.holds = true → old.2.holds = true ∨ server.free = true) :
    Sound program { server with tasks := server.tasks.set index new } := by
  constructor
  · intro task present
    rcases List.mem_or_eq_of_mem_set present with kept | rfl
    · exact sound.standing task kept
    · exact stands
  · intro place other first second here there holds held
    rcases set_cases here with ⟨rfl, rfl⟩ | ⟨apart, stood⟩ <;>
      rcases set_cases there with ⟨rfl, rfl⟩ | ⟨aside, waited⟩
    · rfl
    · rcases modest holds with had | free
      · exact sound.alone _ _ old second found waited had held
      · rw [idle_of_free free waited] at held
        cases held
    · rcases modest held with had | free
      · exact sound.alone _ _ first old stood found holds had
      · rw [idle_of_free free stood] at holds
        cases holds
    · exact sound.alone _ _ first second stood waited holds held

/-- The task that holds the lock ends. -/
theorem Sound.finish {stage : Stage σ ε α} {value : α} {after : σ} (sound : Sound program server)
    (found : server.tasks[index]? = some (client, stage)) (held : stage.holds = true) :
    Sound program ⟨after, server.tasks.set index (client, .committed value)⟩ := by
  constructor
  · intro task present
    obtain ⟨place, there⟩ := List.mem_iff_getElem?.mp present
    rcases set_cases there with ⟨-, rfl⟩ | ⟨apart, stood⟩
    · exact .committed
    · apply (sound.standing task (List.mem_of_getElem? stood)).moved
      cases holds : task.2.holds with
      | false => rfl
      | true => exact absurd (sound.alone _ _ task _ stood found holds held) apart
  · intro place other first second here there holds had
    rcases set_cases here with ⟨-, rfl⟩ | ⟨apart, stood⟩
    · cases holds
    · rcases set_cases there with ⟨-, rfl⟩ | ⟨aside, waited⟩
      · cases had
      · exact sound.alone _ _ first second stood waited holds had

theorem Sound.start (sound : Sound program server) :
    Sound program { server with
      tasks := server.tasks ++ [(client, .running (program client) [] false)] } := by
  have waits : ∀ {place : Nat} {task : ι × Stage σ ε α},
      (server.tasks ++ [(client, Stage.running (program client) [] false)])[place]? = some task →
        task.2.holds = true → server.tasks[place]? = some task := by
    intro place task there holds
    rw [List.getElem?_append] at there
    split at there
    · exact there
    · rw [List.getElem?_singleton] at there
      split at there
      · cases there
        cases holds
      · cases there
  constructor
  · intro task present
    rcases List.mem_append.mp present with old | new
    · exact sound.standing task old
    · cases List.mem_singleton.mp new
      exact .waiting
  · intro place other first second here there holds held
    exact sound.alone _ _ first second (waits here holds) (waits there held) holds held

/-- A step keeps what is committed, or it is one session as a whole. -/
theorem Sound.step (guarded : ∀ client, (program client).Guarded) {label : Label ι}
    (sound : Sound program server) (stepped : Locking.step program server label = some later) :
    Sound program later ∧
      (later.committed = server.committed ∧ later.outcomes.Perm server.outcomes ∨
        ∃ client value, (program client).run server.committed = .ok (value, later.committed) ∧
          later.outcomes.Perm (server.outcomes ++ [(client, value)])) := by
  cases label with
  | start client =>
    cases stepped
    refine ⟨sound.start, .inl ⟨rfl, ?_⟩⟩
    have none : [(client, Stage.running (program client) [] false)].filterMap outcome = [] := rfl
    rw [Server.outcomes, List.filterMap_append, none, List.append_nil]
    exact List.Perm.refl _
  | advance index =>
    obtain ⟨⟨client, stage⟩, found, moved⟩ := Option.bind_eq_some_iff.mp stepped
    obtain ⟨⟨next, after⟩, advanced, rfl⟩ := Option.map_eq_some_iff.mp moved
    have stood := sound.standing _ (List.mem_of_getElem? found)
    have unended : outcome (client, stage) = none := by
      cases stage with
      | committed value => cases advanced
      | running | failed | died => rfl
    have ended := @outcomes_set _ _ _ _ _ _ _ (client, next) found unended
    cases stood.advance guarded advanced with
    | going stands took =>
      rw [show outcome (client, Stage.running _ _ true) = none from rfl, Option.toList_none,
        List.append_nil] at ended
      exact ⟨sound.replace found stands fun _ => took, .inl ⟨rfl, ended⟩⟩
    | failing fails =>
      rw [show outcome (client, Stage.failed _) = none from rfl, Option.toList_none,
        List.append_nil] at ended
      exact ⟨sound.replace found .failed fun holds => Bool.noConfusion holds, .inl ⟨rfl, ended⟩⟩
    | @ending value _ held ran => exact ⟨sound.finish found held, .inr ⟨client, value, ran, ended⟩⟩
  | crash index =>
    obtain ⟨⟨client, stage⟩, found, moved⟩ := Option.bind_eq_some_iff.mp stepped
    cases stage with
    | running left own holds =>
      cases moved
      have ended := @outcomes_set _ _ _ _ _ _ _ (client, Stage.died) found rfl
      rw [show outcome (client, Stage.died) = none from rfl, Option.toList_none,
        List.append_nil] at ended
      exact ⟨sound.replace found .died fun holds => Bool.noConfusion holds, .inl ⟨rfl, ended⟩⟩
    | committed | failed | died => cases moved

/-- A session that fails does so where it would have failed alone. -/
theorem Sound.fails (guarded : ∀ client, (program client).Guarded) {error : ε}
    (sound : Sound program server) (stepped : server.advance index = some later)
    (failed : later.tasks[index]? = some (client, .failed error)) :
    (program client).run server.committed = .error error := by
  obtain ⟨⟨other, stage⟩, found, moved⟩ := Option.bind_eq_some_iff.mp stepped
  obtain ⟨⟨next, after⟩, advanced, rfl⟩ := Option.map_eq_some_iff.mp moved
  have stood := sound.standing _ (List.mem_of_getElem? found)
  rcases set_cases failed with ⟨-, same⟩ | ⟨apart, -⟩
  · cases same
    cases stood.advance guarded advanced with
    | failing fails => exact fails
  · exact absurd rfl apart

/-- Where every session starts with the lock, what is committed is what the sessions that have
committed since then do one after the other. -/
theorem Sound.reach (guarded : ∀ client, (program client).Guarded)
    {ok : Server ι σ ε α → Label ι → Bool} (sound : Sound program server)
    (reached : Reach (Locking.step program) ok server later) :
    Sound program later ∧ ∃ order, Serial program server.committed order later.committed ∧
      later.outcomes.Perm (server.outcomes ++ order) := by
  induction reached with
  | start =>
    refine ⟨sound, [], .none, ?_⟩
    rw [List.append_nil]
  | next label before allowed stepped ih =>
    obtain ⟨sound, order, serial, complete⟩ := ih
    obtain ⟨still, ⟨same, kept⟩ | ⟨client, value, ran, more⟩⟩ := sound.step guarded stepped
    · refine ⟨still, order, ?_, kept.trans complete⟩
      rw [same]
      exact serial
    · refine ⟨still, _, serial.next ran, ?_⟩
      rw [← List.append_assoc]
      exact more.trans (complete.append_right _)

theorem sound_start (first : σ) : Sound program (⟨first, []⟩ : Server ι σ ε α) := by
  constructor
  · intro task present
    cases present
  · intro place other one second here
    cases here

theorem reach_serial (guarded : ∀ client, (program client).Guarded)
    {ok : Server ι σ ε α → Label ι → Bool} {first : σ}
    (reached : Reach (Locking.step program) ok ⟨first, []⟩ server) :
    Sound program server ∧
      ∃ order, Serial program first order server.committed ∧ server.outcomes.Perm order :=
  (sound_start first).reach guarded reached

end Server

end Locking
