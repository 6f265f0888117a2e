import QueueWorkflows.Engine.BackendFactory

/-! What the backends of a factory owe to its callers: that they are fresh, that they stay the
same as long as the configuration does, and that each is released once. -/

namespace QueueWorkflows.BackendFactory

/-! ### What a run tells of one worker -/

/-- `lastRead` has the snapshot of the last reading of the configuration and its time, and
`last` the last result of `get_backend` since a stop, with the snapshot last read for it. The
call under way has to read if it is `owed`, and has done so if the reading is its `own`. -/
structure Story where
  config : Snapshot
  lastRead : Option (Snapshot × ℚ) := none
  due : Bool := false
  owed : Bool := false
  own : Bool := false
  last : Option (Snapshot × LLMBackend) := none
  live : Option LLMBackend := none

namespace Story

/-- No reading, or one that is at least the TTL old. -/
def aged (ttlS now : ℚ) (story : Story) : Bool :=
  match story.lastRead with
  | some (_, time) => decide (ttlS ≤ now - time)
  | none => true

def next (ttlS : ℚ) (key : Key) (story : Story) : Event → Story
  | .edited worker snapshot =>
    if worker = key then { story with config := snapshot } else story
  | .handled worker => if worker = key then { story with due := true } else story
  | .began worker now =>
    if worker = key then { story with owed := story.due || story.aged ttlS now, own := false }
    else story
  | .read worker snapshot now =>
    if worker = key then { story with lastRead := some (snapshot, now), due := false, own := true }
    else story
  | .built worker backend => if worker = key then { story with live := some backend } else story
  | .answered worker backend =>
    if worker = key then
      { story with last := story.lastRead.map fun (snapshot, _) => (snapshot, backend) }
    else story
  | .stopped => { story with last := none, live := none }
  | .supervisorStopped _ | .shutdown _ | .supervisorStarted _ => story

/-- A reading finds the configuration that the last committed edit has left. A result is built
for the snapshot last read, which the call has read itself if it began after an edit was heard
of or when the last reading had aged; it is the object of the result before it exactly if the
snapshots are equal. -/
def Law (settings : Settings) (key : Key) (story : Story) : Event → Prop
  | .read worker snapshot _ => worker = key → snapshot = story.config
  | .answered worker backend => worker = key →
    (story.owed = true → story.own = true) ∧
    ∃ snapshot time, story.lastRead = some (snapshot, time) ∧
      backend = buildBackend settings backend.id snapshot ∧
      ∀ earlier previous, story.last = some (earlier, previous) →
        (backend.id = previous.id ↔ snapshot = earlier)
  | _ => True

end Story

def tell (settings : Settings) (rows : List Row) (key : Key) (trace : List Event) : Story :=
  History.after (Story.next settings.ttlS key) { config := .fromConfig (llmConfigFor rows key) } trace

/-- What is done to a backend, and to its supervisor, as it is released. -/
def LLMBackend.endings (backend : LLMBackend) : List Event :=
  (backend.supervisor.map Event.supervisorStopped).toList ++ [.shutdown backend]

/-- The results of `get_backend` are lawful, and a backend is released once, supervisor and
all, when another has been built for its worker or the factory has stopped. -/
structure Right (settings : Settings) (rows : List Row) (trace : List Event) : Prop where
  lawful : ∀ key, History.Obeyed (Story.next settings.ttlS key) (Story.Law settings key)
    { config := .fromConfig (llmConfigFor rows key) } trace
  released : ∀ key backend, .built key backend ∈ trace → ∀ event ∈ backend.endings,
    trace.count event = if (tell settings rows key trace).live = some backend then 0 else 1

/-- A worker that `_handle_notify` finds in the payload of its row. -/
def Plain (key : Key) : Prop := key.1 ≠ "" ∧ key.2 ≠ "" ∧ '|' ∉ key.1.toList

/-- A notification that is handled is about a plain worker, or about one for which a call would
read the configuration anyway. -/
def Heard (settings : Settings) (factory : Factory) : Move → Prop
  | .handleNotify => ∀ notice ∈ factory.channel.head?, Plain notice.key ∨
      ∀ entry ∈ factory.find notice.key, entry.hit settings.ttlS factory.clock = false
  | _ => True

/-! ### Payloads -/

theorem bar_apart {host : List Char} (plain : '|' ∉ host) : ∀ char ∈ host, (char != '|') = true := by
  intro char listed
  rw [bne_iff_ne]
  rintro rfl
  exact plain listed

theorem payload_toList (key : Key) :
    (payload key).toList = key.1.toList ++ '|' :: key.2.toList := by
  unfold payload
  rw [String.toList_append, String.toList_append]
  simp

/-- `_handle_notify` finds the plain workers, and no others. -/
theorem parsePayload_iff {key : Key} : parsePayload (payload key) = some key ↔ Plain key := by
  have barred : '|' ∈ (payload key).toList := by
    rw [payload_toList]
    simp
  have filled : payload key ≠ "" := by
    intro empty
    rw [empty] at barred
    simp at barred
  unfold parsePayload
  rw [if_neg (by simp [filled, barred])]
  constructor
  · intro found
    by_cases named : String.ofList ((payload key).toList.takeWhile (· != '|')) ≠ "" ∧
        String.ofList (((payload key).toList.dropWhile (· != '|')).drop 1) ≠ ""
    · have same := Option.some.inj ((if_pos named).symm.trans found)
      have host := congrArg Prod.fst same
      have queue := congrArg Prod.snd same
      refine ⟨host ▸ named.1, queue ▸ named.2, fun inside => ?_⟩
      rw [← host, String.toList_ofList] at inside
      have no := List.mem_takeWhile_imp inside
      simp at no
    · cases (if_neg named).symm.trans found
  · rintro ⟨host, queue, plain⟩
    rw [payload_toList, List.takeWhile_append_of_pos (bar_apart plain),
      List.dropWhile_append_of_pos (bar_apart plain)]
    simp [host, queue]

/-! ### Stories -/

/-- An event that is about this worker, or about none. -/
def Event.About (key : Key) : Event → Prop
  | .edited worker _ | .handled worker | .began worker _ | .read worker _ _ | .built worker _
  | .answered worker _ => worker = key
  | .supervisorStopped _ | .shutdown _ | .supervisorStarted _ => True
  | .stopped => False

/-- An event of a backend's life, which no story tells of. -/
def Event.Silent : Event → Prop
  | .supervisorStopped _ | .shutdown _ | .supervisorStarted _ => True
  | _ => False

/-- An event with which no backend comes or goes. -/
def Event.Quiet : Event → Prop
  | .edited _ _ | .handled _ | .began _ _ | .read _ _ _ | .supervisorStarted _ | .answered _ _ => True
  | .supervisorStopped _ | .shutdown _ | .built _ _ | .stopped => False

section Stories

variable {settings : Settings} {rows : List Row} {key other : Key} {story : Story}
  {events trace : List Event} {backend : LLMBackend}

theorem silent_passes (silent : ∀ event ∈ events, event.Silent) :
    History.after (Story.next settings.ttlS key) story events = story ∧
      History.Obeyed (Story.next settings.ttlS key) (Story.Law settings key) story events := by
  induction events with
  | nil => simp
  | cons event events ih =>
    have rest := ih fun event listed => silent event (List.mem_cons_of_mem _ listed)
    have here := silent event List.mem_cons_self
    cases event with
    | supervisorStopped _ | shutdown _ | supervisorStarted _ =>
      simpa [Story.next, Story.Law] using rest
    | edited _ _ | handled _ | began _ _ | read _ _ _ | built _ _ | answered _ _ | stopped =>
      exact here.elim

theorem others_pass (about : ∀ event ∈ events, event.About key) (different : key ≠ other) :
    History.after (Story.next settings.ttlS other) story events = story ∧
      History.Obeyed (Story.next settings.ttlS other) (Story.Law settings other) story events := by
  induction events with
  | nil => simp
  | cons event events ih =>
    have rest := ih fun event listed => about event (List.mem_cons_of_mem _ listed)
    have here := about event List.mem_cons_self
    cases event with
    | supervisorStopped _ | shutdown _ | supervisorStarted _ =>
      simpa [Story.next, Story.Law] using rest
    | edited worker _ | handled worker | began worker _ | read worker _ _ | built worker _
    | answered worker _ =>
      have here : worker = key := here
      subst here
      simpa [Story.next, Story.Law, different] using rest
    | stopped => exact here.elim

theorem quiet_live (quiet : ∀ event ∈ events, event.Quiet) :
    (History.after (Story.next settings.ttlS key) story events).live = story.live := by
  induction events generalizing story with
  | nil => rfl
  | cons event events ih =>
    rw [History.after_cons, ih fun event listed => quiet event (List.mem_cons_of_mem _ listed)]
    have here := quiet event List.mem_cons_self
    cases event with
    | edited _ _ | handled _ | began _ _ | read _ _ _ | answered _ _ =>
      simp only [Story.next]
      split <;> rfl
    | supervisorStarted _ => rfl
    | supervisorStopped _ | shutdown _ | built _ _ | stopped => exact here.elim

theorem tell_append : tell settings rows key (trace ++ events) =
    History.after (Story.next settings.ttlS key) (tell settings rows key trace) events :=
  History.after_append

theorem mem_endings {event : Event} : event ∈ backend.endings ↔
    event = .shutdown backend ∨ backend.serverType = .vllm ∧ event = .supervisorStopped ⟨backend⟩ := by
  unfold LLMBackend.endings LLMBackend.supervisor
  by_cases vllm : backend.serverType = .vllm <;> simp [vllm, or_comm]

theorem endings_silent : ∀ event ∈ backend.endings, event.Silent := by
  intro event listed
  rcases mem_endings.mp listed with rfl | ⟨-, rfl⟩ <;> trivial

theorem endings_of {event : Event} {first : LLMBackend} (listed : event ∈ backend.endings)
    (also : event ∈ first.endings) : first = backend := by
  rcases mem_endings.mp listed with rfl | ⟨-, rfl⟩
  · simpa [mem_endings, eq_comm] using also
  · obtain ⟨-, same⟩ : _ ∧ backend = first := by simpa [mem_endings] using also
    exact same.symm

theorem endings_nodup : backend.endings.Nodup := by
  unfold LLMBackend.endings LLMBackend.supervisor
  split <;> simp

theorem count_endings {event : Event} {gone : List LLMBackend} (listed : event ∈ backend.endings) :
    (gone.flatMap LLMBackend.endings).count event = gone.count backend := by
  induction gone with
  | nil => rfl
  | cons first gone ih =>
    have one : first.endings.count event = if first = backend then 1 else 0 := by
      split
      · rename_i same
        subst same
        exact List.count_eq_one_of_mem endings_nodup listed
      · rename_i different
        exact List.count_eq_zero.mpr fun also => different (endings_of listed also)
    rw [List.flatMap_cons, List.count_append, ih, one, List.count_cons, add_comm]
    simp

end Stories

/-! ### Backends that come and go -/

/-- Each backend is built once, for one worker, and is released once when it is no longer the
worker's. -/
structure Ledger (settings : Settings) (rows : List Row) (builds : ℕ) (trace : List Event) : Prop where
  fresh : ∀ key backend, .built key backend ∈ trace → backend.id < builds
  owner : ∀ key other backend, .built key backend ∈ trace → .built other backend ∈ trace →
    key = other
  ended : ∀ backend, ∀ event ∈ backend.endings, event ∈ trace → ∃ key, .built key backend ∈ trace
  released : ∀ key backend, .built key backend ∈ trace → ∀ event ∈ backend.endings,
    trace.count event = if (tell settings rows key trace).live = some backend then 0 else 1

namespace Ledger

variable {settings : Settings} {rows : List Row} {builds more : ℕ} {trace events : List Event}

theorem start (settings : Settings) (rows : List Row) : Ledger settings rows 0 [] where
  fresh _ _ built := (List.not_mem_nil built).elim
  owner _ _ _ built := (List.not_mem_nil built).elim
  ended _ _ _ listed := (List.not_mem_nil listed).elim
  released _ _ built := (List.not_mem_nil built).elim

/-- The backends `gone` are released, and others may be built. -/
theorem extend (ledger : Ledger settings rows builds trace) {gone : List LLMBackend}
    (counts : ∀ backend : LLMBackend, ∀ event ∈ backend.endings,
      events.count event = gone.count backend)
    (distinct : gone.Nodup)
    (known : ∀ backend ∈ gone, ∃ key, .built key backend ∈ trace ∧
      (tell settings rows key trace).live = some backend)
    (left : ∀ key backend, .built key backend ∈ trace →
      ((tell settings rows key (trace ++ events)).live = some backend ↔
        (tell settings rows key trace).live = some backend ∧ backend ∉ gone))
    (later : builds ≤ more)
    (new : ∀ key backend, .built key backend ∈ events → builds ≤ backend.id ∧ backend.id < more ∧
      (tell settings rows key (trace ++ events)).live = some backend ∧
      ∀ other, .built other backend ∈ events → key = other) :
    Ledger settings rows more (trace ++ events) where
  fresh key backend built := by
    rcases List.mem_append.mp built with old | young
    · exact (ledger.fresh key backend old).trans_le later
    · exact (new key backend young).2.1
  owner key other backend built also := by
    rcases List.mem_append.mp built with old | young
    · rcases List.mem_append.mp also with old' | young'
      · exact ledger.owner key other backend old old'
      · exact absurd (ledger.fresh key backend old) (new other backend young').1.not_gt
    · rcases List.mem_append.mp also with old' | young'
      · exact absurd (ledger.fresh other backend old') (new key backend young).1.not_gt
      · exact (new key backend young).2.2.2 other young'
  ended backend event ending listed := by
    rcases List.mem_append.mp listed with old | young
    · obtain ⟨key, built⟩ := ledger.ended backend event ending old
      exact ⟨key, List.mem_append_left _ built⟩
    · have counted := counts backend event ending
      have gone : backend ∈ gone := by
        rw [← List.count_pos_iff, ← counted]
        exact List.count_pos_iff.mpr young
      obtain ⟨key, built, -⟩ := known backend gone
      exact ⟨key, List.mem_append_left _ built⟩
  released key backend built event ending := by
    rw [List.count_append, counts backend event ending]
    rcases List.mem_append.mp built with old | young
    · rw [ledger.released key backend old event ending]
      simp only [left key backend old]
      by_cases dropped : backend ∈ gone
      · obtain ⟨other, also, live⟩ := known backend dropped
        obtain rfl := ledger.owner key other backend old also
        simp [live, dropped, List.count_eq_one_of_mem distinct dropped]
      · simp [dropped, List.count_eq_zero.mpr dropped]
    · obtain ⟨above, -, live, -⟩ := new key backend young
      have unknown : ∀ other, .built other backend ∉ trace := fun other also =>
        absurd (ledger.fresh other backend also) above.not_gt
      have unended : event ∉ trace := fun also =>
        (ledger.ended backend event ending also).elim unknown
      have kept : backend ∉ gone := fun dropped =>
        (known backend dropped).elim fun other also => unknown other also.1
      rw [if_pos live, List.count_eq_zero.mpr unended, List.count_eq_zero.mpr kept]

theorem quiet (ledger : Ledger settings rows builds trace) (quiet : ∀ event ∈ events, event.Quiet) :
    Ledger settings rows builds (trace ++ events) := by
  have counts : ∀ backend : LLMBackend, ∀ event ∈ backend.endings,
      events.count event = ([] : List LLMBackend).count backend := by
    intro backend event ending
    refine List.count_eq_zero.mpr fun listed => ?_
    have here := quiet event listed
    rcases mem_endings.mp ending with rfl | ⟨-, rfl⟩ <;> exact here
  have left : ∀ key backend, .built key backend ∈ trace →
      ((tell settings rows key (trace ++ events)).live = some backend ↔
        (tell settings rows key trace).live = some backend ∧ backend ∉ []) := by
    intro key backend _
    rw [tell_append, quiet_live quiet]
    simp
  exact ledger.extend counts List.nodup_nil nofun left le_rfl
    fun key backend built => (quiet _ built).elim

end Ledger

/-! ### The cache -/

/-- What a cached entry has to do with the story of its worker. -/
structure Held (settings : Settings) (story : Story) (clock : ℚ) (entry : Entry) : Prop where
  read : ∃ time, entry.lastCheck ≤ time ∧ story.lastRead = some (entry.snapshot, time)
  last : story.last = some (entry.snapshot, entry.backend)
  live : story.live = some entry.backend
  built : entry.backend = buildBackend settings entry.backend.id entry.snapshot
  watched : entry.supervisor = entry.backend.supervisor
  heard : story.due = true → entry.hit settings.ttlS clock = false

theorem Held.teardown {settings : Settings} {story : Story} {clock : ℚ} {entry : Entry}
    (held : Held settings story clock entry) : entry.teardown = entry.backend.endings := by
  rw [Entry.teardown, LLMBackend.endings, held.watched]

theorem Entry.hit_false {ttlS now : ℚ} {entry : Entry} :
    entry.hit ttlS now = false ↔ entry.invalid = true ∨ ttlS ≤ now - entry.lastCheck := by
  rw [Entry.hit, Bool.and_eq_false_iff, Bool.not_eq_false', decide_eq_false_iff_not, not_lt]

theorem Held.clock {settings : Settings} {story : Story} {clock now : ℚ} {entry : Entry}
    (held : Held settings story clock entry) (onward : clock ≤ now) :
    Held settings story now entry := by
  refine { held with heard := fun due => ?_ }
  rw [Entry.hit_false]
  exact (Entry.hit_false.mp (held.heard due)).imp_right fun aged =>
    aged.trans (sub_le_sub_right onward _)

structure Kept (settings : Settings) (rows : List Row) (factory : Factory) : Prop where
  keys : (factory.cache.map Entry.key).Nodup
  held : ∀ entry ∈ factory.cache,
    Held settings (tell settings rows entry.key factory.trace) factory.clock entry
  bare : ∀ key, (∀ entry ∈ factory.cache, entry.key ≠ key) →
    (tell settings rows key factory.trace).live = none ∧
      (tell settings rows key factory.trace).last = none
  known : ∀ entry ∈ factory.cache, .built entry.key entry.backend ∈ factory.trace
  config : ∀ key, (tell settings rows key factory.trace).config =
    .fromConfig (llmConfigFor factory.rows key)
  reading : ∀ key now, factory.reading = some (key, now) → now ≤ factory.clock
  channel : ∀ notice ∈ factory.channel, notice = .of notice.key
  lawful : ∀ key, History.Obeyed (Story.next settings.ttlS key) (Story.Law settings key)
    { config := .fromConfig (llmConfigFor rows key) } factory.trace
  ledger : Ledger settings rows factory.builds factory.trace

namespace Kept

variable {settings : Settings} {rows : List Row} {factory : Factory} {key : Key} {entry : Entry}

theorem right (kept : Kept settings rows factory) : Right settings rows factory.trace :=
  ⟨kept.lawful, kept.ledger.released⟩

theorem find_some (found : factory.find key = some entry) : entry ∈ factory.cache ∧ entry.key = key :=
  ⟨List.mem_of_find?_eq_some found, by simpa using List.find?_some found⟩

theorem find_none (missing : factory.find key = none) : ∀ entry ∈ factory.cache, entry.key ≠ key := by
  intro entry listed same
  exact List.find?_eq_none.mp missing entry listed (by simpa using same)

/-- Events about one worker, by which only its entry may change. -/
theorem focus (kept : Kept settings rows factory) {events : List Event} {cache : List Entry}
    {reading : Option (Key × ℚ)} {builds : ℕ} (about : ∀ event ∈ events, event.About key)
    (keys : (cache.map Entry.key).Nodup)
    (others : ∀ entry, entry.key ≠ key → (entry ∈ cache ↔ entry ∈ factory.cache))
    (lawful : History.Obeyed (Story.next settings.ttlS key) (Story.Law settings key)
      (tell settings rows key factory.trace) events)
    (held : ∀ entry ∈ cache, entry.key = key →
      Held settings (tell settings rows key (factory.trace ++ events)) factory.clock entry ∧
        .built key entry.backend ∈ factory.trace ++ events)
    (bare : (∀ entry ∈ cache, entry.key ≠ key) →
      (tell settings rows key (factory.trace ++ events)).live = none ∧
        (tell settings rows key (factory.trace ++ events)).last = none)
    (config : (tell settings rows key (factory.trace ++ events)).config =
      (tell settings rows key factory.trace).config)
    (pending : ∀ key now, reading = some (key, now) → now ≤ factory.clock)
    (ledger : Ledger settings rows builds (factory.trace ++ events)) :
    Kept settings rows { factory with
      cache, reading, builds, trace := factory.trace ++ events } := by
  have apart : ∀ other, key ≠ other →
      tell settings rows other (factory.trace ++ events) = tell settings rows other factory.trace := by
    intro other different
    rw [tell_append]
    exact (others_pass about different).1
  refine ⟨keys, fun entry listed => ?_, fun other missing => ?_, fun entry listed => ?_,
    fun other => ?_, pending, kept.channel, fun other => ?_, ledger⟩
  · by_cases own : entry.key = key
    · exact own ▸ (held entry listed own).1
    · show Held settings (tell settings rows entry.key (factory.trace ++ events)) _ _
      rw [apart entry.key (Ne.symm own)]
      exact kept.held entry ((others entry own).mp listed)
  · show (tell settings rows other (factory.trace ++ events)).live = none ∧ _
    by_cases own : key = other
    · subst own
      exact bare missing
    · rw [apart other own]
      refine kept.bare other fun entry listed same => ?_
      exact missing entry ((others entry (same ▸ Ne.symm own)).mpr listed) same
  · by_cases own : entry.key = key
    · exact own ▸ (held entry listed own).2
    · exact List.mem_append_left _ (kept.known entry ((others entry own).mp listed))
  · show (tell settings rows other (factory.trace ++ events)).config = _
    by_cases own : key = other
    · subst own
      exact config.trans (kept.config key)
    · rw [apart other own]
      exact kept.config other
  · refine History.obeyed_append.mpr ⟨kept.lawful other, ?_⟩
    by_cases own : key = other
    · subst own
      exact lawful
    · exact (others_pass about own).2

theorem start (settings : Settings) (rows : List Row) : Kept settings rows { rows } where
  keys := List.nodup_nil
  held _ listed := (List.not_mem_nil listed).elim
  bare _ _ := ⟨rfl, rfl⟩
  known _ listed := (List.not_mem_nil listed).elim
  config _ := rfl
  reading _ _ none := by cases none
  channel _ listed := (List.not_mem_nil listed).elim
  lawful _ := History.obeyed_nil
  ledger := .start settings rows

theorem clock (kept : Kept settings rows factory) {now : ℚ} (onward : factory.clock ≤ now) :
    Kept settings rows { factory with clock := now } where
  keys := kept.keys
  held entry listed := (kept.held entry listed).clock onward
  bare := kept.bare
  known := kept.known
  config := kept.config
  reading key began reading := (kept.reading key began reading).trans onward
  channel := kept.channel
  lawful := kept.lawful
  ledger := kept.ledger

theorem send (kept : Kept settings rows factory) {channel : List Notice}
    (sent : ∀ notice ∈ channel, notice = .of notice.key) :
    Kept settings rows { factory with channel } where
  keys := kept.keys
  held := kept.held
  bare := kept.bare
  known := kept.known
  config := kept.config
  reading := kept.reading
  channel := sent
  lawful := kept.lawful
  ledger := kept.ledger

theorem readFails (kept : Kept settings rows factory) :
    Kept settings rows { factory with reading := none } where
  keys := kept.keys
  held := kept.held
  bare := kept.bare
  known := kept.known
  config := kept.config
  reading _ _ none := by cases none
  channel := kept.channel
  lawful := kept.lawful
  ledger := kept.ledger

/-- The worker's entry is replaced. -/
theorem replace (kept : Kept settings rows factory) {fresh : Entry} (own : fresh.key = key)
    {events : List Event} {reading : Option (Key × ℚ)} {builds : ℕ}
    (about : ∀ event ∈ events, event.About key)
    (lawful : History.Obeyed (Story.next settings.ttlS key) (Story.Law settings key)
      (tell settings rows key factory.trace) events)
    (held : Held settings (tell settings rows key (factory.trace ++ events)) factory.clock fresh)
    (known : .built key fresh.backend ∈ factory.trace ++ events)
    (config : (tell settings rows key (factory.trace ++ events)).config =
      (tell settings rows key factory.trace).config)
    (pending : ∀ key now, reading = some (key, now) → now ≤ factory.clock)
    (ledger : Ledger settings rows builds (factory.trace ++ events)) :
    Kept settings rows { factory with
      cache := Keyed.put Entry.key fresh factory.cache, reading, builds
      trace := factory.trace ++ events } := by
  subst own
  refine kept.focus about (Keyed.put_keys kept.keys) (fun entry apart => ?_) lawful
    (fun entry listed same => ?_) (fun missing => ?_) config pending ledger
  · rw [Keyed.mem_put]
    constructor
    · rintro (rfl | ⟨listed, -⟩)
      · exact absurd rfl apart
      · exact listed
    · exact fun listed => .inr ⟨listed, apart⟩
  · rcases Keyed.mem_put.mp listed with rfl | ⟨-, apart⟩
    · exact ⟨held, known⟩
    · exact absurd same apart
  · exact absurd rfl (missing fresh (Keyed.mem_put.mpr (.inl rfl)))

/-- The cache stays as it is. -/
theorem stay (kept : Kept settings rows factory) {events : List Event}
    {reading : Option (Key × ℚ)} (about : ∀ event ∈ events, event.About key)
    (quiet : ∀ event ∈ events, event.Quiet)
    (lawful : History.Obeyed (Story.next settings.ttlS key) (Story.Law settings key)
      (tell settings rows key factory.trace) events)
    (held : ∀ entry ∈ factory.cache, entry.key = key →
      Held settings (tell settings rows key (factory.trace ++ events)) factory.clock entry)
    (last : (∀ entry ∈ factory.cache, entry.key ≠ key) →
      (tell settings rows key (factory.trace ++ events)).last = none)
    (config : (tell settings rows key (factory.trace ++ events)).config =
      (tell settings rows key factory.trace).config)
    (pending : ∀ key now, reading = some (key, now) → now ≤ factory.clock) :
    Kept settings rows { factory with reading, trace := factory.trace ++ events } := by
  refine kept.focus about kept.keys (fun _ _ => Iff.rfl) lawful (fun entry listed same => ?_)
    (fun missing => ⟨?_, last missing⟩) config pending (kept.ledger.quiet quiet)
  · subst same
    exact ⟨held entry listed rfl, List.mem_append_left _ (kept.known entry listed)⟩
  · rw [tell_append, quiet_live quiet]
    exact (kept.bare key missing).1

theorem invalidate (kept : Kept settings rows factory) (key : Key) :
    Kept settings rows (factory.invalidate key) := by
  cases found : factory.find key with
  | none =>
    rw [Factory.invalidate, found]
    exact kept
  | some entry =>
    obtain ⟨listed, rfl⟩ := find_some found
    have held := kept.held entry listed
    have replaced := @replace _ _ _ entry.key kept { entry with invalid := true } rfl []
      factory.reading factory.builds nofun History.obeyed_nil
      (by
        rw [List.append_nil]
        exact { held with heard := fun _ => rfl })
      (List.mem_append_left _ (kept.known entry listed)) (by rw [List.append_nil]) kept.reading
      (by
        rw [List.append_nil]
        exact kept.ledger)
    rw [List.append_nil] at replaced
    rw [Factory.invalidate, found]
    exact replaced

theorem find_eq (kept : Kept settings rows factory) (listed : entry ∈ factory.cache) :
    factory.find entry.key = some entry := by
  cases found : factory.find entry.key with
  | none => exact absurd rfl (find_none found entry listed)
  | some other =>
    obtain ⟨present, same⟩ := find_some found
    rw [List.inj_on_of_nodup_map kept.keys present listed same]

theorem invalidate_clock : (factory.invalidate key).clock = factory.clock := by
  unfold Factory.invalidate
  split <;> rfl

/-- What a call could still hit after an entry has been invalidated. -/
theorem hit_invalidate {parsed : Key} {ttlS now : ℚ}
    (listed : entry ∈ (factory.invalidate parsed).cache) :
    entry.hit ttlS now = false ∨ entry ∈ factory.cache ∧ entry.key ≠ parsed := by
  cases found : factory.find parsed with
  | none =>
    rw [Factory.invalidate, found] at listed
    exact .inr ⟨listed, find_none found entry listed⟩
  | some stored =>
    obtain ⟨-, rfl⟩ := find_some found
    rw [Factory.invalidate, found] at listed
    rcases Keyed.mem_put.mp listed with rfl | other
    · exact .inl rfl
    · exact .inr other

theorem handled (kept : Kept settings rows factory)
    (missed : ∀ entry ∈ factory.cache, entry.key = key →
      entry.hit settings.ttlS factory.clock = false) :
    Kept settings rows (factory.log [.handled key]) := by
  refine @stay _ _ _ key kept [.handled key] factory.reading (by simp [Event.About])
    (by simp [Event.Quiet]) (by simp [Story.Law]) (fun entry listed same => ?_) (fun missing => ?_)
    (by simp [tell_append, Story.next]) kept.reading
  · subst same
    have held := kept.held entry listed
    rw [tell_append]
    simp only [History.after_cons, History.after_nil, Story.next, if_pos]
    exact { held with heard := fun _ => missed entry listed rfl }
  · rw [tell_append]
    simp only [History.after_cons, History.after_nil, Story.next, if_pos]
    exact (kept.bare key missing).2

theorem handleNotify (kept : Kept settings rows factory)
    (heard : Heard settings factory .handleNotify) : Kept settings rows factory.handleNotify := by
  cases waiting : factory.channel with
  | nil =>
    rw [Factory.handleNotify, waiting]
    exact kept
  | cons notice channel =>
    have heard := heard notice (by simp [waiting])
    have sent := kept.channel notice (by simp [waiting])
    have received := kept.send fun other listed =>
      kept.channel other (waiting ▸ List.mem_cons_of_mem notice listed)
    have parsed : parsePayload notice.payload = some notice.key ↔ Plain notice.key := by
      conv_lhs => rw [sent]
      exact parsePayload_iff
    have missed : ¬ Plain notice.key → ∀ entry ∈ factory.cache, entry.key = notice.key →
        entry.hit settings.ttlS factory.clock = false := by
      intro odd entry listed same
      exact heard.resolve_left odd entry (same ▸ kept.find_eq listed)
    cases read : parsePayload notice.payload with
    | none =>
      simp only [Factory.handleNotify, waiting, read]
      refine received.handled (missed fun plain => ?_)
      rw [parsed.mpr plain] at read
      cases read
    | some other =>
      simp only [Factory.handleNotify, waiting, read]
      refine (received.invalidate other).handled fun entry listed same => ?_
      rw [invalidate_clock]
      rcases hit_invalidate listed with unhit | ⟨present, apart⟩
      · exact unhit
      · refine missed (fun plain => ?_) entry present same
        rw [parsed.mpr plain] at read
        cases read
        exact apart same

/-- A call that does not hit goes on to read the configuration. -/
theorem begin (kept : Kept settings rows factory) :
    Kept settings rows { factory.log [.began key factory.clock] with
      reading := some (key, factory.clock) } := by
  refine @stay _ _ _ key kept [.began key factory.clock] (some (key, factory.clock))
    (by simp [Event.About]) (by simp [Event.Quiet]) (by simp [Story.Law])
    (fun entry listed same => ?_) (fun missing => ?_) (by simp [tell_append, Story.next]) ?_
  · subst same
    have held := kept.held entry listed
    rw [tell_append]
    simp only [History.after_cons, History.after_nil, Story.next, if_pos]
    exact { held with }
  · rw [tell_append]
    simp only [History.after_cons, History.after_nil, Story.next, if_pos]
    exact (kept.bare key missing).2
  · rintro _ _ ⟨⟩
    exact le_rfl

theorem getBackend_hit (kept : Kept settings rows factory) (listed : entry ∈ factory.cache)
    (hit : entry.hit settings.ttlS factory.clock = true) :
    Kept settings rows ((factory.log [.began entry.key factory.clock]).log
      [.answered entry.key entry.backend]) := by
  have held := kept.held entry listed
  obtain ⟨time, since, read⟩ := held.read
  have undue : (tell settings rows entry.key factory.trace).due = false := by
    by_contra due
    rw [Bool.not_eq_false] at due
    rw [held.heard due] at hit
    cases hit
  have young : (tell settings rows entry.key factory.trace).aged settings.ttlS factory.clock =
      false := by
    have recent : factory.clock - entry.lastCheck < settings.ttlS := by
      rw [Entry.hit, Bool.and_eq_true] at hit
      exact of_decide_eq_true hit.2
    simp only [Story.aged, read, decide_eq_false_iff_not, not_le]
    linarith
  have stayed := @stay _ _ _ entry.key kept
    [.began entry.key factory.clock, .answered entry.key entry.backend] factory.reading
    (by simp [Event.About]) (by simp [Event.Quiet])
    (by
      simp only [History.obeyed_cons, History.obeyed_nil, Story.Law, Story.next, if_pos, undue, young,
        and_true, true_and]
      rintro -
      refine ⟨Bool.noConfusion, entry.snapshot, time, read, held.built, fun earlier previous result => ?_⟩
      cases held.last.symm.trans result
      exact iff_of_true rfl rfl)
    (fun other present same => by
      obtain rfl := Option.some.inj ((kept.find_eq listed).symm.trans (same ▸ kept.find_eq present))
      rw [tell_append]
      simp only [History.after_cons, History.after_nil, Story.next, if_pos]
      refine { held with last := ?_ }
      simp [read])
    (fun missing => absurd rfl (missing entry listed)) (by simp [tell_append, Story.next])
    kept.reading
  unfold Factory.log
  simp only [List.append_assoc, List.singleton_append]
  exact stayed

theorem getBackend (kept : Kept settings rows factory) (key : Key) :
    Kept settings rows (factory.getBackend settings key) := by
  cases found : factory.find key with
  | none =>
    simp only [Factory.getBackend, found]
    exact kept.begin
  | some entry =>
    simp only [Factory.getBackend, found]
    obtain ⟨listed, rfl⟩ := find_some found
    split
    · rename_i hit
      exact kept.getBackend_hit listed hit
    · exact kept.begin

/-- The reading has found the snapshot there was. -/
theorem refresh_same (kept : Kept settings rows factory) {snapshot : Snapshot} {now : ℚ}
    (current : snapshot = .fromConfig (llmConfigFor factory.rows entry.key))
    (begun : now ≤ factory.clock) (listed : entry ∈ factory.cache)
    (same : entry.snapshot = snapshot) :
    Kept settings rows { factory with
      cache := Keyed.put Entry.key { entry with lastCheck := now, invalid := false } factory.cache
      reading := none
      trace := factory.trace ++ [.read entry.key snapshot factory.clock,
        .answered entry.key entry.backend] } := by
  subst same
  have held := kept.held entry listed
  refine @replace _ _ _ entry.key kept { entry with lastCheck := now, invalid := false } rfl _ none
    factory.builds (by simp [Event.About]) ?_ ?_ (List.mem_append_left _ (kept.known entry listed))
    (by simp [tell_append, Story.next]) (by rintro _ _ ⟨⟩) (kept.ledger.quiet (by simp [Event.Quiet]))
  · simp only [History.obeyed_cons, History.obeyed_nil, Story.Law, Story.next, if_pos, and_true,
      forall_const]
    refine ⟨current.trans (kept.config entry.key).symm, fun _ => trivial, entry.snapshot,
      factory.clock, rfl, held.built, fun earlier previous result => ?_⟩
    cases held.last.symm.trans result
    exact iff_of_true rfl rfl
  · rw [tell_append]
    simp only [History.after_cons, History.after_nil, Story.next, if_pos]
    exact ⟨⟨factory.clock, begun, rfl⟩, rfl, held.live, held.built, held.watched, by rintro ⟨⟩⟩

section Rebuild

/-- What is told while a backend is replaced. -/
def rebuilding (gone : List LLMBackend) (entry : Entry) (clock : ℚ) : List Event :=
  .read entry.key entry.snapshot clock :: (gone.flatMap LLMBackend.endings ++
    (entry.building ++ [.answered entry.key entry.backend]))

variable {gone : List LLMBackend} {clock : ℚ} {story : Story}

theorem building_silent : ∀ event ∈ (entry.supervisor.map Event.supervisorStarted).toList,
    event.Silent := by
  intro event listed
  cases watched : entry.supervisor with
  | none => simp [watched] at listed
  | some supervisor =>
    obtain rfl : event = _ := by simpa [watched] using listed
    trivial

theorem gone_silent : ∀ event ∈ gone.flatMap LLMBackend.endings, event.Silent := by
  intro event listed
  obtain ⟨backend, -, ending⟩ := List.mem_flatMap.mp listed
  exact endings_silent event ending

theorem rebuilding_about : ∀ event ∈ rebuilding gone entry clock, event.About entry.key := by
  have silent : ∀ event : Event, event.Silent → event.About entry.key := by
    intro event silent
    cases event with
    | supervisorStopped _ | shutdown _ | supervisorStarted _ => trivial
    | edited _ _ | handled _ | began _ _ | read _ _ _ | built _ _ | answered _ _ | stopped =>
      exact silent.elim
  intro event listed
  simp only [rebuilding, Entry.building, List.cons_append, List.mem_cons, List.mem_append,
    List.not_mem_nil, or_false] at listed
  rcases listed with rfl | ended | rfl | started | rfl
  · exact rfl
  · exact silent event (gone_silent event ended)
  · exact rfl
  · exact silent event (building_silent event started)
  · exact rfl

theorem mem_rebuilding {worker : Key} {backend : LLMBackend} :
    .built worker backend ∈ rebuilding gone entry clock ↔
      worker = entry.key ∧ backend = entry.backend := by
  have unended : Event.built worker backend ∉ gone.flatMap LLMBackend.endings := fun listed =>
    (gone_silent _ listed).elim
  have unstarted : Event.built worker backend ∉
      (entry.supervisor.map Event.supervisorStarted).toList := fun listed =>
    (building_silent _ listed).elim
  simp only [rebuilding, Entry.building, List.cons_append, List.mem_cons, List.mem_append, unended,
    unstarted, reduceCtorEq, List.not_mem_nil, or_false, false_or, Event.built.injEq]

theorem after_rebuilding :
    History.after (Story.next settings.ttlS entry.key) story (rebuilding gone entry clock) =
      { story with
        lastRead := some (entry.snapshot, clock), due := false, own := true
        live := some entry.backend, last := some (entry.snapshot, entry.backend) } := by
  simp only [rebuilding, Entry.building, List.cons_append, History.after_cons, History.after_append,
    (silent_passes gone_silent).1, (silent_passes building_silent).1, History.after_nil, Story.next,
    if_pos, Option.map_some]

theorem obeyed_rebuilding (current : entry.snapshot = story.config)
    (built : entry.backend = buildBackend settings entry.backend.id entry.snapshot)
    (apart : ∀ earlier previous, story.last = some (earlier, previous) →
      (entry.backend.id = previous.id ↔ entry.snapshot = earlier)) :
    History.Obeyed (Story.next settings.ttlS entry.key) (Story.Law settings entry.key) story
      (rebuilding gone entry clock) := by
  simp only [rebuilding, Entry.building, List.cons_append, History.obeyed_cons,
    History.obeyed_append, (silent_passes gone_silent).1, (silent_passes gone_silent).2,
    (silent_passes building_silent).1, (silent_passes building_silent).2, History.obeyed_nil,
    Story.next, Story.Law, if_pos, and_true, true_and, forall_const]
  exact ⟨current, fun _ => trivial, entry.snapshot, clock, rfl, built, apart⟩

theorem count_rebuilding {backend : LLMBackend} {event : Event} (ending : event ∈ backend.endings) :
    (rebuilding gone entry clock).count event = gone.count backend := by
  have unstarted : (entry.supervisor.map Event.supervisorStarted).toList.count event = 0 := by
    refine List.count_eq_zero.mpr fun started => ?_
    cases watched : entry.supervisor with
    | none => simp [watched] at started
    | some supervisor =>
      obtain rfl : event = _ := by simpa [watched] using started
      simp [mem_endings] at ending
  have others : ∀ other, other = .read entry.key entry.snapshot clock ∨
      other = .built entry.key entry.backend ∨ other = .answered entry.key entry.backend →
      other ≠ event := by
    rintro other (rfl | rfl | rfl) rfl <;> simp [mem_endings] at ending
  simp [rebuilding, Entry.building, List.count_append, count_endings ending,
    unstarted, others]

/-- The backend of `key`, if it has one, is replaced by another. -/
theorem rebuild (kept : Kept settings rows factory) (fresh : entry.backend.id = factory.builds)
    (current : entry.snapshot = .fromConfig (llmConfigFor factory.rows entry.key))
    (built : entry.backend = buildBackend settings entry.backend.id entry.snapshot)
    (watched : entry.supervisor = entry.backend.supervisor)
    (begun : entry.lastCheck ≤ factory.clock)
    (replaced : ∀ old ∈ factory.find entry.key, old.snapshot ≠ entry.snapshot) :
    Kept settings rows { factory with
      cache := Keyed.put Entry.key entry factory.cache
      reading := none
      builds := factory.builds + 1
      trace := factory.trace ++ rebuilding ((factory.find entry.key).toList.map Entry.backend) entry
        factory.clock } := by
  refine replace kept rfl rebuilding_about
    (obeyed_rebuilding (current.trans (kept.config entry.key).symm) built fun earlier previous result => ?_)
    ?_ (List.mem_append_right _ (mem_rebuilding.mpr ⟨rfl, rfl⟩)) (by rw [tell_append, after_rebuilding]) nofun ?_
  · cases found : factory.find entry.key with
    | none =>
      have none := (kept.bare entry.key (find_none found)).2
      cases none.symm.trans result
    | some old =>
      obtain ⟨listed, same⟩ := find_some found
      have held := kept.held old listed
      rw [same] at held
      cases held.last.symm.trans result
      have before := kept.ledger.fresh _ _ (kept.known old listed)
      exact iff_of_false (by omega) (replaced old found).symm
  · rw [tell_append, after_rebuilding]
    exact ⟨⟨factory.clock, begun, rfl⟩, rfl, rfl, built, watched, nofun⟩
  · refine kept.ledger.extend (fun backend event => count_rebuilding) ?_ ?_ ?_ (Nat.le_succ _) ?_
    · cases factory.find entry.key <;> simp
    · intro backend listed
      cases found : factory.find entry.key with
      | none => simp [found] at listed
      | some old =>
        obtain rfl : backend = old.backend := by simpa [found] using listed
        have present := (find_some found).1
        exact ⟨old.key, kept.known old present, (kept.held old present).live⟩
    · intro worker backend known
      have older := kept.ledger.fresh worker backend known
      by_cases own : worker = entry.key
      · subst own
        rw [tell_append, after_rebuilding]
        refine iff_of_false (fun same => ?_) ?_
        · obtain rfl := Option.some.inj same
          omega
        · rintro ⟨live, remains⟩
          cases found : factory.find entry.key with
          | none =>
            have none := (kept.bare entry.key (find_none found)).1
            cases none.symm.trans live
          | some old =>
            obtain ⟨present, same⟩ := find_some found
            have held := kept.held old present
            rw [same] at held
            obtain rfl := Option.some.inj (held.live.symm.trans live)
            exact remains (by simp [found])
      · rw [tell_append, (others_pass rebuilding_about (Ne.symm own)).1]
        refine (and_iff_left fun listed => ?_).symm
        cases found : factory.find entry.key with
        | none => simp [found] at listed
        | some old =>
          obtain rfl : backend = old.backend := by simpa [found] using listed
          obtain ⟨present, same⟩ := find_some found
          exact own ((kept.ledger.owner _ _ _ known (kept.known old present)).trans same)
    · intro worker backend listed
      obtain ⟨rfl, rfl⟩ := mem_rebuilding.mp listed
      refine ⟨fresh.ge, by omega, ?_, fun other also => (mem_rebuilding.mp also).1.symm⟩
      rw [tell_append, after_rebuilding]

end Rebuild

theorem refresh (kept : Kept settings rows factory) {now : ℚ} (begun : now ≤ factory.clock)
    (key : Key) : Kept settings rows (factory.refresh settings key now
      (.fromConfig (llmConfigFor factory.rows key))) := by
  have rebuilt := @rebuild settings rows factory (buildEntry settings factory.builds key
    (.fromConfig (llmConfigFor factory.rows key)) now) kept rfl rfl rfl rfl begun
  cases found : factory.find key with
  | none =>
    have rebuilt := rebuilt (by simp [buildEntry, found])
    have same : ({ factory with reading := none }.log
        [.read key (.fromConfig (llmConfigFor factory.rows key)) factory.clock]).find key = none :=
      found
    simp only [Factory.refresh, same]
    simpa [buildEntry, found, rebuilding, Factory.log] using rebuilt
  | some old =>
    obtain ⟨listed, rfl⟩ := find_some found
    have same : ({ factory with reading := none }.log
        [.read old.key (.fromConfig (llmConfigFor factory.rows old.key)) factory.clock]).find old.key =
        some old := found
    simp only [Factory.refresh, same]
    split
    · rename_i unchanged
      simpa [Factory.log] using kept.refresh_same rfl begun listed unchanged
    · rename_i changed
      have rebuilt := rebuilt (by
        intro other listed
        obtain rfl : old = other := by simpa [buildEntry, found] using listed
        exact changed)
      simpa [buildEntry, found, rebuilding, Factory.log, (kept.held old listed).teardown] using rebuilt

/-- What is told while the factory stops. -/
def stopping (gone : List LLMBackend) : List Event :=
  gone.flatMap LLMBackend.endings ++ [.stopped]

theorem after_stopping {gone : List LLMBackend} {story : Story} :
    History.after (Story.next settings.ttlS key) story (stopping gone) =
      { story with last := none, live := none } := by
  rw [stopping, History.after_append, (silent_passes gone_silent).1]
  rfl

theorem stop_ledger (kept : Kept settings rows factory) : Ledger settings rows factory.builds
    (factory.trace ++ stopping (factory.cache.map Entry.backend)) := by
  refine @Ledger.extend _ _ _ factory.builds _ _ kept.ledger (factory.cache.map Entry.backend)
    (fun backend event ends => ?_) ?_ (fun backend listed => ?_) (fun worker backend _ => ?_) le_rfl
    (fun worker backend built => ?_)
  · have unstopped : Event.stopped ≠ event := by
      rintro rfl
      simp [mem_endings] at ends
    simp [stopping, List.count_append, count_endings ends, unstopped]
  · refine kept.keys.of_map.map_on fun first present second also same => ?_
    have known := kept.known second also
    rw [← same] at known
    exact List.inj_on_of_nodup_map kept.keys present also
      (kept.ledger.owner _ _ _ (kept.known first present) known)
  · obtain ⟨entry, present, rfl⟩ := List.mem_map.mp listed
    exact ⟨entry.key, kept.known entry present, (kept.held entry present).live⟩
  · rw [tell_append, after_stopping]
    refine iff_of_false nofun ?_
    rintro ⟨live, remains⟩
    by_cases cached : ∃ entry ∈ factory.cache, entry.key = worker
    · obtain ⟨entry, present, rfl⟩ := cached
      obtain rfl := Option.some.inj ((kept.held entry present).live.symm.trans live)
      exact remains (List.mem_map_of_mem present)
    · have none := (kept.bare worker fun entry present same => cached ⟨entry, present, same⟩).1
      cases none.symm.trans live
  · rcases List.mem_append.mp built with ended | stopped
    · exact (gone_silent _ ended).elim
    · simp at stopped

theorem stop (kept : Kept settings rows factory) : Kept settings rows factory.stop := by
  have ending : factory.cache.flatMap Entry.teardown =
      (factory.cache.map Entry.backend).flatMap LLMBackend.endings := by
    rw [List.flatMap_map]
    exact List.flatMap_congr fun entry listed => (kept.held entry listed).teardown
  have stopped : factory.stop = { factory with
      cache := [], trace := factory.trace ++ stopping (factory.cache.map Entry.backend) } := by
    rw [Factory.stop, ending]
    rfl
  rw [stopped]
  refine ⟨List.nodup_nil, fun _ listed => (List.not_mem_nil listed).elim, fun key _ => ?_,
    fun _ listed => (List.not_mem_nil listed).elim, fun key => ?_, kept.reading, kept.channel,
    fun key => ?_, kept.stop_ledger⟩
  · dsimp only
    rw [tell_append, after_stopping]
    exact ⟨rfl, rfl⟩
  · dsimp only
    rw [tell_append, after_stopping]
    exact kept.config key
  · refine History.obeyed_append.mpr ⟨kept.lawful key, ?_⟩
    rw [stopping, History.obeyed_append, (silent_passes gone_silent).1]
    exact ⟨(silent_passes gone_silent).2, by simp [Story.Law]⟩

/-- A committed edit writes the row of its worker, and tells of no other. -/
theorem setLlmConfig_ok {reprOf : String → String} {stored : List Row} {edit : LLMEdit}
    {result : List Row × List Notice} (ran : setLlmConfig reprOf stored key edit = .ok result) :
    (∃ config, result.1 = Keyed.put Row.key ⟨key, config⟩ stored) ∧
      ∀ notice ∈ result.2, notice = .of key := by
  unfold setLlmConfig at ran
  cases checked : edit.check reprOf with
  | error error =>
    rw [checked] at ran
    cases ran
  | ok _ =>
    rw [checked] at ran
    cases found : stored.find? fun row => row.key = key with
    | none =>
      rw [found] at ran
      cases ran
      exact ⟨⟨_, rfl⟩, by simp⟩
    | some old =>
      rw [found] at ran
      cases ran
      refine ⟨⟨_, rfl⟩, fun notice listed => ?_⟩
      split at listed
      · cases listed
      · exact List.mem_singleton.mp listed

theorem edit (kept : Kept settings rows factory) (key : Key) (edit : LLMEdit) :
    Kept settings rows (factory.edit settings key edit) := by
  cases ran : setLlmConfig settings.reprOf factory.rows key edit with
  | error error =>
    simp only [Factory.edit, ran]
    exact kept
  | ok result =>
    obtain ⟨stored, notices⟩ := result
    obtain ⟨⟨config, rfl⟩, sent⟩ := setLlmConfig_ok ran
    simp only [Factory.edit, ran]
    have told : ∀ other, tell settings rows other (factory.trace ++ [.edited key
        (.fromConfig (llmConfigFor (Keyed.put Row.key ⟨key, config⟩ factory.rows) key))]) =
        { tell settings rows other factory.trace with
          config := .fromConfig
            (llmConfigFor (Keyed.put Row.key ⟨key, config⟩ factory.rows) other) } := by
      intro other
      have before := kept.config other
      rw [tell_append]
      simp only [History.after_cons, History.after_nil, Story.next]
      split
      · rename_i own
        subst own
        rfl
      · rename_i apart
        unfold llmConfigFor at before ⊢
        rw [Keyed.find_put, if_neg apart, ← before]
    unfold Factory.log
    refine ⟨kept.keys, fun entry listed => ?_, fun other missing => ?_,
      fun entry listed => List.mem_append_left _ (kept.known entry listed), fun other => ?_,
      kept.reading, fun notice listed => ?_, fun other => ?_,
      kept.ledger.quiet (by simp [Event.Quiet])⟩
    · have held := kept.held entry listed
      show Held settings (tell settings rows entry.key (factory.trace ++ _)) _ _
      rw [told]
      exact { held with }
    · dsimp only
      rw [told]
      exact kept.bare other missing
    · dsimp only
      rw [told]
    · rcases List.mem_append.mp listed with waiting | new
      · exact kept.channel notice waiting
      · rw [sent notice new]
        rfl
    · exact History.obeyed_append.mpr ⟨kept.lawful other, by simp [Story.Law]⟩

theorem step (kept : Kept settings rows factory) {move : Move} (heard : Heard settings factory move) :
    Kept settings rows (factory.step settings move) := by
  cases move with
  | setLlmConfig key edit => exact kept.edit key edit
  | lose => exact kept.send fun notice listed => kept.channel notice (List.mem_of_mem_tail listed)
  | readFails => exact kept.readFails
  | clock now =>
    simp only [Factory.step]
    split
    · rename_i onward
      exact kept.clock onward
    · exact kept
  | handleNotify =>
    simp only [Factory.step]
    split
    · exact kept.handleNotify heard
    · exact kept
  | getBackend key =>
    simp only [Factory.step]
    split
    · exact kept.getBackend key
    · exact kept
  | stop =>
    simp only [Factory.step]
    split
    · exact kept.stop
    · exact kept
  | llmConfigFor =>
    cases reading : factory.reading with
    | none =>
      simp only [Factory.step, reading]
      exact kept
    | some call =>
      obtain ⟨key, now⟩ := call
      simp only [Factory.step, reading]
      exact kept.refresh (kept.reading key now reading) key

end Kept

/-! ### Runs -/

section Runs

variable {settings : Settings} {rows : List Row} {moves : List Move}

theorem refresh_channel {factory : Factory} {key : Key} {now : ℚ} {snapshot : Snapshot} :
    (factory.refresh settings key now snapshot).channel = factory.channel := by
  simp only [Factory.refresh]
  split
  · split <;> rfl
  · rfl

theorem getBackend_channel {factory : Factory} {key : Key} :
    (factory.getBackend settings key).channel = factory.channel := by
  simp only [Factory.getBackend]
  split
  · split <;> rfl
  · rfl

theorem handleNotify_channel {factory : Factory} :
    factory.handleNotify.channel = factory.channel.tail := by
  unfold Factory.handleNotify
  cases waiting : factory.channel with
  | nil => exact waiting
  | cons notice channel =>
    simp only [Factory.log, List.tail_cons]
    split
    · unfold Factory.invalidate
      split <;> rfl
    · rfl

/-- What is on its way was there before, or is about the worker that is edited. -/
theorem step_channel {factory : Factory} {move : Move} {notice : Notice}
    (listed : notice ∈ (factory.step settings move).channel) :
    notice ∈ factory.channel ∨ ∃ key edit, move = .setLlmConfig key edit ∧ notice = .of key := by
  cases move with
  | setLlmConfig key edit =>
    cases ran : setLlmConfig settings.reprOf factory.rows key edit with
    | error error =>
      simp only [Factory.step, Factory.edit, ran] at listed
      exact .inl listed
    | ok result =>
      simp only [Factory.step, Factory.edit, ran, Factory.log, List.mem_append] at listed
      exact listed.imp_right fun sent => ⟨key, edit, rfl, (Kept.setLlmConfig_ok ran).2 notice sent⟩
  | lose => exact .inl (List.mem_of_mem_tail listed)
  | readFails => exact .inl listed
  | clock now =>
    simp only [Factory.step] at listed
    split at listed <;> exact .inl listed
  | handleNotify =>
    simp only [Factory.step] at listed
    split at listed
    · rw [handleNotify_channel] at listed
      exact .inl (List.mem_of_mem_tail listed)
    · exact .inl listed
  | getBackend key =>
    simp only [Factory.step] at listed
    split at listed
    · rw [getBackend_channel] at listed
      exact .inl listed
    · exact .inl listed
  | stop =>
    simp only [Factory.step] at listed
    split at listed <;> exact .inl listed
  | llmConfigFor =>
    simp only [Factory.step] at listed
    split at listed
    · rw [refresh_channel] at listed
      exact .inl listed
    · exact .inl listed

/-- In a run that edits plain workers only, every notification is heard. -/
theorem heard_of_plain (plain : ∀ key edit, .setLlmConfig key edit ∈ moves → Plain key)
    (early : List Move) (move : Move) (listed : early ++ [move] <+: moves) :
    Heard settings (Factory.after settings rows early) move := by
  have waiting := @History.always _ _ (Factory.step settings) { rows } moves
    (fun factory => ∀ notice ∈ factory.channel, Plain notice.key)
    (fun _ move => ∀ key edit, move = .setLlmConfig key edit → Plain key)
    (fun _ none => (List.not_mem_nil none).elim)
    (fun factory move before edits notice sent => by
      rcases step_channel sent with old | ⟨key, edit, rfl, rfl⟩
      · exact before notice old
      · exact edits key edit rfl)
    (fun early move listed key edit same =>
      plain key edit (same ▸ listed.subset (List.mem_append_right _ (List.mem_singleton_self _))))
    early ((List.prefix_append _ _).trans listed)
  cases move with
  | handleNotify => exact fun notice first => .inl (waiting notice (List.mem_of_mem_head? first))
  | _ => trivial

/-- **Fresh backends.** In every run in which the notifications that are handled are about plain
workers, or come when a call would read the configuration anyway, the results of `get_backend`
are fresh, stay the same as long as the configuration does, and are released once. -/
theorem backends_right (settings : Settings) (rows : List Row) (moves : List Move)
    (heard : ∀ early move, early ++ [move] <+: moves →
      Heard settings (Factory.after settings rows early) move) :
    ∀ early, early <+: moves → Right settings rows (Factory.after settings rows early).trace := by
  have kept := History.always (Kept.start settings rows)
    (fun _ _ kept heard => Kept.step kept heard) heard
  exact fun early listed => (kept early listed).right

end Runs

/-! ### Samples -/

def Sample.settings : Settings := { reprOf := id }

/-- A worker's backend is built, the configuration is edited and the edit is told of, and the
backend is asked for again. -/
def Sample.edited (key : Key) : List Move :=
  [.getBackend key, .llmConfigFor, .setLlmConfig key { serverType := some "vllm" }, .handleNotify,
    .getBackend key, .llmConfigFor]

theorem plain_worker_right : Right Sample.settings []
    (Factory.after Sample.settings [] (Sample.edited ("a", "gpu"))).trace :=
  backends_right Sample.settings [] (Sample.edited ("a", "gpu"))
    (heard_of_plain (by
      intro key edit listed
      simp only [Sample.edited, List.mem_cons, reduceCtorEq, Move.setLlmConfig.injEq, false_or,
        List.not_mem_nil, or_false] at listed
      rw [listed.1]
      exact ⟨by decide, by decide, by decide⟩)) _ List.prefix_rfl

/-- The edit of a worker whose host has a bar in its name is not heard of. -/
theorem edit_unheard : ¬ ∀ moves, Right Sample.settings []
    (Factory.after Sample.settings [] moves).trace := by
  intro right
  have lawful := (right (Sample.edited ("a|b", "gpu"))).lawful ("a|b", "gpu")
  have ends : (Factory.after Sample.settings [] (Sample.edited ("a|b", "gpu"))).trace =
      (Factory.after Sample.settings [] (Sample.edited ("a|b", "gpu"))).trace.dropLast ++
        [.answered ("a|b", "gpu") ⟨0, .ollama, "http://host.docker.internal:11434", 1, 0⟩] := by
    decide +kernel
  rw [ends, History.obeyed_append] at lawful
  have answered := (History.obeyed_cons.mp lawful.2).1 rfl
  have unread : (tell Sample.settings [] ("a|b", "gpu")
      (Factory.after Sample.settings [] (Sample.edited ("a|b", "gpu"))).trace.dropLast).own = false := by
    decide +kernel
  have owed : (tell Sample.settings [] ("a|b", "gpu")
      (Factory.after Sample.settings [] (Sample.edited ("a|b", "gpu"))).trace.dropLast).owed = true := by
    decide +kernel
  cases unread.symm.trans (answered.1 owed)

end QueueWorkflows.BackendFactory
