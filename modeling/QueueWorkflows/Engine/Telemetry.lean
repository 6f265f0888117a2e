import Mathlib
import QueueWorkflows.Base.History
import QueueWorkflows.Engine.Value

/-! The hardware telemetry of a machine. The sampler tells which part of the load is that of
our own containers: it keeps the CPU time it read last of each, and a tick charges what has
been added since. A feed keeps the last samples of each host for the dashboards. -/

namespace QueueWorkflows.Telemetry

open History (after after_snoc)

/-! ### The share of our containers -/

/-- A container as the docker daemon lists it. -/
structure Container where
  id : String
  name : String

/-- What `cpu.stat` and `memory.current` of a container say, where they can be read. -/
structure Scope where
  usageUsec : Option Int
  memoryCurrent : Option Int

/-- What a tick finds: whether the cgroup root is mounted, the containers that the daemon
lists, each of them once, their scopes and the time. -/
structure Tick where
  mounted : Bool
  listed : Option (List Container)
  once : ∀ containers ∈ listed, (containers.map Container.id).Nodup
  scope : String → Scope
  now : Rat

/-- The constructor's arguments. -/
structure CgroupAttribution where
  namePrefix : String
  ncpu : Nat
  positive : 0 < ncpu

/-- `_last`: when each container was read, and its CPU time by then. -/
abbrev Baselines := String → Option (Rat × Int)

def ourContainerIds (attrib : CgroupAttribution) (containers : List Container) : List String :=
  (containers.filter fun container =>
    attrib.namePrefix.toList.isPrefixOf container.name.toList).map Container.id

/-- The ids a tick goes through, unless the root or the daemon is out of reach. -/
def Tick.ids (attrib : CgroupAttribution) (tick : Tick) : Option (List String) :=
  if tick.mounted then tick.listed.map (ourContainerIds attrib) else none

/-- The accumulators of the loop over the containers. -/
structure Sum where
  last : Baselines
  seen : List String := []
  cpuDeltaUsec : Int := 0
  ramBytes : Int := 0
  hadCpuBaseline : Bool := true
  oldestPrevT : Option Rat := none

def earlier (oldest : Option Rat) (time : Rat) : Option Rat :=
  match oldest with
  | none => some time
  | some first => if time < first then some time else some first

def Sum.read (tick : Tick) (sum : Sum) (cid : String) : Sum :=
  let ramBytes := sum.ramBytes + (tick.scope cid).memoryCurrent.getD 0
  match (tick.scope cid).usageUsec with
  | none => { sum with ramBytes }
  | some usage =>
    let last := Function.update sum.last cid (some (tick.now, usage))
    let seen := cid :: sum.seen
    match sum.last cid with
    | none => { sum with ramBytes, last, seen, hadCpuBaseline := false }
    | some (prevT, prevU) =>
      -- A container that was restarted counts from zero again.
      if usage < prevU then { sum with ramBytes, last, seen }
      else { sum with
        ramBytes, last, seen
        cpuDeltaUsec := sum.cpuDeltaUsec + (usage - prevU)
        oldestPrevT := earlier sum.oldestPrevT prevT }

def share (attrib : CgroupAttribution) (cpuDeltaUsec : Int) (elapsed : Rat) : Rat :=
  max 0 (min 100 (cpuDeltaUsec / (elapsed * attrib.ncpu * 1000000) * 100))

def Sum.cpuPercent (attrib : CgroupAttribution) (now : Rat) (sum : Sum) : Option Rat :=
  if sum.hadCpuBaseline then
    sum.oldestPrevT.bind fun first =>
      if now - first ≤ 0 then none else some (share attrib sum.cpuDeltaUsec (now - first))
  else none

structure Slice where
  cpuPercent : Option Rat
  ramUsedMb : Int

def sample (attrib : CgroupAttribution) (last : Baselines) (tick : Tick) :
    Option Slice × Baselines :=
  match tick.ids attrib with
  | none => (none, last)
  | some ids =>
    let sum := ids.foldl (Sum.read tick) { last }
    (some ⟨sum.cpuPercent attrib tick.now, sum.ramBytes / (1024 * 1024)⟩,
      fun cid => if cid ∈ sum.seen then sum.last cid else none)

/-- The CPU time a tick read of a container. -/
def Tick.usageOf (attrib : CgroupAttribution) (tick : Tick) (cid : String) : Option Int :=
  (tick.ids attrib).bind fun ids => if cid ∈ ids then (tick.scope cid).usageUsec else none

/-- What was added between two readings, unless the count was reset. -/
def added (used usage : Option Int) : Option Int :=
  match used, usage with
  | some used, some usage => if usage < used then none else some (usage - used)
  | _, _ => none

def attributed (attrib : CgroupAttribution) (previous : Option Tick) (tick : Tick) :
    Option Slice :=
  (tick.ids attrib).map fun ids =>
    let used := fun cid => previous.bind fun tick => tick.usageOf attrib cid
    let gains := ids.filterMap fun cid => added (used cid) (tick.scope cid).usageUsec
    let appeared := ids.any fun cid => (tick.scope cid).usageUsec.isSome && (used cid).isNone
    { cpuPercent := previous.bind fun previous =>
        if appeared || gains.isEmpty || tick.now ≤ previous.now then none
        else some (share attrib gains.sum (tick.now - previous.now))
      ramUsedMb := (ids.map fun cid => (tick.scope cid).memoryCurrent.getD 0).sum / (1024 * 1024) }

section Loop

variable {tick : Tick} {sum : Sum} {last : Baselines} {cid : String} {ids : List String}

variable (distinct : ids.Nodup) (kept : ∀ cid ∈ ids, sum.last cid = last cid)

include distinct kept

end Loop

section Runs

variable {attrib : CgroupAttribution} {tick : Tick} {previous : Option Tick} {ids : List String}

/-- All baselines are from the last tick that read the tree. -/
def known (attrib : CgroupAttribution) (previous : Option Tick) : Baselines := fun cid =>
  previous.bind fun tick => (tick.usageOf attrib cid).map fun usage => (tick.now, usage)

end Runs

/-! ### The feed -/

/-- The constructor's arguments, and Python's own readings of a text and of a value. -/
structure HwFeed where
  staleAfterS : Rat
  history : Int
  /-- `json.loads`, where it does not raise. -/
  loads : String → Option Json
  strOf : Json → String

/-- `_latest` and `_hist`. -/
structure Shown where
  latest : String → Option (Dict × Rat)
  hist : String → List (Dict × Rat)

namespace HwFeed

variable (feed : HwFeed)

def historyN : Nat :=
  max 2 feed.history.toNat

def hostOf (sample : Dict) : String :=
  feed.strOf (((Dict.get? sample "host").filter Json.truthy).getD (.str "?"))

/-- A payload that is no object raises, to the loop that then connects anew. -/
def parse (payload : String) : Option Dict :=
  match feed.loads payload with
  | some (.obj sample) => some sample
  | _ => none

/-- `_store` of a payload at a time. -/
def store (shown : Shown) (note : String × Rat) : Shown :=
  match feed.parse note.1 with
  | none => shown
  | some sample =>
    let host := feed.hostOf sample
    { latest := Function.update shown.latest host (some (sample, note.2))
      hist := Function.update shown.hist host
        ((shown.hist host ++ [(sample, note.2)]).rtake feed.historyN) }

def stored (notes : List (String × Rat)) : Shown :=
  after feed.store ⟨fun _ => none, fun _ => []⟩ notes

def marked (now : Rat) (record : Dict × Rat) : Dict :=
  Dict.set record.1 "stale" (.bool (feed.staleAfterS < now - record.2))

def latestByHost (shown : Shown) (now : Rat) (host : String) : Option Dict :=
  (shown.latest host).map (feed.marked now)

def historyByHost (shown : Shown) (now : Rat) (host : String) : List Dict :=
  (shown.hist host).map (feed.marked now)

/-- The samples of a host, in the order in which they came in. -/
def samplesOf (host : String) (notes : List (String × Rat)) : List (Dict × Rat) :=
  notes.filterMap fun note =>
    ((feed.parse note.1).filter fun sample => feed.hostOf sample == host).map (·, note.2)

end HwFeed

theorem rtake_append {α : Type} {count : Nat} (positive : 0 < count) (list : List α) (item : α) :
    (list.rtake count ++ [item]).rtake count = (list ++ [item]).rtake count := by
  obtain ⟨less, rfl⟩ := Nat.exists_eq_succ_of_ne_zero positive.ne'
  rw [List.rtake_concat_succ, List.rtake_concat_succ]
  simp [List.rtake_eq_reverse_take_reverse, List.take_take]

theorem getLast_rtake {α : Type} {count : Nat} (positive : 0 < count) (list : List α) :
    (list.rtake count).getLast? = list.getLast? := by
  induction list using List.reverseRecOn with
  | nil => simp
  | append_singleton list item _ =>
    obtain ⟨less, rfl⟩ := Nat.exists_eq_succ_of_ne_zero positive.ne'
    rw [List.rtake_concat_succ]
    simp

variable {feed : HwFeed} {notes : List (String × Rat)} {host : String}

theorem historyN_pos : 0 < feed.historyN :=
  Nat.lt_of_lt_of_le Nat.two_pos (le_max_left _ _)

theorem samplesOf_snoc {note : String × Rat} :
    feed.samplesOf host (notes ++ [note]) = feed.samplesOf host notes ++
      (((feed.parse note.1).filter fun sample => feed.hostOf sample == host).map
        (·, note.2)).toList := by
  unfold HwFeed.samplesOf
  rw [List.filterMap_append]
  rw [List.append_cancel_left_eq]
  cases found : ((feed.parse note.1).filter fun sample => feed.hostOf sample == host).map
      (·, note.2) with
  | none => simp [found]
  | some record => simp [found]

theorem stored_eq : (feed.stored notes).hist host =
      (feed.samplesOf host notes).rtake feed.historyN ∧
    (feed.stored notes).latest host = (feed.samplesOf host notes).getLast? := by
  induction notes using List.reverseRecOn with
  | nil => simp [HwFeed.stored, HwFeed.samplesOf]
  | append_singleton notes note ih =>
    obtain ⟨history, latest⟩ := ih
    have moved : feed.stored (notes ++ [note]) = feed.store (feed.stored notes) note := after_snoc
    rw [moved, samplesOf_snoc]
    unfold HwFeed.store
    cases feed.parse note.1 with
    | none => simpa using ⟨history, latest⟩
    | some sample =>
      by_cases own : feed.hostOf sample = host
      · subst own
        simp [Option.filter, history, rtake_append historyN_pos]
      · have other : host ≠ feed.hostOf sample := Ne.symm own
        simp [Option.filter, own, other, history, latest]

/-- What a dashboard shows of a host: after any notes, of this host and of others, the last
samples of the host in the order they came in, as many as the feed holds; and as the latest the
last of these, marked as it is marked there. A note that is no sample changes nothing. -/
theorem feed_exact (feed : HwFeed) (notes : List (String × Rat)) (now : Rat) (host : String) :
    feed.historyByHost (feed.stored notes) now host =
        ((feed.samplesOf host notes).rtake feed.historyN).map (feed.marked now) ∧
      feed.latestByHost (feed.stored notes) now host =
        (feed.historyByHost (feed.stored notes) now host).getLast? := by
  obtain ⟨history, latest⟩ : (feed.stored notes).hist host =
        (feed.samplesOf host notes).rtake feed.historyN ∧
      (feed.stored notes).latest host = (feed.samplesOf host notes).getLast? := stored_eq
  unfold HwFeed.historyByHost HwFeed.latestByHost
  rw [history, latest, List.getLast?_map, getLast_rtake historyN_pos]
  exact ⟨rfl, rfl⟩

end QueueWorkflows.Telemetry
