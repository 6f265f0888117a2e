import QueueWorkflows.Base.Paths
import QueueWorkflows.Engine.System

/-! The files a finished patch writes. `_finish_patch_job` compares paths with the run's
output directory as texts; where the files end up is a matter of their normal forms. -/

namespace QueueWorkflows

open Transaction (Prog)
open Transaction.Prog (commit ofExcept)

/-! ### Paths -/

/-- The parts of a path that its normal form is made from. -/
def pathSegments (path : String) : List String :=
  ((path.toList.splitOn '/').map String.ofList).filter fun part => part != "" && part != "."

def isAbsolute (path : String) : Bool :=
  path.toList.head? == some '/'

/-- After normalisation the path is strictly inside the directory. -/
def StrictlyInside (dir path : String) : Prop :=
  isAbsolute path = isAbsolute dir ∧
    Paths.Below ".." (isAbsolute dir) (pathSegments dir) (pathSegments path)

/-- `os.path.basename`. -/
def basename (path : String) : String :=
  String.ofList ((path.toList.splitOn '/').getLast?.getD [])

/-- `os.path.join` with a name. -/
def joinPath (dir name : String) : String :=
  if dir = "" ∨ dir.toList.getLast? = some '/' then dir ++ name else dir ++ "/" ++ name

/-- What follows the text of the directory leads into it. It begins a new part of the path, at
once or after a detour that comes back to the directory, and from there it leads down and never
back. Only a last part `.` or `..`, which a longer text makes a name of its own, lets the path
come to the directory before its text is at an end. -/
inductive Inward (dir rest : String) : Prop
  | after {detour steps : String} {levels : Nat} (split : rest = detour ++ steps)
      (ends : Paths.Joint '/' (dir ++ detour).toList steps.toList)
      (back : Paths.normal ".." (isAbsolute dir) (pathSegments (dir ++ detour)) =
        Paths.normal ".." (isAbsolute dir) (pathSegments dir))
      (down : Paths.Descent ".." (pathSegments steps) levels)
  | within {before steps : String} {levels : Nat} (dotted : basename dir = "." ∨ basename dir = "..")
      (split : dir ++ rest = before ++ steps) (ends : Paths.Joint '/' before.toList steps.toList)
      (back : Paths.normal ".." (isAbsolute dir) (pathSegments before) =
        Paths.normal ".." (isAbsolute dir) (pathSegments dir))
      (down : Paths.Descent ".." (pathSegments steps) levels)

section Paths

variable {dir path front back rest name : String}

theorem pathSegments_eq : pathSegments path = (Paths.segments
    (fun part => String.ofList part != "" && String.ofList part != ".") '/' path.toList).map
      String.ofList := by
  unfold pathSegments Paths.segments
  rw [List.filter_map]
  rfl

theorem pathSegments_append (ends : Paths.Joint '/' front.toList back.toList) :
    pathSegments (front ++ back) = pathSegments front ++ pathSegments back := by
  rw [pathSegments_eq, pathSegments_eq, pathSegments_eq, String.toList_append,
    Paths.segments_append rfl ends, List.map_append]

theorem pathSegments_split {before steps : List String} (some_steps : steps ≠ [])
    (split : pathSegments path = before ++ steps) :
    ∃ front back : String, path = front ++ back ∧ Paths.Joint '/' front.toList back.toList ∧
      pathSegments front = before ∧ pathSegments back = steps := by
  rw [pathSegments_eq] at split
  obtain ⟨first, last, parts, rfl, rfl⟩ := List.map_eq_append_iff.mp split
  obtain ⟨front, back, whole, ends, early, late⟩ :=
    Paths.segments_split rfl (fun none => some_steps (by rw [none]; rfl)) parts
  refine ⟨String.ofList front, String.ofList back, ?_, by simpa using ends, ?_, ?_⟩
  · rw [← String.toList_inj, whole]
    simp
  · rw [pathSegments_eq, String.toList_ofList, early]
  · rw [pathSegments_eq, String.toList_ofList, late]

/-- A text that goes on after a directory's is absolute where the directory's is. -/
theorem isAbsolute_append (some_dir : dir ≠ "") : isAbsolute (dir ++ rest) = isAbsolute dir := by
  unfold isAbsolute
  rw [String.toList_append]
  cases own : dir.toList with
  | nil => exact absurd (String.toList_eq_nil_iff.mp own) some_dir
  | cons letter others => rfl

/-- Of two ways to split a text, one splits later. -/
theorem append_cases (same : dir ++ rest = front ++ back) :
    (∃ middle, front = dir ++ middle ∧ rest = middle ++ back) ∨
      ∃ middle, dir = front ++ middle ∧ back = middle ++ rest := by
  have letters : dir.toList ++ rest.toList = front.toList ++ back.toList := by
    rw [← String.toList_append, same, String.toList_append]
  rcases List.append_eq_append_iff.mp letters with ⟨middle, early, late⟩ | ⟨middle, early, late⟩
  · refine .inl ⟨String.ofList middle, ?_, ?_⟩
    all_goals rw [← String.toList_inj, String.toList_append, String.toList_ofList]
    · exact early
    · exact late
  · refine .inr ⟨String.ofList middle, ?_, ?_⟩
    all_goals rw [← String.toList_inj, String.toList_append, String.toList_ofList]
    · exact early
    · exact late

theorem exists_basename (path : String) : ∃ front, path = front ++ basename path ∧
    '/' ∉ (basename path).toList ∧ (front = "" ∨ ['/'] <:+ front.toList) := by
  obtain ⟨front, last, whole, clear, ends⟩ := Paths.exists_last_part '/' path.toList
  have named : basename path = String.ofList last := by
    unfold basename
    rw [whole, Paths.getLast?_splitOn clear ends]
    rfl
  refine ⟨String.ofList front, ?_, ?_, ?_⟩
  · rw [← String.toList_inj, named, whole]
    simp
  · rw [named, String.toList_ofList]
    exact clear
  · rw [String.toList_ofList]
    exact ends.imp_left fun none => by rw [none]

theorem pathSegments_name (clear : '/' ∉ name.toList) :
    pathSegments name = [name].filter fun part => part != "" && part != "." := by
  unfold pathSegments
  rw [List.splitOn_eq_singleton clear]
  simp

theorem joint_middle (some_back : back ≠ "") (ends : Paths.Joint '/' front.toList (back ++ rest).toList) :
    Paths.Joint '/' front.toList back.toList := by
  refine ends.imp_right (Or.imp_right fun begins => ?_)
  rw [String.toList_append] at begins
  cases letters : back.toList with
  | nil => exact absurd (String.toList_eq_nil_iff.mp letters) some_back
  | cons letter others =>
    rw [letters, List.cons_append, List.cons_prefix_cons] at begins
    exact List.cons_prefix_cons.mpr ⟨begins.1, List.nil_prefix⟩

theorem toList_ne_nil (some_text : path ≠ "") : path.toList ≠ [] :=
  fun none => some_text (String.toList_eq_nil_iff.mp none)

theorem ends_of_append (ends : ['/'] <:+ (front ++ back).toList) (some_back : back ≠ "") :
    ['/'] <:+ back.toList :=
  Paths.ends_of_append (String.toList_append ▸ ends) (toList_ne_nil some_back)

/-- What a directory's text has after an end of a part is whole parts and its last. -/
theorem exists_middle (split : dir = front ++ back)
    (ends : Paths.Joint '/' front.toList back.toList) :
    ∃ middle, back = middle ++ basename dir ∧ (middle = "" ∨ ['/'] <:+ middle.toList) := by
  obtain ⟨first, whole, clear, turns⟩ := exists_basename dir
  rcases append_cases (whole.symm.trans split) with ⟨middle, early, last⟩ | ⟨middle, early, late⟩
  · have none : middle = "" := by
      by_contra some_middle
      rcases ends with empty | turned | ⟨others, begins⟩
      · rw [early, String.toList_append] at empty
        exact toList_ne_nil some_middle (List.append_eq_nil_iff.mp empty).2
      · have inside := (ends_of_append (early ▸ turned) some_middle).subset
          (List.mem_singleton_self _)
        rw [last, String.toList_append] at clear
        exact clear (List.mem_append_left _ inside)
      · rw [last, String.toList_append, ← begins] at clear
        exact clear (List.mem_append_right _ List.mem_cons_self)
    subst none
    exact ⟨"", last.symm, .inl rfl⟩
  · refine ⟨middle, late, ?_⟩
    by_cases none : middle = ""
    · exact .inl none
    · refine .inr (ends_of_append (early ▸ turns.resolve_left fun empty => none ?_) none)
      rw [empty] at early
      exact (String.append_eq_empty_iff.mp early.symm).2

/-- The directory's text cannot be left early, but for a last part that is dotted. -/
theorem inward_of_early {levels : Nat} (split : dir = front ++ back)
    (plain : ¬ (basename dir = "." ∨ basename dir = ".."))
    (ends : Paths.Joint '/' front.toList (back ++ rest).toList)
    (same : Paths.normal ".." (isAbsolute dir) (pathSegments front) =
      Paths.normal ".." (isAbsolute dir) (pathSegments dir))
    (down : Paths.Descent ".." (pathSegments (back ++ rest)) levels) : Inward dir rest := by
  by_cases none : back = ""
  · subst none
    rw [String.append_empty] at split
    rw [String.empty_append] at ends down
    refine .after String.empty_append.symm ?_ ?_ down
    all_goals rw [String.append_empty, split]
    exact ends
  have joint := joint_middle none ends
  have never {levels : Nat} (down : Paths.Descent ".." (pathSegments back) levels) : False := by
    have apart : Paths.normal ".." (isAbsolute dir) (pathSegments front ++ pathSegments back) ≠
        Paths.normal ".." (isAbsolute dir) (pathSegments front) := down.away
    refine apart ?_
    rw [← pathSegments_append joint, ← split, same]
  obtain ⟨middle, rfl, turns⟩ := exists_middle split joint
  have inner (text : String) : Paths.Joint '/' middle.toList text.toList :=
    turns.imp (fun empty => by rw [empty]; rfl) .inl
  by_cases last : basename dir = ""
  · simp only [last, String.append_empty] at none split down never
    have turned : ['/'] <:+ middle.toList := turns.resolve_left none
    rw [pathSegments_append (.inr (.inl turned))] at down
    by_cases empty : pathSegments middle = []
    · rw [empty, List.nil_append] at down
      refine .after String.empty_append.symm ?_ ?_ down
      all_goals rw [String.append_empty]
      rw [split, String.toList_append]
      exact .inr (.inl (turned.trans (List.suffix_append _ _)))
    · obtain ⟨levels, down⟩ := down.left empty
      exact (never down).elim
  · rw [String.append_assoc, pathSegments_append (inner _)] at down
    obtain ⟨levels, down⟩ := down.renamed fun up => plain (.inr up)
    suffices closed : Paths.Descent ".." (pathSegments (middle ++ basename dir)) levels from
      (never closed).elim
    obtain ⟨-, -, clear, -⟩ := exists_basename dir
    have proper : (basename dir != "" && basename dir != ".") = true := by
      rw [Bool.and_eq_true, bne_iff_ne, bne_iff_ne]
      exact ⟨last, fun dot => plain (.inl dot)⟩
    have kept : [basename dir].filter (fun part => part != "" && part != ".") = [basename dir] :=
      List.filter_cons_of_pos proper
    rw [pathSegments_append (inner _), pathSegments_name clear, kept]
    exact down

/-- A text that goes on after a directory's leads strictly inside it exactly where what follows
leads into it. -/
theorem inward_iff (some_dir : dir ≠ "") : StrictlyInside dir (dir ++ rest) ↔ Inward dir rest := by
  unfold StrictlyInside
  rw [isAbsolute_append some_dir, eq_self, true_and, Paths.below_iff]
  constructor
  · rintro ⟨before, steps, levels, split, same, down⟩
    obtain ⟨front, back, whole, ends, rfl, rfl⟩ := pathSegments_split down.ne_nil.1 split
    by_cases dotted : basename dir = "." ∨ basename dir = ".."
    · exact .within dotted whole ends same down
    rcases append_cases whole with ⟨detour, rfl, late⟩ | ⟨middle, early, rfl⟩
    · exact .after late ends same down
    · exact inward_of_early early dotted ends same down
  · intro inward
    cases inward with
    | @after detour steps levels split ends same down =>
      refine ⟨_, _, levels, ?_, same, down⟩
      rw [split, ← String.append_assoc, pathSegments_append ends]
    | @within before steps levels dotted split ends same down =>
      refine ⟨_, _, levels, ?_, same, down⟩
      rw [split, pathSegments_append ends]

end Paths

/-! ### Copies -/

/-- What `shutil.copy2` finds on the disk: which paths are directories, and whether it comes to
open its destination. -/
structure Disk where
  isDir : String → Bool
  opens : String → String → Bool

/-- `copy2` puts a file into a directory under its own name. -/
def destination (disk : Disk) (source target : String) : String :=
  if disk.isDir target then joinPath target (basename source) else target

/-- The copies that it tries. -/
def triedCopies (host : Host) (run : RunRow) (job : NodeJob) (source : Option NodeJob) :
    List (String × String) :=
  (Dispatcher.patchCopies host run job source).1

/-- The paths that it writes. -/
def writtenPaths (disk : Disk) (host : Host) (run : RunRow) (job : NodeJob)
    (source : Option NodeJob) : List String :=
  ((triedCopies host run job source).filter fun copy => disk.opens copy.1 copy.2).map fun copy =>
    destination disk copy.1 copy.2

/-- What holds of every disk: no path that ends in `..` is a file. -/
def Host.Proper (host : Host) : Prop :=
  ∀ made path, host.isFile made path = .ok true → basename path ≠ ".."

/-- The patch and its source have, under one key, two different texts that begin with the
run's output directory: the patch file, and the original path with this rest. -/
def Replaces (run : RunRow) (job : NodeJob) (source : Option NodeJob) (new rest : String) : Prop :=
  ∃ deltaNew key, Dispatcher.deltaItems job.contextDelta = .ok deltaNew ∧
    (key, .str new) ∈ deltaNew ∧
    Dispatcher.deltaGet ((source.map NodeJob.contextDelta).getD (.obj [])) key =
      .ok (some (.str (run.outDir.getD "" ++ rest))) ∧
    new ≠ run.outDir.getD "" ++ rest ∧ run.outDir.getD "" ≠ "" ∧
    (run.outDir.getD "").toList <+: new.toList

section Contained

variable {disk : Disk} {host : Host} {outDir : String} {deltaOld newVal : Json}
  {oldVal : Option Json} {deltaNew : Dict} {made : List (String × String)}
  {copy : String × String}

theorem patchPaths_eq_some : Dispatcher.patchPaths outDir newVal oldVal = some copy ↔
    newVal = .str copy.1 ∧ oldVal = some (.str copy.2) ∧ copy.1 ≠ copy.2 ∧ outDir ≠ "" ∧
      outDir.toList <+: copy.1.toList ∧ outDir.toList <+: copy.2.toList := by
  unfold Dispatcher.patchPaths
  split
  · rename_i new old
    rw [Option.ite_none_right_eq_some, List.isPrefixOf_iff_prefix, List.isPrefixOf_iff_prefix]
    constructor
    · rintro ⟨passed, same⟩
      cases same
      exact ⟨rfl, rfl, passed⟩
    · rintro ⟨new_is, old_is, passed⟩
      cases new_is
      cases old_is
      exact ⟨passed, rfl⟩
  · rename_i others
    refine iff_of_false nofun ?_
    rintro ⟨new_is, old_is, -⟩
    exact others _ _ new_is old_is

/-- The copy is of a file, under one of the keys. -/
def Due (host : Host) (outDir : String) (deltaOld : Json) (deltaNew : Dict)
    (copy : String × String) : Prop :=
  (∃ before, host.isFile before copy.1 = .ok true) ∧ ∃ key newVal oldVal,
    (key, newVal) ∈ deltaNew ∧ Dispatcher.deltaGet deltaOld key = .ok oldVal ∧
      Dispatcher.patchPaths outDir newVal oldVal = some copy

theorem Due.later {entry : String × Json} (due : Due host outDir deltaOld deltaNew copy) :
    Due host outDir deltaOld (entry :: deltaNew) copy := by
  obtain ⟨file, key, newVal, oldVal, member, found⟩ := due
  exact ⟨file, key, newVal, oldVal, List.mem_cons_of_mem _ member, found⟩

/-- What holds of every copy that is due holds of those that the loop tries. -/
theorem copyFiles_tried {holds : String × String → Prop}
    (due : ∀ copy, Due host outDir deltaOld deltaNew copy → holds copy)
    (early : ∀ copy ∈ made, holds copy) :
    ∀ copy ∈ (Dispatcher.copyFiles host outDir deltaOld made deltaNew).1, holds copy := by
  induction deltaNew generalizing made with
  | nil => exact early
  | cons entry rest ih =>
    have next {made : List (String × String)} (early : ∀ copy ∈ made, holds copy) :
        ∀ copy ∈ (Dispatcher.copyFiles host outDir deltaOld made rest).1, holds copy :=
      ih (fun copy owed => due copy owed.later) early
    obtain ⟨key, newVal⟩ := entry
    unfold Dispatcher.copyFiles
    cases found : Dispatcher.deltaGet deltaOld key with
    | error error => exact early
    | ok oldVal =>
      dsimp only
      cases paths : Dispatcher.patchPaths outDir newVal oldVal with
      | none => exact next early
      | some pair =>
        dsimp only
        cases file : host.isFile made pair.1 with
        | error error => exact early
        | ok isFile =>
          cases isFile with
          | false => exact next early
          | true =>
            have own : holds pair :=
              due pair ⟨⟨made, file⟩, key, newVal, oldVal, List.mem_cons_self, found, paths⟩
            have both : ∀ copy ∈ made ++ [pair], holds copy := by
              intro copy member
              rcases List.mem_append.mp member with before | last
              · exact early copy before
              · exact List.mem_singleton.mp last ▸ own
            cases host.copyFile made pair.1 pair.2 with
            | error error => exact both
            | ok _ => exact next both

theorem copyFiles_made (tried : copy ∈ made) :
    copy ∈ (Dispatcher.copyFiles host outDir deltaOld made deltaNew).1 := by
  induction deltaNew generalizing made with
  | nil => exact tried
  | cons entry rest ih =>
    unfold Dispatcher.copyFiles
    repeat' split
    all_goals first
      | exact tried
      | exact ih tried
      | exact List.mem_append_left _ tried
      | exact ih (List.mem_append_left _ tried)

/-- Where everything is a file and every copy is made, every copy that is due is tried. -/
theorem copyFiles_complete {fields : Dict} {key : String}
    (files : ∀ made path, host.isFile made path = .ok (basename path != ".."))
    (copies : ∀ made new old, host.copyFile made new old = .ok ())
    (member : (key, newVal) ∈ deltaNew) (named : basename copy.1 ≠ "..")
    (paths : Dispatcher.patchPaths outDir newVal (Dict.get? fields key) = some copy) :
    copy ∈ (Dispatcher.copyFiles host outDir (.obj fields) made deltaNew).1 := by
  induction deltaNew generalizing made with
  | nil => cases member
  | cons entry rest ih =>
    obtain ⟨first, value⟩ := entry
    rcases List.mem_cons.mp member with same | later
    · cases same
      have file : host.isFile made copy.1 = .ok true := by
        rw [files, bne_iff_ne.mpr named]
      simp only [Dispatcher.copyFiles, Dispatcher.deltaGet, paths, file, copies]
      exact copyFiles_made (List.mem_append_right _ (List.mem_singleton_self _))
    · simp only [Dispatcher.copyFiles, Dispatcher.deltaGet]
      cases Dispatcher.patchPaths outDir value (Dict.get? fields first) with
      | none => exact ih later
      | some pair =>
        simp only [files, copies]
        cases basename pair.1 != ".." with
        | false => exact ih later
        | true => exact ih later

/-- A name after a path that leads inside leads inside as well. -/
theorem StrictlyInside.join {dir path name : String} (inside : StrictlyInside dir path)
    (some_path : path ≠ "") (clear : '/' ∉ name.toList) (proper : name ≠ "..") :
    StrictlyInside dir (joinPath path name) := by
  obtain ⟨absolute, below⟩ := inside
  obtain ⟨before, steps, levels, split, same, down⟩ := Paths.below_iff.mp below
  have joined : isAbsolute (joinPath path name) = isAbsolute path ∧
      pathSegments (joinPath path name) = pathSegments path ++ pathSegments name := by
    unfold joinPath
    split_ifs with ends
    · refine ⟨isAbsolute_append some_path, pathSegments_append ?_⟩
      obtain ⟨others, turned⟩ := List.getLast?_eq_some_iff.mp (ends.resolve_left some_path)
      exact .inr (.inl ⟨others, turned.symm⟩)
    · rw [String.append_assoc]
      refine ⟨isAbsolute_append some_path, ?_⟩
      rw [pathSegments_append (.inr (.inr ⟨name.toList, by simp⟩)),
        pathSegments_append (.inr (.inl (List.suffix_refl _)))]
      rfl
  refine ⟨joined.1.trans absolute, Paths.below_iff.mpr ?_⟩
  rw [joined.2, split, pathSegments_name clear]
  cases kept : name != "" && name != "." with
  | true =>
    refine ⟨before, steps ++ [name], levels + 1, ?_, same, down.deeper proper⟩
    simp [kept]
  | false =>
    refine ⟨before, steps, levels, ?_, same, down⟩
    simp [kept]

variable {run : RunRow} {job : NodeJob} {source : Option NodeJob} {new rest : String}

/-- The copies that are tried are of files that replace one of the run. -/
theorem triedCopies_replace (proper : host.Proper) (tried : copy ∈ triedCopies host run job source) :
    ∃ rest, copy.2 = run.outDir.getD "" ++ rest ∧ Replaces run job source copy.1 rest ∧
      basename copy.1 ≠ ".." := by
  unfold triedCopies Dispatcher.patchCopies at tried
  cases listed : Dispatcher.deltaItems job.contextDelta with
  | error error =>
    rw [listed] at tried
    cases tried
  | ok deltaNew =>
    rw [listed] at tried
    dsimp only at tried
    refine copyFiles_tried (fun (copy : String × String) due => (?_ : ∃ rest,
      copy.2 = run.outDir.getD "" ++ rest ∧ Replaces run job source copy.1 rest ∧
        basename copy.1 ≠ "..")) (fun _ member => absurd member List.not_mem_nil) copy tried
    obtain ⟨⟨before, file⟩, key, newVal, oldVal, member, found, paths⟩ := due
    obtain ⟨rfl, rfl, apart, some_dir, new_within, letters, old_within⟩ :=
      patchPaths_eq_some.mp paths
    have whole : copy.2 = run.outDir.getD "" ++ String.ofList letters := by
      rw [← String.toList_inj, ← old_within]
      simp
    rw [whole] at found apart
    exact ⟨_, whole, ⟨deltaNew, key, listed, member, found, apart, some_dir, new_within⟩,
      proper _ _ file⟩

/-- On a disk where it can be, a file that replaces one of the run is copied over it. -/
theorem writtenPaths_replaces (replaces : Replaces run job source new rest)
    (named : basename new ≠ "..") :
    run.outDir.getD "" ++ rest ∈ writtenPaths ⟨fun _ => false, fun _ _ => true⟩
      { Sample.host with
        isFile := fun _ path => .ok (basename path != "..")
        copyFile := fun _ _ _ => .ok () } run job source := by
  obtain ⟨deltaNew, key, listed, member, found, apart, some_dir, within⟩ := replaces
  refine List.mem_map.mpr ⟨(new, run.outDir.getD "" ++ rest), List.mem_filter.mpr ⟨?_, rfl⟩, rfl⟩
  unfold triedCopies Dispatcher.patchCopies
  rw [listed]
  dsimp only
  unfold Dispatcher.deltaGet at found
  split at found
  · rename_i fields old
    rw [old]
    refine copyFiles_complete (fun _ _ => rfl) (fun _ _ _ => rfl) member named ?_
    rw [Except.ok.inj found]
    refine patchPaths_eq_some.mpr ⟨rfl, rfl, apart, some_dir, within, ?_⟩
    rw [String.toList_append]
    exact List.prefix_append _ _
  · split at found
    · cases found
    · cases found

/-- **Patch containment.** Whatever the disk, every path that a finished patch writes is
strictly inside the output directory exactly where, of every text that it takes for a file of
the run and may replace, what follows that of the directory leads into it. -/
theorem patch_contained_iff :
    (∀ host disk, Host.Proper host → ∀ path ∈ writtenPaths disk host run job source,
      StrictlyInside (run.outDir.getD "") path) ↔
    ∀ new rest, Replaces run job source new rest → basename new ≠ ".." →
      Inward (run.outDir.getD "") rest := by
  constructor
  · intro contained new rest replaces named
    have some_dir : run.outDir.getD "" ≠ "" := replaces.choose_spec.choose_spec.2.2.2.2.1
    refine (inward_iff some_dir).mp ?_
    refine contained _ _ (fun made path file => ?_) _ (writtenPaths_replaces replaces named)
    exact bne_iff_ne.mp (Except.ok.inj file)
  · intro leads host disk proper path written
    obtain ⟨copy, kept, rfl⟩ := List.mem_map.mp written
    obtain ⟨rest, whole, replaces, named⟩ :=
      triedCopies_replace proper (List.mem_filter.mp kept).1
    have some_dir : run.outDir.getD "" ≠ "" := replaces.choose_spec.choose_spec.2.2.2.2.1
    have inside := (inward_iff some_dir).mpr (leads copy.1 rest replaces named)
    rw [← whole] at inside
    unfold destination
    split
    · obtain ⟨-, -, clear, -⟩ := exists_basename copy.1
      refine inside.join ?_ clear named
      rw [whole]
      exact fun none => some_dir (String.append_eq_empty_iff.mp none).1
    · exact inside

end Contained

/-! ### A directory beside the run's -/

/-- The node's file lies in the directory of another run, whose name goes on where the run's
ends. -/
def Sample.neighbour : NodeJob where
  id := 0
  runId := "r"
  nodeId := "ask"
  nodeModule := "n"
  queue := .cpu
  status := .completed
  contextDelta := .obj [("file", .str "/data/run10/a.png")]
  createdAt := 0

def Sample.patched : NodeJob :=
  { Sample.neighbour with
    id := 1, nodeId := "ask-patch"
    contextDelta := .obj [("file", .str "/data/run1/patch/a.png")] }

theorem neighbour_overwritten : ¬ ∀ (run : RunRow) (job : NodeJob) (source : Option NodeJob)
    (host : Host) (disk : Disk), host.Proper → ∀ path ∈ writtenPaths disk host run job source,
      StrictlyInside (run.outDir.getD "") path := by
  intro contained
  have written : "/data/run10/a.png" ∈ writtenPaths ⟨fun _ => false, fun _ _ => true⟩
      { Sample.host with isFile := fun _ path => .ok (basename path != "..") }
      { Sample.run with outDir := some "/data/run1" } Sample.patched (some Sample.neighbour) := by
    decide +kernel
  obtain ⟨-, rest, -, -, below⟩ := contained _ _ _ _ _
    (fun made path file => bne_iff_ne.mp (Except.ok.inj file)) _ written
  have path : Paths.normal ".." true (pathSegments "/data/run10/a.png") =
      ["data", "run10", "a.png"] := by decide +kernel
  have root : Paths.normal ".." true (pathSegments "/data/run1") = ["data", "run1"] := by
    decide +kernel
  have absolute : isAbsolute (({ Sample.run with outDir := some "/data/run1" } :
      RunRow).outDir.getD "") = true := by decide +kernel
  rw [absolute, path] at below
  have same : ["data", "run10", "a.png"] = ["data", "run1"] ++ rest :=
    below.trans (congrArg (· ++ rest) root)
  exact absurd (List.cons.inj (List.cons.inj same).2).1 (by decide)

end QueueWorkflows
