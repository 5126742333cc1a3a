import Dracon.Http.Message
import Dracon.Shared.FileTree

set_option autoImplicit false

namespace Dracon

open Shared

abbrev slash : Byte := ch '/'

abbrev FsPath := Path Bytes

def component (text : Bytes) : Component Bytes :=
  if text = bytes "." then .here else if text = bytes ".." then .up else .name text

-- What stands between the separators; several separators in a row count as one.
def pathNames (text : Bytes) : List Bytes := (text.splitOn slash).filter (· ≠ [])

def pathOf (text : Bytes) : FsPath where
  absolute := text.head? = some slash
  components := (pathNames text).map component
  trailing := text.getLast? = some slash && !(pathNames text).isEmpty
  follows := by simp

example : (pathOf (bytes "/a/./b/../c/")).lexicallyNormal = pathOf (bytes "/a/c/") := by decide

example : (pathOf (bytes "../a/b/..")).lexicallyNormal = pathOf (bytes "../a/") := by decide

example : (pathOf (bytes "a/..")).lexicallyNormal = pathOf (bytes ".") := by decide

structure IsPathName (name : Bytes) : Prop where
  nonempty : name ≠ []
  slash : slash ∉ name
  here : name ≠ bytes "."
  up : name ≠ bytes ".."

structure IsFileName (name : Bytes) : Prop extends IsPathName name where
  nul : 0 ∉ name

instance (name : Bytes) : Decidable (IsFileName name) :=
  decidable_of_iff (name ≠ [] ∧ slash ∉ name ∧ name ≠ bytes "." ∧ name ≠ bytes ".." ∧ 0 ∉ name)
    ⟨fun ⟨nonempty, slash, here, up, nul⟩ => ⟨⟨nonempty, slash, here, up⟩, nul⟩,
      fun ⟨⟨nonempty, slash, here, up⟩, nul⟩ => ⟨nonempty, slash, here, up, nul⟩⟩

theorem component_name {text name : Bytes} (named : component text = .name name) :
    text = name ∧ name ≠ bytes "." ∧ name ≠ bytes ".." := by
  unfold component at named
  split_ifs at named with here up
  cases named
  exact ⟨rfl, here, up⟩

theorem splitOn_avoids {α : Type} [BEq α] [LawfulBEq α] (sep : α) (text : List α) :
    ∀ piece ∈ text.splitOn sep, sep ∉ piece := by
  have avoids (acc : List α) (clean : sep ∉ acc) :
      ∀ piece ∈ text.splitOnPPrepend (· == sep) acc, sep ∉ piece := by
    induction text generalizing acc with
    | nil => simpa using clean
    | cons c text ih =>
      intro piece mem
      rw [List.splitOnPPrepend_cons_eq_if] at mem
      split_ifs at mem with same
      · rcases List.mem_cons.mp mem with rfl | mem
        · simpa using clean
        · exact ih [] (by simp) piece mem
      · refine ih (c :: acc) ?_ piece mem
        simp only [List.mem_cons, not_or]
        exact ⟨fun equal => same (by simp [equal]), clean⟩
  exact avoids [] (by simp)

theorem pathOf_name {name : Bytes} (valid : IsPathName name) :
    pathOf name = ⟨false, [.name name], false, by simp⟩ := by
  have pieces : pathNames name = [name] := by
    rw [pathNames, List.splitOn_eq_singleton valid.slash]
    simp [valid.nonempty]
  have head : name.head? ≠ some slash := fun same => valid.slash (List.mem_of_head? same)
  have last : name.getLast? ≠ some slash := fun same => valid.slash (List.mem_of_getLast? same)
  simp [pathOf, pieces, component, valid.here, valid.up, head, last]

theorem pathOf_names {text name : Bytes} (mem : .name name ∈ (pathOf text).components) : IsPathName name := by
  obtain ⟨piece, found, named⟩ := List.mem_map.mp mem
  obtain ⟨rfl, here, up⟩ := component_name named
  obtain ⟨split, nonempty⟩ := List.mem_filter.mp found
  exact ⟨by simpa using nonempty, splitOn_avoids _ _ _ split, here, up⟩

def hasNul : Component Bytes → Bool
  | .name name => name.contains 0
  | _ => false

-- The path the operating system gets to see: `c_str()` ends at the first NUL.
def cStr (p : FsPath) : FsPath :=
  match p.components.find? hasNul with
  | some (.name name) =>
      let before := p.components.takeWhile fun c => !hasNul c
      match name.takeWhile (· ≠ 0) with
      | [] => { absolute := p.absolute, components := before, trailing := !before.isEmpty }
      | c :: text => { absolute := p.absolute, components := before ++ [component (c :: text)] }
  | _ => p

theorem cStr_isAbsolute (p : FsPath) : (cStr p).absolute = p.absolute := by
  unfold cStr
  split
  · dsimp only
    split <;> rfl
  · rfl

theorem cStr_of_clean {p : FsPath} (clean : ∀ c ∈ p.components, ¬ hasNul c) : cStr p = p := by
  have none : p.components.find? hasNul = none := by simpa using clean
  simp [cStr, none]

section CString

variable {p r : FsPath} {rest : List (Component Bytes)}

theorem cStr_append (absolute : p.absolute = r.absolute) (components : p.components = r.components ++ rest)
    {c : Component Bytes} (mem : c ∈ r.components) (nul : hasNul c) : cStr p = cStr r := by
  obtain ⟨first, found⟩ : ∃ first, r.components.find? hasNul = some first :=
    Option.isSome_iff_exists.mp (List.find?_isSome.mpr ⟨c, mem, nul⟩)
  have whole : p.components.find? hasNul = some first := by
    rw [components, List.find?_append, found]
    rfl
  have before : p.components.takeWhile (fun c => !hasNul c) = r.components.takeWhile fun c => !hasNul c := by
    rw [components, List.takeWhile_append, if_neg]
    intro same
    have all := List.takeWhile_eq_self_iff.mp ((List.takeWhile_prefix _).eq_of_length same)
    simpa [nul] using all c mem
  have isNul := List.find?_some found
  cases first with
  | here => cases isNul
  | up => cases isNul
  | name name => simp only [cStr, whole, found, before, absolute]

theorem cStr_prefix (components : p.components = r.components ++ rest)
    (clean : ∀ c ∈ r.components, ¬ hasNul c) : r.components <+: (cStr p).components := by
  have before : p.components.takeWhile (fun c => !hasNul c) =
      r.components ++ rest.takeWhile fun c => !hasNul c := by
    rw [components, List.takeWhile_append_of_pos]
    simpa using clean
  unfold cStr
  split
  · dsimp only
    split
    · dsimp only
      exact before ▸ List.prefix_append ..
    · dsimp only
      rw [before, List.append_assoc]
      exact List.prefix_append ..
  · exact components ▸ List.prefix_append ..

theorem cStr_normal (normal : Path.IsNormal p.absolute p.components) (ends : (cStr p).EndsInName) :
    Path.IsNormal p.absolute (cStr p).components := by
  have before := normal.sublist (List.takeWhile_sublist fun c => !hasNul c)
  revert ends
  unfold cStr
  split
  · dsimp only
    split
    · exact fun _ => before
    · rintro ⟨-, n, last⟩
      rw [List.getLast?_concat] at last
      dsimp only
      rw [Option.some.inj last]
      exact before.append_names [n]
  · exact fun _ => normal

theorem cStr_endsInName (absolute : p.absolute = r.absolute) (within : r.components <+: p.components)
    (ends : r.EndsInName) (seen : (cStr p).EndsInName) :
    (cStr r).EndsInName ∧ (cStr r).components <+: (cStr p).components := by
  obtain ⟨rest, components⟩ := within
  by_cases clean : ∀ c ∈ r.components, ¬ hasNul c
  · rw [cStr_of_clean clean]
    exact ⟨ends, cStr_prefix components.symm clean⟩
  · push Not at clean
    obtain ⟨c, mem, nul⟩ := clean
    rw [← cStr_append absolute components.symm mem nul]
    exact ⟨seen, List.prefix_refl _⟩

def Named (p : FsPath) : Prop := ∀ name, .name name ∈ p.components → IsPathName name

theorem Named.div (left : Named p) (right : Named r) : Named (p / r) := by
  cases absolute : r.absolute with
  | true => rwa [Path.div_absolute absolute]
  | false =>
    intro name mem
    rw [Path.div_components absolute] at mem
    rcases List.mem_append.mp mem with before | after
    · exact left name before
    · exact right name after

theorem Named.cStr (named : Named p) {name : Bytes} (mem : .name name ∈ (cStr p).components) : IsFileName name := by
  have clean {name : Bytes} (mem : .name name ∈ p.components.takeWhile fun c => !hasNul c) : IsFileName name :=
    ⟨named name ((List.takeWhile_sublist _).subset mem), by simpa [hasNul] using List.mem_takeWhile_imp mem⟩
  revert mem
  unfold Dracon.cStr
  split
  · rename_i long found
    dsimp only
    split
    · exact clean
    · rename_i c text cut
      intro mem
      rcases List.mem_append.mp mem with before | last
      · exact clean before
      · obtain ⟨rfl, here, up⟩ := component_name (List.mem_singleton.mp last).symm
        have whole := named long (List.mem_of_find?_eq_some found)
        refine ⟨⟨by simp, fun slashed => ?_, here, up⟩, fun nul => ?_⟩
        · exact whole.slash ((List.takeWhile_sublist _).subset (cut ▸ slashed))
        · rw [← cut] at nul
          simpa using List.mem_takeWhile_imp nul
  · rename_i others
    intro mem
    refine ⟨named name mem, fun nul => ?_⟩
    obtain ⟨first, found⟩ : ∃ first, p.components.find? hasNul = some first :=
      Option.isSome_iff_exists.mp (List.find?_isSome.mpr ⟨_, mem, by simpa [hasNul] using nul⟩)
    have isNul := List.find?_some found
    cases first with
    | here => cases isNul
    | up => cases isNul
    | name name => exact others name found

end CString

structure FileSystem extends FileTree Bytes Bytes where
  named : ∀ place name node, entry (place ++ [name]) = some node → IsFileName name
  cwd : List Bytes
  cwd_directory : entry cwd = some .directory

theorem pathOf_named (text : Bytes) : Named (pathOf text) := fun _ mem => pathOf_names mem

namespace FileSystem

variable {fs : FileSystem} {p q : FsPath}

def maxLinks : Nat := 40

def resolve (fs : FileSystem) (p : FsPath) : Option (List Bytes) :=
  if p.absolute = false ∧ p.components = [] then none
  else fs.walk maxLinks (if p.absolute then [] else fs.cwd) p.steps

def status (fs : FileSystem) (p : FsPath) : Option (Node Bytes Bytes) :=
  (fs.resolve (cStr p)).bind fs.entry

def isDirectory (fs : FileSystem) (p : FsPath) : Bool := Shared.isDirectory (fs.status p)

def realPath (place : List Bytes) : FsPath where
  absolute := true
  components := place.map .name

def canonical (fs : FileSystem) (p : FsPath) : Option FsPath :=
  if p.absolute = false ∧ p.components = [] then none
  else (fs.resolve (cStr (realPath fs.cwd / p))).map realPath

theorem resolve_resolved {place : List Bytes} (resolved : fs.resolve p = some place) : fs.Resolved place := by
  unfold resolve at resolved
  split_ifs at resolved
  · exact (FileTree.walk_sound resolved).resolved (FileTree.resolved_directory fs.root)
  · exact (FileTree.walk_sound resolved).resolved (FileTree.resolved_directory fs.cwd_directory)

theorem resolved_named {place : List Bytes} (resolved : fs.Resolved place) : ∀ name ∈ place, IsFileName name := by
  induction place using List.reverseRecOn with
  | nil => simp
  | append_singleton place last ih =>
    intro name mem
    rcases List.mem_append.mp mem with before | equal
    · exact ih (FileTree.resolved_directory (FileTree.parent_directory resolved)) name before
    · obtain rfl := List.mem_singleton.mp equal
      obtain ⟨node, found, -⟩ := resolved
      exact fs.named _ _ _ found

theorem realPath_clean {place : List Bytes} (named : ∀ name ∈ place, IsFileName name) :
    cStr (realPath place) = realPath place := by
  apply cStr_of_clean
  intro c mem
  obtain ⟨name, found, rfl⟩ := List.mem_map.mp mem
  simpa [hasNul] using (named name found).nul

theorem canonical_real (found : fs.canonical p = some q) : ∃ place, fs.Resolved place ∧ q = realPath place := by
  unfold canonical at found
  split_ifs at found
  obtain ⟨place, resolved, rfl⟩ := Option.map_eq_some_iff.mp found
  exact ⟨place, resolve_resolved resolved, rfl⟩

theorem canonical_canonical (found : fs.canonical p = some q) : fs.canonical q = some q := by
  obtain ⟨place, real, rfl⟩ := canonical_real found
  have again : fs.resolve (realPath place) = some place := by
    have walked := FileTree.walk_names maxLinks [] place real
    simpa [resolve, realPath, Path.steps] using walked
  have absolute : realPath fs.cwd / realPath place = realPath place := Path.div_absolute rfl
  simp [canonical, absolute, realPath_clean (resolved_named real), again]
  simp [realPath]

theorem status_file {content : Bytes} (found : fs.status p = some (.file content)) : (cStr p).EndsInName := by
  obtain ⟨place, resolved, entry⟩ := Option.bind_eq_some_iff.mp found
  obtain ⟨start, walks, base⟩ : ∃ start, fs.Walks start (cStr p).steps place ∧
      ((cStr p).components = [] → fs.entry start = some .directory) := by
    unfold resolve at resolved
    split_ifs at resolved with empty absolute
    · exact ⟨[], FileTree.walk_sound resolved, fun _ => fs.root⟩
    · exact ⟨fs.cwd, FileTree.walk_sound resolved, fun _ => fs.cwd_directory⟩
  have notDirectory : fs.entry place ≠ some .directory := by simp [entry]
  cases last : (cStr p).steps.getLast? with
  | none =>
    rw [List.getLast?_eq_none_iff] at last
    have empty : (cStr p).components = [] := (List.append_eq_nil_iff.mp last).1
    rw [last] at walks
    cases walks
    exact absurd (base empty) notDirectory
  | some c =>
    cases c with
    | here => exact absurd (walks.directory last rfl) notDirectory
    | up => exact absurd (walks.directory last rfl) notDirectory
    | name n =>
      unfold Path.steps at last
      split_ifs at last with trailing
      · simp at last
      · exact ⟨by simpa using trailing, n, by simpa using last⟩

def ofEntries (entries : List (List Bytes × Node Bytes Bytes))
    (closed : ∀ entry ∈ entries, Shared.isDirectory (FileTree.lookup entries entry.1.dropLast))
    (named : ∀ entry ∈ entries, ∀ name ∈ entry.1, IsFileName name) : FileSystem where
  toFileTree := .ofEntries entries closed
  named := by
    intro place name node found
    obtain ⟨entry, mem, placed⟩ := FileTree.lookup_mem found
    exact named entry mem name (by simp [placed])
  cwd := []
  cwd_directory := rfl

def single (place : List Bytes) (content : Bytes) (below : place ≠ []) (named : ∀ name ∈ place, IsFileName name) :
    FileSystem where
  toFileTree := .single place content below
  named := by
    intro above name node found
    have inside : above ++ [name] <+: place := by
      simp only [FileTree.single] at found
      split_ifs at found with same
      · exact same ▸ List.prefix_refl _
      · assumption
    exact named name (inside.subset (by simp))
  cwd := []
  cwd_directory := FileTree.root _

theorem exists_file (named : Named p) (normal : Path.IsNormal p.absolute (cStr p).components)
    (ends : (cStr p).EndsInName) : ∃ fs : FileSystem, ∃ content, fs.status p = some (.file content) := by
  obtain ⟨ups, names, components⟩ := normal.exists_names
  have below : names ≠ [] := by
    rintro rfl
    obtain ⟨-, n, last⟩ := ends
    rw [components, List.map_nil, List.append_nil, List.getLast?_replicate] at last
    split_ifs at last
    cases last
  have valid : ∀ name ∈ names, IsFileName name := fun name mem => named.cStr (by simp [components, mem])
  let fs := single names [] below valid
  have found : fs.entry names = some (.file []) := by simp [fs, single, FileTree.single]
  have walked : fs.walk maxLinks [] (cStr p).steps = some names := by
    rw [Path.steps, ends.1, components]
    simpa [FileTree.walk_ups] using
      FileTree.walk_names maxLinks [] names ⟨_, found, fun _ => by simp⟩
  refine ⟨fs, [], ?_⟩
  have start : (if (cStr p).absolute then [] else fs.cwd) = [] := by split_ifs <;> rfl
  simp [status, resolve, ends.ne_nil, start, walked, found]

end FileSystem

end Dracon
