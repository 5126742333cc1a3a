import Dracon.Shared.FileWrites
import Dracon.StaticContent.Filesystem

set_option autoImplicit false

namespace Dracon

open Shared

def joinPath (text name : Bytes) : Bytes :=
  if name.head? = some slash then name
  else if text = [] ∨ text.getLast? = some slash then text ++ name
  else text ++ slash :: name

namespace FileSystem

def put (fs : FileSystem) (place : List Bytes) (name : Bytes) (node : Node Bytes Bytes)
    (into : Shared.isDirectory (fs.entry place)) (leaf : ¬ Shared.isDirectory (fs.entry (place ++ [name])))
    (valid : IsFileName name) : FileSystem where
  toFileTree := fs.toFileTree.put place name node into leaf
  named := by
    intro above other child found
    simp only [FileTree.put] at found
    split_ifs at found with same
    · obtain ⟨-, last⟩ := List.append_inj' same rfl
      cases last
      exact valid
    · exact fs.named above other child found
  cwd := fs.cwd
  cwd_directory := by
    simp only [FileTree.put]
    rw [if_neg]
    · exact fs.cwd_directory
    · intro same
      exact leaf (same ▸ isDirectory_iff.mpr fs.cwd_directory)

def remove (fs : FileSystem) (place : List Bytes) (name : Bytes)
    (leaf : ¬ Shared.isDirectory (fs.entry (place ++ [name]))) : FileSystem where
  toFileTree := fs.toFileTree.remove place name leaf
  named := by
    intro above other child found
    simp only [FileTree.remove] at found
    split_ifs at found
    exact fs.named above other child found
  cwd := fs.cwd
  cwd_directory := by
    simp only [FileTree.remove]
    rw [if_neg]
    · exact fs.cwd_directory
    · intro same
      exact leaf (same ▸ isDirectory_iff.mpr fs.cwd_directory)

def start (fs : FileSystem) (p : FsPath) : List Bytes := if p.absolute then [] else fs.cwd

def lastName (fs : FileSystem) (p : FsPath) : Option (List Bytes × Bytes) :=
  match p.components.getLast? with
  | some (.name n) => (fs.walk maxLinks (fs.start p) p.components.dropLast).map (·, n)
  | _ => none

def stat (fs : FileSystem) (p : FsPath) : Option (Node Bytes Bytes) :=
  if p.components.any hasNul then none else fs.status p

def mkdir (fs : FileSystem) (p : FsPath) : Option FileSystem := do
  let (place, name) ← fs.lastName p
  if free : Shared.isDirectory (fs.entry place) ∧ (fs.entry (place ++ [name])).isNone ∧ IsFileName name then
    some (fs.put place name .directory free.1 (by simp [Option.isNone_iff_eq_none.mp free.2.1, Shared.isDirectory]) free.2.2)
  else none

def mkdirExistOk (fs : FileSystem) (p : FsPath) : FileSystem × Bool :=
  match fs.mkdir p with
  | some fs => (fs, true)
  | none => (fs, Shared.isDirectory (fs.stat p))

-- `os.makedirs` with `exist_ok`, on the components from the last one up. What was made stays when a later call fails.
def makedirs (absolute : Bool) : List (Component Bytes) → FileSystem → FileSystem × Bool
  | [], fs => (fs, absolute)
  | c :: above, fs =>
    let path : FsPath := { absolute, components := (c :: above).reverse }
    let head : FsPath := { absolute, components := above.reverse }
    let (fs, made) :=
      if (absolute || !above.isEmpty) && (fs.stat head).isNone then makedirs absolute above fs else (fs, true)
    if made then fs.mkdirExistOk path else (fs, false)

def isFile : Node Bytes Bytes → Bool
  | .file _ => true
  | _ => false

-- `open(path, "w")` and a `write`; it follows a link. Only what is a file, or nothing yet, is written to.
def write (fs : FileSystem) (p : FsPath) (content : Bytes) : Option FileSystem := do
  let target ← fs.create maxLinks (fs.start p) p.steps
  let name ← target.getLast?
  if free : Shared.isDirectory (fs.entry target.dropLast) ∧
      (fs.entry (target.dropLast ++ [name])).all isFile ∧ IsFileName name then
    some (fs.put target.dropLast name (.file content) free.1
      (by
        have regular := free.2.1
        revert regular
        cases fs.entry (target.dropLast ++ [name]) with
        | none => simp [Shared.isDirectory]
        | some node => cases node <;> simp [isFile, Shared.isDirectory]) free.2.2)
  else none

-- `os.remove`; it does not follow a link.
def unlink (fs : FileSystem) (p : FsPath) : Option FileSystem := do
  let (place, name) ← fs.lastName p
  if leaf : p.trailing = false ∧ (fs.entry (place ++ [name])).isSome ∧ ¬ Shared.isDirectory (fs.entry (place ++ [name])) then
    some (fs.remove place name leaf.2.2)
  else none

end FileSystem

theorem pathNames_join {text name : Bytes} (valid : IsPathName name) :
    pathNames (joinPath text name) = pathNames text ++ [name] := by
  have single : pathNames name = [name] := by
    rw [pathNames, List.splitOn_eq_singleton valid.slash]
    simp [valid.nonempty]
  have split (before : Bytes) : pathNames (before ++ slash :: name) = pathNames before ++ [name] := by
    rw [← single]
    simp only [pathNames, List.splitOn_append_cons_self, List.filter_append]
  have relative : name.head? ≠ some slash := fun same => valid.slash (List.mem_of_head? same)
  unfold joinPath
  rw [if_neg relative]
  split_ifs with ends
  · rcases ends with rfl | ends
    · simpa [pathNames] using single
    · obtain ⟨before, rfl⟩ := List.getLast?_eq_some_iff.mp ends
      have open' : pathNames (before ++ [slash]) = pathNames before := by
        simp [pathNames, List.splitOn_append_cons_self]
      rw [open', ← split before, List.append_assoc, List.singleton_append]
  · exact split text

theorem pathOf_join {text name : Bytes} (valid : IsPathName name) :
    pathOf (joinPath text name) =
      ⟨(pathOf text).absolute, (pathOf text).components ++ [.name name], false, by simp⟩ := by
  have relative : name.head? ≠ some slash := fun same => valid.slash (List.mem_of_head? same)
  obtain ⟨c, rest, cons⟩ := List.exists_cons_of_ne_nil valid.nonempty
  have last : (joinPath text name).getLast? = name.getLast? := by
    unfold joinPath
    rw [if_neg relative]
    split_ifs <;> simp [cons, List.getLast?_append, List.getLast?_cons]
  have head : (joinPath text name).head? = some slash ↔ text.head? = some slash := by
    unfold joinPath
    rw [if_neg relative]
    cases text with
    | nil => simpa using relative
    | cons d text => split_ifs <;> simp
  have named : component name = .name name := by simp [component, valid.here, valid.up]
  have closed : name.getLast? ≠ some slash := fun same => valid.slash (List.mem_of_getLast? same)
  simp [pathOf, pathNames_join valid, named, head, last, closed]

namespace FileSystem

variable {fs : FileSystem} {place root names : List Bytes} {name : Bytes}

theorem realPath_concat : realPath (place ++ [name]) = ⟨true, place.map .name ++ [.name name], false, by simp⟩ := by
  simp [realPath]

theorem pathOf_join_real {text : Bytes} (valid : IsPathName name) (real : pathOf text = realPath place) :
    pathOf (joinPath text name) = realPath (place ++ [name]) := by
  rw [pathOf_join valid, real, realPath_concat]
  rfl

theorem resolve_real : fs.resolve (realPath place) = fs.walk maxLinks [] (place.map .name) := by
  simp [resolve, realPath, Path.steps]

theorem status_real (named : ∀ name ∈ place, IsFileName name) :
    fs.status (realPath place) = (fs.walk maxLinks [] (place.map .name)).bind fs.entry := by
  rw [status, realPath_clean named, resolve_real]

theorem stat_real (named : ∀ name ∈ place, IsFileName name) :
    fs.stat (realPath place) = (fs.walk maxLinks [] (place.map .name)).bind fs.entry := by
  have clean : (realPath place).components.any hasNul = false := by
    simpa [realPath, hasNul] using fun name mem => (named name mem).nul
  rw [stat, clean, if_neg (by simp), status_real named]

theorem stat_resolved (resolved : fs.Resolved place) : fs.stat (realPath place) = fs.entry place := by
  rw [stat_real (resolved_named resolved), FileTree.walk_names maxLinks [] place resolved]
  simp

theorem lastName_real (directory : fs.entry place = some .directory) :
    fs.lastName (realPath (place ++ [name])) = some (place, name) := by
  have walked := FileTree.walk_names maxLinks [] place (FileTree.resolved_directory directory)
  rw [List.nil_append] at walked
  simp [lastName, realPath_concat, start, walked]

theorem mkdir_real (directory : fs.entry place = some .directory) (valid : IsFileName name)
    (free : fs.entry (place ++ [name]) = none) :
    ∃ fs', fs.mkdir (realPath (place ++ [name])) = some fs' ∧
      ∀ other, fs'.entry other = if other = place ++ [name] then some .directory else fs.entry other := by
  have into : Shared.isDirectory (fs.entry place) := isDirectory_iff.mpr directory
  simp only [mkdir, lastName_real directory, Option.bind_eq_bind, Option.bind_some, free, into, valid, Option.isNone_none,
    and_self, dite_true]
  exact ⟨_, rfl, fun other => rfl⟩

theorem mkdir_taken (directory : fs.entry place = some .directory) (taken : fs.entry (place ++ [name]) ≠ none) :
    fs.mkdir (realPath (place ++ [name])) = none := by
  simp [mkdir, lastName_real directory, Option.isNone_iff_eq_none, taken]

theorem write_real {content : Bytes} (directory : fs.entry place = some .directory) (valid : IsFileName name)
    (free : ∀ node, fs.entry (place ++ [name]) = some node → ∃ old, node = .file old) :
    ∃ fs', fs.write (realPath (place ++ [name])) content = some fs' ∧
      ∀ other, fs'.entry other = if other = place ++ [name] then some (.file content) else fs.entry other := by
  have into : Shared.isDirectory (fs.entry place) := isDirectory_iff.mpr directory
  have plain (path : FsPath) : fs.entry ([] ++ place ++ [name]) ≠ some (.link path) := by
    intro link
    obtain ⟨old, same⟩ := free _ link
    cases same
  have target : fs.create maxLinks (fs.start (realPath (place ++ [name]))) (realPath (place ++ [name])).steps =
      some (place ++ [name]) := by
    simpa [start, realPath, Path.steps] using FileTree.create_names maxLinks [] place name directory plain
  have regular : (fs.entry (place ++ [name])).all isFile := by
    cases found : fs.entry (place ++ [name]) with
    | none => rfl
    | some node =>
      obtain ⟨old, rfl⟩ := free node found
      rfl
  simp only [write, target, Option.bind_eq_bind, Option.bind_some, List.getLast?_concat, List.dropLast_concat, into, valid,
    regular, and_self, dite_true]
  exact ⟨_, rfl, fun other => rfl⟩

theorem unlink_real {content : Bytes} (found : fs.entry (place ++ [name]) = some (.file content)) :
    ∃ fs', fs.unlink (realPath (place ++ [name])) = some fs' ∧
      ∀ other, fs'.entry other = if other = place ++ [name] then none else fs.entry other := by
  have directory := fs.parent _ _ _ found
  have leaf : (realPath (place ++ [name])).trailing = false ∧ (fs.entry (place ++ [name])).isSome ∧
      ¬ Shared.isDirectory (fs.entry (place ++ [name])) := by
    simp [realPath, found, Shared.isDirectory]
  simp only [unlink, lastName_real directory, Option.bind_eq_bind, Option.bind_some]
  rw [dif_pos leaf]
  exact ⟨_, rfl, fun other => rfl⟩

theorem mkdirExistOk_real (directory : fs.entry place = some .directory) (valid : IsFileName name)
    (free : fs.entry (place ++ [name]) = none ∨ fs.entry (place ++ [name]) = some .directory) :
    ∃ fs', fs.mkdirExistOk (realPath (place ++ [name])) = (fs', true) ∧
      ∀ other, fs'.entry other = if other = place ++ [name] then some .directory else fs.entry other := by
  rcases free with free | there
  · obtain ⟨fs', made, entries⟩ := mkdir_real directory valid free
    exact ⟨fs', by simp [mkdirExistOk, made], entries⟩
  · have kept := stat_resolved (FileTree.resolved_directory there)
    have taken : fs.mkdir (realPath (place ++ [name])) = none := mkdir_taken directory (by simp [there])
    refine ⟨fs, ?_, fun other => ?_⟩
    · simp [mkdirExistOk, taken, kept, there, Shared.isDirectory]
    · split_ifs with same
      · rw [same, there]
      · rfl

theorem makedirs_concat (fs : FileSystem) (place : List Bytes) (name : Bytes) {fs' : FileSystem}
    (above : (if (fs.stat (realPath place)).isNone then makedirs true (realPath place).components.reverse fs else (fs, true)) =
      (fs', true)) :
    makedirs true (realPath (place ++ [name])).components.reverse fs = fs'.mkdirExistOk (realPath (place ++ [name])) := by
  have components : (realPath (place ++ [name])).components.reverse = .name name :: (realPath place).components.reverse := by
    simp [realPath]
  simp only [components, makedirs, List.reverse_cons, List.reverse_reverse, Bool.true_or, Bool.true_and]
  have head : ({ absolute := true, components := (realPath place).components } : FsPath) = realPath place := rfl
  have path : ({ absolute := true, components := (realPath place).components ++ [.name name] } : FsPath) =
      realPath (place ++ [name]) := by simp [realPath]
  rw [head, above, path]
  simp

structure Free (fs : FileSystem) (root names : List Bytes) : Prop where
  directory : fs.entry root = some .directory
  valid : ∀ name ∈ names, IsFileName name
  free : ∀ above, above <+: names → fs.entry (root ++ above) = none ∨ fs.entry (root ++ above) = some .directory

namespace Free

theorem above (free : fs.Free root (names ++ [name])) : fs.Free root names where
  directory := free.directory
  valid := fun name mem => free.valid name (List.mem_append_left _ mem)
  free := fun above within => free.free above (within.trans (List.prefix_append _ _))

theorem named (free : fs.Free root names) : ∀ name ∈ root ++ names, IsFileName name := by
  intro name mem
  rcases List.mem_append.mp mem with inside | below
  · exact resolved_named (FileTree.resolved_directory free.directory) name inside
  · exact free.valid name below

theorem plain (free : fs.Free root names) {above : List Bytes} (within : above <+: root ++ names) (path : FsPath) :
    fs.entry above ≠ some (.link path) := by
  rcases List.prefix_or_prefix_of_prefix within (List.prefix_append root names) with inside | ⟨below, rfl⟩
  · obtain ⟨rest, rfl⟩ := inside
    simp [FileTree.directory_above free.directory]
  · rcases free.free below ((List.prefix_append_right_inj root).mp within) with missing | directory
    · simp [missing]
    · simp [directory]

theorem stat_eq (free : fs.Free root names) : fs.stat (realPath (root ++ names)) = fs.entry (root ++ names) := by
  rw [stat_real free.named]
  simpa using FileTree.walk_plain maxLinks [] (root ++ names) fun above within => by simpa using free.plain within

end Free

def HasMade (fs fs' : FileSystem) (root names : List Bytes) : Prop :=
  ∀ other, fs'.entry other = if root <+: other ∧ other <+: root ++ names then some .directory else fs.entry other

theorem HasMade.concat {fs' fs'' : FileSystem} (made : HasMade fs fs' root names)
    (more : ∀ other, fs''.entry other = if other = root ++ names ++ [name] then some .directory else fs'.entry other) :
    HasMade fs fs'' root (names ++ [name]) := by
  intro other
  rw [more, made other, ← List.append_assoc]
  simp only [List.prefix_concat_iff]
  by_cases last : other = root ++ names ++ [name]
  · simp [last]
  · simp only [last, false_or, if_false]

theorem HasMade.of_directory (directory : fs.entry (root ++ names) = some .directory) : HasMade fs fs root names := by
  intro other
  split_ifs with within
  · obtain ⟨rest, whole⟩ := within.2
    rw [← whole] at directory
    exact FileTree.directory_above directory
  · rfl

theorem makedirs_step {fs' : FileSystem} (free : fs.Free root (names ++ [name]))
    (above : (if (fs.stat (realPath (root ++ names))).isNone then makedirs true (realPath (root ++ names)).components.reverse fs
      else (fs, true)) = (fs', true))
    (made : HasMade fs fs' root names) :
    ∃ fs'', makedirs true (realPath (root ++ (names ++ [name]))).components.reverse fs = (fs'', true) ∧
      HasMade fs fs'' root (names ++ [name]) := by
  have directory : fs'.entry (root ++ names) = some .directory := by simp [made (root ++ names)]
  have kept : fs'.entry (root ++ names ++ [name]) = fs.entry (root ++ (names ++ [name])) := by
    rw [made, if_neg, List.append_assoc]
    rintro ⟨-, within⟩
    simpa using within.length_le
  obtain ⟨fs'', last, more⟩ := mkdirExistOk_real directory (free.valid name (by simp))
    (kept ▸ free.free _ (List.prefix_refl _))
  refine ⟨fs'', ?_, made.concat more⟩
  rw [← List.append_assoc, makedirs_concat fs _ name above, last]

theorem makedirs_above (free : fs.Free root names) :
    ∃ fs', (if (fs.stat (realPath (root ++ names))).isNone then makedirs true (realPath (root ++ names)).components.reverse fs
        else (fs, true)) = (fs', true) ∧ HasMade fs fs' root names := by
  induction names using List.reverseRecOn with
  | nil =>
    rw [free.stat_eq, List.append_nil, free.directory]
    exact ⟨fs, rfl, .of_directory (by simpa using free.directory)⟩
  | append_singleton names name ih =>
    rw [free.stat_eq]
    rcases free.free _ (List.prefix_refl _) with missing | directory
    · obtain ⟨fs', above, made⟩ := ih free.above
      rw [missing]
      exact makedirs_step free above made
    · rw [directory]
      exact ⟨fs, rfl, .of_directory directory⟩

theorem makedirs_real (free : fs.Free root (names ++ [name])) :
    ∃ fs', makedirs true (realPath (root ++ (names ++ [name]))).components.reverse fs = (fs', true) ∧
      HasMade fs fs' root (names ++ [name]) := by
  obtain ⟨fs', above, made⟩ := makedirs_above free.above
  exact makedirs_step free above made

end FileSystem

end Dracon
