import Dracon.Shared.Path

set_option autoImplicit false

namespace Shared

inductive Node (ν κ : Type) where
  | file (content : κ)
  | directory
  | other
  | link (target : Path ν)

-- A tree of files with symbolic links. A place in it is given by the names on the way from the root.
structure FileTree (ν κ : Type) where
  entry : List ν → Option (Node ν κ)
  root : entry [] = some .directory
  parent : ∀ place n node, entry (place ++ [n]) = some node → entry place = some .directory

variable {ν κ : Type}

-- The steps a path takes; a trailing separator asks for a directory, as `.` does.
def Path.steps (p : Path ν) : List (Component ν) :=
  p.components ++ if p.trailing then [.here] else []

def isDirectory : Option (Node ν κ) → Bool
  | some .directory => true
  | _ => false

theorem isDirectory_iff {found : Option (Node ν κ)} : isDirectory found ↔ found = some .directory := by
  unfold isDirectory
  split <;> simp_all

namespace FileTree

variable (tree : FileTree ν κ)

inductive Walks : List ν → List (Component ν) → List ν → Prop
  | done (place : List ν) : Walks place [] place
  | here {place rest target} : tree.entry place = some .directory →
      Walks place rest target → Walks place (.here :: rest) target
  | up {place rest target} : tree.entry place = some .directory →
      Walks place.dropLast rest target → Walks place (.up :: rest) target
  | link {place n path rest target} : tree.entry (place ++ [n]) = some (.link path) →
      Walks (if path.absolute then [] else place) (path.steps ++ rest) target →
      Walks place (.name n :: rest) target
  | enter {place n node rest target} : tree.entry (place ++ [n]) = some node →
      (∀ path, node ≠ .link path) → Walks (place ++ [n]) rest target → Walks place (.name n :: rest) target

def walkWith (jump : List ν → List (Component ν) → Option (List ν)) :
    List ν → List (Component ν) → Option (List ν)
  | place, [] => some place
  | place, .here :: rest => if isDirectory (tree.entry place) then walkWith jump place rest else none
  | place, .up :: rest => if isDirectory (tree.entry place) then walkWith jump place.dropLast rest else none
  | place, .name n :: rest =>
      match tree.entry (place ++ [n]) with
      | none => none
      | some (.link path) => jump (if path.absolute then [] else place) (path.steps ++ rest)
      | some _ => walkWith jump (place ++ [n]) rest

def walk : Nat → List ν → List (Component ν) → Option (List ν)
  | 0 => tree.walkWith fun _ _ => none
  | links + 1 => tree.walkWith (walk links)

variable {tree} {place target : List ν} {path : List (Component ν)}

theorem walkWith_sound {jump : List ν → List (Component ν) → Option (List ν)}
    (sound : ∀ place path target, jump place path = some target → tree.Walks place path target)
    (walked : tree.walkWith jump place path = some target) : tree.Walks place path target := by
  fun_induction walkWith tree jump place path with
  | case1 =>
    cases walked
    exact .done _
  | case2 place rest directory ih => exact .here (isDirectory_iff.mp directory) (ih walked)
  | case4 place rest directory ih => exact .up (isDirectory_iff.mp directory) (ih walked)
  | case7 place n rest path found => exact .link found (sound _ _ _ walked)
  | case8 place n rest node plain found ih => exact .enter found plain (ih walked)
  | _ => cases walked

theorem walk_sound {links : Nat} (walked : tree.walk links place path = some target) :
    tree.Walks place path target := by
  induction links generalizing place path target with
  | zero => exact walkWith_sound (fun _ _ _ never => by cases never) walked
  | succ links ih => exact walkWith_sound (fun _ _ _ walked => ih walked) walked

def Resolved (tree : FileTree ν κ) (place : List ν) : Prop :=
  ∃ node, tree.entry place = some node ∧ ∀ path, node ≠ .link path

theorem parent_directory {n : ν} (resolved : tree.Resolved (place ++ [n])) :
    tree.entry place = some .directory := by
  obtain ⟨node, found, -⟩ := resolved
  exact tree.parent _ _ _ found

theorem resolved_directory (directory : tree.entry place = some .directory) : tree.Resolved place :=
  ⟨_, directory, fun _ => by simp⟩

theorem dropLast_directory (directory : tree.entry place = some .directory) :
    tree.entry place.dropLast = some .directory := by
  cases place using List.reverseRecOn with
  | nil => exact tree.root
  | append_singleton place n => simpa using tree.parent _ _ _ directory

theorem Walks.resolved (walks : tree.Walks place path target) (resolved : tree.Resolved place) :
    tree.Resolved target := by
  induction walks with
  | done => exact resolved
  | here _ _ ih => exact ih resolved
  | up directory _ ih => exact ih (resolved_directory (dropLast_directory directory))
  | @link place n path rest target found _ ih =>
    apply ih
    split_ifs
    · exact resolved_directory tree.root
    · exact resolved
  | enter found plain _ ih => exact ih ⟨_, found, plain⟩

theorem Walks.directory (walks : tree.Walks place path target) {last : Component ν}
    (ends : path.getLast? = some last) (unnamed : last.isName = false) :
    tree.entry target = some .directory := by
  induction walks with
  | done => cases ends
  | @here place rest target directory walks ih =>
    cases rest with
    | nil =>
      cases walks
      exact directory
    | cons c cs => exact ih (by simpa using ends)
  | @up place rest target directory walks ih =>
    cases rest with
    | nil =>
      cases walks
      exact dropLast_directory directory
    | cons c cs => exact ih (by simpa using ends)
  | @link place n path rest target found walks ih =>
    cases rest with
    | nil =>
      cases ends
      cases unnamed
    | cons c cs => exact ih (by simpa [List.getLast?_append] using ends)
  | @enter place n node rest target found plain walks ih =>
    cases rest with
    | nil =>
      cases ends
      cases unnamed
    | cons c cs => exact ih (by simpa using ends)

theorem walk_names (links : Nat) (place names : List ν) (resolved : tree.Resolved (place ++ names)) :
    tree.walk links place (names.map .name) = some (place ++ names) := by
  have walked (jump : List ν → List (Component ν) → Option (List ν)) :
      tree.walkWith jump place (names.map .name) = some (place ++ names) := by
    induction names generalizing place with
    | nil => simp [walkWith]
    | cons n names ih =>
      have whole : place ++ n :: names = place ++ [n] ++ names := by simp
      rw [whole] at resolved ⊢
      rw [← ih _ resolved]
      obtain ⟨node, found, plain⟩ : tree.Resolved (place ++ [n]) := by
        clear ih whole
        induction names using List.reverseRecOn with
        | nil => simpa using resolved
        | append_singleton names last ih =>
          rw [← List.append_assoc] at resolved
          exact ih (resolved_directory (parent_directory resolved))
      simp only [List.map_cons, walkWith, found]
  cases links <;> exact walked _

theorem walk_ups {links : Nat} (n : Nat) :
    tree.walk links [] (List.replicate n .up ++ path) = tree.walk links [] path := by
  have root : isDirectory (tree.entry []) = true := isDirectory_iff.mpr tree.root
  have walked (jump : List ν → List (Component ν) → Option (List ν)) :
      tree.walkWith jump [] (List.replicate n .up ++ path) = tree.walkWith jump [] path := by
    induction n with
    | zero => rfl
    | succ n ih => simpa [List.replicate_succ, walkWith, root] using ih
  cases links <;> exact walked _

def single [DecidableEq ν] (place : List ν) (content : κ) (below : place ≠ []) : FileTree ν κ where
  entry other := if other = place then some (.file content) else if other <+: place then some .directory else none
  root := by simp [Ne.symm below]
  parent := by
    intro above n node found
    have inside : above ++ [n] <+: place := by
      split_ifs at found with same
      · exact same ▸ List.prefix_refl _
      · assumption
    have shorter : above ≠ place := by
      rintro rfl
      have longer := inside.length_le
      rw [List.length_append, List.length_singleton] at longer
      omega
    simp [shorter, (List.prefix_append above [n]).trans inside]

def lookup [DecidableEq ν] (entries : List (List ν × Node ν κ)) (place : List ν) : Option (Node ν κ) :=
  if place = [] then some .directory else (entries.find? fun entry => entry.1 = place).map Prod.snd

theorem lookup_mem [DecidableEq ν] {entries : List (List ν × Node ν κ)} {n : ν} {node : Node ν κ}
    (found : lookup entries (place ++ [n]) = some node) : ∃ entry ∈ entries, entry.1 = place ++ [n] := by
  simp only [lookup, List.append_eq_nil_iff, List.cons_ne_self, and_false, if_false] at found
  obtain ⟨entry, first, -⟩ := Option.map_eq_some_iff.mp found
  exact ⟨entry, List.mem_of_find?_eq_some first, by simpa using List.find?_some first⟩

def ofEntries [DecidableEq ν] (entries : List (List ν × Node ν κ))
    (closed : ∀ entry ∈ entries, isDirectory (lookup entries entry.1.dropLast)) :
    FileTree ν κ where
  entry := lookup entries
  root := rfl
  parent := by
    intro place n node found
    obtain ⟨entry, mem, placed⟩ := lookup_mem found
    have directory := isDirectory_iff.mp (closed entry mem)
    rwa [placed, List.dropLast_concat] at directory

end FileTree

end Shared
