import Dracon.Shared.FileTree

set_option autoImplicit false

namespace Shared.FileTree

variable {ν κ : Type}

theorem concat_ne_self (place : List ν) (n : ν) : place ≠ place ++ [n] := by
  intro same
  simpa using congrArg List.length same

section Changes

variable [DecidableEq ν] (tree : FileTree ν κ) (place : List ν) (n : ν)

def put (node : Node ν κ) (into : isDirectory (tree.entry place)) (leaf : ¬ isDirectory (tree.entry (place ++ [n]))) :
    FileTree ν κ where
  entry other := if other = place ++ [n] then some node else tree.entry other
  root := by simp [tree.root]
  parent := by
    intro above m child found
    split_ifs at found with same
    · obtain ⟨rfl, -⟩ := List.append_inj' same rfl
      rw [if_neg (concat_ne_self above n)]
      exact isDirectory_iff.mp into
    · have directory := tree.parent above m child found
      rw [if_neg]
      · exact directory
      · rintro rfl
        exact leaf (isDirectory_iff.mpr directory)

def remove (leaf : ¬ isDirectory (tree.entry (place ++ [n]))) : FileTree ν κ where
  entry other := if other = place ++ [n] then none else tree.entry other
  root := by simp [tree.root]
  parent := by
    intro above m child found
    split_ifs at found
    have directory := tree.parent above m child found
    rw [if_neg]
    · exact directory
    · rintro rfl
      exact leaf (isDirectory_iff.mpr directory)

end Changes

variable (tree : FileTree ν κ)

def createWith (jump : List ν → List (Component ν) → Option (List ν)) : List ν → List (Component ν) → Option (List ν)
  | place, [] => some place
  | place, .here :: rest => if isDirectory (tree.entry place) then createWith jump place rest else none
  | place, .up :: rest => if isDirectory (tree.entry place) then createWith jump place.dropLast rest else none
  | place, .name n :: rest =>
      match tree.entry (place ++ [n]) with
      | none => if rest.isEmpty ∧ isDirectory (tree.entry place) then some (place ++ [n]) else none
      | some (.link path) => jump (if path.absolute then [] else place) (path.steps ++ rest)
      | some _ => createWith jump (place ++ [n]) rest

def create : Nat → List ν → List (Component ν) → Option (List ν)
  | 0 => tree.createWith fun _ _ => none
  | links + 1 => tree.createWith (create links)

variable {tree}

theorem directory_above {place names : List ν} (directory : tree.entry (place ++ names) = some .directory) :
    tree.entry place = some .directory := by
  induction names using List.reverseRecOn with
  | nil => simpa using directory
  | append_singleton names last ih =>
    rw [← List.append_assoc] at directory
    exact ih (tree.parent _ _ _ directory)

theorem missing_below {place : List ν} (names : List ν) (missing : tree.entry place = none) :
    tree.entry (place ++ names) = none := by
  cases names with
  | nil => simpa using missing
  | cons n names =>
    induction names using List.reverseRecOn with
    | nil =>
      cases found : tree.entry (place ++ [n]) with
      | none => rfl
      | some node => simp [tree.parent _ _ _ found] at missing
    | append_singleton names last ih =>
      have whole : place ++ n :: (names ++ [last]) = place ++ n :: names ++ [last] := by simp
      cases found : tree.entry (place ++ n :: (names ++ [last])) with
      | none => rfl
      | some node =>
        rw [whole] at found
        simp [tree.parent _ _ _ found] at ih

theorem walk_plain (links : Nat) (place names : List ν)
    (plain : ∀ above, above <+: names → ∀ path, tree.entry (place ++ above) ≠ some (.link path)) :
    (tree.walk links place (names.map .name)).bind tree.entry = tree.entry (place ++ names) := by
  have walked (jump : List ν → List (Component ν) → Option (List ν)) :
      (tree.walkWith jump place (names.map .name)).bind tree.entry = tree.entry (place ++ names) := by
    induction names generalizing place with
    | nil => simp [walkWith]
    | cons n names ih =>
      have whole : place ++ n :: names = place ++ [n] ++ names := by simp
      have rest := ih (place ++ [n]) fun above within => by
        simpa using plain (n :: above) (List.cons_prefix_cons.mpr ⟨rfl, within⟩)
      rw [List.map_cons, walkWith, whole]
      split
      · rw [missing_below names ‹_›]
        rfl
      · exact absurd ‹_› (plain [n] (List.cons_prefix_cons.mpr ⟨rfl, List.nil_prefix⟩) _)
      · exact rest
  cases links <;> exact walked _

theorem create_names (links : Nat) (place names : List ν) (n : ν) (directory : tree.entry (place ++ names) = some .directory)
    (plain : ∀ path, tree.entry (place ++ names ++ [n]) ≠ some (.link path)) :
    tree.create links place ((names ++ [n]).map .name) = some (place ++ names ++ [n]) := by
  have walked (jump : List ν → List (Component ν) → Option (List ν)) :
      tree.createWith jump place ((names ++ [n]).map .name) = some (place ++ names ++ [n]) := by
    induction names generalizing place with
    | nil =>
      simp only [List.append_nil] at directory plain ⊢
      simp only [List.nil_append, List.map_cons, List.map_nil, createWith]
      split
      · simp [directory, isDirectory]
      · exact absurd ‹_› (plain _)
      · rfl
    | cons m names ih =>
      have whole : place ++ m :: names = place ++ [m] ++ names := by simp
      rw [whole] at directory plain ⊢
      rw [← ih _ directory plain]
      simp only [List.cons_append, List.map_cons, createWith, directory_above directory]
  cases links <;> exact walked _

end Shared.FileTree
