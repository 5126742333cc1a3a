import Mathlib.Data.List.Basic
import Mathlib.Data.List.Infix

set_option autoImplicit false

namespace Shared

variable {α : Type} [DecidableEq α]

def cutAt (pat : List α) : List α → Option (List α × List α)
  | [] => if pat = [] then some ([], []) else none
  | a :: rest =>
      if pat.isPrefixOf (a :: rest) then some ([], (a :: rest).drop pat.length)
      else (cutAt pat rest).map fun parts => (a :: parts.1, parts.2)

theorem cutAt_pattern (pat rest : List α) : cutAt pat (pat ++ rest) = some ([], rest) := by
  cases whole : pat ++ rest with
  | nil => simp_all [cutAt]
  | cons a text =>
    simp [cutAt, ← whole]

theorem cutAt_append {c : α} {pat before : List α} (absent : c ∉ before) (text : List α) :
    cutAt (c :: pat) (before ++ text) =
      (cutAt (c :: pat) text).map fun parts => (before ++ parts.1, parts.2) := by
  induction before with
  | nil => simp
  | cons b before ih =>
    obtain ⟨differs, absent⟩ := not_or.mp (List.mem_cons.not.mp absent)
    have other : (c :: pat).isPrefixOf (b :: (before ++ text)) = false := by
      rw [List.isPrefixOf_cons_cons, beq_false_of_ne differs, Bool.false_and]
    simp [cutAt, other, ih absent, Function.comp_def]

theorem cutAt_length {c : α} {pat text before after : List α} (found : cutAt (c :: pat) text = some (before, after)) :
    after.length < text.length := by
  induction text generalizing before with
  | nil => simp [cutAt] at found
  | cons a text ih =>
    unfold cutAt at found
    split_ifs at found
    · obtain ⟨-, rfl⟩ : [] = before ∧ _ = after := by simpa using found
      simp only [List.length_drop, List.length_cons]
      omega
    · simp only [Option.map_eq_some_iff, Prod.exists, Prod.mk.injEq] at found
      obtain ⟨x, y, found, -, rfl⟩ := found
      exact (ih found).trans (by rw [List.length_cons]; omega)

theorem cutAt_eq_some {pat text before after : List α} (found : cutAt pat text = some (before, after)) :
    text = before ++ (pat ++ after) ∧ ∀ u w, text = u ++ (pat ++ w) → before.length ≤ u.length := by
  induction text generalizing before with
  | nil =>
    unfold cutAt at found
    split_ifs at found with empty
    cases found
    exact ⟨by simp [empty], fun _ _ _ => Nat.zero_le _⟩
  | cons a text ih =>
    unfold cutAt at found
    split_ifs at found with here
    · obtain ⟨more, split⟩ := List.isPrefixOf_iff_prefix.mp here
      obtain ⟨rfl, rfl⟩ : [] = before ∧ _ = after := by simpa using found
      exact ⟨by rw [← split, List.drop_left]; rfl, fun _ _ _ => Nat.zero_le _⟩
    · obtain ⟨⟨x, y⟩, inner, same⟩ := Option.map_eq_some_iff.mp found
      cases same
      obtain ⟨split, first⟩ := ih inner
      refine ⟨by rw [split]; rfl, fun u w other => ?_⟩
      cases u with
      | nil => exact absurd (List.isPrefixOf_iff_prefix.mpr ⟨w, other.symm⟩) here
      | cons b u => exact Nat.succ_le_succ (first u w (List.cons.inj other).2)

theorem cutAt_eq_none {pat text : List α} (missing : cutAt pat text = none) : ∀ u w, text ≠ u ++ (pat ++ w) := by
  induction text with
  | nil =>
    unfold cutAt at missing
    split_ifs at missing with empty
    intro u w same
    exact empty (by simp_all)
  | cons a text ih =>
    unfold cutAt at missing
    split_ifs at missing with here
    intro u w other
    cases u with
    | nil => exact absurd (List.isPrefixOf_iff_prefix.mpr ⟨w, other.symm⟩) here
    | cons b u => exact ih (Option.map_eq_none_iff.mp missing) u w (List.cons.inj other).2

def lines (c : α) (sep text : List α) : List (List α) :=
  match _found : cutAt (c :: sep) text with
  | none => []
  | some (line, rest) => line :: lines c sep rest
termination_by text.length
decreasing_by exact cutAt_length _found

section Separated

variable {c : α} {sep : List α}

theorem lines_of_cutAt {text line rest : List α} (found : cutAt (c :: sep) text = some (line, rest)) :
    lines c sep text = line :: lines c sep rest := by
  rw [lines]
  split
  next missing => simp [found] at missing
  next again =>
    rw [found] at again
    cases again
    rfl

theorem lines_flatMap {texts : List (List α)} (absent : ∀ text ∈ texts, c ∉ text) :
    lines c sep (texts.flatMap (· ++ c :: sep)) = texts := by
  induction texts with
  | nil =>
    unfold lines
    rfl
  | cons text texts ih =>
    obtain ⟨here, rest⟩ := List.forall_mem_cons.mp absent
    have found : cutAt (c :: sep) ((text :: texts).flatMap (· ++ c :: sep)) =
        some (text, texts.flatMap (· ++ c :: sep)) := by
      rw [List.flatMap_cons, List.append_assoc, cutAt_append here, cutAt_pattern]
      simp
    rw [lines_of_cutAt found, ih rest]

theorem cutAt_twice (single : c ∉ sep) {text : List α} (other : ¬ (c :: sep) <+: text) :
    cutAt (c :: (sep ++ c :: sep)) (c :: (sep ++ text)) =
      (cutAt (c :: (sep ++ c :: sep)) text).map fun parts => (c :: (sep ++ parts.1), parts.2) := by
  have here : (c :: (sep ++ c :: sep)).isPrefixOf (c :: (sep ++ text)) = false := by
    rw [← Bool.not_eq_true, List.isPrefixOf_iff_prefix, List.prefix_cons_inj, List.prefix_append_right_inj]
    exact other
  rw [cutAt, if_neg (by simp [here]), cutAt_append single]
  simp [Function.comp_def]

-- The empty line is the first place where the separator stands twice.
theorem cutAt_emptyLine (single : c ∉ sep) {texts : List (List α)} (some : texts ≠ [])
    (clean : ∀ text ∈ texts, text ≠ [] ∧ c ∉ text) (body : List α) :
    ∃ head, head ++ c :: sep = texts.flatMap (· ++ c :: sep) ∧
      cutAt (c :: (sep ++ c :: sep)) (texts.flatMap (· ++ c :: sep) ++ (c :: (sep ++ body))) = .some (head, body) := by
  induction texts with
  | nil => exact absurd rfl some
  | cons text texts ih =>
    obtain ⟨⟨-, here⟩, rest⟩ := List.forall_mem_cons.mp clean
    rw [List.flatMap_cons, List.append_assoc, List.append_assoc, cutAt_append here]
    cases texts with
    | nil =>
      have found := cutAt_pattern (c :: (sep ++ c :: sep)) body
      exact ⟨text, by simp, by simpa using found⟩
    | cons next texts =>
      obtain ⟨head, split, found⟩ := ih (by simp) rest
      obtain ⟨⟨filled, absent⟩, -⟩ := List.forall_mem_cons.mp rest
      obtain ⟨a, more, rfl⟩ := List.exists_cons_of_ne_nil filled
      -- behind the separator the next line begins with another symbol
      have other : ¬ (c :: sep) <+: ((a :: more) :: texts).flatMap (· ++ c :: sep) ++ c :: (sep ++ body) := by
        simp only [List.flatMap_cons, List.cons_append, List.cons_prefix_cons]
        grind
      rw [List.cons_append, List.cons_append, List.append_assoc, cutAt_twice single other, found]
      exact ⟨text ++ c :: (sep ++ head), by simp [split], by simp⟩

end Separated

end Shared
