import Dracon.Shared.Cut

set_option autoImplicit false

namespace Shared

variable {α : Type} [DecidableEq α] {sep : α} {before after text : List α}

def pieces (sep : α) (text : List α) : List (List α) := (text.splitOn sep).filter (· ≠ [])

theorem pieces_of_notMem (absent : sep ∉ text) : pieces sep text = if text = [] then [] else [text] := by
  rw [pieces, List.splitOn_eq_singleton absent]
  by_cases empty : text = [] <;> simp [empty]

theorem pieces_cut (absent : sep ∉ before) :
    pieces sep (before ++ sep :: after) = (if before = [] then [] else [before]) ++ pieces sep after := by
  rw [pieces, List.splitOn_append_cons_self_of_not_mem absent]
  by_cases empty : before = [] <;> simp [empty, pieces]

@[simp] theorem pieces_nil : pieces sep [] = [] := pieces_of_notMem (by simp)

@[simp] theorem pieces_cons_sep : pieces sep (sep :: text) = pieces sep text := by
  have cut : pieces sep ([] ++ sep :: text) = _ := pieces_cut (by simp)
  simpa using cut

theorem separated_induction (sep : α) {P : List α → Prop} (last : ∀ text, sep ∉ text → P text)
    (more : ∀ before after, sep ∉ before → P after → P (before ++ sep :: after)) (text : List α) : P text := by
  cases found : cut sep text with
  | none => exact last text (cut_eq_none.mp found)
  | some parts =>
    obtain ⟨whole, absent⟩ := cut_eq_some.mp found
    have shorter : parts.2.length < text.length := by
      simp only [whole, List.length_append, List.length_cons]
      omega
    rw [whole]
    exact more parts.1 parts.2 absent (separated_induction sep last more parts.2)
termination_by text.length

theorem pieces_append (before after : List α) :
    pieces sep (before ++ sep :: after) = pieces sep before ++ pieces sep after := by
  induction before using separated_induction sep with
  | last text absent => rw [pieces_cut absent, pieces_of_notMem absent]
  | more first rest absent ih =>
    rw [List.append_assoc, List.cons_append, pieces_cut absent, pieces_cut absent, ih, List.append_assoc]

theorem mem_of_mem_pieces {piece : List α} (mem : piece ∈ pieces sep text) : piece ≠ [] := by
  simpa using List.of_mem_filter mem

theorem pieces_insert {first second : List α}
    (beside : first = [] ∨ first.getLast? = some sep ∨ second.head? = some sep ∨ second = []) :
    pieces sep (first ++ sep :: second) = pieces sep (first ++ second) := by
  rw [pieces_append]
  rcases beside with rfl | last | head | rfl
  · simp
  · obtain ⟨front, rfl⟩ := List.getLast?_eq_some_iff.mp last
    rw [List.append_assoc, List.singleton_append, pieces_append, pieces_append]
    simp
  · obtain ⟨back, rfl⟩ := List.head?_eq_some_iff.mp head
    rw [pieces_append]
    simp
  · simp

end Shared
