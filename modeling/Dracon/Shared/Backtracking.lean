import Mathlib.Data.List.DropRight

set_option autoImplicit false

namespace Shared

variable {α : Type}

def greedy (p : α → Bool) : List α → List (List α × List α)
  | [] => [([], [])]
  | a :: rest => (if p a then (greedy p rest).map fun parts => (a :: parts.1, parts.2) else []) ++ [([], a :: rest)]

def literal [DecidableEq α] (word text : List α) : List (List α) :=
  if word.isPrefixOf text then [text.drop word.length] else []

theorem mem_greedy {p : α → Bool} {text taken rest : List α} :
    (taken, rest) ∈ greedy p text ↔ text = taken ++ rest ∧ ∀ a ∈ taken, p a := by
  induction text generalizing taken with
  | nil =>
    simp only [greedy, List.mem_singleton, Prod.mk.injEq, List.nil_eq_append_iff]
    constructor
    · rintro ⟨rfl, rfl⟩
      simp
    · exact fun same => same.1
  | cons a text ih =>
    cases taken with
    | nil =>
      by_cases pa : p a
      · simpa [greedy, pa] using eq_comm
      · simpa [greedy, pa] using eq_comm
    | cons b taken =>
      by_cases pa : p a
      · simp only [greedy, pa, if_true, List.mem_append, List.mem_map, Prod.exists, Prod.mk.injEq, List.cons.injEq,
          List.mem_singleton, reduceCtorEq, false_and, or_false, List.cons_append, List.forall_mem_cons]
        constructor
        · rintro ⟨_, _, found, ⟨rfl, rfl⟩, rfl⟩
          obtain ⟨rfl, all⟩ := ih.mp found
          exact ⟨⟨rfl, rfl⟩, pa, all⟩
        · rintro ⟨⟨rfl, rfl⟩, -, all⟩
          exact ⟨_, _, ih.mpr ⟨rfl, all⟩, ⟨rfl, rfl⟩, rfl⟩
      · simp only [greedy, pa, Bool.false_eq_true, if_false, List.nil_append, List.mem_singleton, Prod.mk.injEq,
          reduceCtorEq, false_and, List.cons_append, List.cons.injEq, List.forall_mem_cons, false_iff, not_and]
        rintro ⟨rfl, -⟩ pb
        exact absurd pb pa

theorem mem_literal [DecidableEq α] {word text rest : List α} : rest ∈ literal word text ↔ text = word ++ rest := by
  unfold literal
  split_ifs with found
  · obtain ⟨more, rfl⟩ := List.isPrefixOf_iff_prefix.mp found
    simp [eq_comm]
  · simp only [List.not_mem_nil, false_iff]
    rintro rfl
    exact found (List.isPrefixOf_iff_prefix.mpr (List.prefix_append _ _))

theorem head?_eq_some_of_unique {l : List α} {a : α} (unique : ∀ b ∈ l, ∀ c ∈ l, b = c) : l.head? = some a ↔ a ∈ l := by
  cases l with
  | nil => simp
  | cons b l =>
    constructor
    · exact List.mem_of_head?
    · intro mem
      rw [List.head?_cons, unique b List.mem_cons_self a mem]

theorem append_cancel_class {p : α → Bool} {s t x y : List α} (first : ∀ a ∈ s, p a) (second : ∀ a ∈ t, p a)
    (left : ∀ a ∈ x.head?, p a = false) (right : ∀ a ∈ y.head?, p a = false) (same : s ++ x = t ++ y) :
    s = t ∧ x = y := by
  have cut {l rest : List α} (all : ∀ a ∈ l, p a) (other : ∀ a ∈ rest.head?, p a = false) :
      (l ++ rest).takeWhile p = l := by
    rw [List.takeWhile_append_of_pos all]
    cases rest with
    | nil => simp
    | cons a rest => simp [other a rfl]
  have equal : s = t := by rw [← cut first left, same, cut second right]
  subst equal
  exact ⟨rfl, List.append_cancel_left same⟩

def lastPiece [DecidableEq α] (sep : α) (text : List α) : List α := text.rtakeWhile (· ≠ sep)

section LastPiece

variable [DecidableEq α] {sep : α}

theorem lastPiece_append_of_not_mem {text : List α} (absent : sep ∉ text) (before : List α) :
    lastPiece sep (before ++ text) = lastPiece sep before ++ text := by
  have all : ∀ a ∈ text.reverse, decide (a ≠ sep) := by
    intro a mem
    refine decide_eq_true fun same => absent ?_
    exact same ▸ List.mem_reverse.mp mem
  rw [lastPiece, List.rtakeWhile, List.reverse_append, List.takeWhile_append_of_pos all, List.reverse_append,
    List.reverse_reverse, lastPiece, List.rtakeWhile]

theorem lastPiece_append_of_mem {text : List α} (present : sep ∈ text) (before : List α) :
    lastPiece sep (before ++ text) = lastPiece sep text := by
  rw [lastPiece, List.rtakeWhile, List.reverse_append, List.takeWhile_append, if_neg, lastPiece, List.rtakeWhile]
  intro whole
  have all := List.takeWhile_eq_self_iff.mp ((List.takeWhile_prefix _).eq_of_length whole)
  simpa using all sep (List.mem_reverse.mpr present)

theorem lastPiece_of_not_mem {text : List α} (absent : sep ∉ text) : lastPiece sep text = text := by
  simpa [lastPiece, List.rtakeWhile] using lastPiece_append_of_not_mem absent []

end LastPiece

end Shared
