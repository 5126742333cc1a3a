import Mathlib.Data.List.Basic
import Mathlib.Data.List.DropRight

set_option autoImplicit false

namespace Shared

variable {α : Type} [DecidableEq α]

def cut (sep : α) : List α → Option (List α × List α)
  | [] => none
  | a :: rest =>
      if a = sep then some ([], rest)
      else (cut sep rest).map fun parts => (a :: parts.1, parts.2)

theorem cut_eq_some {sep : α} {data before after : List α} :
    cut sep data = some (before, after) ↔ data = before ++ sep :: after ∧ sep ∉ before := by
  induction data generalizing before with
  | nil => simp [cut]
  | cons a rest ih =>
    by_cases same : a = sep
    · cases before with
      | nil => simp [cut, same]
      | cons b before => simp [cut, same]; grind
    · cases before with
      | nil => simp [cut, same]
      | cons b before =>
        simp only [cut, same, if_false, Option.map_eq_some_iff, Prod.exists, Prod.mk.injEq,
          List.cons.injEq, List.cons_append, List.mem_cons, not_or]
        constructor
        · rintro ⟨x, y, found, ⟨rfl, rfl⟩, rfl⟩
          obtain ⟨split, absent⟩ := ih.mp found
          exact ⟨⟨rfl, split⟩, fun h => same h.symm, absent⟩
        · rintro ⟨⟨rfl, split⟩, -, absent⟩
          exact ⟨before, after, ih.mpr ⟨split, absent⟩, ⟨rfl, rfl⟩, rfl⟩

theorem cut_eq_none {sep : α} {data : List α} : cut sep data = none ↔ sep ∉ data := by
  induction data with
  | nil => simp [cut]
  | cons a rest ih =>
    by_cases same : a = sep
    · simp [cut, same]
    · simp [cut, same, ih, Ne.symm same]

theorem cut_of_append {sep : α} {before after : List α} (absent : sep ∉ before) :
    cut sep (before ++ sep :: after) = some (before, after) :=
  cut_eq_some.mpr ⟨rfl, absent⟩

section Trim

omit [DecidableEq α]

variable {p : α → Bool}

theorem trim_ends (p : α → Bool) (l : List α) :
    (∀ c ∈ ((l.dropWhile p).rdropWhile p).head?, p c = false) ∧
      ∀ c ∈ ((l.dropWhile p).rdropWhile p).getLast?, p c = false := by
  constructor
  · intro c first
    obtain ⟨more, split⟩ := List.rdropWhile_prefix p (l.dropWhile p)
    have front : (l.dropWhile p).head? = some c := by
      rw [← split, List.head?_append, first, Option.some_or]
    simpa [front] using List.head?_dropWhile_not p l
  · intro c last
    obtain ⟨filled, rfl⟩ := List.mem_getLast?_eq_getLast last
    simpa using List.rdropWhile_last_not p (l.dropWhile p) filled

theorem mem_dropWhile {l : List α} {c : α} (mem : c ∈ l) (stays : p c = false) : c ∈ l.dropWhile p := by
  rw [← List.takeWhile_append_dropWhile (p := p) (l := l)] at mem
  rcases List.mem_append.mp mem with gone | rest
  · simp [List.mem_takeWhile_imp gone] at stays
  · exact rest

theorem mem_trim {l : List α} {c : α} (mem : c ∈ l) (stays : p c = false) : c ∈ (l.dropWhile p).rdropWhile p := by
  rw [List.rdropWhile, List.mem_reverse]
  exact mem_dropWhile (List.mem_reverse.mpr (mem_dropWhile mem stays)) stays

theorem trim_append {before value after : List α} (left : ∀ c ∈ before, p c)
    (right : ∀ c ∈ after, p c) (first : ∀ c ∈ value.head?, p c = false)
    (last : ∀ c ∈ value.getLast?, p c = false) :
    ((before ++ value ++ after).dropWhile p).rdropWhile p = value := by
  have back (l : List α) : (l ++ after).rdropWhile p = l.rdropWhile p := by
    simp only [List.rdropWhile, List.reverse_append]
    rw [List.dropWhile_append_of_pos (by simpa using right)]
  rw [List.append_assoc, List.dropWhile_append_of_pos left]
  cases value with
  | nil =>
    have gone : after.dropWhile p = [] := by simpa using right
    simp [gone]
  | cons c rest =>
    rw [List.cons_append, List.dropWhile_cons_of_neg (by simpa using first), ← List.cons_append, back,
      List.rdropWhile_eq_self_iff]
    intro filled
    simpa using last _ (List.getLast?_eq_some_getLast filled)

end Trim

end Shared
