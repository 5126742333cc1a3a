import Mathlib.Data.List.Forall2

set_option autoImplicit false

namespace Shared

variable {ε α β : Type} {x : Except ε α} {f : α → Except ε β}

theorem bind_eq_error {exc : ε} (thrown : (x >>= f) = .error exc) : x = .error exc ∨ ∃ a, f a = .error exc := by
  cases x with
  | error e => exact .inl (congrArg Except.error (Except.error.inj thrown))
  | ok a => exact .inr ⟨a, thrown⟩

theorem bind_eq_ok {b : β} : (x >>= f) = .ok b ↔ ∃ a, x = .ok a ∧ f a = .ok b := by
  cases x <;> simp [Bind.bind, Except.bind]

theorem exists_bind_eq_ok : (∃ b, (x >>= f) = .ok b) ↔ ∃ a, x = .ok a ∧ ∃ b, f a = .ok b := by
  cases x <;> simp [Bind.bind, Except.bind]

theorem mapM_ok_iff {l : List α} {out : List β} :
    l.mapM f = .ok out ↔ List.Forall₂ (fun a b => f a = .ok b) l out := by
  induction l generalizing out with
  | nil => simp [pure, Except.pure, eq_comm]
  | cons a l ih =>
    rw [List.mapM_cons]
    cases first : f a with
    | error exc => simp [Bind.bind, Except.bind, List.forall₂_cons_left_iff, first]
    | ok b =>
      cases rest : l.mapM f with
      | error exc =>
        have none : ∀ out, ¬ List.Forall₂ (fun a b => f a = .ok b) l out := fun out all => by
          cases rest.symm.trans (ih.mpr all)
        simp [Bind.bind, Except.bind, List.forall₂_cons_left_iff, none]
      | ok bs =>
        simp only [Bind.bind, Except.bind, pure, Except.pure, Except.ok.injEq, List.forall₂_cons_left_iff, first, ← ih, rest]
        grind

theorem mapM_error {l : List α} {exc : ε} (thrown : l.mapM f = .error exc) : ∃ a ∈ l, f a = .error exc := by
  induction l with
  | nil => cases thrown
  | cons a l ih =>
    rw [List.mapM_cons] at thrown
    rcases bind_eq_error thrown with first | ⟨_, thrown⟩
    · exact ⟨a, by simp, first⟩
    rcases bind_eq_error thrown with rest | ⟨_, thrown⟩
    · obtain ⟨b, mem, failed⟩ := ih rest
      exact ⟨b, List.mem_cons_of_mem _ mem, failed⟩
    · cases thrown

end Shared
