import Dracon.Shared.StepSystem

set_option autoImplicit false

namespace Shared.System

variable {σ ι : Type*} {sys : System σ ι} {s s' : σ} {inputs : List ι}

theorem run_potential {P : σ → Prop} {ok : ι → Prop} {potential : σ → Nat} {spends gains : ι → Bool}
    (keeps : ∀ {s input s'}, P s → ok input → sys.step s input = some s' →
      P s' ∧ potential s' + (spends input).toNat ≤ potential s + (gains input).toNat)
    (start : P s) (all : ∀ input ∈ inputs, ok input) (ran : sys.run s inputs = some s') :
    P s' ∧ potential s' + inputs.countP spends ≤ potential s + inputs.countP gains := by
  induction inputs generalizing s with
  | nil =>
    cases ran
    exact ⟨start, Nat.le_refl _⟩
  | cons input inputs ih =>
    obtain ⟨next, taken, ran⟩ := Option.bind_eq_some_iff.mp ran
    obtain ⟨first, others⟩ := List.forall_mem_cons.mp all
    obtain ⟨still, cost⟩ := keeps start first taken
    obtain ⟨last, rest⟩ := ih still others ran
    have one (b : Bool) : (if b = true then 1 else 0) = b.toNat := by cases b <;> rfl
    refine ⟨last, ?_⟩
    rw [List.countP_cons, List.countP_cons, one, one]
    omega

end Shared.System
