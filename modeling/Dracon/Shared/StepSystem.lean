import Mathlib.Data.List.Induction

set_option autoImplicit false

namespace Shared

-- A system that takes its steps on inputs; an input a state has no use for is refused.
structure System (σ ι : Type*) where
  step : σ → ι → Option σ

namespace System

variable {σ ι : Type*} {sys : System σ ι} {s₀ s s' : σ} {inputs : List ι}

def run (sys : System σ ι) (s : σ) : List ι → Option σ
  | [] => some s
  | input :: inputs => (sys.step s input).bind fun s => sys.run s inputs

-- The states a run gets to, on the inputs so far, when all its steps meet a condition.
inductive Reaches (sys : System σ ι) (ok : σ → ι → Prop) (s₀ : σ) : List ι → σ → Prop
  | start : Reaches sys ok s₀ [] s₀
  | step {inputs : List ι} {input : ι} {s s' : σ} : Reaches sys ok s₀ inputs s → ok s input →
      sys.step s input = some s' → Reaches sys ok s₀ (inputs ++ [input]) s'

theorem Reaches.invariant {ok : σ → ι → Prop} {P : List ι → σ → Prop} (start : P [] s₀)
    (keeps : ∀ {inputs input s s'}, P inputs s → ok s input → sys.step s input = some s' →
      P (inputs ++ [input]) s')
    (reached : sys.Reaches ok s₀ inputs s) : P inputs s := by
  induction reached with
  | start => exact start
  | step _ allowed taken ih => exact keeps ih allowed taken

theorem run_append (s : σ) (first second : List ι) :
    sys.run s (first ++ second) = (sys.run s first).bind fun s => sys.run s second := by
  induction first generalizing s with
  | nil => rfl
  | cons input first ih =>
    cases taken : sys.step s input <;> simp [run, taken, ih]

def guarded (sys : System σ ι) (check : σ → ι → Bool) : System σ ι where
  step s input := if check s input then sys.step s input else none

theorem reaches_of_guarded {check : σ → ι → Bool} {ok : σ → ι → Prop}
    (sound : ∀ s input, check s input → ok s input) (ran : (sys.guarded check).run s₀ inputs = some s) :
    sys.Reaches ok s₀ inputs s := by
  induction inputs using List.reverseRecOn generalizing s with
  | nil =>
    cases ran
    exact .start
  | append_singleton inputs input ih =>
    rw [run_append] at ran
    obtain ⟨before, first, last⟩ := Option.bind_eq_some_iff.mp ran
    obtain ⟨after, taken, rfl⟩ : ∃ after, (sys.guarded check).step before input = some after ∧ after = s := by
      simpa [run] using last
    obtain ⟨checked, taken⟩ := Option.ite_none_right_eq_some.mp taken
    exact .step (ih first) (sound _ _ checked) taken

theorem reaches_of_run (ran : sys.run s₀ inputs = some s) :
    sys.Reaches (fun _ _ => True) s₀ inputs s := by
  have free : sys.guarded (fun _ _ => true) = sys := by simp [guarded]
  exact reaches_of_guarded (fun _ _ _ => trivial) (free.symm ▸ ran)

theorem Reaches.extend {ok : σ → ι → Prop} {more : List ι} (reached : sys.Reaches ok s₀ inputs s)
    (free : ∀ input ∈ more, ∀ s, ok s input) (ran : sys.run s more = some s') : sys.Reaches ok s₀ (inputs ++ more) s' := by
  induction more generalizing inputs s with
  | nil =>
    cases ran
    rwa [List.append_nil]
  | cons input more ih =>
    obtain ⟨next, taken, ran⟩ := Option.bind_eq_some_iff.mp ran
    rw [List.append_cons]
    exact ih (.step reached (free input List.mem_cons_self s) taken) (fun other mem => free other (List.mem_cons_of_mem _ mem)) ran

end System

end Shared
