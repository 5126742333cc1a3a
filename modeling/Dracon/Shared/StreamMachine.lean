import Mathlib.Data.List.Basic
import Mathlib.Data.List.Infix

set_option autoImplicit false

namespace Shared

inductive Verdict (σ α ε : Type) where
  | wait
  | fail (error : ε)
  | next (state : σ) (rest : List α)

-- A reaction to the unread input is stable when more input never changes it, and local when only the bytes it consumes matter to
-- it.
structure Stable {σ α ε : Type} (react : List α → Verdict σ α ε) : Prop where
  next_local : ∀ {d s' d'}, d ≠ [] → react d = .next s' d' →
    ∃ eaten, d = eaten ++ d' ∧ ∀ r, eaten ++ r ≠ [] → react (eaten ++ r) = .next s' r
  fail_append : ∀ {d e} (more : List α), d ≠ [] → react d = .fail e → react (d ++ more) = .fail e

namespace Stable

variable {σ α ε : Type} {react react' : List α → Verdict σ α ε}

theorem wait : Stable (fun _ : List α => (.wait : Verdict σ α ε)) := ⟨nofun, nofun⟩

theorem move (s : σ) : Stable (fun d : List α => (.next s d : Verdict σ α ε)) where
  next_local := by
    rintro d s' d' - ⟨⟩
    exact ⟨[], rfl, fun _ _ => rfl⟩
  fail_append := nofun

theorem congr (same : ∀ d, d ≠ [] → react d = react' d) (stable : Stable react') : Stable react where
  next_local filled h := by
    rw [same _ filled] at h
    obtain ⟨eaten, split, again⟩ := stable.next_local filled h
    exact ⟨eaten, split, fun r some => by rw [same _ some, again r some]⟩
  fail_append more filled h := by
    rw [same _ filled] at h
    rw [same _ (by simp [filled])]
    exact stable.fail_append more filled h

theorem ite (c : Prop) [Decidable c] (yes : c → Stable react) (no : ¬ c → Stable react') :
    Stable (fun d => if c then react d else react' d) := by
  by_cases h : c
  · simpa only [if_pos h] using yes h
  · simpa only [if_neg h] using no h

end Stable

-- A machine that reads a stream in small steps, and waits when there is nothing to read.
structure Machine (σ α ε : Type) where
  step : σ → List α → Verdict σ α ε
  idle : ∀ s, step s [] = .wait
  stable : ∀ s, Stable (step s)

namespace Machine

variable {σ α ε : Type} (m : Machine σ α ε)

theorem next_local {s s' : σ} {d d' : List α} (h : m.step s d = .next s' d') :
    ∃ eaten, d = eaten ++ d' ∧ ∀ r, eaten ++ r ≠ [] → m.step s (eaten ++ r) = .next s' r :=
  (m.stable s).next_local (by rintro rfl; simp [m.idle] at h) h

theorem next_append {s s' : σ} {d d' : List α} (more : List α) (h : m.step s d = .next s' d') :
    m.step s (d ++ more) = .next s' (d' ++ more) := by
  have filled : d ≠ [] := by rintro rfl; simp [m.idle] at h
  obtain ⟨eaten, rfl, again⟩ := m.next_local h
  rw [List.append_assoc]
  exact again _ (by simp_all)

theorem fail_append {s : σ} {d : List α} {e : ε} (more : List α) (h : m.step s d = .fail e) :
    m.step s (d ++ more) = .fail e :=
  (m.stable s).fail_append more (by rintro rfl; simp [m.idle] at h) h

theorem suffix {s s' : σ} {d d' : List α} (h : m.step s d = .next s' d') : d' <:+ d := by
  obtain ⟨eaten, rfl, -⟩ := m.next_local h
  exact List.suffix_append _ _

theorem wait_of_append {s : σ} {d more : List α} (h : m.step s (d ++ more) = .wait) :
    m.step s d = .wait := by
  cases now : m.step s d with
  | wait => rfl
  | fail e => simp [m.fail_append more now] at h
  | next s' d' => simp [m.next_append more now] at h

inductive Steps : σ → List α → σ → List α → Prop
  | refl (s : σ) (d : List α) : Steps s d s d
  | head {s d s₁ d₁ s₂ d₂} : m.step s d = .next s₁ d₁ → Steps s₁ d₁ s₂ d₂ → Steps s d s₂ d₂

variable {m}

theorem Steps.single {s : σ} {d : List α} {s' : σ} {d' : List α} (h : m.step s d = .next s' d') :
    m.Steps s d s' d' := .head h (.refl _ _)

theorem Steps.trans {s s₁ s₂ : σ} {d d₁ d₂ : List α} (first : m.Steps s d s₁ d₁)
    (second : m.Steps s₁ d₁ s₂ d₂) : m.Steps s d s₂ d₂ := by
  induction first with
  | refl => exact second
  | head h _ ih => exact .head h (ih second)

theorem Steps.append {s s' : σ} {d d' : List α} (more : List α) (h : m.Steps s d s' d') :
    m.Steps s (d ++ more) s' (d' ++ more) := by
  induction h with
  | refl => exact .refl _ _
  | head h _ ih => exact .head (m.next_append more h) ih

theorem Steps.suffix {s s' : σ} {d d' : List α} (h : m.Steps s d s' d') : d' <:+ d := by
  induction h with
  | refl => exact List.suffix_rfl
  | head h _ ih => exact ih.trans (m.suffix h)

theorem Steps.comparable {s s₁ s₂ : σ} {d d₁ d₂ : List α} (first : m.Steps s d s₁ d₁)
    (second : m.Steps s d s₂ d₂) : m.Steps s₁ d₁ s₂ d₂ ∨ m.Steps s₂ d₂ s₁ d₁ := by
  induction first with
  | refl => exact .inl second
  | head h rest ih =>
    cases second with
    | refl => exact .inr (.head h rest)
    | head h' rest' =>
      rw [h] at h'
      injection h' with sameState sameRest
      subst sameState sameRest
      exact ih rest'

theorem Steps.of_not_next {s s' : σ} {d d' : List α} (h : m.Steps s d s' d')
    (halted : ∀ t r, m.step s d ≠ .next t r) : s' = s ∧ d' = d := by
  cases h with
  | refl => exact ⟨rfl, rfl⟩
  | head h _ => exact absurd h (halted _ _)

theorem Steps.invariant {P : σ → Prop}
    (keeps : ∀ {s d s' d'}, P s → m.step s d = .next s' d' → P s')
    {s s' : σ} {d d' : List α} (h : m.Steps s d s' d') (start : P s) : P s' := by
  induction h with
  | refl => exact start
  | head h _ ih => exact ih (keeps start h)

theorem Steps.history {P : σ → List α → Prop}
    (keeps : ∀ {s before eaten d' s'}, P s before → m.step s (eaten ++ d') = .next s' d' →
      P s' (before ++ eaten))
    {s s' : σ} {d d' before : List α} (h : m.Steps s d s' d') (start : P s before) :
    ∃ eaten, d = eaten ++ d' ∧ P s' (before ++ eaten) := by
  induction h generalizing before with
  | refl => exact ⟨[], rfl, by simpa using start⟩
  | head h _ ih =>
    obtain ⟨first, rfl, -⟩ := m.next_local h
    obtain ⟨rest, rfl, read⟩ := ih (keeps start h)
    exact ⟨first ++ rest, by simp, by simpa using read⟩

variable (m)

structure Halts (s : σ) (d : List α) (s' : σ) (d' : List α) : Prop where
  steps : m.Steps s d s' d'
  waits : m.step s' d' = .wait

def Fails (s : σ) (d : List α) (e : ε) : Prop :=
  ∃ s' d', m.Steps s d s' d' ∧ m.step s' d' = .fail e

variable {m}

theorem Halts.continues {s s₁ s₂ : σ} {d d₁ d₂ : List α} (halted : m.Halts s d s₁ d₁)
    (steps : m.Steps s d s₂ d₂) : m.Steps s₂ d₂ s₁ d₁ := by
  rcases halted.steps.comparable steps with h | h
  · obtain ⟨rfl, rfl⟩ := h.of_not_next (by simp [halted.waits])
    exact .refl _ _
  · exact h

theorem Halts.unique {s s₁ s₂ : σ} {d d₁ d₂ : List α} (first : m.Halts s d s₁ d₁)
    (second : m.Halts s d s₂ d₂) : s₁ = s₂ ∧ d₁ = d₂ :=
  (first.continues second.steps).of_not_next (by simp [second.waits])

theorem Halts.not_fails {s s' : σ} {d d' : List α} {e : ε} (halted : m.Halts s d s' d') :
    ¬ m.Fails s d e := by
  rintro ⟨t, r, steps, failed⟩
  obtain ⟨rfl, rfl⟩ := (halted.continues steps).of_not_next (by simp [failed])
  simp [halted.waits] at failed

theorem Fails.append {s : σ} {d : List α} {e : ε} (more : List α) (h : m.Fails s d e) :
    m.Fails s (d ++ more) e := by
  obtain ⟨t, r, steps, failed⟩ := h
  exact ⟨t, r ++ more, steps.append more, m.fail_append more failed⟩

theorem Fails.of_steps {s s' : σ} {d d' : List α} {e : ε} (steps : m.Steps s d s' d')
    (h : m.Fails s' d' e) : m.Fails s d e := by
  obtain ⟨t, r, rest, failed⟩ := h
  exact ⟨t, r, steps.trans rest, failed⟩

theorem Fails.after_steps {s s' : σ} {d d' : List α} {e : ε} (steps : m.Steps s d s' d')
    (h : m.Fails s d e) : m.Fails s' d' e := by
  obtain ⟨t, r, rest, failed⟩ := h
  rcases steps.comparable rest with h | h
  · exact ⟨t, r, h, failed⟩
  · obtain ⟨rfl, rfl⟩ := h.of_not_next (by simp [failed])
    exact ⟨_, _, .refl _ _, failed⟩

theorem Fails.unique {s : σ} {d : List α} {e e' : ε} (first : m.Fails s d e) (second : m.Fails s d e') :
    e = e' := by
  obtain ⟨t, r, steps, failed⟩ := first
  obtain ⟨t', r', rest, failed'⟩ := second.after_steps steps
  obtain ⟨rfl, rfl⟩ := rest.of_not_next (by simp [failed])
  simpa [failed] using failed'

theorem Steps.strip {s s' : σ} {d d' u v r : List α} (steps : m.Steps s d s' d') (start : d = u ++ v)
    (stop : d' = r ++ v) (left : r ≠ []) : m.Steps s u s' r := by
  induction steps generalizing u with
  | refl =>
    obtain rfl := List.append_cancel_right (start.symm.trans stop)
    exact .refl _ _
  | head h rest ih =>
    obtain ⟨eaten, rfl, again⟩ := m.next_local h
    obtain ⟨between, rfl⟩ := rest.suffix
    obtain rfl : u = eaten ++ (between ++ r) := by
      refine List.append_cancel_right (?_ : u ++ v = eaten ++ (between ++ r) ++ v)
      simp [← start, stop]
    exact .head (again _ (by simp [left])) (ih (by simp [stop]) stop)

theorem Steps.cut {s s' : σ} {d d' u v : List α} (steps : m.Steps s d s' d') (split : d = u ++ v) :
    (∃ r, m.Steps s u s' r ∧ d' = r ++ v) ∨
      ∃ s₁ u₁ s₂ d₂, m.Halts s u s₁ u₁ ∧ m.Steps s d s₁ (u₁ ++ v) ∧
        m.step s₁ (u₁ ++ v) = .next s₂ d₂ := by
  induction steps generalizing u with
  | refl => exact .inl ⟨u, .refl _ _, split⟩
  | @head s d s₁ d₁ s₂ d₂ h rest ih =>
    subst split
    cases now : m.step s u with
    | wait => exact .inr ⟨s, u, s₁, d₁, ⟨.refl _ _, now⟩, .refl _ _, h⟩
    | fail e => simp [m.fail_append v now] at h
    | next t r =>
      rw [m.next_append v now] at h
      injection h with sameState sameRest
      subst sameState sameRest
      rcases ih rfl with ⟨r', steps, rfl⟩ | ⟨s₁, u₁, s₂, d₂, halted, steps, step⟩
      · exact .inl ⟨r', .head now steps, rfl⟩
      · exact .inr ⟨s₁, u₁, s₂, d₂, ⟨.head now halted.steps, halted.waits⟩,
          .head (m.next_append v now) steps, step⟩

def andThen (first second : Machine σ α ε) (done : σ → Bool) : Machine σ α ε where
  step s d := if done s then second.step s d else first.step s d
  idle s := by simp [idle]
  stable s := .ite _ (fun _ => second.stable s) (fun _ => first.stable s)

section AndThen

variable {first second : Machine σ α ε} {done : σ → Bool} {s s' : σ} {d d' : List α}

theorem Steps.andThen_left (stops : ∀ s d, done s → first.step s d = .wait)
    (h : first.Steps s d s' d') : (first.andThen second done).Steps s d s' d' := by
  induction h with
  | refl => exact .refl _ _
  | @head s d _ _ _ _ h _ ih =>
    refine .head ?_ ih
    have running : ¬ done s := fun isDone => by simp [stops s d isDone] at h
    simpa [andThen, running] using h

theorem Halts.andThen_left (stops : ∀ s d, done s → first.step s d = .wait)
    (h : first.Halts s d s' d') (running : done s' = false) :
    (first.andThen second done).Halts s d s' d' :=
  ⟨h.steps.andThen_left stops, by simpa [andThen, running] using h.waits⟩

theorem Halts.andThen_right (stays : ∀ {s d s' d'}, done s → second.step s d = .next s' d' → done s')
    (isDone : done s) (h : second.Halts s d s' d') :
    (first.andThen second done).Halts s d s' d' := by
  have lift {s s' : σ} {d d' : List α} (isDone : done s) (steps : second.Steps s d s' d') :
      (first.andThen second done).Steps s d s' d' := by
    induction steps with
    | refl => exact .refl _ _
    | head h _ ih => exact .head (by simpa [andThen, isDone] using h) (ih (stays isDone h))
  refine ⟨lift isDone h.steps, ?_⟩
  have isDone' := h.steps.invariant (P := fun s => done s) stays isDone
  simpa [andThen, isDone'] using h.waits

end AndThen

end Machine

section Feeding

variable {τ α ε : Type}

-- The pending-buffer protocol: a received piece is appended to what is pending, the consumer is called on all of it and the
-- bytes it reports as consumed are dropped.
def feed (call : τ → List α → Except ε (Nat × τ)) (t : τ) (pending piece : List α) :
    Except ε (τ × List α) :=
  match call t (pending ++ piece) with
  | .error e => .error e
  | .ok (n, t') => .ok (t', (pending ++ piece).drop n)

def feedAll (call : τ → List α → Except ε (Nat × τ)) (t : τ) (pending : List α) :
    List (List α) → Except ε (τ × List α)
  | [] => .ok (t, pending)
  | piece :: pieces =>
      match feed call t pending piece with
      | .error e => .error e
      | .ok (t', pending') => feedAll call t' pending' pieces

theorem feedAll_invariant {P : τ → Prop} {call : τ → List α → Except ε (Nat × τ)}
    (keeps : ∀ {t d n t'}, P t → call t d = .ok (n, t') → P t') {t t' : τ} {pending pending' : List α}
    {pieces : List (List α)} (start : P t) (fed : feedAll call t pending pieces = .ok (t', pending')) : P t' := by
  induction pieces generalizing t pending with
  | nil =>
    cases fed
    exact start
  | cons piece pieces ih =>
    cases called : call t (pending ++ piece) with
    | error e => simp [feedAll, feed, called] at fed
    | ok result =>
      simp only [feedAll, feed, called] at fed
      exact ih (keeps start called) fed

theorem feedAll_whole {call : τ → List α → Except ε (Nat × τ)} {t t' : τ} {piece : List α}
    (whole : call t piece = .ok (piece.length, t')) (pieces : List (List α)) :
    feedAll call t [] (piece :: pieces) = feedAll call t' [] pieces := by
  simp [feedAll, feed, whole]

theorem feedAll_fails {call : τ → List α → Except ε (Nat × τ)} {t : τ} {piece : List α} {e : ε}
    (failed : call t piece = .error e) (pieces : List (List α)) :
    feedAll call t [] (piece :: pieces) = .error e := by
  simp [feedAll, feed, failed]

theorem feedAll_idle {call : τ → List α → Except ε (Nat × τ)} {t : τ} (idle : ∀ d, call t d = .ok (0, t))
    (pending : List α) (pieces : List (List α)) : feedAll call t pending pieces = .ok (t, pending ++ pieces.flatten) := by
  induction pieces generalizing pending with
  | nil => simp [feedAll]
  | cons piece pieces ih => simp [feedAll, feed, idle, ih]

theorem feedAll_error_append {call : τ → List α → Except ε (Nat × τ)} {t : τ} {pending : List α} {pieces : List (List α)}
    {e : ε} (failed : feedAll call t pending pieces = .error e) (more : List (List α)) :
    feedAll call t pending (pieces ++ more) = .error e := by
  induction pieces generalizing t pending with
  | nil => cases failed
  | cons piece pieces ih =>
    cases called : call t (pending ++ piece) with
    | error e' => simpa [feedAll, feed, called] using failed
    | ok result =>
      simp only [List.cons_append, feedAll, feed, called] at failed ⊢
      exact ih failed

end Feeding

-- A consumer each of whose calls runs the machine until it waits. `sim` relates the states of the consumer to the states of the
-- machine.
structure Driver {σ α ε : Type} (m : Machine σ α ε) (τ ε' : Type) where
  call : τ → List α → Except ε' (Nat × τ)
  sim : τ → σ → Prop
  halts : ∀ {t s d n t'}, sim t s → call t d = .ok (n, t') →
    n ≤ d.length ∧ ∃ s', sim t' s' ∧ m.Halts s d s' (d.drop n)

namespace Driver

variable {σ α ε τ ε' : Type} {m : Machine σ α ε} (driver : Driver m τ ε')

theorem feed_halts {t t' : τ} {s : σ} {pending piece pending' : List α} (related : driver.sim t s)
    (fed : feed driver.call t pending piece = .ok (t', pending')) :
    ∃ s', driver.sim t' s' ∧ m.Halts s (pending ++ piece) s' pending' := by
  unfold feed at fed
  split at fed
  · cases fed
  · rename_i called
    cases fed
    exact (driver.halts related called).2

theorem feedAll_halts {t t' : τ} {s : σ} {pending pending' : List α} {pieces : List (List α)}
    (related : driver.sim t s) (idle : m.step s pending = .wait)
    (fed : feedAll driver.call t pending pieces = .ok (t', pending')) :
    ∃ s', driver.sim t' s' ∧ m.Halts s (pending ++ pieces.flatten) s' pending' := by
  induction pieces generalizing t s pending with
  | nil =>
    cases fed
    exact ⟨s, related, by simpa using ⟨Machine.Steps.refl _ _, idle⟩⟩
  | cons piece pieces ih =>
    simp only [feedAll] at fed
    split at fed
    · cases fed
    · rename_i t₁ pending₁ first
      obtain ⟨s₁, related₁, halted⟩ := driver.feed_halts related first
      obtain ⟨s', related', rest⟩ := ih related₁ halted.waits fed
      have steps := (halted.steps.append pieces.flatten).trans rest.steps
      exact ⟨s', related', by simpa using steps, rest.waits⟩

theorem feedAll_throws {t : τ} {s : σ} {pending : List α} {pieces : List (List α)} {e : ε'}
    (related : driver.sim t s) (thrown : feedAll driver.call t pending pieces = .error e) :
    ∃ k t' s' d', driver.sim t' s' ∧ m.Steps s (pending ++ (pieces.take k).flatten) s' d' ∧
      driver.call t' d' = .error e := by
  induction pieces generalizing t s pending with
  | nil => cases thrown
  | cons piece pieces ih =>
    simp only [feedAll] at thrown
    split at thrown
    · rename_i failed
      cases thrown
      refine ⟨1, t, s, _, related, .refl _ _, ?_⟩
      unfold feed at failed
      split at failed
      · rename_i called
        cases failed
        simpa using called
      · cases failed
    · rename_i fed
      obtain ⟨s₁, related₁, halted⟩ := driver.feed_halts related fed
      obtain ⟨k, t', s', d', related', steps, failed⟩ := ih related₁ thrown
      refine ⟨k + 1, t', s', d', related', ?_, failed⟩
      simpa using (halted.steps.append (pieces.take k).flatten).trans steps

theorem feedAll_unique {t t₁ t₂ : τ} {s : σ} {pending pending₁ pending₂ : List α}
    {pieces₁ pieces₂ : List (List α)} (related : driver.sim t s)
    (idle : m.step s pending = .wait) (same : pieces₁.flatten = pieces₂.flatten)
    (fed₁ : feedAll driver.call t pending pieces₁ = .ok (t₁, pending₁))
    (fed₂ : feedAll driver.call t pending pieces₂ = .ok (t₂, pending₂)) :
    (∃ s', driver.sim t₁ s' ∧ driver.sim t₂ s') ∧ pending₁ = pending₂ := by
  obtain ⟨s₁, related₁, halted₁⟩ := driver.feedAll_halts related idle fed₁
  obtain ⟨s₂, related₂, halted₂⟩ := driver.feedAll_halts related idle fed₂
  rw [same] at halted₁
  obtain ⟨rfl, rfl⟩ := halted₁.unique halted₂
  exact ⟨⟨_, related₁, related₂⟩, rfl⟩

end Driver

-- A consumer that also gives up on input that stays unfinished for too long: it throws when the machine fails, or when what the
-- machine waits with exceeds a bound.
structure StrictDriver {σ α ε : Type} (m : Machine σ α ε) (τ ε' : Type) extends Driver m τ ε' where
  overdue : σ → List α → Prop
  patient : ∀ {t s d n t'}, sim t s → call t d = .ok (n, t') →
    ∀ {s'}, m.Halts s d s' (d.drop n) → ¬ overdue s' (d.drop n)
  throws : ∀ {t s d e}, sim t s → call t d = .error e →
    (∃ e, m.Fails s d e) ∨ ∃ s' d', m.Halts s d s' d' ∧ overdue s' d'

namespace StrictDriver

variable {σ α ε τ ε' : Type} {m : Machine σ α ε} (driver : StrictDriver m τ ε')

def Good (s : σ) (d : List α) : Prop :=
  ∃ s' d', m.Halts s d s' d' ∧ ¬ driver.overdue s' d'

theorem call_ok_iff {t : τ} {s : σ} (related : driver.sim t s) (d : List α) :
    (∃ r, driver.call t d = .ok r) ↔ driver.Good s d := by
  constructor
  · rintro ⟨⟨n, t'⟩, called⟩
    obtain ⟨-, s', -, halted⟩ := driver.halts related called
    exact ⟨s', _, halted, driver.patient related called halted⟩
  · rintro ⟨s', d', halted, patient⟩
    cases called : driver.call t d with
    | ok r => exact ⟨r, rfl⟩
    | error e =>
      rcases driver.throws related called with ⟨e, failed⟩ | ⟨s₁, d₁, halted₁, overdue⟩
      · exact absurd failed halted.not_fails
      · obtain ⟨rfl, rfl⟩ := halted.unique halted₁
        exact absurd overdue patient

theorem good_after_steps {s s' : σ} {d d' : List α} (steps : m.Steps s d s' d') :
    driver.Good s d ↔ driver.Good s' d' := by
  constructor
  · rintro ⟨s₁, d₁, halted, patient⟩
    exact ⟨s₁, d₁, ⟨halted.continues steps, halted.waits⟩, patient⟩
  · rintro ⟨s₁, d₁, halted, patient⟩
    exact ⟨s₁, d₁, ⟨steps.trans halted.steps, halted.waits⟩, patient⟩

theorem feedAll_ok_iff {t : τ} {s : σ} (related : driver.sim t s) (pending : List α)
    (pieces : List (List α)) :
    (∃ r, feedAll driver.call t pending pieces = .ok r) ↔
      ∀ k < pieces.length, driver.Good s (pending ++ (pieces.take (k + 1)).flatten) := by
  induction pieces generalizing t s pending with
  | nil => simp [feedAll]
  | cons piece pieces ih =>
    cases first : feed driver.call t pending piece with
    | error e =>
      simp only [feedAll, first, reduceCtorEq, exists_false, false_iff, not_forall]
      refine ⟨0, by simp, fun good => ?_⟩
      obtain ⟨r, called⟩ := (driver.call_ok_iff related (pending ++ piece)).mpr (by simpa using good)
      simp [feed, called] at first
    | ok r =>
      obtain ⟨t₁, pending₁⟩ := r
      obtain ⟨s₁, related₁, halted⟩ := driver.toDriver.feed_halts related first
      have here : driver.Good s (pending ++ piece) := by
        unfold feed at first
        split at first
        · cases first
        · rename_i called
          exact (driver.call_ok_iff related _).mp ⟨_, called⟩
      have later (k : Nat) :
          driver.Good s (pending ++ ((piece :: pieces).take (k + 1)).flatten) ↔
            driver.Good s₁ (pending₁ ++ (pieces.take k).flatten) := by
        have := driver.good_after_steps (halted.steps.append (pieces.take k).flatten)
        simpa using this
      simp only [feedAll, first, ih related₁, List.length_cons, later]
      constructor
      · intro rest k bound
        cases k with
        | zero => simpa using (later 0).mp (by simpa using here)
        | succ k => exact rest k (by omega)
      · intro all k bound
        exact all (k + 1) (by omega)

theorem feedAll_ok_of_prefixes {t : τ} {s : σ} (related : driver.sim t s) {w : List α}
    (good : ∀ u v, w = u ++ v → driver.Good s u) {pieces : List (List α)}
    (cut : pieces.flatten = w) : ∃ r, feedAll driver.call t [] pieces = .ok r := by
  refine (driver.feedAll_ok_iff related [] pieces).mpr fun k _ => ?_
  refine good _ (pieces.drop (k + 1)).flatten ?_
  rw [List.nil_append, ← List.flatten_append, List.take_append_drop, cut]

theorem good_of_feedAll_ok {t : τ} {s : σ} (related : driver.sim t s) {pieces : List (List α)}
    (some : pieces ≠ []) (accepted : ∃ r, feedAll driver.call t [] pieces = .ok r) :
    driver.Good s pieces.flatten := by
  have := List.length_pos_iff.mpr some
  have last := (driver.feedAll_ok_iff related [] pieces).mp accepted (pieces.length - 1) (by omega)
  rwa [Nat.sub_add_cancel (by omega), List.take_length] at last

end StrictDriver

end Shared
