import Mathlib.Data.List.Basic
import Mathlib.Logic.Function.Basic
import Dracon.Shared.StepSystem

set_option autoImplicit false

namespace Dracon.SpinLock

open Shared

-- The data is read and written back in two steps, so that an update is lost as soon as two threads are inside.
inductive Pc (Data Op : Type) where
  | outside
  -- `while (m_lock.test_and_set())`
  | lock (op : Op)
  -- `while (m_lock.test())`
  | pause (op : Op)
  | tryLock (op : Op)
  | entered (op : Op)
  | holding (op : Op) (seen : Data)
  | unlock
  deriving DecidableEq

variable {Data Op : Type}

def Pc.critical : Pc Data Op → Bool
  | .entered _ | .holding _ _ | .unlock => true
  | .outside | .lock _ | .pause _ | .tryLock _ => false

def Pc.waits : Pc Data Op → Option Op
  | .lock op | .pause op => some op
  | _ => none

-- the update of a thread that has the lock and has not written yet
def Pc.pending : Pc Data Op → List Op
  | .entered op | .holding op _ => [op]
  | _ => []

structure State (Data Op : Type) where
  -- `m_lock`
  flag : Bool := false
  data : Data
  thread : Nat → Pc Data Op := fun _ => .outside
  -- the updates, in the order in which their threads got the lock, and in the order of their writes
  acquired : List Op := []
  written : List Op := []

inductive Input (Op : Type) where
  | callLock (t : Nat) (op : Op)
  | callTryLock (t : Nat) (op : Op)
  | go (t : Nat)
  deriving DecidableEq

def State.goto (s : State Data Op) (t : Nat) (pc : Pc Data Op) : State Data Op :=
  { s with thread := Function.update s.thread t pc }

variable (apply : Op → Data → Data)

def testAndSet (s : State Data Op) (t : Nat) (op : Op) (busy : Pc Data Op) : State Data Op :=
  if s.flag then s.goto t busy
  else { s with flag := true, acquired := s.acquired ++ [op] }.goto t (.entered op)

def threadStep (s : State Data Op) (t : Nat) : Option (State Data Op) :=
  match s.thread t with
  | .outside => none
  | .lock op => some (testAndSet s t op (.pause op))
  | .pause op => some (s.goto t (if s.flag then .pause op else .lock op))
  -- what `try_lock` returns is whether the thread goes in
  | .tryLock op => some (testAndSet s t op .outside)
  | .entered op => some (s.goto t (.holding op s.data))
  | .holding op seen => some ({ s with data := apply op seen, written := s.written ++ [op] }.goto t .unlock)
  | .unlock => some ({ s with flag := false }.goto t .outside)

def spinLock : System (State Data Op) (Input Op) where
  step s
    | .callLock t op =>
      match s.thread t with
      | .outside => some (s.goto t (.lock op))
      | _ => none
    | .callTryLock t op =>
      match s.thread t with
      | .outside => some (s.goto t (.tryLock op))
      | _ => none
    | .go t => threadStep apply s t

structure Held (start : Data) (holder : Option Nat) (s : State Data Op) : Prop where
  flag : s.flag = holder.isSome
  inside : ∀ t, (s.thread t).critical ↔ holder = some t
  current : ∀ t op seen, s.thread t = .holding op seen → seen = s.data
  acquired : s.acquired = s.written ++ holder.elim [] fun t => (s.thread t).pending
  data : s.data = s.written.foldl (fun data op => apply op data) start

section Steps

variable {apply} {start : Data} {holder : Option Nat} {s s' : State Data Op} {t : Nat}

@[simp] theorem thread_goto (u : Nat) (pc : Pc Data Op) :
    (s.goto t pc).thread u = if u = t then pc else s.thread u := by
  simp [State.goto, Function.update_apply]

theorem Held.outside (held : Held apply start holder s) {pc : Pc Data Op} (before : (s.thread t).critical = false)
    (after : pc.critical = false) : Held apply start holder (s.goto t pc) := by
  have other : holder ≠ some t := fun same => by simp [(held.inside t).mpr same] at before
  constructor
  case flag => exact held.flag
  case inside =>
    intro u
    by_cases same : u = t
    · simp [same, after, other]
    · simpa [same] using held.inside u
  case current =>
    intro u op seen holding
    by_cases same : u = t
    · subst same
      simp only [thread_goto, if_true] at holding
      simp [holding, Pc.critical] at after
    · exact held.current u op seen (by simpa [same] using holding)
  case acquired =>
    rw [show (s.goto t pc).acquired = s.acquired from rfl, held.acquired]
    cases holder with
    | none => rfl
    | some u =>
      have distinct : u ≠ t := fun same => other (same ▸ rfl)
      simp [distinct, State.goto]
  case data => exact held.data

theorem Held.enter (held : Held apply start none s) (op : Op) :
    Held apply start (some t) ({ s with flag := true, acquired := s.acquired ++ [op] }.goto t (.entered op)) := by
  have nobody : ∀ u, (s.thread u).critical = false := fun u => by simpa using held.inside u
  constructor
  case flag => rfl
  case inside =>
    intro u
    by_cases same : u = t
    · simp [same, Pc.critical]
    · simp [same, nobody u, Ne.symm same]
  case current =>
    intro u op' seen holding
    by_cases same : u = t
    · simp [same] at holding
    · exact held.current u op' seen (by simpa [same] using holding)
  case acquired => simp [State.goto, Pc.pending, held.acquired]
  case data => exact held.data

theorem testAndSet_held (held : Held apply start holder s) {op : Op} {busy : Pc Data Op}
    (before : (s.thread t).critical = false) (after : busy.critical = false) :
    ∃ holder, Held apply start holder (testAndSet s t op busy) := by
  unfold testAndSet
  split_ifs with taken
  · exact ⟨holder, held.outside before after⟩
  · obtain rfl : holder = none := by simpa [held.flag] using taken
    exact ⟨some t, held.enter op⟩

theorem Held.move (held : Held apply start (some t) s) {pc : Pc Data Op} {data : Data} {written : List Op}
    (critical : pc.critical) (fresh : ∀ op seen, pc = .holding op seen → seen = data)
    (order : s.acquired = written ++ pc.pending)
    (folded : data = written.foldl (fun data op => apply op data) start) :
    Held apply start (some t) ({ s with data := data, written := written }.goto t pc) := by
  constructor
  case flag => exact held.flag
  case inside =>
    intro u
    by_cases same : u = t
    · simp [same, critical]
    · simpa [same] using held.inside u
  case current =>
    intro u op seen holding
    by_cases same : u = t
    · exact fresh op seen (by simpa [same] using holding)
    · have inside := (held.inside u).mp (by simp_all [Pc.critical])
      exact absurd (Option.some.inj inside).symm same
  case acquired => simpa [State.goto] using order
  case data => exact folded

theorem Held.leave (held : Held apply start (some t) s) (written : (s.thread t).pending = []) :
    Held apply start none ({ s with flag := false }.goto t .outside) := by
  have others : ∀ u, u ≠ t → (s.thread u).critical = false := fun u other => by
    simpa [other.symm] using held.inside u
  constructor
  case flag => rfl
  case inside =>
    intro u
    by_cases same : u = t
    · simp [same, Pc.critical]
    · simp [same, others u same]
  case current =>
    intro u op seen holding
    by_cases same : u = t
    · simp [same] at holding
    · exact held.current u op seen (by simpa [same] using holding)
  case acquired => simpa [State.goto, written] using held.acquired
  case data => exact held.data

theorem threadStep_held (held : Held apply start holder s) (taken : threadStep apply s t = some s') :
    ∃ holder, Held apply start holder s' := by
  have own (critical : (s.thread t).critical) : Held apply start (some t) s :=
    (held.inside t).mp critical ▸ held
  cases pc : s.thread t with
  | outside => simp [threadStep, pc] at taken
  | lock op =>
    obtain rfl : testAndSet s t op (.pause op) = s' := by simpa [threadStep, pc] using taken
    exact testAndSet_held held (by simp [pc, Pc.critical]) rfl
  | tryLock op =>
    obtain rfl : testAndSet s t op .outside = s' := by simpa [threadStep, pc] using taken
    exact testAndSet_held held (by simp [pc, Pc.critical]) rfl
  | pause op =>
    obtain rfl : s.goto t (if s.flag then .pause op else .lock op) = s' := by simpa [threadStep, pc] using taken
    exact ⟨holder, held.outside (by simp [pc, Pc.critical]) (by split_ifs <;> rfl)⟩
  | entered op =>
    obtain rfl : s.goto t (.holding op s.data) = s' := by simpa [threadStep, pc] using taken
    have held := own (by simp [pc, Pc.critical])
    refine ⟨some t, held.move rfl (by simp) ?_ held.data⟩
    simpa [pc, Pc.pending] using held.acquired
  | holding op seen =>
    obtain rfl : ({ s with data := apply op seen, written := s.written ++ [op] } : State Data Op).goto t .unlock = s' := by
      simpa [threadStep, pc] using taken
    have held := own (by simp [pc, Pc.critical])
    refine ⟨some t, held.move rfl (by simp) ?_ ?_⟩
    · simpa [pc, Pc.pending] using held.acquired
    · -- what the thread has seen is still the data: nobody else was inside
      rw [held.current t op seen pc, List.foldl_append, ← held.data]
      rfl
  | unlock =>
    obtain rfl : ({ s with flag := false } : State Data Op).goto t .outside = s' := by simpa [threadStep, pc] using taken
    exact ⟨none, (own (by simp [pc, Pc.critical])).leave (by simp [pc, Pc.pending])⟩

theorem step_held {input : Input Op} (held : Held apply start holder s) (taken : (spinLock apply).step s input = some s') :
    ∃ holder, Held apply start holder s' := by
  cases input with
  | go t => exact threadStep_held held taken
  | callLock t op | callTryLock t op =>
    simp only [spinLock] at taken
    split at taken
    · next pc =>
      cases taken
      exact ⟨holder, held.outside (by simp [pc, Pc.critical]) rfl⟩
    · cases taken

theorem reaches_held {inputs : List (Input Op)}
    (reached : (spinLock apply).Reaches (fun _ _ => True) { data := start } inputs s) :
    ∃ holder, Held apply start holder s := by
  apply reached.invariant (P := fun _ s => ∃ holder, Held apply start holder s)
  · exact ⟨none, rfl, by simp [Pc.critical], by simp, rfl, rfl⟩
  · intro inputs input s s' held allowed taken
    obtain ⟨holder, held⟩ := held
    exact step_held held taken

end Steps

/--
No update is lost or made twice: one thread at most is between `lock` and `unlock`, the flag is set exactly then, and the
data is the result of the updates in the order in which their threads got the lock, the last one missing until its thread
has written it.
-/
theorem spin_lock_serializes {start : Data} {inputs : List (Input Op)} {s : State Data Op}
    (reached : (spinLock apply).Reaches (fun _ _ => True) { data := start } inputs s) :
    (∀ t u, (s.thread t).critical → (s.thread u).critical → t = u) ∧ (s.flag ↔ ∃ t, (s.thread t).critical) ∧
      s.data = s.written.foldl (fun data op => apply op data) start ∧
      (s.acquired = s.written ∨ ∃ t op, (s.thread t).pending = [op] ∧ s.acquired = s.written ++ [op]) := by
  obtain ⟨holder, held⟩ := reaches_held reached
  refine ⟨fun t u first second => ?_, ?_, held.data, ?_⟩
  · exact Option.some.inj (((held.inside t).mp first).symm.trans ((held.inside u).mp second))
  · simp [held.flag, held.inside, Option.isSome_iff_exists]
  · cases holder with
    | none => exact .inl (by simpa using held.acquired)
    | some t =>
      have order : s.acquired = s.written ++ (s.thread t).pending := held.acquired
      cases pc : s.thread t
      case entered op | holding op seen => exact .inr ⟨t, op, by simp [pc, Pc.pending], by simpa [pc, Pc.pending] using order⟩
      all_goals exact .inl (by simpa [pc, Pc.pending] using order)

theorem spin_lock_serializes_two :
    ∃ inputs s, (spinLock Nat.add).Reaches (fun _ _ => True) { data := 1 } inputs s ∧ s.acquired = [10, 100] ∧
      s.written = [10] ∧ s.data = [10].foldl (fun data op => Nat.add op data) 1 := by
  -- both threads call `lock`, and the second one sees the flag set before the first one has written
  let inputs : List (Input Nat) := [.callLock 3 10, .callLock 5 100, .go 3, .go 5, .go 3, .go 5, .go 3, .go 3, .go 5,
    .go 5, .go 5]
  have ran : ((spinLock Nat.add).run { data := 1 } inputs).map (fun s => (s.acquired, s.written)) =
      some ([10, 100], [10]) := by decide +kernel
  obtain ⟨s, ran, seen⟩ := Option.map_eq_some_iff.mp ran
  obtain ⟨acquired, written⟩ : s.acquired = [10, 100] ∧ s.written = [10] := by simpa using seen
  have reached := System.reaches_of_run ran
  have serialized := spin_lock_serializes Nat.add reached
  exact ⟨inputs, s, reached, acquired, written, written ▸ serialized.2.2.1⟩

-- The thread gets in by its next steps alone: one more look at the flag, and `test_and_set`.
def Enters (s : State Data Op) (t : Nat) (op : Op) : Prop :=
  ∃ n ≤ 2, ∃ s', (spinLock apply).run s (List.replicate n (.go t)) = some s' ∧ s'.thread t = .entered op

section Progress

variable {s s' : State Data Op} {t u : Nat}

theorem enters_when_free {op : Op} (free : s.flag = false) (waits : (s.thread t).waits = some op) :
    Enters apply s t op := by
  cases pc : s.thread t with
  | lock op' =>
    obtain rfl : op' = op := by simpa [pc, Pc.waits] using waits
    refine ⟨1, by omega, ?_⟩
    simp [System.run, spinLock, threadStep, pc, testAndSet, free]
  | pause op' =>
    obtain rfl : op' = op := by simpa [pc, Pc.waits] using waits
    refine ⟨2, Nat.le_refl _, ?_⟩
    simp [System.run, spinLock, threadStep, pc, testAndSet, free, State.goto]
  | _ => simp [pc, Pc.waits] at waits

theorem leaves (critical : (s.thread u).critical) :
    ∃ n s', (spinLock apply).run s (List.replicate n (.go u)) = some s' ∧ s'.thread u = .outside := by
  cases pc : s.thread u with
  | entered op => exact ⟨3, by simp [System.run, spinLock, threadStep, pc, State.goto]⟩
  | holding op seen => exact ⟨2, by simp [System.run, spinLock, threadStep, pc, State.goto]⟩
  | unlock => exact ⟨1, by simp [System.run, spinLock, threadStep, pc, State.goto]⟩
  | _ => simp [pc, Pc.critical] at critical

-- A thread that was inside: it still is, or it has given the lock back.
def Inside (s : State Data Op) (u : Nat) : Prop :=
  (s.thread u).critical ∨ s.thread u = .outside ∧ s.flag = false

theorem threadStep_inside (inside : Inside s u) (taken : threadStep apply s u = some s') :
    Inside s' u ∧ ∀ v, v ≠ u → s'.thread v = s.thread v := by
  unfold threadStep at taken
  rcases inside with critical | ⟨outside, -⟩
  · cases pc : s.thread u <;> simp only [pc, Pc.critical, Bool.false_eq_true] at critical <;> simp only [pc] at taken <;>
      cases taken <;> refine ⟨?_, fun v other => by simp [other]⟩ <;> simp [Inside, Pc.critical, State.goto]
  · simp [outside] at taken

theorem run_inside {n : Nat} (inside : Inside s u)
    (ran : (spinLock apply).run s (List.replicate n (.go u)) = some s') :
    Inside s' u ∧ ∀ v, v ≠ u → s'.thread v = s.thread v := by
  induction n generalizing s with
  | zero =>
    cases ran
    exact ⟨inside, fun _ _ => rfl⟩
  | succ n ih =>
    obtain ⟨s₁, taken, ran⟩ := Option.bind_eq_some_iff.mp ran
    obtain ⟨inside₁, same⟩ := threadStep_inside apply inside taken
    obtain ⟨inside', others⟩ := ih inside₁ ran
    exact ⟨inside', fun v other => (others v other).trans (same v other)⟩

end Progress

/--
A thread in `lock` is never stuck. If the lock is free it gets in by its own next steps; otherwise one other thread is
inside, which waits for nothing, and once it has left by its own steps the waiting thread gets in by its own.
-/
theorem spin_lock_never_stuck {start : Data} {inputs : List (Input Op)} {s : State Data Op} {t : Nat} {op : Op}
    (reached : (spinLock apply).Reaches (fun _ _ => True) { data := start } inputs s)
    (waits : (s.thread t).waits = some op) :
    Enters apply s t op ∨
    ∃ u, (s.thread u).critical ∧
      (∃ n s', (spinLock apply).run s (List.replicate n (.go u)) = some s' ∧ s'.thread u = .outside) ∧
      ∀ n s', (spinLock apply).run s (List.replicate n (.go u)) = some s' → s'.thread u = .outside →
        Enters apply s' t op := by
  obtain ⟨holder, held⟩ := reaches_held reached
  cases holder with
  | none => exact .inl (enters_when_free apply held.flag waits)
  | some u =>
    have critical := (held.inside u).mpr rfl
    have other : t ≠ u := by
      rintro rfl
      cases pc : s.thread t <;> simp_all [Pc.critical, Pc.waits]
    refine .inr ⟨u, critical, leaves apply critical, fun n s' ran left => ?_⟩
    obtain ⟨inside, others⟩ := run_inside apply (.inl critical) ran
    have free : s'.flag = false := by
      rcases inside with critical | ⟨-, free⟩
      · simp [left, Pc.critical] at critical
      · exact free
    exact enters_when_free apply free ((others t other).symm ▸ waits)

theorem spin_lock_never_stuck_pausing :
    ∃ (s : State Nat Nat), s.thread 5 = .pause 100 ∧ (Enters Nat.add s 5 100 ∨
      ∃ u, (s.thread u).critical ∧
        (∃ n s', (spinLock Nat.add).run s (List.replicate n (.go u)) = some s' ∧ s'.thread u = .outside) ∧
        ∀ n s', (spinLock Nat.add).run s (List.replicate n (.go u)) = some s' → s'.thread u = .outside →
          Enters Nat.add s' 5 100) := by
  let inputs : List (Input Nat) := [.callLock 3 10, .callLock 5 100, .go 3, .go 5]
  have ran : ((spinLock Nat.add).run { data := 1 } inputs).map (fun s => s.thread 5) = some (.pause 100) := by
    decide +kernel
  obtain ⟨s, ran, pausing⟩ := Option.map_eq_some_iff.mp ran
  exact ⟨s, pausing, spin_lock_never_stuck Nat.add (System.reaches_of_run ran) (by simp [pausing, Pc.waits])⟩

end Dracon.SpinLock
