import Mathlib.Data.List.Chain
import Dracon.Shared.StepSystem

set_option autoImplicit false

namespace Dracon.SimpleTimer

open Shared

-- `m_lock` is only ever taken by the thread of the timer: it protects nothing and is left out.
inductive Pc where
  -- in front of `wait_for`
  | start
  -- the predicate, at the head of the loop of `wait_for`
  | evaluate (deadline : Nat)
  -- the predicate was false, and the thread does not wait yet
  | block (deadline : Nat)
  | blocked (deadline : Nat)
  -- notified, or awake for no reason
  | woken (deadline : Nat)
  -- the predicate once more, when the time is over
  | expired
  | callback
  | running
  -- `if (single_shot)`
  | returned
  | done
  deriving DecidableEq

inductive DestructorPc where
  | alive
  | quitStored
  | notified
  | joined
  deriving DecidableEq

structure State where
  quit : Bool := false
  clock : Nat := 0
  worker : Pc := .start
  destructor : DestructorPc := .alive
  -- the times at which the callback was called
  calls : List Nat := []
  -- how many calls there had been when the destructor stored `m_quit`
  callsAtQuit : Option Nat := none
  deriving DecidableEq

variable (timeout : Nat) (singleShot : Bool)

-- The next step of the thread, which has none while it waits for the time or for a notification.
def workerStep (s : State) : Option State :=
  match s.worker with
  | .start => some { s with worker := .evaluate (s.clock + timeout) }
  | .evaluate deadline => some { s with worker := if s.quit then .done else .block deadline }
  | .block deadline => some { s with worker := .blocked deadline }
  | .blocked deadline => if deadline ≤ s.clock then some { s with worker := .expired } else none
  -- a wait that ends in time goes round the loop again
  | .woken deadline => some { s with worker := if deadline ≤ s.clock then .expired else .evaluate deadline }
  | .expired => some { s with worker := if s.quit then .done else .callback }
  | .callback => some { s with calls := s.calls ++ [s.clock], worker := .running }
  | .running => some { s with worker := .returned }
  | .returned => some { s with quit := s.quit || singleShot, worker := .start }
  | .done => none

def State.wake (s : State) : State :=
  match s.worker with
  | .blocked deadline => { s with worker := .woken deadline }
  | _ => s

inductive Input where
  | work
  -- a wakeup without a notification
  | wake
  | pass (time : Nat)
  | storeQuit
  | notifyOne
  | join
  deriving DecidableEq

def simpleTimer : System State Input where
  step s
    | .work => workerStep timeout singleShot s
    | .wake => some s.wake
    | .pass time => some { s with clock := s.clock + time }
    | .storeQuit =>
      if s.destructor = .alive then
        some { s with quit := true, destructor := .quitStored, callsAtQuit := some s.calls.length }
      else none
    | .notifyOne => if s.destructor = .quitStored then some { s.wake with destructor := .notified } else none
    | .join =>
      if s.destructor = .notified ∧ s.worker = .done then some { s with destructor := .joined } else none

def Pc.Paced (timeout last clock : Nat) : Pc → Prop
  | .evaluate deadline | .block deadline | .blocked deadline | .woken deadline =>
    last + timeout ≤ deadline ∧ deadline ≤ clock + timeout
  | .expired | .callback => last + timeout ≤ clock
  | .start | .running | .returned | .done => last ≤ clock

structure Ticking (s : State) : Prop where
  spaced : (0 :: s.calls).IsChain fun earlier later => earlier + timeout ≤ later
  -- the first wait counts from the time the timer was made
  paced : s.worker.Paced timeout (s.calls.getLastD 0) s.clock
  stored : s.callsAtQuit.isSome = (s.destructor != .alive)
  -- the call that was about to be made when the destructor came
  late : ∀ n ∈ s.callsAtQuit, s.quit ∧ n ≤ s.calls.length ∧ s.calls.length ≤ n + 1 ∧
    (s.worker = .callback → s.calls.length = n)
  once : singleShot → s.calls = [] ∨ s.calls.length = 1 ∧
    (s.worker = .running ∨ s.worker = .returned ∨ s.quit ∧ s.worker ≠ .callback)
  joined : s.destructor = .joined → s.worker = .done

section Steps

variable {timeout} {singleShot} {s s' : State}

theorem Ticking.move (ticking : Ticking timeout singleShot s) {pc : Pc} (before : s.worker ≠ .running ∧ s.worker ≠ .returned)
    (waiting : s.worker ≠ .done) (paced : pc.Paced timeout (s.calls.getLastD 0) s.clock) (calls : pc = .callback → s.quit = false) :
    Ticking timeout singleShot { s with worker := pc } where
  spaced := ticking.spaced
  paced := paced
  stored := ticking.stored
  late n mem := by
    obtain ⟨quit, least, most, -⟩ := ticking.late n mem
    exact ⟨quit, least, most, fun called => by simp [calls called] at quit⟩
  once single := by
    rcases ticking.once single with none | ⟨one, running | returned | ⟨quit, -⟩⟩
    · exact .inl none
    · exact absurd running before.1
    · exact absurd returned before.2
    · exact .inr ⟨one, .inr (.inr ⟨quit, fun called => by simp [calls called] at quit⟩)⟩
  joined joined := absurd (ticking.joined joined) waiting

theorem Ticking.call (ticking : Ticking timeout singleShot s) (called : s.worker = .callback) :
    Ticking timeout singleShot { s with calls := s.calls ++ [s.clock], worker := .running } := by
  have due : s.calls.getLastD 0 + timeout ≤ s.clock := by simpa [Pc.Paced, called] using ticking.paced
  constructor
  case spaced =>
    rw [← List.cons_append]
    apply List.isChain_append.mpr ⟨ticking.spaced, List.isChain_singleton _, ?_⟩
    simpa [List.getLast?_cons] using due
  case paced => simp [Pc.Paced]
  case stored => exact ticking.stored
  case late =>
    intro n mem
    obtain ⟨quit, -, -, first⟩ := ticking.late n mem
    simp [quit, first called]
  case once =>
    intro single
    rcases ticking.once single with none | ⟨-, running | returned | ⟨-, other⟩⟩
    · simp [none]
    · simp [called] at running
    · simp [called] at returned
    · exact absurd called other
  case joined =>
    intro joined
    have finished := ticking.joined joined
    simp [called] at finished

theorem workerStep_ticking (ticking : Ticking timeout singleShot s) (taken : workerStep timeout singleShot s = some s') :
    Ticking timeout singleShot s' := by
  have paced := ticking.paced
  cases pc : s.worker with
  | start =>
    obtain rfl : { s with worker := .evaluate (s.clock + timeout) } = s' := by simpa [workerStep, pc] using taken
    have : s.calls.getLastD 0 ≤ s.clock := by simpa [Pc.Paced, pc] using paced
    exact ticking.move (by simp [pc]) (by simp [pc]) (by simpa [Pc.Paced] using this) (by simp)
  | evaluate deadline =>
    obtain rfl : { s with worker := if s.quit then .done else .block deadline } = s' := by
      simpa [workerStep, pc] using taken
    obtain ⟨whole, soon⟩ : s.calls.getLastD 0 + timeout ≤ deadline ∧ deadline ≤ s.clock + timeout := by
      simpa [Pc.Paced, pc] using paced
    apply ticking.move (by simp [pc]) (by simp [pc])
    · cases s.quit
      · exact ⟨whole, soon⟩
      · exact show s.calls.getLastD 0 ≤ s.clock by omega
    · cases s.quit <;> simp
  | block deadline =>
    obtain rfl : { s with worker := .blocked deadline } = s' := by simpa [workerStep, pc] using taken
    exact ticking.move (by simp [pc]) (by simp [pc]) (by simpa [Pc.Paced, pc] using paced) (by simp)
  | blocked deadline =>
    obtain ⟨due, rfl⟩ : deadline ≤ s.clock ∧ { s with worker := .expired } = s' := by
      simpa [workerStep, pc] using taken
    obtain ⟨whole, -⟩ : s.calls.getLastD 0 + timeout ≤ deadline ∧ deadline ≤ s.clock + timeout := by
      simpa [Pc.Paced, pc] using paced
    exact ticking.move (by simp [pc]) (by simp [pc]) (whole.trans due) (by simp)
  | woken deadline =>
    obtain rfl : { s with worker := if deadline ≤ s.clock then .expired else .evaluate deadline } = s' := by
      simpa [workerStep, pc] using taken
    obtain ⟨whole, soon⟩ : s.calls.getLastD 0 + timeout ≤ deadline ∧ deadline ≤ s.clock + timeout := by
      simpa [Pc.Paced, pc] using paced
    apply ticking.move (by simp [pc]) (by simp [pc])
    · split_ifs with due
      · exact whole.trans due
      · exact ⟨whole, soon⟩
    · split_ifs <;> simp
  | expired =>
    obtain rfl : { s with worker := if s.quit then .done else .callback } = s' := by simpa [workerStep, pc] using taken
    have due : s.calls.getLastD 0 + timeout ≤ s.clock := by simpa [Pc.Paced, pc] using paced
    apply ticking.move (by simp [pc]) (by simp [pc])
    · cases s.quit
      · exact due
      · exact show s.calls.getLastD 0 ≤ s.clock by omega
    · cases s.quit <;> simp
  | callback =>
    obtain rfl : { s with calls := s.calls ++ [s.clock], worker := .running } = s' := by
      simpa [workerStep, pc] using taken
    exact ticking.call pc
  | running =>
    obtain rfl : { s with worker := .returned } = s' := by simpa [workerStep, pc] using taken
    constructor
    case spaced => exact ticking.spaced
    case paced => simpa [Pc.Paced, pc] using paced
    case stored => exact ticking.stored
    case late =>
      intro n mem
      obtain ⟨quit, least, most, -⟩ := ticking.late n mem
      exact ⟨quit, least, most, by simp⟩
    case once =>
      intro single
      exact (ticking.once single).imp id fun one => ⟨one.1, .inr (.inl rfl)⟩
    case joined =>
      intro joined
      simpa [pc] using ticking.joined joined
  | returned =>
    obtain rfl : { s with quit := s.quit || singleShot, worker := .start } = s' := by
      simpa [workerStep, pc] using taken
    constructor
    case spaced => exact ticking.spaced
    case paced => simpa [Pc.Paced, pc] using paced
    case stored => exact ticking.stored
    case late =>
      intro n mem
      obtain ⟨quit, least, most, -⟩ := ticking.late n mem
      exact ⟨by simp [quit], least, most, by simp⟩
    case once =>
      intro single
      exact (ticking.once single).imp id fun one => ⟨one.1, .inr (.inr ⟨by simp [single], by simp⟩)⟩
    case joined =>
      intro joined
      simpa [pc] using ticking.joined joined
  | done => simp [workerStep, pc] at taken

theorem Ticking.wake (ticking : Ticking timeout singleShot s) : Ticking timeout singleShot s.wake := by
  cases pc : s.worker with
  | blocked deadline =>
    rw [show s.wake = { s with worker := .woken deadline } by simp [State.wake, pc]]
    have paced := ticking.paced
    exact ticking.move (by simp [pc]) (by simp [pc]) (by simpa [Pc.Paced, pc] using paced) (by simp)
  | _ =>
    rw [show s.wake = s by simp [State.wake, pc]]
    exact ticking

theorem wake_calls : s.wake.calls = s.calls ∧ s.wake.callsAtQuit = s.callsAtQuit ∧ s.wake.quit = s.quit := by
  unfold State.wake
  split <;> exact ⟨rfl, rfl, rfl⟩

theorem step_ticking {input : Input} (ticking : Ticking timeout singleShot s)
    (taken : (simpleTimer timeout singleShot).step s input = some s') : Ticking timeout singleShot s' := by
  cases input with
  | work => exact workerStep_ticking ticking taken
  | wake =>
    cases taken
    exact ticking.wake
  | pass time =>
    cases taken
    refine { ticking with paced := ?_ }
    have paced := ticking.paced
    cases pc : s.worker <;> simp only [pc, Pc.Paced] at paced ⊢ <;> omega
  | storeQuit =>
    obtain ⟨alive, rfl⟩ : s.destructor = .alive ∧ _ = s' := by simpa [simpleTimer] using taken
    constructor
    case spaced => exact ticking.spaced
    case paced => exact ticking.paced
    case stored => rfl
    case late => simp
    case once =>
      intro single
      rcases ticking.once single with none | ⟨one, running | returned | ⟨-, other⟩⟩
      · exact .inl none
      · exact .inr ⟨one, .inl running⟩
      · exact .inr ⟨one, .inr (.inl returned)⟩
      · exact .inr ⟨one, .inr (.inr ⟨rfl, other⟩)⟩
    case joined => simp
  | notifyOne =>
    simp only [simpleTimer, Option.ite_none_right_eq_some, Option.some.injEq] at taken
    obtain ⟨stored, rfl⟩ := taken
    have kept : s.wake.callsAtQuit.isSome := by simp [wake_calls, ticking.stored, stored]
    exact { ticking.wake with stored := kept, joined := by simp }
  | join =>
    obtain ⟨⟨notified, finished⟩, rfl⟩ : (s.destructor = .notified ∧ s.worker = .done) ∧ _ = s' := by
      simpa [simpleTimer] using taken
    exact { ticking with stored := by simp only [ticking.stored, notified]; rfl, joined := fun _ => finished }

theorem reaches_ticking {inputs : List Input}
    (reached : (simpleTimer timeout singleShot).Reaches (fun _ _ => True) {} inputs s) : Ticking timeout singleShot s := by
  apply reached.invariant (P := fun _ s => Ticking timeout singleShot s)
  · exact ⟨List.isChain_singleton _, Nat.le_refl _, rfl, by simp, by simp, by simp⟩
  · intro inputs input s s' ticking allowed taken
    exact step_ticking ticking taken

theorem done_stays {input : Input} (finished : s.worker = .done)
    (taken : (simpleTimer timeout singleShot).step s input = some s') : s'.worker = .done ∧ s'.calls = s.calls := by
  have asleep : s.wake = s := by simp [State.wake, finished]
  cases input with
  | work => simp [simpleTimer, workerStep, finished] at taken
  | wake | pass =>
    cases taken
    simp [asleep, finished]
  | storeQuit | notifyOne | join =>
    simp only [simpleTimer, Option.ite_none_right_eq_some, Option.some.injEq] at taken
    obtain ⟨-, rfl⟩ := taken
    simp [asleep, finished]

theorem run_done {more : List Input} (finished : s.worker = .done)
    (ran : (simpleTimer timeout singleShot).run s more = some s') : s'.calls = s.calls := by
  induction more generalizing s with
  | nil =>
    cases ran
    rfl
  | cons input more ih =>
    obtain ⟨next, taken, ran⟩ := Option.bind_eq_some_iff.mp ran
    obtain ⟨still, same⟩ := done_stays finished taken
    rw [ih still ran, same]

end Steps

/--
The callback is called at most once per timeout, the first time a timeout after the timer was made, and once altogether
when the timer is a single shot. After the destructor has stored `m_quit` one more call is made at most, and once it has
joined the thread the callback neither runs nor is it called again.
-/
theorem timer_calls_paced (timeout : Nat) (singleShot : Bool) {inputs : List Input} {s : State}
    (reached : (simpleTimer timeout singleShot).Reaches (fun _ _ => True) {} inputs s) :
    (0 :: s.calls).IsChain (fun earlier later => earlier + timeout ≤ later) ∧ (singleShot → s.calls.length ≤ 1) ∧
      (∀ n ∈ s.callsAtQuit, s.calls.length ≤ n + 1) ∧
      (s.destructor = .joined → s.worker ≠ .running ∧
        ∀ more s', (simpleTimer timeout singleShot).run s more = some s' → s'.calls = s.calls) := by
  have ticking := reaches_ticking reached
  refine ⟨ticking.spaced, fun single => ?_, fun n mem => (ticking.late n mem).2.2.1, fun joined => ?_⟩
  · rcases ticking.once single with none | ⟨one, -⟩
    · simp [none]
    · exact one.le
  · have finished := ticking.joined joined
    exact ⟨by simp [finished], fun more s' ran => run_done finished ran⟩

theorem timer_calls_paced_late :
    ∃ s, (∃ inputs, (simpleTimer 60 false).Reaches (fun _ _ => True) {} inputs s) ∧ s.destructor = .joined ∧
      s.calls = [60, 121] ∧ s.callsAtQuit = some 1 ∧ (0 :: s.calls).IsChain fun earlier later => earlier + 60 ≤ later := by
  let inputs : List Input := [.work, .work, .work, .pass 60, .work, .work, .work, .pass 1, .work, .work, .work, .work, .work,
    .pass 60, .work, .work, .storeQuit, .work, .notifyOne, .work, .work, .work, .work, .join]
  have ran : ((simpleTimer 60 false).run {} inputs).map (fun s => (s.destructor, s.calls, s.callsAtQuit)) =
      some (.joined, [60, 121], some 1) := by decide +kernel
  obtain ⟨s, ran, seen⟩ := Option.map_eq_some_iff.mp ran
  obtain ⟨joined, calls, stored⟩ : s.destructor = .joined ∧ s.calls = [60, 121] ∧ s.callsAtQuit = some 1 := by
    simpa using seen
  have reached := System.reaches_of_run ran
  exact ⟨s, ⟨inputs, reached⟩, joined, calls, stored, (timer_calls_paced 60 false reached).1⟩

def Pc.toEnd : Pc → Nat
  | .done => 0
  | .evaluate _ | .expired => 1
  | .start | .woken _ => 2
  | .blocked _ | .returned => 3
  | .block _ | .running => 4
  | .callback => 5

section Joining

variable {timeout : Nat} {singleShot : Bool} {s s' : State}

theorem step_toEnd {input : Input} (quit : s.quit)
    (taken : (simpleTimer timeout singleShot).step s input = some s') :
    s'.quit ∧ (if input = .work then 1 else 0) + s'.worker.toEnd ≤ s.worker.toEnd := by
  have woken : s.wake.quit ∧ s.wake.worker.toEnd ≤ s.worker.toEnd := by
    unfold State.wake
    split
    next pc => simp [pc, quit, Pc.toEnd]
    next => exact ⟨quit, Nat.le_refl _⟩
  cases input with
  | work =>
    replace taken : workerStep timeout singleShot s = some s' := taken
    cases pc : s.worker with
    | done => simp [workerStep, pc] at taken
    | blocked deadline =>
      obtain ⟨-, rfl⟩ : deadline ≤ s.clock ∧ _ = s' := by simpa [workerStep, pc] using taken
      simp [quit, Pc.toEnd]
    | woken deadline =>
      obtain rfl : _ = s' := by simpa [workerStep, pc] using taken
      split_ifs <;> simp [quit, Pc.toEnd]
    | _ =>
      obtain rfl : _ = s' := by simpa [workerStep, pc, quit] using taken
      simp [Pc.toEnd]
  | wake =>
    cases taken
    simpa using woken
  | pass =>
    cases taken
    simpa using quit
  | storeQuit | join =>
    simp only [simpleTimer, Option.ite_none_right_eq_some, Option.some.injEq] at taken
    obtain ⟨-, rfl⟩ := taken
    simp [quit]
  | notifyOne =>
    simp only [simpleTimer, Option.ite_none_right_eq_some, Option.some.injEq] at taken
    obtain ⟨-, rfl⟩ := taken
    simpa using woken

theorem run_toEnd {more : List Input} (quit : s.quit) (ran : (simpleTimer timeout singleShot).run s more = some s') :
    more.count .work + s'.worker.toEnd ≤ s.worker.toEnd := by
  induction more generalizing s with
  | nil =>
    cases ran
    simp
  | cons input more ih =>
    obtain ⟨next, taken, ran⟩ := Option.bind_eq_some_iff.mp ran
    obtain ⟨still, closer⟩ := step_toEnd quit taken
    have rest := ih still ran
    rw [List.count_cons]
    simp only [beq_iff_eq]
    omega

end Joining

/--
The destructor never waits for ever, and a notification that comes too early only delays it: once `m_quit` is set the
thread takes at most five more steps, whatever else happens, and until it has ended it can take one as soon as another
timeout is over.
-/
theorem timer_destructor_ends (timeout : Nat) (singleShot : Bool) {inputs more : List Input} {s s' : State}
    (reached : (simpleTimer timeout singleShot).Reaches (fun _ _ => True) {} inputs s) (quit : s.quit)
    (ran : (simpleTimer timeout singleShot).run s more = some s') :
    more.count .work ≤ 5 ∧
      (s'.worker ≠ .done → ((simpleTimer timeout singleShot).run s' [.pass timeout, .work]).isSome) := by
  have paced := (reaches_ticking (reached.extend (fun _ _ _ => trivial) ran)).paced
  refine ⟨?_, fun unfinished => ?_⟩
  · have bound : s.worker.toEnd ≤ 5 := by cases s.worker <;> simp [Pc.toEnd]
    have steps := run_toEnd quit ran
    omega
  · cases pc : s'.worker with
    | done => exact absurd pc unfinished
    | blocked deadline =>
      rw [pc] at paced
      have soon : deadline ≤ s'.clock + timeout := paced.2
      simp [System.run, simpleTimer, workerStep, pc, soon]
    | _ => simp [System.run, simpleTimer, workerStep, pc]

theorem timer_destructor_ends_missed :
    ∃ s s' : State, s.quit ∧ s'.destructor = .notified ∧ s'.worker = .blocked 60 ∧
      ((simpleTimer 60 false).run s' [.pass 60, .work]).isSome := by
  let stored : State := { quit := true, worker := .block 60, destructor := .quitStored, callsAtQuit := some 0 }
  let missed : State := { stored with worker := .blocked 60, destructor := .notified }
  have ran : (simpleTimer 60 false).run {} [.work, .work, .storeQuit] = some stored := by decide +kernel
  have notified : (simpleTimer 60 false).run stored [.notifyOne, .work] = some missed := by decide +kernel
  exact ⟨stored, missed, rfl, rfl, rfl,
    (timer_destructor_ends 60 false (System.reaches_of_run ran) rfl notified).2 (by decide)⟩

end Dracon.SimpleTimer
