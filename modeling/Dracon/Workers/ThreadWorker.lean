import Mathlib
import Dracon.Shared.StepSystem

set_option autoImplicit false

namespace Dracon.ThreadWorker

open Shared

-- the constructor starts at least one thread
abbrev Worker (workers : Nat) := Fin (max 1 workers)

def Worker.first {workers : Nat} : Worker workers := ⟨0, by omega⟩

inductive WorkerPc (Task : Type) where
  -- `while (!m_quit)`
  | loop
  | lock
  | evaluate
  -- the predicate was false, and the thread is not in the queue of the condition yet
  | block
  | blocked
  -- notified, or awake for no reason
  | woken
  -- `if (m_quit)`
  | recheck
  | copy
  | pop (task : Task)
  | unlock (task : Option Task)
  | run (task : Task)
  | done
  deriving DecidableEq

def WorkerPc.isBlocked {Task : Type} : WorkerPc Task → Bool
  | .blocked => true
  | _ => false

@[simp] theorem WorkerPc.isBlocked_iff {Task : Type} {pc : WorkerPc Task} : pc.isBlocked ↔ pc = .blocked := by
  cases pc <;> simp [isBlocked]

def WorkerPc.critical {Task : Type} : WorkerPc Task → Bool
  | .evaluate | .block | .recheck | .copy | .pop _ | .unlock _ => true
  | .loop | .lock | .blocked | .woken | .run _ | .done => false

inductive InserterPc (Task : Type) where
  | idle
  | lock (task : Task)
  | push (task : Task)
  | notify
  | unlock
  deriving DecidableEq

def InserterPc.critical {Task : Type} : InserterPc Task → Bool
  | .push _ | .notify | .unlock => true
  | .idle | .lock _ => false

inductive DestructorPc where
  | alive
  | quitStored
  | notified
  | joined
  deriving DecidableEq

inductive Owner (workers : Nat) where
  | worker (i : Worker workers)
  | inserter (j : Nat)
  deriving DecidableEq

structure State (Task : Type) (workers : Nat) where
  quit : Bool := false
  pendingTasks : List Task := []
  mutex : Option (Owner workers) := none
  worker : Worker workers → WorkerPc Task := fun _ => .loop
  inserter : Nat → InserterPc Task := fun _ => .idle
  destructor : DestructorPc := .alive
  -- what has been pushed and what has been popped, oldest first
  inserted : List Task := []
  taken : List Task := []

variable {Task : Type} {workers : Nat}

def State.goto (s : State Task workers) (i : Worker workers) (pc : WorkerPc Task) : State Task workers :=
  { s with worker := Function.update s.worker i pc }

def State.gotoInsert (s : State Task workers) (j : Nat) (pc : InserterPc Task) : State Task workers :=
  { s with inserter := Function.update s.inserter j pc }

-- The next step of a worker; `throws` tells whether the copy of the task, or the task, throws.
def workerStep (s : State Task workers) (i : Worker workers) (throws : Bool) : Option (State Task workers) :=
  match s.worker i with
  | .loop => some (s.goto i (if s.quit then .done else .lock))
  | .lock | .woken =>
    if s.mutex = none then some ({ s with mutex := some (.worker i) }.goto i .evaluate) else none
  | .evaluate => some (s.goto i (if s.quit || !s.pendingTasks.isEmpty then .recheck else .block))
  -- unlocking and blocking is one step of `wait`
  | .block => some ({ s with mutex := none }.goto i .blocked)
  | .blocked => none
  | .recheck => some (s.goto i (if s.quit then .unlock none else .copy))
  | .copy =>
    match s.pendingTasks with
    | [] => none
    | task :: _ => some (s.goto i (if throws then .unlock none else .pop task))
  | .pop task =>
    some ({ s with pendingTasks := s.pendingTasks.tail, taken := s.taken ++ [task] }.goto i (.unlock (some task)))
  | .unlock none => some ({ s with mutex := none }.goto i .loop)
  | .unlock (some task) => some ({ s with mutex := none }.goto i (.run task))
  -- what a task throws is caught
  | .run _ => some (s.goto i .loop)
  | .done => none

-- The next step of `insert_task`. `notify_one` wakes one of the blocked workers, if there is one.
def inserterStep (s : State Task workers) (j : Nat) (chosen : Option (Worker workers)) (throws : Bool) :
    Option (State Task workers) :=
  match s.inserter j with
  | .idle => none
  | .lock task =>
    if s.mutex = none then some ({ s with mutex := some (.inserter j) }.gotoInsert j (.push task)) else none
  | .push task =>
    if throws then some (s.gotoInsert j .unlock)
    else some ({ s with pendingTasks := s.pendingTasks ++ [task], inserted := s.inserted ++ [task] }.gotoInsert j
      .notify)
  | .notify =>
    match chosen with
    | some i => if (s.worker i).isBlocked then some ((s.goto i .woken).gotoInsert j .unlock) else none
    | none => if ∀ i, !(s.worker i).isBlocked then some (s.gotoInsert j .unlock) else none
  | .unlock => some ({ s with mutex := none }.gotoInsert j .idle)

inductive Input (Task : Type) (workers : Nat) where
  | work (i : Worker workers) (throws : Bool)
  -- a wakeup without a notification
  | wake (i : Worker workers)
  | insertTask (j : Nat) (task : Task)
  | insert (j : Nat) (chosen : Option (Worker workers)) (throws : Bool)
  | storeQuit
  | notifyAll
  | join
  deriving DecidableEq

def step (s : State Task workers) : Input Task workers → Option (State Task workers)
  | .work i throws => workerStep s i throws
  | .wake i => if (s.worker i).isBlocked then some (s.goto i .woken) else none
  | .insertTask j task =>
    match s.inserter j with
    | .idle => some (s.gotoInsert j (.lock task))
    | _ => none
  | .insert j chosen throws => inserterStep s j chosen throws
  | .storeQuit => if s.destructor = .alive then some { s with quit := true, destructor := .quitStored } else none
  | .notifyAll =>
    if s.destructor = .quitStored then
      some { s with
        worker := fun i => if (s.worker i).isBlocked then .woken else s.worker i
        destructor := .notified }
    else none
  | .join =>
    if s.destructor = .notified ∧ ∀ i, s.worker i matches .done then some { s with destructor := .joined } else none

def threadWorker (Task : Type) (workers : Nat) : System (State Task workers) (Input Task workers) := ⟨step⟩

structure Guarded (s : State Task workers) : Prop where
  worker_owns : ∀ i, (s.worker i).critical → s.mutex = some (.worker i)
  inserter_owns : ∀ j, (s.inserter j).critical → s.mutex = some (.inserter j)
  -- a worker goes to sleep, and takes a task, on what it has seen in the queue
  block_empty : ∀ i, s.worker i = .block → s.pendingTasks = []
  pop_front : ∀ i task, s.worker i = .pop task → s.pendingTasks.head? = some task
  history : s.inserted = s.taken ++ s.pendingTasks
  awake : s.pendingTasks ≠ [] → (∃ j, s.inserter j = .notify) ∨ ∃ i, s.worker i ≠ .blocked

namespace Guarded

variable {s : State Task workers}

theorem move (guarded : Guarded s) {i : Worker workers} {pc : WorkerPc Task} {mutex : Option (Owner workers)}
    (owns : pc.critical → mutex = some (.worker i))
    (others : ∀ owner, owner ≠ .worker i → s.mutex = some owner → mutex = some owner)
    (blocks : pc = .block ∨ pc = .blocked → s.pendingTasks = [])
    (pops : ∀ task, pc = .pop task → s.pendingTasks.head? = some task) :
    Guarded ({ s with mutex := mutex }.goto i pc) where
  worker_owns k critical := by
    by_cases same : k = i
    · subst same
      exact owns (by simpa [State.goto] using critical)
    · exact others _ (by simp [same]) (guarded.worker_owns k (by simpa [State.goto, same] using critical))
  inserter_owns j critical := others _ (by simp) (guarded.inserter_owns j critical)
  block_empty k block := by
    by_cases same : k = i
    · subst same
      exact blocks (.inl (by simpa [State.goto] using block))
    · exact guarded.block_empty k (by simpa [State.goto, same] using block)
  pop_front k task pop := by
    by_cases same : k = i
    · subst same
      exact pops task (by simpa [State.goto] using pop)
    · exact guarded.pop_front k task (by simpa [State.goto, same] using pop)
  history := guarded.history
  awake filled := by
    refine .inr ⟨i, fun asleep => filled (blocks (.inr ?_))⟩
    simpa [State.goto] using asleep

theorem goto (guarded : Guarded s) {i : Worker workers} {pc : WorkerPc Task} (same : pc.critical = (s.worker i).critical)
    (blocks : pc = .block ∨ pc = .blocked → s.pendingTasks = [])
    (pops : ∀ task, pc = .pop task → s.pendingTasks.head? = some task) : Guarded (s.goto i pc) :=
  guarded.move (fun critical => guarded.worker_owns i (same ▸ critical)) (fun _ _ => id) blocks pops

theorem acquire (guarded : Guarded s) {i : Worker workers} (free : s.mutex = none) :
    Guarded ({ s with mutex := some (.worker i) }.goto i .evaluate) :=
  guarded.move (fun _ => rfl) (by simp [free]) (by simp) (by simp)

theorem release (guarded : Guarded s) {i : Worker workers} {pc : WorkerPc Task} (held : (s.worker i).critical)
    (outside : pc.critical = false) (blocks : pc = .blocked → s.pendingTasks = []) :
    Guarded ({ s with mutex := none }.goto i pc) := by
  have owned := guarded.worker_owns i held
  refine guarded.move (by simp [outside]) ?_ ?_ ?_
  · intro owner other held
    exact absurd (Option.some_inj.mp (held.symm.trans owned)) other
  · rintro (rfl | asleep)
    · simp [WorkerPc.critical] at outside
    · exact blocks asleep
  · rintro task rfl
    simp [WorkerPc.critical] at outside

theorem moveInsert (guarded : Guarded s) {j : Nat} {pc : InserterPc Task} {mutex : Option (Owner workers)}
    (owns : pc.critical → mutex = some (.inserter j))
    (others : ∀ owner, owner ≠ .inserter j → s.mutex = some owner → mutex = some owner)
    (notified : s.inserter j = .notify → ∃ i, s.worker i ≠ .blocked) :
    Guarded ({ s with mutex := mutex }.gotoInsert j pc) where
  worker_owns i critical := others _ (by simp) (guarded.worker_owns i critical)
  inserter_owns k critical := by
    by_cases same : k = j
    · subst same
      exact owns (by simpa [State.gotoInsert] using critical)
    · exact others _ (by simp [same]) (guarded.inserter_owns k (by simpa [State.gotoInsert, same] using critical))
  block_empty := guarded.block_empty
  pop_front := guarded.pop_front
  history := guarded.history
  awake filled := by
    rcases guarded.awake filled with ⟨k, notify⟩ | awake
    · by_cases same : k = j
      · exact .inr (notified (same ▸ notify))
      · exact .inl ⟨k, by simpa [State.gotoInsert, same] using notify⟩
    · exact .inr awake

theorem gotoInsert (guarded : Guarded s) {j : Nat} {pc : InserterPc Task}
    (same : pc.critical = (s.inserter j).critical) (notified : s.inserter j = .notify → ∃ i, s.worker i ≠ .blocked) :
    Guarded (s.gotoInsert j pc) :=
  guarded.moveInsert (fun critical => guarded.inserter_owns j (same ▸ critical)) (fun _ _ => id) notified

theorem alone (guarded : Guarded s) {j : Nat} (held : (s.inserter j).critical) (i : Worker workers) :
    (s.worker i).critical = false := by
  by_contra critical
  have mine := guarded.inserter_owns j held
  have theirs := guarded.worker_owns i (by simpa using critical)
  simp [mine] at theirs

theorem worker_alone (guarded : Guarded s) {i k : Worker workers} (held : (s.worker i).critical)
    (critical : (s.worker k).critical) : k = i := by
  have mine := guarded.worker_owns i held
  have theirs := guarded.worker_owns k critical
  simpa [mine, eq_comm] using theirs

theorem pop (guarded : Guarded s) {i : Worker workers} {task : Task} (pc : s.worker i = .pop task) :
    Guarded ({ s with pendingTasks := s.pendingTasks.tail, taken := s.taken ++ [task] }.goto i
      (.unlock (some task))) where
  worker_owns k critical := by
    by_cases same : k = i
    · subst same
      exact guarded.worker_owns k (by simp [pc, WorkerPc.critical])
    · exact guarded.worker_owns k (by simpa [State.goto, same] using critical)
  inserter_owns := guarded.inserter_owns
  block_empty k block := by
    have other : k ≠ i := by
      rintro rfl
      simp [State.goto] at block
    have there : s.worker k = .block := by simpa [State.goto, other] using block
    exact absurd (guarded.worker_alone (by simp [pc, WorkerPc.critical]) (by simp [there, WorkerPc.critical])) other
  pop_front k task' front := by
    have other : k ≠ i := by
      rintro rfl
      simp [State.goto] at front
    have there : s.worker k = .pop task' := by simpa [State.goto, other] using front
    exact absurd (guarded.worker_alone (by simp [pc, WorkerPc.critical]) (by simp [there, WorkerPc.critical])) other
  history := by
    have front := guarded.pop_front i task pc
    have split : s.pendingTasks = task :: s.pendingTasks.tail := (List.cons_head?_tail front).symm
    simpa [State.goto, ← split] using guarded.history
  awake _ := .inr ⟨i, by simp [State.goto]⟩

theorem push (guarded : Guarded s) {j : Nat} {task : Task} (pc : s.inserter j = .push task) :
    Guarded ({ s with pendingTasks := s.pendingTasks ++ [task], inserted := s.inserted ++ [task] }.gotoInsert j
      .notify) where
  worker_owns := guarded.worker_owns
  inserter_owns k critical := by
    by_cases same : k = j
    · subst same
      exact guarded.inserter_owns k (by simp [pc, InserterPc.critical])
    · exact guarded.inserter_owns k (by simpa [State.gotoInsert, same] using critical)
  block_empty i block := by
    have outside := guarded.alone (j := j) (by simp [pc, InserterPc.critical]) i
    rw [show s.worker i = .block from block] at outside
    simp [WorkerPc.critical] at outside
  pop_front i task' front := by
    have outside := guarded.alone (j := j) (by simp [pc, InserterPc.critical]) i
    rw [show s.worker i = .pop task' from front] at outside
    simp [WorkerPc.critical] at outside
  history := by simp [State.gotoInsert, guarded.history]
  awake _ := .inl ⟨j, by simp [State.gotoInsert]⟩

end Guarded

theorem workerStep_guarded {s s' : State Task workers} {i : Worker workers} {throws : Bool} (guarded : Guarded s)
    (taken : workerStep s i throws = some s') : Guarded s' := by
  unfold workerStep at taken
  cases pc : s.worker i with
  | loop =>
    obtain rfl : s.goto i _ = s' := by simpa [pc] using taken
    refine guarded.goto ?_ ?_ ?_ <;> cases s.quit <;> simp [pc, WorkerPc.critical]
  | lock | woken =>
    obtain ⟨free, rfl⟩ : s.mutex = none ∧ _ = s' := by simpa [pc] using taken
    exact guarded.acquire free
  | evaluate =>
    obtain rfl : s.goto i _ = s' := by simpa [pc] using taken
    refine guarded.goto ?_ ?_ ?_ <;> cases s.quit <;> cases s.pendingTasks <;> simp [pc, WorkerPc.critical]
  | block =>
    obtain rfl : _ = s' := by simpa [pc] using taken
    exact guarded.release (by simp [pc, WorkerPc.critical]) rfl fun _ => guarded.block_empty i pc
  | blocked => simp [pc] at taken
  | recheck =>
    obtain rfl : s.goto i _ = s' := by simpa [pc] using taken
    refine guarded.goto ?_ ?_ ?_ <;> cases s.quit <;> simp [pc, WorkerPc.critical]
  | copy =>
    cases front : s.pendingTasks with
    | nil => simp [pc, front] at taken
    | cons task rest =>
      obtain rfl : s.goto i _ = s' := by simpa [pc, front] using taken
      refine guarded.goto ?_ ?_ ?_ <;> cases throws <;> simp [pc, WorkerPc.critical, front]
  | pop task =>
    obtain rfl : _ = s' := by simpa [pc] using taken
    exact guarded.pop pc
  | unlock task =>
    cases task with
    | none =>
      obtain rfl : _ = s' := by simpa [pc] using taken
      exact guarded.release (by simp [pc, WorkerPc.critical]) rfl (by simp)
    | some task =>
      obtain rfl : _ = s' := by simpa [pc] using taken
      exact guarded.release (by simp [pc, WorkerPc.critical]) rfl (by simp)
  | run =>
    obtain rfl : s.goto i _ = s' := by simpa [pc] using taken
    exact guarded.goto (by simp [pc, WorkerPc.critical]) (by simp) (by simp)
  | done => simp [pc] at taken

theorem wake_guarded {s : State Task workers} {i : Worker workers} (guarded : Guarded s)
    (asleep : s.worker i = .blocked) : Guarded (s.goto i .woken) :=
  guarded.goto (by simp [asleep, WorkerPc.critical]) (by simp) (by simp)

theorem inserterStep_guarded {s s' : State Task workers} {j : Nat} {chosen : Option (Worker workers)} {throws : Bool}
    (guarded : Guarded s) (taken : inserterStep s j chosen throws = some s') : Guarded s' := by
  unfold inserterStep at taken
  cases pc : s.inserter j with
  | idle => simp [pc] at taken
  | lock task =>
    obtain ⟨free, rfl⟩ : s.mutex = none ∧ _ = s' := by simpa [pc] using taken
    exact guarded.moveInsert (fun _ => rfl) (by simp [free]) (by simp [pc])
  | push task =>
    cases throws with
    | true =>
      obtain rfl : s.gotoInsert j .unlock = s' := by simpa [pc] using taken
      exact guarded.gotoInsert (by simp [pc, InserterPc.critical]) (by simp [pc])
    | false =>
      obtain rfl : _ = s' := by simpa [pc] using taken
      exact guarded.push pc
  | notify =>
    cases chosen with
    | some i =>
      obtain ⟨asleep, rfl⟩ : s.worker i = .blocked ∧ (s.goto i .woken).gotoInsert j .unlock = s' := by
        simpa [pc] using taken
      refine (wake_guarded guarded asleep).gotoInsert ?_ fun _ => ⟨i, by simp [State.goto]⟩
      simp [State.goto, pc, InserterPc.critical]
    | none =>
      -- with nobody to wake there is a worker that is not asleep
      obtain ⟨awake, rfl⟩ : (∀ i, (s.worker i).isBlocked = false) ∧ s.gotoInsert j .unlock = s' := by
        simpa [pc] using taken
      refine guarded.gotoInsert (by simp [pc, InserterPc.critical]) fun _ => ⟨.first, fun asleep => ?_⟩
      simpa [asleep, WorkerPc.isBlocked] using awake .first
  | unlock =>
    have owned := guarded.inserter_owns j (by simp [pc, InserterPc.critical])
    obtain rfl : _ = s' := by simpa [pc] using taken
    refine guarded.moveInsert (by simp [InserterPc.critical]) ?_ (by simp [pc])
    intro owner other held
    exact absurd (Option.some_inj.mp (held.symm.trans owned)) other

theorem notifyAll_guarded {s : State Task workers} (guarded : Guarded s) :
    Guarded { s with
      worker := fun i => if (s.worker i).isBlocked then .woken else s.worker i
      destructor := .notified } := by
  -- a sleeping thread holds nothing, asleep or woken
  have kept {P : WorkerPc Task → Prop} (woken : ¬ P .woken) {i : Worker workers}
      (there : P (if (s.worker i).isBlocked then .woken else s.worker i)) : P (s.worker i) := by
    split_ifs at there
    · exact absurd there woken
    · exact there
  exact {
    worker_owns := fun i critical => guarded.worker_owns i
      (kept (P := fun pc => pc.critical) (by simp [WorkerPc.critical]) critical)
    inserter_owns := guarded.inserter_owns
    block_empty := fun i block => guarded.block_empty i (kept (P := fun pc => pc = .block) (by simp) block)
    pop_front := fun i task pop => guarded.pop_front i task (kept (P := fun pc => pc = .pop task) (by simp) pop)
    history := guarded.history
    awake := fun _ => .inr ⟨.first, by dsimp only; split_ifs <;> simp_all⟩ }

theorem step_guarded {s s' : State Task workers} {input : Input Task workers} (guarded : Guarded s)
    (taken : step s input = some s') : Guarded s' := by
  cases input with
  | work i throws => exact workerStep_guarded guarded taken
  | wake i =>
    obtain ⟨asleep, rfl⟩ : s.worker i = .blocked ∧ _ = s' := by simpa [step] using taken
    exact wake_guarded guarded asleep
  | insertTask j task =>
    cases pc : s.inserter j <;> simp only [step, pc, reduceCtorEq] at taken
    obtain rfl : _ = s' := by simpa using taken
    exact guarded.gotoInsert (by simp [pc, InserterPc.critical]) (by simp [pc])
  | insert j chosen throws => exact inserterStep_guarded guarded taken
  | storeQuit =>
    obtain ⟨-, rfl⟩ : _ ∧ _ = s' := by simpa [step] using taken
    exact ⟨guarded.1, guarded.2, guarded.3, guarded.4, guarded.5, guarded.6⟩
  | notifyAll =>
    obtain ⟨-, rfl⟩ : _ ∧ _ = s' := by simpa [step] using taken
    exact notifyAll_guarded guarded
  | join =>
    simp only [step] at taken
    split_ifs at taken
    cases taken
    exact ⟨guarded.1, guarded.2, guarded.3, guarded.4, guarded.5, guarded.6⟩

theorem reaches_guarded {inputs : List (Input Task workers)} {s : State Task workers}
    {ok : State Task workers → Input Task workers → Prop}
    (reached : (threadWorker Task workers).Reaches ok {} inputs s) : Guarded s :=
  reached.invariant (P := fun _ s => Guarded s)
    ⟨by simp [WorkerPc.critical], by simp [InserterPc.critical], by simp, by simp, rfl, by simp⟩
    (fun guarded _ taken => step_guarded guarded taken)

/-- Tasks are popped in the order of their insertion, each of them once, and none is left to sleeping workers. -/
theorem tasks_not_lost (Task : Type) (workers : Nat) {inputs : List (Input Task workers)} {s : State Task workers}
    (reached : (threadWorker Task workers).Reaches (fun _ _ => True) {} inputs s) :
    s.inserted = s.taken ++ s.pendingTasks ∧
      ¬ (s.pendingTasks ≠ [] ∧ (∀ j, s.inserter j ≠ .notify) ∧ ∀ i, s.worker i = .blocked) := by
  have guarded := reaches_guarded reached
  refine ⟨guarded.history, ?_⟩
  rintro ⟨filled, quiet, asleep⟩
  rcases guarded.awake filled with ⟨j, notify⟩ | ⟨i, awake⟩
  · exact quiet j notify
  · exact awake (asleep i)

theorem tasks_not_lost_two :
    ∃ inputs s, (threadWorker Nat 2).Reaches (fun _ _ => True) {} inputs s ∧ s.pendingTasks = [8] ∧ s.taken = [7] ∧
      s.inserted = s.taken ++ s.pendingTasks := by
  let work (n : Nat) : List (Input Nat 2) := List.replicate n (.work .first false)
  let inputs : List (Input Nat 2) := work 4 ++ [.insertTask 5 7, .insert 5 none false, .insert 5 none false,
    .insert 5 (some .first) false, .insert 5 none false] ++ work 6 ++ [.insertTask 6 8, .insert 6 none false,
    .insert 6 none false]
  have ran : ((threadWorker Nat 2).run {} inputs).map (fun s => (s.pendingTasks, s.taken)) = some ([8], [7]) := by
    decide +kernel
  obtain ⟨s, ran, seen⟩ := Option.map_eq_some_iff.mp ran
  obtain ⟨pending, taken⟩ : s.pendingTasks = [8] ∧ s.taken = [7] := by simpa using seen
  have reached := System.reaches_of_run ran
  exact ⟨inputs, s, reached, pending, taken, (tasks_not_lost Nat 2 reached).1⟩

-- At `notify_all` no worker has found the predicate false without being blocked yet.
def NoneSlipsBy (s : State Task workers) (input : Input Task workers) : Prop :=
  input matches .notifyAll → ∀ i, s.worker i ≠ .block

structure Quitting (s : State Task workers) : Prop where
  stored : s.destructor ≠ .alive → s.quit
  woken : s.destructor = .notified ∨ s.destructor = .joined → ∀ i, s.worker i ≠ .block ∧ s.worker i ≠ .blocked

theorem workerStep_keeps {s s' : State Task workers} {i : Worker workers} {throws : Bool}
    (taken : workerStep s i throws = some s') :
    s'.quit = s.quit ∧ s'.destructor = s.destructor ∧ (∀ k, k ≠ i → s'.worker k = s.worker k) ∧
      (s'.worker i = .block → s.quit = false) ∧ (s'.worker i = .blocked → s.worker i = .block) := by
  unfold workerStep at taken
  split at taken
  all_goals repeat' split at taken
  all_goals cases taken
  all_goals simp_all [State.goto]

theorem workerStep_quitting {s s' : State Task workers} {i : Worker workers} {throws : Bool} (quitting : Quitting s)
    (taken : workerStep s i throws = some s') : Quitting s' := by
  obtain ⟨quit, destructor, others, block, blocked⟩ := workerStep_keeps taken
  constructor
  · rw [destructor, quit]
    exact quitting.stored
  · rw [destructor]
    intro passed k
    by_cases same : k = i
    · subst same
      have stored := quitting.stored (by rcases passed with h | h <;> simp [h])
      exact ⟨fun atBlock => by simp [block atBlock] at stored, fun asleep => (quitting.woken passed k).1 (blocked asleep)⟩
    · rw [others k same]
      exact quitting.woken passed k

theorem Quitting.wake {s : State Task workers} (quitting : Quitting s) (i : Worker workers) :
    Quitting (s.goto i .woken) where
  stored := quitting.stored
  woken passed k := by
    by_cases same : k = i
    · subst same
      simp [State.goto]
    · simpa [State.goto, same] using quitting.woken passed k

theorem inserterStep_quitting {s s' : State Task workers} {j : Nat} {chosen : Option (Worker workers)} {throws : Bool}
    (quitting : Quitting s) (taken : inserterStep s j chosen throws = some s') : Quitting s' := by
  unfold inserterStep at taken
  split at taken
  all_goals repeat' split at taken
  all_goals cases taken
  all_goals first
    | exact ⟨quitting.stored, quitting.woken⟩
    | rename_i i _
      exact ⟨(quitting.wake i).stored, (quitting.wake i).woken⟩

theorem step_quitting {s s' : State Task workers} {input : Input Task workers} (quitting : Quitting s)
    (calm : NoneSlipsBy s input) (taken : step s input = some s') : Quitting s' := by
  cases input with
  | work i throws => exact workerStep_quitting quitting taken
  | wake i =>
    obtain ⟨-, rfl⟩ : _ ∧ _ = s' := by simpa [step] using taken
    exact quitting.wake i
  | insertTask j task =>
    simp only [step] at taken
    split at taken
    · cases taken
      exact ⟨quitting.stored, quitting.woken⟩
    · cases taken
  | insert j chosen throws => exact inserterStep_quitting quitting taken
  | storeQuit =>
    obtain ⟨-, rfl⟩ : _ ∧ _ = s' := by simpa [step] using taken
    exact ⟨fun _ => rfl, by simp⟩
  | notifyAll =>
    obtain ⟨before, rfl⟩ : s.destructor = .quitStored ∧ _ = s' := by simpa [step] using taken
    refine ⟨fun _ => quitting.stored (by simp [before]), fun _ i => ?_⟩
    have awake := calm rfl i
    dsimp only
    split_ifs <;> simp_all
  | join =>
    simp only [step] at taken
    split_ifs at taken with ready
    cases taken
    exact ⟨fun _ => quitting.stored (by simp [ready.1]), fun _ => quitting.woken (.inl ready.1)⟩

/-- After `notify_all` no worker sleeps, in every run in which none slips by it. -/
theorem shutdown_wakes_workers (Task : Type) (workers : Nat) {inputs : List (Input Task workers)}
    {s : State Task workers} (reached : (threadWorker Task workers).Reaches NoneSlipsBy {} inputs s)
    (passed : s.destructor = .notified ∨ s.destructor = .joined) (i : Worker workers) : s.worker i ≠ .blocked := by
  have quitting := reached.invariant (P := fun _ s => Quitting s) ⟨by simp, by simp⟩
    (fun quitting calm taken => step_quitting quitting calm taken)
  exact (quitting.woken passed i).2

def noneSlipsBy (s : State Nat workers) (input : Input Nat workers) : Bool :=
  input != .notifyAll || (∀ i, s.worker i ≠ .block : Bool)

theorem shutdown_wakes_workers_sleeping :
    ∃ inputs s, (threadWorker Nat 1).Reaches NoneSlipsBy {} inputs s ∧ s.destructor = .notified ∧
      s.worker .first = .woken ∧ s.worker .first ≠ .blocked := by
  let inputs : List (Input Nat 1) := List.replicate 4 (.work .first false) ++ [.storeQuit, .notifyAll]
  have ran : (((threadWorker Nat 1).guarded noneSlipsBy).run {} inputs).map (fun s => (s.destructor, s.worker .first)) =
      some (.notified, .woken) := by decide +kernel
  obtain ⟨s, ran, seen⟩ := Option.map_eq_some_iff.mp ran
  obtain ⟨destructor, worker⟩ : s.destructor = .notified ∧ s.worker .first = .woken := by simpa using seen
  have sound (s : State Nat 1) (input : Input Nat 1) (checked : noneSlipsBy s input) : NoneSlipsBy s input := by
    intro notifies
    cases input <;> simp_all [noneSlipsBy]
  have reached := System.reaches_of_guarded sound ran
  exact ⟨inputs, s, reached, destructor, worker, shutdown_wakes_workers Nat 1 reached (.inl destructor) .first⟩

theorem slipping_worker_sleeps :
    ∃ inputs s, (threadWorker Nat 1).Reaches (fun _ _ => True) {} inputs s ∧ s.destructor = .notified ∧
      s.worker .first = .blocked := by
  let inputs : List (Input Nat 1) :=
    List.replicate 3 (.work .first false) ++ [.storeQuit, .notifyAll, .work .first false]
  have ran : ((threadWorker Nat 1).run {} inputs).map (fun s => (s.destructor, s.worker .first)) =
      some (.notified, .blocked) := by decide +kernel
  obtain ⟨s, ran, seen⟩ := Option.map_eq_some_iff.mp ran
  exact ⟨inputs, s, System.reaches_of_run ran, by simpa using seen⟩

end Dracon.ThreadWorker
