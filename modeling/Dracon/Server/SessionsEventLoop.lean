import Mathlib
import Dracon.Shared.StepSystem

set_option autoImplicit false

namespace Dracon.SessionsEventLoop

open Shared

abbrev Id := Nat

-- `time_since_epoch().count()`
abbrev Time := Nat

def never : Time := 2 ^ 63 - 1

inductive Life where
  | unborn
  | alive
  -- the destructor has started
  | deleting
  | deleted
  deriving DecidableEq

structure Session where
  life : Life := .unborn
  nextTimeout : Time := 0
  -- the time point of the stream, once `m_stream` is set
  stream : Option Time := none
  -- `!m_io_yield`
  finished : Bool := false
  deriving DecidableEq

def Session.deadline (session : Session) : Time := session.stream.getD session.nextTimeout

-- A call of `notify_deadline`; `current` is empty in front of the first load.
structure Notify where
  value : Time
  current : Option Time := none
  deriving DecidableEq

def notifyDeadline (deadline : Time) : Option Notify := if deadline = 0 then none else some ⟨deadline, none⟩

def Notify.step (notify : Notify) (earliest : Time) (succeeds : Bool) : Time × Option Notify :=
  match notify.current with
  | none => (earliest, some { notify with current := some earliest })
  | some current =>
    if notify.value < current then
      -- the exchange is a weak one: it may fail for no reason
      if earliest = current ∧ succeeds then (notify.value, none)
      else (earliest, some { notify with current := some earliest })
    else (earliest, none)

inductive Destroy where
  | mark
  -- `quit_io_loop`
  | quitting
  | notifying (notify : Notify)
  | erase
  | remove
  | close
  deriving DecidableEq

inductive Leave where
  | check
  | erase
  | remove
  | insert
  deriving DecidableEq

inductive Accept where
  | idle
  -- in `set_next_timeout`
  | notifying (i : Id) (notify : Notify)
  | constructed (i : Id)
  -- in `m_sessions`, and not given to epoll yet
  | inserted (i : Id)
  | destroying (i : Id) (stage : Destroy)
  deriving DecidableEq

inductive Events where
  | error
  | io
  | other
  deriving DecidableEq

inductive Call where
  | processEvents (events : Events)
  | wakeup
  | timeout
  deriving DecidableEq

-- What the loop thread still has to do of a loop over sessions.
inductive Phase where
  | dispatch (todo : List (Id × Events)) (wokeup : Bool)
  | wake (todo : List Id)
  | scan (todo : List Id) (earliest now : Time)
  | delete (todo : List Id)
  deriving DecidableEq

inductive Work where
  -- registered: `wakeup` is called next
  | found
  | running (call : Call)
  | notifying (notify : Notify) (call : Call)
  -- `delete_later`, called by the coroutine when there is a call to go back to
  | leaving (stage : Leave) (back : Option Call)
  | destroying (stage : Destroy)
  deriving DecidableEq

inductive Loop where
  -- `while (!m_quit)`
  | top
  -- in `epoll_wait`
  | waiting
  | phase (phase : Phase)
  | inside (i : Id) (work : Work) (phase : Phase)
  | drain
  | swap
  | due
  | store (now : Time)
  | snapshot (now : Time)
  | publish (notify : Notify)
  | load
  | collect
  | exited
  deriving DecidableEq

structure State where
  object : Id → Session := fun _ => {}
  -- `m_sessions`
  sessions : Finset Id := ∅
  -- the sockets in the interest list of epoll
  polled : Finset Id := ∅
  deleteLater : Finset Id := ∅
  wakeups : Finset Id := ∅
  -- a write to the event fd that `epoll_wait` has to report
  edge : Bool := false
  -- the threads between the insertion and the write of `wakeup_session`
  writing : Finset Nat := ∅
  earliestDeadline : Time := never
  -- the deadline the timeout of `epoll_wait` is computed from
  waitUntil : Time := never
  quit : Bool := false
  accept : Accept := .idle
  loop : Loop := .top
  created : Nat := 0
  -- an operation was invoked on a deleted session, or a session was deleted twice
  fault : Bool := false
  -- every session that has been in `m_sessions`
  inserted : Finset Id := ∅
  -- the set of the last swap, and the sessions of it that were resumed
  swapped : Finset Id := ∅
  resumed : Finset Id := ∅

namespace State

variable (s : State)

def set (i : Id) (session : Session) : State := { s with object := Function.update s.object i session }

def touch (i : Id) : State := { s with fault := s.fault || (s.object i).life == .deleted }

end State

inductive Action where
  | openStream
  | setSessionTimeout (deadline : Time)
  | finish
  deriving DecidableEq

def act (s : State) (i : Id) : Action → Option (State × Option Notify)
  | .openStream =>
    if !(s.object i).finished ∧ (s.object i).stream = none then
      some ((s.touch i).set i { s.object i with stream := some 0 }, none)
    else none
  | .setSessionTimeout deadline =>
    if !(s.object i).finished ∧ (s.object i).stream.isSome ∧ deadline ≤ never then
      some ((s.touch i).set i { s.object i with stream := some deadline }, notifyDeadline deadline)
    else none
  | .finish =>
    if !(s.object i).finished then some ((s.touch i).set i { s.object i with finished := true }, none) else none

def destroyStep (s : State) (i : Id) (succeeds : Bool) : Destroy → Option (State × Option Destroy)
  | .mark =>
    let s := { s with fault := s.fault || (s.object i).life != Life.alive }
    some (s.set i { s.object i with life := .deleting }, some .quitting)
  | .quitting => if (s.object i).finished then some (s, some .erase) else none
  | .notifying notify =>
    let (earliest, rest) := notify.step s.earliestDeadline succeeds
    some ({ s with earliestDeadline := earliest }, some (rest.elim .quitting .notifying))
  | .erase => some ({ s with sessions := s.sessions.erase i }, some (if i ∈ s.sessions then .remove else .close))
  | .remove => some ({ s with polled := if succeeds then s.polled.erase i else s.polled }, some .close)
  -- closing the socket takes it out of epoll
  | .close =>
    let s := { s with polled := s.polled.erase i }
    some (s.set i { s.object i with life := .deleted }, none)

def leaveStep (s : State) (i : Id) (succeeds : Bool) : Leave → State × Option Leave
  | .check => (s.touch i, if (s.object i).life = .deleting then none else some .erase)
  | .erase =>
    ({ s with sessions := s.sessions.erase i }.touch i, some (if i ∈ s.sessions then .remove else .insert))
  | .remove => ({ s with polled := if succeeds then s.polled.erase i else s.polled }.touch i, some .insert)
  | .insert => ({ s with deleteLater := if succeeds then insert i s.deleteLater else s.deleteLater }, none)

-- The accept thread: a session is constructed, inserted and given to epoll, or deleted when epoll refuses it.
def acceptStep (s : State) (deadline : Time) (succeeds : Bool) : Option State :=
  match s.accept with
  | .idle =>
    if deadline ≤ never then
      some { s.set s.created { life := .alive, nextTimeout := deadline } with
        created := s.created + 1
        accept := (notifyDeadline deadline).elim (.constructed s.created) (.notifying s.created) }
    else none
  | .notifying i notify =>
    let (earliest, rest) := notify.step s.earliestDeadline succeeds
    some { s with earliestDeadline := earliest, accept := rest.elim (.constructed i) (.notifying i) }
  | .constructed i =>
    some { s with sessions := insert i s.sessions, inserted := insert i s.inserted, accept := .inserted i }
  | .inserted i =>
    if succeeds then some { s.touch i with polled := insert i s.polled, accept := .idle }
    else some { s.touch i with accept := .destroying i .mark }
  | .destroying i stage =>
    (destroyStep s i succeeds stage).map fun (s, rest) => { s with accept := rest.elim .idle (.destroying i) }

def acceptAct (s : State) (action : Action) : Option State :=
  match s.accept with
  | .destroying i .quitting =>
    (act s i action).map fun (s, notify) =>
      { s with accept := .destroying i (notify.elim .quitting .notifying) }
  | _ => none

def State.call (s : State) (i : Id) (call : Call) (phase : Phase) : State :=
  let resumes : Bool := match call with
    | .processEvents .other => false
    | .processEvents .io | .wakeup => !(s.object i).finished
    -- `quit_io_loop`
    | .processEvents .error | .timeout => true
  { s.touch i with loop := .inside i (if resumes then .running call else .leaving .check none) phase }

def returnStep (s : State) (i : Id) (phase : Phase) (succeeds : Bool) : Call → Option State
  | .processEvents .io | .processEvents .other | .wakeup =>
    if succeeds then some { s with loop := .phase phase }
    else some { s with loop := .inside i (.leaving .check none) phase }
  | .processEvents .error | .timeout =>
    if (s.object i).finished then some { s with loop := .inside i (.leaving .check none) phase } else none

def phaseStep (s : State) : Phase → State
  | .dispatch [] wokeup => { s with loop := if wokeup then .drain else .due }
  | .dispatch ((i, events) :: todo) wokeup => s.call i (.processEvents events) (.dispatch todo wokeup)
  | .wake [] => { s with loop := .due }
  | .wake (i :: todo) =>
    { s with loop := if i ∈ s.sessions then .inside i .found (.wake todo) else .phase (.wake todo) }
  | .scan [] earliest _ => { s with loop := (notifyDeadline earliest).elim .load .publish }
  | .scan (i :: todo) earliest now =>
    if (s.object i).deadline = 0 then { s.touch i with loop := .phase (.scan todo earliest now) }
    else if (s.object i).deadline ≤ now then (s.touch i).call i .timeout (.scan todo earliest now)
    else { s.touch i with loop := .phase (.scan todo (min earliest (s.object i).deadline) now) }
  | .delete [] => { s with loop := .top }
  | .delete (i :: todo) => { s with loop := .inside i (.destroying .mark) (.delete todo) }

def insideStep (s : State) (i : Id) (phase : Phase) (succeeds : Bool) : Work → Option State
  | .found => some ({ s with resumed := insert i s.resumed }.call i .wakeup phase)
  | .running call => returnStep s i phase succeeds call
  | .notifying notify call =>
    let (earliest, rest) := notify.step s.earliestDeadline succeeds
    some { s with
      earliestDeadline := earliest
      loop := .inside i (rest.elim (.running call) fun notify => .notifying notify call) phase }
  | .leaving stage back =>
    let (s, rest) := leaveStep s i succeeds stage
    some { s with
      loop := match rest, back with
        | some stage, back => .inside i (.leaving stage back) phase
        | none, some call => .inside i (.running call) phase
        | none, none => .phase phase }
  | .destroying stage =>
    (destroyStep s i succeeds stage).map fun (s, rest) =>
      { s with loop := rest.elim (.phase phase) fun stage => .inside i (.destroying stage) phase }

def Enumerates (order : List Id) (set : Finset Id) : Prop := order.Nodup ∧ order.toFinset = set

instance (order : List Id) (set : Finset Id) : Decidable (Enumerates order set) :=
  inferInstanceAs (Decidable (_ ∧ _))

-- The next step of the loop thread. `order` is the order of the set it swaps out or copies.
def loopStep (s : State) (clock : Time) (order : List Id) (succeeds : Bool) : Option State :=
  match s.loop with
  | .top => some { s with loop := if s.quit then .exited else .waiting }
  -- `epoll_wait` may fail
  | .waiting => if succeeds then none else some { s with loop := .top }
  | .phase phase => some (phaseStep s phase)
  | .inside i work phase => insideStep s i phase succeeds work
  | .drain => some { s with edge := false, loop := .swap }
  | .swap =>
    if Enumerates order s.wakeups then
      some { s with wakeups := ∅, swapped := s.wakeups, resumed := ∅, loop := .phase (.wake order) }
    else none
  | .due => some { s with loop := if s.earliestDeadline ≤ clock then .store clock else .load }
  | .store now => some { s with earliestDeadline := never, loop := .snapshot now }
  | .snapshot now =>
    if Enumerates order s.sessions then some { s with loop := .phase (.scan order never now) } else none
  | .publish notify =>
    let (earliest, rest) := notify.step s.earliestDeadline succeeds
    some { s with earliestDeadline := earliest, loop := rest.elim .load .publish }
  | .load => some { s with waitUntil := s.earliestDeadline, loop := .collect }
  | .collect =>
    if Enumerates order s.deleteLater then
      some { s with deleteLater := ∅, loop := .phase (.delete order) }
    else none
  | .exited => none

def loopAct (s : State) (action : Action) : Option State :=
  match s.loop with
  | .inside i (.running call) phase =>
    (act s i action).map fun (s, notify) =>
      { s with loop := .inside i (notify.elim (.running call) fun notify => .notifying notify call) phase }
  | .inside i (.destroying .quitting) phase =>
    (act s i action).map fun (s, notify) =>
      { s with loop := .inside i (.destroying (notify.elim .quitting .notifying)) phase }
  | _ => none

inductive Input where
  | accept (deadline : Time) (succeeds : Bool)
  | acceptAct (action : Action)
  -- `epoll_wait` returns with these events
  | wait (events : List (Id × Events)) (wokeup : Bool)
  | loop (clock : Time) (order : List Id) (succeeds : Bool)
  | loopAct (action : Action)
  -- the coroutine calls `delete_later` in front of its end; in a destructor that does nothing
  | giveUp
  | insertWakeup (thread : Nat) (i : Id)
  | writeWakeup (thread : Nat)
  | storeQuit
  | signal
  deriving DecidableEq

def waitStep (s : State) (events : List (Id × Events)) (wokeup : Bool) : Option State :=
  if s.loop = .waiting ∧ (events.map Prod.fst).Nodup ∧ (∀ event ∈ events, event.1 ∈ s.polled) ∧
      (wokeup → s.edge) then
    some { s with
      edge := s.edge && !wokeup
      -- the balancing of the workload asks every session for its order
      fault := s.fault || events.any fun event => (s.object event.1).life == .deleted
      loop := .phase (.dispatch events wokeup) }
  else none

-- Every mutex protected section and every atomic operation is one step.
def step (s : State) : Input → Option State
  | .accept deadline succeeds => acceptStep s deadline succeeds
  | .acceptAct action => acceptAct s action
  | .wait events wokeup => waitStep s events wokeup
  | .loop clock order succeeds => loopStep s clock order succeeds
  | .loopAct action => loopAct s action
  | .giveUp =>
    match s.loop with
    | .inside i (.running call) phase =>
      if (s.object i).finished then none
      else some { s with loop := .inside i (.leaving .check (some call)) phase }
    | _ => none
  | .insertWakeup thread i =>
    if thread ∉ s.writing ∧ (s.object i).stream.isSome then
      some { s with wakeups := insert i s.wakeups, writing := insert thread s.writing }
    else none
  | .writeWakeup thread =>
    if thread ∈ s.writing then some { s with edge := true, writing := s.writing.erase thread } else none
  | .storeQuit => some { s with quit := true }
  | .signal => some { s with edge := true }

def sessionsEventLoop : System State Input := ⟨step⟩

end Dracon.SessionsEventLoop
