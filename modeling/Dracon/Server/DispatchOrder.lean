import Dracon.Server.SessionsEventLoop
import Dracon.Shared.Bisection

set_option autoImplicit false

namespace Dracon.SessionsEventLoop

open Shared

inductive Ready where
  | eventFd
  | session (i : Id) (events : Events)
  deriving DecidableEq

def Ready.event : Ready → Option (Id × Events)
  | .eventFd => none
  | .session i events => some (i, events)

-- `order()` of a session is how many connections its address had when it was accepted
variable (order : Id → UInt32)

def collectEvent (workloadBalancing : Bool) (found : List (Id × Events) × Bool) : Ready → List (Id × Events) × Bool
  | .eventFd => (found.1, true)
  | .session i events =>
    -- `upper_bound` with a comparison of the orders
    if workloadBalancing then (insertBehind (fun event => (order event.1).toNat) found.1 (i, events), found.2)
    else (found.1 ++ [(i, events)], found.2)

def collectEvents (workloadBalancing : Bool) (ready : List Ready) : List (Id × Events) × Bool :=
  ready.foldl (collectEvent order workloadBalancing) ([], false)

variable {order} {ready : List Ready}

theorem collectEvents_append (workloadBalancing : Bool) (entry : Ready) :
    collectEvents order workloadBalancing (ready ++ [entry]) =
      collectEvent order workloadBalancing (collectEvents order workloadBalancing ready) entry := List.foldl_append

theorem collectEvents_wokeup (workloadBalancing : Bool) :
    (collectEvents order workloadBalancing ready).2 = decide (Ready.eventFd ∈ ready) := by
  induction ready using List.reverseRecOn with
  | nil => rfl
  | append_singleton ready entry ih =>
    rw [collectEvents_append]
    cases entry with
    | eventFd => simp [collectEvent]
    | session i events =>
      cases workloadBalancing
      all_goals simpa [collectEvent] using ih

theorem collectEvents_plain : (collectEvents order false ready).1 = ready.filterMap Ready.event := by
  induction ready using List.reverseRecOn with
  | nil => rfl
  | append_singleton ready entry ih =>
    rw [collectEvents_append, List.filterMap_append, ← ih]
    cases entry
    · simp [collectEvent, Ready.event]
    · simp [collectEvent, Ready.event]

theorem collectEvents_balanced :
    (collectEvents order true ready).1 = insertAll (fun event => (order event.1).toNat) (ready.filterMap Ready.event) := by
  induction ready using List.reverseRecOn with
  | nil => rfl
  | append_singleton ready entry ih =>
    rw [collectEvents_append, List.filterMap_append]
    cases entry with
    | eventFd =>
      rw [show [Ready.eventFd].filterMap Ready.event = [] from rfl, List.append_nil, ← ih]
      rfl
    | session i events =>
      rw [show [Ready.session i events].filterMap Ready.event = [(i, events)] from rfl, insertAll_append, ← ih]
      rfl

theorem waitStep_perm {s : State} {events sorted : List (Id × Events)} {wokeup : Bool} (perm : sorted.Perm events) :
    waitStep s sorted wokeup =
      (waitStep s events wokeup).map fun after => { after with loop := .phase (.dispatch sorted wokeup) } := by
  have distinct : (sorted.map Prod.fst).Nodup ↔ (events.map Prod.fst).Nodup := (perm.map _).nodup_iff
  have polled : (∀ event ∈ sorted, event.1 ∈ s.polled) ↔ ∀ event ∈ events, event.1 ∈ s.polled :=
    ⟨fun all event mem => all event (perm.mem_iff.mpr mem), fun all event mem => all event (perm.mem_iff.mp mem)⟩
  have touched (p : Id × Events → Bool) : sorted.any p = events.any p := perm.any_eq
  simp only [waitStep, distinct, polled, touched]
  split_ifs <;> rfl

/--
Balancing the workload only changes the order of a round. The sessions get the events of the round once each, those of
addresses with fewer connections first and the others in the order of epoll, and the loop is taken to the same state but
for that order.
-/
theorem balancing_only_reorders (order : Id → UInt32) (ready : List Ready) (s : State) :
    let plain := collectEvents order false ready
    let balanced := collectEvents order true ready
    plain = (ready.filterMap Ready.event, decide (.eventFd ∈ ready)) ∧
      StablySorted (fun event => (order event.1).toNat) plain.1 balanced.1 ∧ balanced.2 = plain.2 ∧
      step s (.wait balanced.1 balanced.2) =
        (step s (.wait plain.1 plain.2)).map fun after =>
          { after with loop := .phase (.dispatch balanced.1 balanced.2) } := by
  intro plain balanced
  have sorted : StablySorted (fun event => (order event.1).toNat) plain.1 balanced.1 := by
    rw [collectEvents_plain, collectEvents_balanced]
    exact insertAll_stablySorted _
  have same : balanced.2 = plain.2 := by rw [collectEvents_wokeup, collectEvents_wokeup]
  refine ⟨Prod.ext collectEvents_plain (collectEvents_wokeup _), sorted, same, ?_⟩
  rw [same]
  exact waitStep_perm sorted.perm

-- Two addresses with two connections each: their first connections come first.
example : (collectEvents (fun i => if i < 2 then 1 else 0) true
    [.session 0 .io, .session 2 .io, .eventFd, .session 1 .error, .session 3 .io]).1 =
      [(2, .io), (3, .io), (0, .io), (1, .error)] := by decide +kernel

end Dracon.SessionsEventLoop
