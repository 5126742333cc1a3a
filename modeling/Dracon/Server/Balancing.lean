import Dracon.Server.Lifetime

set_option autoImplicit false

namespace Dracon.SessionsEventLoop

open Shared

def Loop.unregisters : Loop → Option Id
  | .inside i (.leaving .remove _) _ | .inside i (.destroying .remove) _ => some i
  | _ => none

def Accept.unregisters : Accept → Option Id
  | .destroying i .remove => some i
  | _ => none

inductive Change where
  | increment
  | decrement
  deriving DecidableEq

def Change.apply : Change → UInt32 → UInt32
  | .increment, active => active + 1
  | .decrement, active => active - 1

def owes (s : State) : Input → Option Change
  | .accept _ true =>
    match s.accept with
    | .inserted _ => some .increment
    | .destroying _ .remove => some .decrement
    | _ => none
  | .loop _ _ true => s.loop.unregisters.map fun _ => .decrement
  | _ => none

-- Epoll refuses to remove the sockets that it does not have, and no other one.
def epollAgrees (s : State) : Input → Bool
  | .accept _ succeeds => s.accept.unregisters.all fun i => succeeds == decide (i ∈ s.polled)
  | .loop _ _ succeeds => s.loop.unregisters.all fun i => succeeds == decide (i ∈ s.polled)
  | _ => true

def Input.ofAccept : Input → Bool
  | .accept _ _ | .acceptAct _ => true
  | _ => false

def Input.ofLoop : Input → Bool
  | .wait _ _ | .loop _ _ _ | .loopAct _ | .giveUp => true
  | _ => false

inductive Polls (s : State) (input : Input) (s' : State) : Prop where
  | quiet (polled : s'.polled = s.polled) (sessions : s.sessions ⊆ s'.sessions) (owes : owes s input = none)
      (unregisters : s.loop.unregisters = none ∨ s'.loop.unregisters = s.loop.unregisters)
  | register (i : Id) (actor : input.ofAccept) (here : s.accept = .inserted i) (polled : s'.polled = insert i s.polled)
      (sessions : s'.sessions = s.sessions) (loop : s'.loop = s.loop) (owes : owes s input = some .increment)
      (done : s'.accept = .idle)
  -- the accept thread destroys a session that epoll has refused
  | refuse (i : Id) (actor : input.ofAccept) (held : s.accept.held = some i) (fewer : s'.polled ⊆ s.polled)
      (others : s.polled.erase i ⊆ s'.polled) (sessions : s.sessions.erase i ⊆ s'.sessions) (loop : s'.loop = s.loop)
      (owes : owes s input = none ∨ i ∈ s.polled)
  | erase (i : Id) (actor : input.ofLoop) (polled : s'.polled = s.polled) (sessions : s'.sessions = s.sessions.erase i)
      (owes : owes s input = none) (working : s.loop.working = some i) (unregisters : s.loop.unregisters = none)
      (next : i ∈ s.sessions → s'.loop.unregisters = some i)
  | remove (i : Id) (actor : input.ofLoop) (unregisters : s.loop.unregisters = some i)
      (polled : s'.polled = s.polled.erase i) (sessions : s'.sessions = s.sessions)
      (owes : owes s input = if i ∈ s.polled then some .decrement else none)
  | close (i : Id) (phase : Phase) (actor : input.ofLoop) (here : s.loop = .inside i (.destroying .close) phase)
      (polled : s'.polled = s.polled.erase i) (sessions : s'.sessions = s.sessions) (owes : owes s input = none)

section Steps

variable {s s' : State} {i : Id} {succeeds : Bool}

theorem erase_of_agrees {set : Finset Id} (agrees : succeeds = decide (i ∈ set)) :
    (if succeeds then set.erase i else set) = set.erase i := by
  subst agrees
  split_ifs with mem
  · rfl
  · rw [Finset.erase_eq_of_notMem (by simpa using mem)]

theorem act_polled {action : Action} {notify : Option Notify} (done : act s i action = some (s', notify)) :
    s'.polled = s.polled := by
  cases action
  all_goals
    simp only [act] at done
    split_ifs at done
    cases done
    rfl

theorem owes_loop {clock : Time} {order : List Id} (free : s.loop.unregisters = none) :
    owes s (.loop clock order succeeds) = none := by
  cases succeeds <;> simp [owes, free]

theorem leaving_polls {clock : Time} {order : List Id} {stage : Leave} {back : Option Call} {p : Phase}
    (here : s.loop = .inside i (.leaving stage back) p) (agrees : epollAgrees s (.loop clock order succeeds))
    (taken : insideStep s i p succeeds (.leaving stage back) = some s') : Polls s (.loop clock order succeeds) s' := by
  have working : s.loop.working = some i := by rw [here]; rfl
  cases stage with
  | check | insert =>
    have free : s.loop.unregisters = none := by rw [here]; rfl
    cases taken
    exact .quiet rfl subset_rfl (owes_loop free) (.inl free)
  | erase =>
    have free : s.loop.unregisters = none := by rw [here]; rfl
    cases taken
    refine .erase i rfl rfl rfl (owes_loop free) working free fun mem => ?_
    simp only [mem, if_true]
    rfl
  | remove =>
    have removes : s.loop.unregisters = some i := by rw [here]; rfl
    have agrees : succeeds = decide (i ∈ s.polled) := by simpa [epollAgrees, removes] using agrees
    cases taken
    refine .remove i rfl removes (erase_of_agrees agrees) rfl ?_
    subst agrees
    by_cases mem : i ∈ s.polled <;> simp [owes, mem, removes]

theorem destroying_polls {clock : Time} {order : List Id} {stage : Destroy} {p : Phase}
    (here : s.loop = .inside i (.destroying stage) p) (agrees : epollAgrees s (.loop clock order succeeds))
    (taken : insideStep s i p succeeds (.destroying stage) = some s') : Polls s (.loop clock order succeeds) s' := by
  have working : s.loop.working = some i := by rw [here]; rfl
  cases stage with
  | mark | notifying =>
    have free : s.loop.unregisters = none := by rw [here]; rfl
    cases taken
    exact .quiet rfl subset_rfl (owes_loop free) (.inl free)
  | quitting =>
    have free : s.loop.unregisters = none := by rw [here]; rfl
    simp only [insideStep, destroyStep, Option.map_if, Option.ite_none_right_eq_some, Option.some.injEq] at taken
    obtain ⟨-, rfl⟩ := taken
    exact .quiet rfl subset_rfl (owes_loop free) (.inl free)
  | erase =>
    have free : s.loop.unregisters = none := by rw [here]; rfl
    cases taken
    refine .erase i rfl rfl rfl (owes_loop free) working free fun mem => ?_
    simp [mem, Loop.unregisters]
  | remove =>
    have removes : s.loop.unregisters = some i := by rw [here]; rfl
    have agrees : succeeds = decide (i ∈ s.polled) := by simpa [epollAgrees, removes] using agrees
    cases taken
    refine .remove i rfl removes (erase_of_agrees agrees) rfl ?_
    subst agrees
    by_cases mem : i ∈ s.polled <;> simp [owes, mem, removes]
  | close =>
    have free : s.loop.unregisters = none := by rw [here]; rfl
    cases taken
    exact .close i p rfl here rfl rfl (owes_loop free)

theorem insideStep_polls {clock : Time} {order : List Id} {work : Work} {p : Phase} (here : s.loop = .inside i work p)
    (agrees : epollAgrees s (.loop clock order succeeds)) (taken : insideStep s i p succeeds work = some s') :
    Polls s (.loop clock order succeeds) s' := by
  cases work with
  | leaving stage back => exact leaving_polls here agrees taken
  | destroying stage => exact destroying_polls here agrees taken
  | running call =>
    have free : s.loop.unregisters = none := by rw [here]; rfl
    obtain ⟨rfl, -⟩ | rfl := returnStep_eq taken
    · exact .quiet rfl subset_rfl (owes_loop free) (.inl free)
    · exact .quiet rfl subset_rfl (owes_loop free) (.inl free)
  | found | notifying =>
    have free : s.loop.unregisters = none := by rw [here]; rfl
    cases taken
    exact .quiet rfl subset_rfl (owes_loop free) (.inl free)

theorem loopStep_polls {clock : Time} {order : List Id} (agrees : epollAgrees s (.loop clock order succeeds))
    (taken : loopStep s clock order succeeds = some s') : Polls s (.loop clock order succeeds) s' := by
  cases here : s.loop with
  | inside i work p =>
    simp only [loopStep, here] at taken
    exact insideStep_polls here agrees taken
  | phase p =>
    have free : s.loop.unregisters = none := by rw [here]; rfl
    simp only [loopStep, here, Option.some.injEq] at taken
    obtain ⟨fault, loop, eq, -⟩ := phaseStep_eq (s := s) p
    rw [eq] at taken
    subst taken
    exact .quiet rfl subset_rfl (owes_loop free) (.inl free)
  | swap | snapshot | collect =>
    have free : s.loop.unregisters = none := by rw [here]; rfl
    simp only [loopStep, here, Option.ite_none_right_eq_some, Option.some.injEq] at taken
    obtain ⟨-, rfl⟩ := taken
    exact .quiet rfl subset_rfl (owes_loop free) (.inl free)
  | _ =>
    have free : s.loop.unregisters = none := by rw [here]; rfl
    obtain ⟨edge, earliest, wait, loop, -, -, rfl⟩ :=
      plainStep_eq (by rw [here]; rfl) (by rw [here]; rfl) taken
    exact .quiet rfl subset_rfl (owes_loop free) (.inl free)

theorem destroyStep_others {stage : Destroy} {rest : Option Destroy} (done : destroyStep s i succeeds stage = some (s', rest)) :
    s.polled.erase i ⊆ s'.polled ∧ s.sessions.erase i ⊆ s'.sessions := by
  cases stage with
  | quitting =>
    simp only [destroyStep] at done
    split_ifs at done
    cases done
    exact ⟨Finset.erase_subset _ _, Finset.erase_subset _ _⟩
  | remove =>
    cases done
    refine ⟨?_, Finset.erase_subset _ _⟩
    dsimp only
    split_ifs
    · exact subset_rfl
    · exact Finset.erase_subset _ _
  | erase | close =>
    cases done
    first
    | exact ⟨subset_rfl, Finset.erase_subset _ _⟩
    | exact ⟨Finset.erase_subset _ _, subset_rfl⟩
  | mark | notifying =>
    cases done
    exact ⟨Finset.erase_subset _ _, Finset.erase_subset _ _⟩

theorem acceptStep_polls {deadline : Time} (agrees : epollAgrees s (.accept deadline succeeds))
    (taken : acceptStep s deadline succeeds = some s') : Polls s (.accept deadline succeeds) s' := by
  have loop := (acceptStep_elsewhere taken).loop
  cases here : s.accept with
  | idle =>
    simp only [acceptStep, here, Option.ite_none_right_eq_some, Option.some.injEq] at taken
    obtain ⟨-, rfl⟩ := taken
    refine .quiet rfl subset_rfl ?_ (.inr rfl)
    cases succeeds <;> simp [owes, here]
  | notifying i notify =>
    simp only [acceptStep, here, Option.some.injEq] at taken
    subst taken
    refine .quiet rfl subset_rfl ?_ (.inr rfl)
    cases succeeds <;> simp [owes, here]
  | constructed i =>
    simp only [acceptStep, here, Option.some.injEq] at taken
    subst taken
    refine .quiet rfl (Finset.subset_insert _ _) ?_ (.inr rfl)
    cases succeeds <;> simp [owes, here]
  | inserted i =>
    simp only [acceptStep, here] at taken
    cases succeeds with
    | true =>
      cases taken
      exact .register i rfl here rfl rfl rfl (by simp [owes, here]) rfl
    | false =>
      cases taken
      exact .quiet rfl subset_rfl rfl (.inr rfl)
  | destroying i stage =>
    simp only [acceptStep, here, Option.map_eq_some_iff, Prod.exists] at taken
    obtain ⟨t, rest, done, rfl⟩ := taken
    obtain ⟨polled, sessions⟩ := destroyStep_others done
    refine .refuse i rfl (by rw [here]; rfl) (destroyStep_inner done).polled polled sessions loop ?_
    cases succeeds with
    | false => exact .inl rfl
    | true =>
      cases stage with
      | remove => exact .inr (by simpa [epollAgrees, here, Accept.unregisters] using agrees)
      | _ => exact .inl (by simp [owes, here])

theorem step_polls {input : Input} (agrees : epollAgrees s input) (taken : step s input = some s') : Polls s input s' := by
  cases input with
  | accept deadline succeeds => exact acceptStep_polls agrees taken
  | acceptAct action =>
    simp only [step, acceptAct] at taken
    split at taken
    next i here =>
      simp only [Option.map_eq_some_iff, Prod.exists] at taken
      obtain ⟨t, notify, done, rfl⟩ := taken
      have inner := act_inner done
      have polled := act_polled done
      have sessions := (act_spec done).2.2.1
      exact .quiet polled sessions.ge rfl (.inr (congrArg _ inner.loop))
    next => cases taken
  | wait events wokeup =>
    simp only [step, waitStep, Option.ite_none_right_eq_some, Option.some.injEq] at taken
    obtain ⟨⟨waiting, -⟩, rfl⟩ := taken
    exact .quiet rfl subset_rfl rfl (.inl (by rw [waiting]; rfl))
  | loop clock order succeeds => exact loopStep_polls agrees taken
  | loopAct action =>
    obtain ⟨i, work, phase, t, notify, w, here, done, acts, rfl⟩ := loopAct_eq taken
    have polled := act_polled done
    have sessions := (act_spec done).2.2.1
    refine .quiet polled sessions.ge rfl (.inl ?_)
    rw [here]
    rcases acts with ⟨call, rfl, -⟩ | ⟨rfl, -⟩ <;> rfl
  | giveUp =>
    simp only [step] at taken
    split at taken
    next i call phase here =>
      split_ifs at taken
      cases taken
      exact .quiet rfl subset_rfl rfl (.inl (by rw [here]; rfl))
    next => cases taken
  | insertWakeup | writeWakeup =>
    simp only [step, Option.ite_none_right_eq_some, Option.some.injEq] at taken
    obtain ⟨-, rfl⟩ := taken
    exact .quiet rfl subset_rfl rfl (.inr rfl)
  | storeQuit | signal =>
    cases taken
    exact .quiet rfl subset_rfl rfl (.inr rfl)

end Steps

structure Counted where
  state : State := {}
  -- `m_active_sessions`
  active : UInt32 := 0
  acceptOwes : Option Change := none
  loopOwes : Option Change := none

inductive CountInput where
  | step (input : Input)
  -- the accept thread, and the loop thread, changes the counter
  | acceptCounts
  | loopCounts
  deriving DecidableEq

def CountInput.ofAccept : CountInput → Bool
  | .step input => input.ofAccept
  | .acceptCounts => true
  | .loopCounts => false

-- The thread that has done the step goes on with the counter.
def Counted.moves (c : Counted) (input : Input) (s : State) : Counted :=
  { c with
    state := s
    acceptOwes := if input.ofAccept then owes c.state input else c.acceptOwes
    loopOwes := if input.ofLoop then owes c.state input else c.loopOwes }

def counted : System Counted CountInput where
  step c
    | .step input =>
      if (input.ofAccept → c.acceptOwes = none) ∧ (input.ofLoop → c.loopOwes = none) ∧ epollAgrees c.state input then
        (step c.state input).map (c.moves input)
      else none
    | .acceptCounts => c.acceptOwes.map fun change => { c with active := change.apply c.active, acceptOwes := none }
    | .loopCounts => c.loopOwes.map fun change => { c with active := change.apply c.active, loopOwes := none }

-- The sessions that epoll has, and the one it has not any more and that is still counted.
def Counted.load (c : Counted) : Nat := c.state.polled.card + if c.loopOwes = some .decrement then 1 else 0

structure Counts (c : Counted) : Prop where
  known : Known c.state
  safe : Safe c.state
  listed : ∀ j ∈ c.state.polled, j ∈ c.state.sessions ∨ c.state.loop.unregisters = some j
  offered : ∀ j, c.state.accept = .inserted j → j ∈ c.state.sessions
  accept : c.acceptOwes = none ∨ c.acceptOwes = some .increment ∧ c.state.accept = .idle
  loop : c.loopOwes = none ∨ c.loopOwes = some .decrement
  counted : (c.active.toNat + if c.acceptOwes = some .increment then 1 else 0) % 2 ^ 32 = c.load % 2 ^ 32

def CountAway (c : Counted) : CountInput → Prop
  | .step input => KeepsAway c.state input
  | _ => True

section Counts

variable {s s' : State} {input : Input} {c c' : Counted}

theorem step_accept (other : input.ofAccept = false) (taken : step s input = some s') : s'.accept = s.accept := by
  cases input with
  | accept | acceptAct => cases other
  | wait events wokeup =>
    simp only [step, waitStep, Option.ite_none_right_eq_some, Option.some.injEq] at taken
    obtain ⟨-, rfl⟩ := taken
    rfl
  | loop clock order succeeds =>
    change loopStep s clock order succeeds = some s' at taken
    cases here : s.loop with
    | inside i work p =>
      simp only [loopStep, here] at taken
      exact (insideStep_inside taken).accept
    | phase p =>
      simp only [loopStep, here, Option.some.injEq] at taken
      obtain ⟨fault, loop, eq, -⟩ := phaseStep_eq (s := s) p
      rw [← taken, eq]
    | swap | snapshot | collect =>
      simp only [loopStep, here, Option.ite_none_right_eq_some, Option.some.injEq] at taken
      obtain ⟨-, rfl⟩ := taken
      rfl
    | _ =>
      obtain ⟨edge, earliest, wait, loop, -, -, rfl⟩ := plainStep_eq (by rw [here]; rfl) (by rw [here]; rfl) taken
      rfl
  | loopAct action =>
    obtain ⟨i, work, p, -, inside⟩ := loopAct_inside taken
    exact inside.accept
  | giveUp =>
    obtain ⟨i, work, p, -, inside⟩ := giveUp_inside taken
    exact inside.accept
  | insertWakeup | writeWakeup =>
    simp only [step, Option.ite_none_right_eq_some, Option.some.injEq] at taken
    obtain ⟨-, rfl⟩ := taken
    rfl
  | storeQuit | signal =>
    cases taken
    rfl

theorem accept_offers {j : Id} (actor : input.ofAccept) (taken : step s input = some s') (offers : s'.accept = .inserted j) :
    j ∈ s'.sessions := by
  cases input with
  | accept deadline succeeds =>
    simp only [step, acceptStep] at taken
    split at taken
    next =>
      split_ifs at taken
      cases taken
      revert offers
      cases notifyDeadline deadline <;> rintro ⟨⟩
    next i notify _ =>
      cases taken
      revert offers
      cases (notify.step s.earliestDeadline succeeds).2 <;> rintro ⟨⟩
    next =>
      cases taken
      cases offers
      exact Finset.mem_insert_self _ _
    next => split_ifs at taken <;> cases taken <;> cases offers
    next =>
      simp only [Option.map_eq_some_iff, Prod.exists] at taken
      obtain ⟨t, rest, -, rfl⟩ := taken
      cases rest <;> cases offers
  | acceptAct action =>
    simp only [step, acceptAct] at taken
    split at taken
    next =>
      simp only [Option.map_eq_some_iff, Prod.exists] at taken
      obtain ⟨t, notify, -, rfl⟩ := taken
      cases offers
    next => cases taken
  | _ => cases actor

theorem offered_step (safe : Safe s) (offered : ∀ j, s.accept = .inserted j → j ∈ s.sessions)
    (polls : Polls s input s') (taken : step s input = some s') : ∀ j, s'.accept = .inserted j → j ∈ s'.sessions := by
  intro j offers
  cases actor : input.ofAccept with
  | true => exact accept_offers actor taken offers
  | false =>
    rw [step_accept actor taken] at offers
    have mem := offered j offers
    have held := (safe.fine j).held (by rw [offers]; rfl)
    cases polls with
    | quiet _ sessions => exact sessions mem
    | register | refuse => simp_all
    | erase i _ _ sessions _ working =>
      rw [sessions]
      exact Finset.mem_erase.mpr ⟨fun same => held.2.2 (same ▸ working), mem⟩
    | remove _ _ _ _ sessions => exact sessions ▸ mem
    | close _ _ _ _ _ sessions => exact sessions ▸ mem

theorem refuse_polled {i : Id} (safe : Safe s) (held : s.accept.held = some i) (fewer : s'.polled ⊆ s.polled)
    (others : s.polled.erase i ⊆ s'.polled) : i ∉ s.polled ∧ s'.polled = s.polled := by
  have unpolled := ((safe.fine i).held held).1
  rw [Finset.erase_eq_of_notMem unpolled] at others
  exact ⟨unpolled, fewer.antisymm others⟩

theorem close_unpolled {i : Id} {p : Phase} (known : Known s) (safe : Safe s)
    (listed : ∀ j ∈ s.polled, j ∈ s.sessions ∨ s.loop.unregisters = some j)
    (here : s.loop = .inside i (.destroying .close) p) : i ∉ s.polled := by
  obtain ⟨todo, rfl, -⟩ := destroying_deletes known safe.toIntact here
  have gone := (safe.fine i).unregistered (.inr (by rw [here]; exact List.mem_cons_self))
  intro mem
  rcases listed i mem with registered | unregisters
  · exact gone registered
  · simp [here, Loop.unregisters] at unregisters

theorem listed_step (safe : Safe s) (offered : ∀ j, s.accept = .inserted j → j ∈ s.sessions)
    (listed : ∀ j ∈ s.polled, j ∈ s.sessions ∨ s.loop.unregisters = some j) (polls : Polls s input s') :
    ∀ j ∈ s'.polled, j ∈ s'.sessions ∨ s'.loop.unregisters = some j := by
  intro j mem
  cases polls with
  | quiet polled sessions _ unregisters =>
    rw [polled] at mem
    rcases listed j mem with registered | removes
    · exact .inl (sessions registered)
    · rcases unregisters with free | same
      · simp [free] at removes
      · exact .inr (same ▸ removes)
  | register i _ here polled sessions loop =>
    rw [polled] at mem
    rw [sessions, loop]
    rcases Finset.mem_insert.mp mem with rfl | mem
    · exact .inl (offered j here)
    · exact listed j mem
  | refuse i _ held fewer others sessions loop =>
    obtain ⟨unpolled, -⟩ := refuse_polled safe held fewer others
    have mem := fewer mem
    have other : j ≠ i := fun same => unpolled (same ▸ mem)
    rw [loop]
    exact (listed j mem).imp_left fun registered => sessions (Finset.mem_erase.mpr ⟨other, registered⟩)
  | erase i _ polled sessions _ _ free next =>
    rw [polled] at mem
    have registered := (listed j mem).resolve_right (by simp [free])
    by_cases same : j = i
    · subst same
      exact .inr (next registered)
    · exact .inl (sessions ▸ Finset.mem_erase.mpr ⟨same, registered⟩)
  | remove i _ removes polled sessions =>
    rw [polled] at mem
    obtain ⟨other, mem⟩ := Finset.mem_erase.mp mem
    refine .inl (sessions ▸ (listed j mem).resolve_right fun same => other ?_)
    exact (Option.some.inj (removes.symm.trans same)).symm
  | close i p _ here polled sessions =>
    rw [polled] at mem
    obtain ⟨-, mem⟩ := Finset.mem_erase.mp mem
    exact .inl (sessions ▸ (listed j mem).resolve_right (by simp [here, Loop.unregisters]))

theorem counted_step_eq (taken : counted.step c (.step input) = some c') :
    (input.ofAccept → c.acceptOwes = none) ∧ (input.ofLoop → c.loopOwes = none) ∧ epollAgrees c.state input ∧
      ∃ s, step c.state input = some s ∧ c' = c.moves input s := by
  simp only [counted, Option.ite_none_right_eq_some, Option.map_eq_some_iff] at taken
  obtain ⟨⟨accept, loop, agrees⟩, s, done, rfl⟩ := taken
  exact ⟨accept, loop, agrees, s, done, rfl⟩

theorem not_ofLoop (actor : input.ofAccept) : input.ofLoop = false := by
  cases input <;> first | rfl | cases actor

theorem not_ofAccept (actor : input.ofLoop) : input.ofAccept = false := by
  cases input <;> first | rfl | cases actor

theorem moves_still (accept : input.ofAccept → c.acceptOwes = none) (loop : input.ofLoop → c.loopOwes = none)
    (polled : s.polled = c.state.polled) (free : owes c.state input = none) :
    (c.moves input s).load = c.load ∧ (c.moves input s).acceptOwes = c.acceptOwes ∧ (c.moves input s).loopOwes = c.loopOwes := by
  have accepts : (c.moves input s).acceptOwes = c.acceptOwes := by
    unfold Counted.moves
    dsimp only
    split_ifs with actor
    · rw [free, accept actor]
    · rfl
  have loops : (c.moves input s).loopOwes = c.loopOwes := by
    unfold Counted.moves
    dsimp only
    split_ifs with actor
    · rw [free, loop actor]
    · rfl
  refine ⟨?_, accepts, loops⟩
  unfold Counted.load
  rw [loops]
  exact congrArg (Finset.card · + _) polled

theorem moves_load (counts : Counts c) (accept : input.ofAccept → c.acceptOwes = none) (loop : input.ofLoop → c.loopOwes = none)
    (polls : Polls c.state input s) :
    ((c.moves input s).load = c.load ∧ (c.moves input s).acceptOwes = c.acceptOwes ∨
      (c.moves input s).load = c.load + 1 ∧ input.ofAccept ∧ c.acceptOwes = none ∧
        (c.moves input s).acceptOwes = some .increment ∧ s.accept = .idle) ∧
    ((c.moves input s).loopOwes = none ∨ (c.moves input s).loopOwes = some .decrement) := by
  have still := moves_still (s := s) accept loop
  cases polls with
  | quiet polled _ free | erase _ _ polled _ free =>
    obtain ⟨load, accepts, loops⟩ := still polled free
    exact ⟨.inl ⟨load, accepts⟩, loops ▸ counts.loop⟩
  | refuse i _ held fewer others _ _ free =>
    obtain ⟨unpolled, polled⟩ := refuse_polled counts.safe held fewer others
    obtain ⟨load, accepts, loops⟩ := still polled (free.resolve_right unpolled)
    exact ⟨.inl ⟨load, accepts⟩, loops ▸ counts.loop⟩
  | close i p _ here polled _ free =>
    have unpolled := close_unpolled counts.known counts.safe counts.listed here
    obtain ⟨load, accepts, loops⟩ := still (polled.trans (Finset.erase_eq_of_notMem unpolled)) free
    exact ⟨.inl ⟨load, accepts⟩, loops ▸ counts.loop⟩
  | register i actor here polled _ _ owes done =>
    have unpolled := ((counts.safe.fine i).held (by rw [here]; rfl)).1
    have loops := not_ofLoop actor
    simp only [Counted.moves, Counted.load, polled, owes, actor, loops, if_true, Bool.false_eq_true, if_false,
      Finset.card_insert_of_notMem unpolled]
    exact ⟨.inr ⟨by omega, trivial, accept actor, trivial, done⟩, counts.loop⟩
  | remove i actor _ polled _ owes =>
    have free := loop actor
    have accepts := not_ofAccept actor
    by_cases mem : i ∈ c.state.polled
    · have positive := Finset.card_pos.mpr ⟨i, mem⟩
      simp only [Counted.moves, Counted.load, polled, owes, actor, accepts, free, mem, Finset.card_erase_of_mem mem, if_true,
        Bool.false_eq_true, reduceCtorEq, if_false]
      exact ⟨.inl ⟨by omega, trivial⟩, .inr trivial⟩
    · simp [Counted.moves, Counted.load, polled, owes, actor, accepts, free, mem]

theorem count_step {input : CountInput} (counts : Counts c) (away : CountAway c input) (taken : counted.step c input = some c') :
    Counts c' := by
  cases input with
  | step input =>
    obtain ⟨accept, loop, agrees, s, done, rfl⟩ := counted_step_eq taken
    have polls := step_polls agrees done
    obtain ⟨load, owed⟩ := moves_load counts accept loop polls
    have before := counts.counted
    have active : (c.moves input s).active = c.active := rfl
    constructor
    case known => exact step_known counts.known done
    case safe => exact step_safe counts.known counts.safe away done
    case listed => exact listed_step counts.safe counts.offered counts.listed polls
    case offered => exact offered_step counts.safe counts.offered polls done
    case accept =>
      rcases load with ⟨-, same⟩ | ⟨-, -, -, owes, idle⟩
      · rw [same]
        rcases counts.accept with free | ⟨owes, idle⟩
        · exact .inl free
        · -- the accept thread waits for its turn with the counter
          have other : input.ofAccept = false := by
            by_contra actor
            simp [accept (by simpa using actor)] at owes
          exact .inr ⟨owes, (step_accept other done).trans idle⟩
      · exact .inr ⟨owes, idle⟩
    case loop => exact owed
    case counted =>
      rcases load with ⟨load, same⟩ | ⟨load, -, free, owes, -⟩
      · rw [load, same, active]
        exact before
      · rw [load, owes, active]
        simp only [free, reduceCtorEq, if_false, if_true] at before ⊢
        omega
  | acceptCounts =>
    simp only [counted, Option.map_eq_some_iff] at taken
    obtain ⟨change, owes, rfl⟩ := taken
    have before := counts.counted
    obtain ⟨rfl, -⟩ : change = .increment ∧ c.state.accept = .idle := by simpa [owes] using counts.accept
    refine { counts with accept := .inl rfl, counted := ?_ }
    simp only [owes, if_true] at before
    simp only [Change.apply, UInt32.toNat_add, UInt32.toNat_one, reduceCtorEq, if_false, Nat.add_zero, Nat.mod_mod]
    exact before
  | loopCounts =>
    simp only [counted, Option.map_eq_some_iff] at taken
    obtain ⟨change, owes, rfl⟩ := taken
    have before := counts.counted
    obtain rfl : change = .decrement := by simpa [owes] using counts.loop
    refine { counts with loop := .inl rfl, counted := ?_ }
    simp only [Counted.load, owes, if_true] at before
    simp only [Counted.load, Change.apply, UInt32.toNat_sub, UInt32.toNat_one, reduceCtorEq, if_false]
    have small := c.active.toNat_lt
    omega

theorem counts_start : Counts {} where
  known := known_start
  safe := safe_start
  listed := by simp
  offered := by rintro _ ⟨⟩
  accept := .inl rfl
  loop := .inl rfl
  counted := rfl

theorem Counts.exact (counts : Counts c) (paid : c.acceptOwes = none) (fits : c.load < 2 ^ 32) : c.active.toNat = c.load := by
  have eq := counts.counted
  have small := c.active.toNat_lt
  simp only [paid, reduceCtorEq, if_false] at eq
  omega

end Counts

/--
The counter of an event loop agrees with epoll. When the accept thread is not between the registration of a session and its
increment, `m_active_sessions` is the number of the sessions epoll has, and one more only when the loop thread has removed one
and not counted it yet. In particular the accept thread, which compares the counters when it is done with a session, never
finds one below zero, although the counter can wrap around in between.
-/
theorem active_sessions_exact {inputs : List CountInput} {c : Counted} (reached : counted.Reaches CountAway {} inputs c)
    (paid : c.acceptOwes = none) (fits : c.state.polled.card + 1 < 2 ^ 32) :
    c.active.toNat = c.state.polled.card + if c.loopOwes = some .decrement then 1 else 0 := by
  have counts := reached.invariant (P := fun _ c => Counts c) counts_start (fun before away taken => count_step before away taken)
  apply counts.exact paid
  unfold Counted.load
  split_ifs <;> omega

def Counted.apart (c : Counted) : CountInput → Bool
  | .step input => c.state.apart input
  | _ => true

theorem away_of_apart (c : Counted) (input : CountInput) (checked : c.apart input) : CountAway c input := by
  cases input with
  | step input => exact keepsAway_of_apart checked
  | _ => trivial

theorem active_sessions_exact_wrapped :
    ∃ inputs c c', counted.Reaches CountAway {} inputs c ∧ c.active = 4294967295 ∧
      counted.Reaches CountAway {} (inputs ++ [.acceptCounts]) c' ∧ c'.active.toNat = c'.state.polled.card := by
  let inputs : List CountInput :=
    [.step (.accept 0 true), .step (.accept 0 true), .step (.accept 0 true), .step (.loop 0 [] true),
      .step (.wait [(0, .error)] false), .step (.loop 0 [] true), .step (.loopAct .finish), .step (.loop 0 [] true),
      .step (.loop 0 [] true), .step (.loop 0 [] true), .step (.loop 0 [] true), .loopCounts]
  have ran : ((counted.guarded Counted.apart).run {} inputs).map (fun c => (c.active, c.acceptOwes, c.loopOwes, c.state.polled)) =
      some (4294967295, some .increment, none, ∅) := by
    decide +kernel
  obtain ⟨c, ran, seen⟩ := Option.map_eq_some_iff.mp ran
  obtain ⟨active, owes, loop, polled⟩ : c.active = 4294967295 ∧ c.acceptOwes = some .increment ∧ c.loopOwes = none ∧
      c.state.polled = ∅ := by
    simpa using seen
  have reached := System.reaches_of_guarded away_of_apart ran
  have later : counted.Reaches CountAway {} (inputs ++ [.acceptCounts]) { c with active := c.active + 1, acceptOwes := none } :=
    .step reached trivial (by simp [counted, owes, Change.apply])
  have exact := active_sessions_exact later rfl (by simp [polled])
  exact ⟨inputs, c, _, reached, active, later, by simpa [loop] using exact⟩

-- The accept thread of `exec`. It compares the counters one after another, with two loads for each comparison.
inductive Thread (size : Nat) where
  | idle
  | choosing (best : Fin size) (i : Nat) (bestActive loopActive : Option UInt32)
  | serving (k : Fin size)
  deriving DecidableEq

structure Server (size : Nat) where
  loops : Fin size → Counted := fun _ => {}
  thread : Thread size := .idle
  -- the counters when the accept thread started to compare them
  begun : Fin size → UInt32 := fun _ => 0

inductive ServerInput (size : Nat) where
  | accepted
  -- the operands of a comparison are loaded in any order
  | loadBest
  | loadLoop
  | compare
  | chosen
  -- no session could be made for the connection
  | failed
  | loop (k : Fin size) (input : CountInput)
  deriving DecidableEq

variable {size : Nat}

def Server.loopStep (s : Server size) (k : Fin size) (input : CountInput) : Option (Server size) :=
  if input.ofAccept then
    if s.thread = .serving k then
      (counted.step (s.loops k) input).map fun c =>
        { s with
          loops := Function.update s.loops k c
          thread := if c.state.accept = .idle ∧ c.acceptOwes = none then .idle else .serving k }
    else none
  else (counted.step (s.loops k) input).map fun c => { s with loops := Function.update s.loops k c }

def server (size : Nat) [NeZero size] : System (Server size) (ServerInput size) where
  step s
    | .accepted =>
      match s.thread with
      | .idle => some { s with thread := .choosing 0 1 none none, begun := fun k => (s.loops k).active }
      | _ => none
    | .loadBest =>
      match s.thread with
      | .choosing best i none loopActive =>
        if i < size then some { s with thread := .choosing best i (some (s.loops best).active) loopActive } else none
      | _ => none
    | .loadLoop =>
      match s.thread with
      | .choosing best i bestActive none =>
        if inside : i < size then
          some { s with thread := .choosing best i bestActive (some (s.loops ⟨i, inside⟩).active) }
        else none
      | _ => none
    | .compare =>
      match s.thread with
      | .choosing best i (some bestActive) (some loopActive) =>
        if inside : i < size then
          some { s with thread := .choosing (if loopActive < bestActive then ⟨i, inside⟩ else best) (i + 1) none none }
        else none
      | _ => none
    | .chosen =>
      match s.thread with
      | .choosing best i none none => if i < size then none else some { s with thread := .serving best }
      | _ => none
    | .failed =>
      match s.thread with
      | .serving k =>
        if (s.loops k).state.accept = .idle ∧ (s.loops k).acceptOwes = none then some { s with thread := .idle } else none
      | _ => none
    | .loop k input => s.loopStep k input

structure Chooses (s : Server size) (best : Fin size) (i : Nat) (bestActive loopActive : Option UInt32) : Prop where
  started : ∀ k, (s.loops k).load ≤ (s.begun k).toNat
  least : ∀ k : Fin size, k < i → (s.loops best).load ≤ (s.begun k).toNat
  best : ∀ active, bestActive = some active → (s.loops best).load ≤ active.toNat ∧
    ∀ k : Fin size, k < i → active.toNat ≤ (s.begun k).toNat
  loop : ∀ active, loopActive = some active → ∀ k : Fin size, k = i → (s.loops k).load ≤ active.toNat ∧
    active.toNat ≤ (s.begun k).toNat

structure Balances (bound : Nat) (s : Server size) : Prop where
  counts : ∀ k, Counts (s.loops k)
  load : ∀ k, (s.loops k).load ≤ bound / size + 1
  away : ∀ k, s.thread ≠ .serving k → (s.loops k).acceptOwes = none
  total : s.thread ≠ .idle → ∑ k, (s.begun k).toNat ≤ bound
  chooses : ∀ best i bestActive loopActive, s.thread = .choosing best i bestActive loopActive →
    Chooses s best i bestActive loopActive
  serving : ∀ k, s.thread = .serving k → (s.loops k).acceptOwes = none → ∀ j, (s.loops k).load ≤ (s.begun j).toNat

def Admits (bound : Nat) (s : Server size) : ServerInput size → Prop
  | .accepted => ∑ k, (s.loops k).active.toNat ≤ bound
  | .loop k input => CountAway (s.loops k) input
  | _ => True

section Balance

variable {bound : Nat} {s s' : Server size} {c c' : Counted}

theorem count_load {input : CountInput} (counts : Counts c) (taken : counted.step c input = some c') :
    c'.load ≤ c.load ∧ (c'.acceptOwes = c.acceptOwes ∨ input = .acceptCounts) ∨
      c'.load = c.load + 1 ∧ input.ofAccept ∧ c.acceptOwes = none ∧ c'.acceptOwes ≠ none := by
  cases input with
  | step input =>
    obtain ⟨accept, loop, agrees, s, done, rfl⟩ := counted_step_eq taken
    obtain ⟨⟨load, same⟩ | ⟨load, actor, free, owes, -⟩, -⟩ := moves_load counts accept loop (step_polls agrees done)
    · exact .inl ⟨load.le, .inl same⟩
    · exact .inr ⟨load, actor, free, by simp [owes]⟩
  | acceptCounts =>
    simp only [counted, Option.map_eq_some_iff] at taken
    obtain ⟨change, -, rfl⟩ := taken
    exact .inl ⟨Nat.le_refl _, .inr rfl⟩
  | loopCounts =>
    simp only [counted, Option.map_eq_some_iff] at taken
    obtain ⟨change, -, rfl⟩ := taken
    exact .inl ⟨by simp [Counted.load], .inl rfl⟩

theorem Balances.exact (balances : Balances bound s) (fits : bound + 1 < 2 ^ 32) {k : Fin size} (away : s.thread ≠ .serving k) :
    (s.loops k).active.toNat = (s.loops k).load := by
  apply (balances.counts k).exact (balances.away k away)
  have load := balances.load k
  have small := Nat.div_le_self bound size
  omega

theorem load_le_average {load : Nat} (least : ∀ j, load ≤ (s.begun j).toNat) (total : ∑ k, (s.begun k).toNat ≤ bound)
    (k : Fin size) : load ≤ bound / size := by
  rw [Nat.le_div_iff_mul_le k.pos]
  calc load * size = ∑ _j : Fin size, load := by simp [Nat.mul_comm]
    _ ≤ ∑ j, (s.begun j).toNat := Finset.sum_le_sum fun j _ => least j
    _ ≤ bound := total

theorem Chooses.mono {best : Fin size} {i : Nat} {bestActive loopActive : Option UInt32}
    (chooses : Chooses s best i bestActive loopActive) (begun : s'.begun = s.begun)
    (load : ∀ k, (s'.loops k).load ≤ (s.loops k).load) : Chooses s' best i bestActive loopActive where
  started k := (load k).trans (begun ▸ chooses.started k)
  least k before := (load best).trans (begun ▸ chooses.least k before)
  best active eq := ⟨(load best).trans (chooses.best active eq).1, begun ▸ (chooses.best active eq).2⟩
  loop active eq k same := ⟨(load k).trans (chooses.loop active eq k same).1, begun ▸ (chooses.loop active eq k same).2⟩

theorem Balances.mono (balances : Balances bound s) (thread : s'.thread = s.thread) (begun : s'.begun = s.begun)
    (counts : ∀ k, Counts (s'.loops k)) (load : ∀ k, (s'.loops k).load ≤ (s.loops k).load)
    (owes : ∀ k, (s'.loops k).acceptOwes = (s.loops k).acceptOwes) : Balances bound s' where
  counts := counts
  load k := (load k).trans (balances.load k)
  away k away := (owes k).trans (balances.away k (thread ▸ away))
  total busy := begun ▸ balances.total (thread ▸ busy)
  chooses best i bestActive loopActive eq := (balances.chooses best i bestActive loopActive (thread ▸ eq)).mono begun load
  serving k eq free j := by
    rw [begun]
    exact (load k).trans (balances.serving k (thread ▸ eq) ((owes k).symm.trans free) j)

theorem others_balance {k : Fin size} {input : CountInput} (balances : Balances bound s) (away : CountAway (s.loops k) input)
    (other : input.ofAccept = false) (taken : counted.step (s.loops k) input = some c) :
    Balances bound { s with loops := Function.update s.loops k c } := by
  have counts := count_step (balances.counts k) away taken
  obtain ⟨load, owes⟩ : c.load ≤ (s.loops k).load ∧ c.acceptOwes = (s.loops k).acceptOwes := by
    rcases count_load (balances.counts k) taken with ⟨load, same | rfl⟩ | ⟨-, actor, -⟩
    · exact ⟨load, same⟩
    · cases other
    · simp [other] at actor
  refine balances.mono rfl rfl (fun j => ?_) (fun j => ?_) (fun j => ?_)
  all_goals
    by_cases same : j = k
    · subst same
      simp [*]
    · simp [same, balances.counts j]

theorem accept_balances {k : Fin size} {input : CountInput} (balances : Balances bound s) (away : CountAway (s.loops k) input)
    (here : s.thread = .serving k) (taken : counted.step (s.loops k) input = some c) :
    Balances bound { s with
      loops := Function.update s.loops k c
      thread := if c.state.accept = .idle ∧ c.acceptOwes = none then .idle else .serving k } := by
  have counts := count_step (balances.counts k) away taken
  have load := count_load (balances.counts k) taken
  have total := balances.total (by simp [here])
  constructor
  case counts =>
    intro j
    by_cases same : j = k
    · subst same
      simpa using counts
    · simpa [same] using balances.counts j
  case load =>
    intro j
    by_cases same : j = k
    · subst same
      simp only [Function.update_self]
      rcases load with ⟨less, -⟩ | ⟨more, -, free, -⟩
      · exact less.trans (balances.load j)
      · -- the loop was chosen when it had not more than the average
        have average := load_le_average (balances.serving j here free) total j
        omega
    · simpa [same] using balances.load j
  case away =>
    intro j
    by_cases same : j = k
    · subst same
      simp only [Function.update_self]
      split_ifs with done
      · exact fun _ => done.2
      · exact fun other => absurd rfl other
    · simpa [same] using fun _ => balances.away j (by simpa [here] using Ne.symm same)
  case total => exact fun _ => total
  case chooses =>
    intro best i bestActive loopActive eq
    dsimp only at eq
    split_ifs at eq
  case serving =>
    intro j eq free
    dsimp only at eq
    split_ifs at eq with done
    cases eq
    simp only [Function.update_self] at free ⊢
    rcases load with ⟨less, same | rfl⟩ | ⟨-, -, -, owes⟩
    · exact fun i => less.trans (balances.serving k here (same ▸ free) i)
    · -- after the increment the accept thread is done with the session
      simp only [counted, Option.map_eq_some_iff] at taken
      obtain ⟨change, owed, rfl⟩ := taken
      have idle := (balances.counts k).accept.resolve_left (by simp [owed])
      exact absurd ⟨idle.2, rfl⟩ done
    · exact absurd free owes

theorem choosing_balances {best : Fin size} {i : Nat} {bestActive loopActive : Option UInt32} {begun : Fin size → UInt32}
    (balances : Balances bound s) (away : ∀ k, s.thread ≠ .serving k) (total : ∑ k, (begun k).toNat ≤ bound)
    (chooses : Chooses { s with thread := .choosing best i bestActive loopActive, begun } best i bestActive loopActive) :
    Balances bound { s with thread := .choosing best i bestActive loopActive, begun } where
  counts := balances.counts
  load := balances.load
  away k _ := balances.away k (away k)
  total _ := total
  chooses _ _ _ _ eq := by
    cases eq
    exact chooses
  serving := by rintro _ ⟨⟩

theorem server_balances [NeZero size] {input : ServerInput size} (fits : bound + 1 < 2 ^ 32) (balances : Balances bound s)
    (admits : Admits bound s input) (taken : (server size).step s input = some s') : Balances bound s' := by
  cases input with
  | accepted =>
    simp only [server] at taken
    split at taken
    next idle =>
      cases taken
      have away (k : Fin size) : s.thread ≠ .serving k := by simp [idle]
      have started (k : Fin size) : (s.loops k).load ≤ (s.loops k).active.toNat := (balances.exact fits (away k)).ge
      refine choosing_balances balances away admits ⟨started, fun k before => ?_, by rintro _ ⟨⟩, by rintro _ ⟨⟩⟩
      obtain rfl : k = 0 := Fin.ext (by simpa using before)
      exact started 0
    next => cases taken
  | loadBest =>
    simp only [server] at taken
    split at taken
    next best i loopActive here =>
      have chooses := balances.chooses _ _ _ _ here
      have away (k : Fin size) : s.thread ≠ .serving k := by simp [here]
      split_ifs at taken
      cases taken
      refine choosing_balances balances away (balances.total (by simp [here])) { chooses with best := ?_ }
      rintro _ ⟨⟩
      dsimp only
      rw [balances.exact fits (away best)]
      exact ⟨Nat.le_refl _, chooses.least⟩
    next => cases taken
  | loadLoop =>
    simp only [server] at taken
    split at taken
    next best i bestActive here =>
      have chooses := balances.chooses _ _ _ _ here
      have away (k : Fin size) : s.thread ≠ .serving k := by simp [here]
      split_ifs at taken with inside
      cases taken
      refine choosing_balances balances away (balances.total (by simp [here])) { chooses with loop := ?_ }
      rintro _ ⟨⟩ k same
      obtain rfl : k = ⟨i, inside⟩ := Fin.ext same
      dsimp only
      rw [balances.exact fits (away _)]
      exact ⟨Nat.le_refl _, chooses.started _⟩
    next => cases taken
  | compare =>
    simp only [server] at taken
    split at taken
    next best i bestActive loopActive here =>
      have chooses := balances.chooses _ _ _ _ here
      have away (k : Fin size) : s.thread ≠ .serving k := by simp [here]
      have total := balances.total (by simp [here])
      split_ifs at taken with inside less
      all_goals
        cases taken
        obtain ⟨bestLoad, bestLeast⟩ := chooses.best _ rfl
        obtain ⟨loopLoad, loopBegun⟩ := chooses.loop _ rfl ⟨i, inside⟩ rfl
        rw [UInt32.lt_iff_toNat_lt] at less
        refine choosing_balances balances away total ⟨chooses.started, fun k before => ?_, by rintro _ ⟨⟩, by rintro _ ⟨⟩⟩
        dsimp only
        rcases Nat.lt_succ_iff_lt_or_eq.mp before with before | same
        · have least := bestLeast k before
          omega
        · obtain rfl : k = ⟨i, inside⟩ := Fin.ext same
          omega
    next => cases taken
  | chosen =>
    simp only [server] at taken
    split at taken
    next best i here =>
      have chooses := balances.chooses _ _ _ _ here
      split_ifs at taken with inside
      cases taken
      refine ⟨balances.counts, balances.load, fun k _ => balances.away k (by simp [here]),
        fun _ => balances.total (by simp [here]), by rintro _ _ _ _ ⟨⟩, ?_⟩
      rintro _ ⟨⟩ _ j
      exact chooses.least j (Nat.lt_of_lt_of_le j.isLt (Nat.not_lt.mp inside))
    next => cases taken
  | failed =>
    simp only [server] at taken
    split at taken
    next k here =>
      split_ifs at taken with done
      cases taken
      refine ⟨balances.counts, balances.load, fun j _ => ?_, fun busy => absurd rfl busy, by rintro _ _ _ _ ⟨⟩, by rintro _ ⟨⟩⟩
      by_cases same : j = k
      · exact same ▸ done.2
      · exact balances.away j (by simpa [here] using Ne.symm same)
    next => cases taken
  | loop k input =>
    simp only [server, Server.loopStep] at taken
    split_ifs at taken with actor here
    · obtain ⟨c, done, rfl⟩ := Option.map_eq_some_iff.mp taken
      exact accept_balances balances admits here done
    · obtain ⟨c, done, rfl⟩ := Option.map_eq_some_iff.mp taken
      exact others_balance balances admits (by simpa using actor) done

theorem balances_start : Balances bound ({} : Server size) :=
  ⟨fun _ => counts_start, fun _ => Nat.zero_le _, fun _ _ => rfl, fun busy => absurd rfl busy, by rintro _ _ _ _ ⟨⟩, by rintro _ ⟨⟩⟩

theorem reaches_balances [NeZero size] {inputs : List (ServerInput size)} (fits : bound + 1 < 2 ^ 32)
    (reached : (server size).Reaches (Admits bound) {} inputs s) : Balances bound s :=
  reached.invariant (P := fun _ s => Balances bound s) balances_start
    (fun before admits taken => server_balances fits before admits taken)

end Balance

def serverApart (bound : Nat) (s : Server size) : ServerInput size → Bool
  | .accepted => ∑ k, (s.loops k).active.toNat ≤ bound
  | .loop k input => (s.loops k).apart input
  | _ => true

theorem admits_of_apart (bound : Nat) (s : Server size) (input : ServerInput size) (checked : serverApart bound s input) :
    Admits bound s input := by
  cases input with
  | accepted => simpa [serverApart, Admits] using checked
  | loop k input => exact away_of_apart _ _ checked
  | _ => trivial

/--
The accept thread finds the least used loop, whatever the loop threads do while it compares the counters: up to the
registration of the new session the chosen loop counts at most as many sessions as any of the loops did when the search began.
-/
theorem best_loop_least_used [NeZero size] {bound : Nat} {inputs : List (ServerInput size)} {s : Server size} {k : Fin size}
    (fits : bound + 1 < 2 ^ 32) (reached : (server size).Reaches (Admits bound) {} inputs s) (here : s.thread = .serving k)
    (unregistered : (s.loops k).acceptOwes = none) : ∀ j, (s.loops k).active.toNat ≤ (s.begun j).toNat := by
  have balances := reaches_balances fits reached
  intro j
  have load := balances.load k
  have small := Nat.div_le_self bound size
  rw [(balances.counts k).exact unregistered (by omega)]
  exact balances.serving k here unregistered j

-- The second one of two connections: the first loop has a session.
def secondChoice : List (ServerInput 2) :=
  [.accepted, .loadBest, .loadLoop, .compare, .chosen, .loop 0 (.step (.accept 0 true)), .loop 0 (.step (.accept 0 true)),
    .loop 0 (.step (.accept 0 true)), .loop 0 .acceptCounts, .accepted, .loadLoop, .loadBest, .compare, .chosen]

theorem best_loop_least_used_second :
    ∃ s, (server 2).Reaches (Admits 1) {} secondChoice s ∧ s.thread = .serving 1 ∧ s.begun 0 = 1 ∧ s.begun 1 = 0 ∧
      ∀ j, (s.loops 1).active.toNat ≤ (s.begun j).toNat := by
  have ran : (((server 2).guarded (serverApart 1)).run {} secondChoice).map
      (fun s => (s.thread, s.begun 0, s.begun 1, (s.loops 1).acceptOwes)) = some (.serving 1, 1, 0, none) := by
    decide +kernel
  obtain ⟨s, ran, seen⟩ := Option.map_eq_some_iff.mp ran
  obtain ⟨thread, first, second, owes⟩ : s.thread = .serving 1 ∧ s.begun 0 = 1 ∧ s.begun 1 = 0 ∧ (s.loops 1).acceptOwes = none := by
    simpa using seen
  have reached := System.reaches_of_guarded (admits_of_apart 1) ran
  exact ⟨s, reached, thread, first, second, best_loop_least_used (by decide) reached thread owes⟩

/--
The loops share the sessions. In every run in which at most `bound` sessions are counted whenever a connection comes in, no
loop ever has more than one session above the average of `bound`.
-/
theorem loops_balanced [NeZero size] {bound : Nat} {inputs : List (ServerInput size)} {s : Server size}
    (fits : bound + 1 < 2 ^ 32) (reached : (server size).Reaches (Admits bound) {} inputs s) (k : Fin size) :
    (s.loops k).state.polled.card ≤ bound / size + 1 :=
  (Nat.le_add_right _ _).trans ((reaches_balances fits reached).load k)

theorem loops_balanced_two :
    ∃ inputs s, (server 2).Reaches (Admits 1) {} inputs s ∧ ∀ k, (s.loops k).state.polled.card = 1 ∧
      (s.loops k).state.polled.card ≤ 1 / 2 + 1 := by
  let inputs : List (ServerInput 2) := secondChoice ++
    [.loop 1 (.step (.accept 0 true)), .loop 1 (.step (.accept 0 true)), .loop 1 (.step (.accept 0 true))]
  have ran : (((server 2).guarded (serverApart 1)).run {} inputs).map
      (fun s => ((s.loops 0).state.polled.card, (s.loops 1).state.polled.card)) = some (1, 1) := by
    decide +kernel
  obtain ⟨s, ran, seen⟩ := Option.map_eq_some_iff.mp ran
  obtain ⟨first, second⟩ : (s.loops 0).state.polled.card = 1 ∧ (s.loops 1).state.polled.card = 1 := by simpa using seen
  have reached := System.reaches_of_guarded (admits_of_apart 1) ran
  refine ⟨inputs, s, reached, fun k => ⟨?_, loops_balanced (by decide) reached k⟩⟩
  revert k
  exact Fin.forall_fin_two.mpr ⟨first, second⟩

end Dracon.SessionsEventLoop
