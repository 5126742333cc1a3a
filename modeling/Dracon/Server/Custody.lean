import Dracon.Server.SessionsEventLoop

set_option autoImplicit false

namespace Dracon.SessionsEventLoop

open Shared

def Phase.todo : Phase → List Id
  | .dispatch todo _ => todo.map Prod.fst
  | .wake todo | .scan todo _ _ | .delete todo => todo

def Loop.current : Loop → Option Phase
  | .phase p | .inside _ _ p => some p
  | _ => none

def Loop.todo (loop : Loop) : List Id := loop.current.elim [] Phase.todo

def Loop.working : Loop → Option Id
  | .inside i _ _ => some i
  | _ => none

def Call.fits : Call → Phase → Bool
  | .processEvents _, .dispatch _ _ | .wakeup, .wake _ | .timeout, .scan _ _ _ => true
  | _, _ => false

def Work.fits : Work → Phase → Bool
  | .destroying _, .delete _ | .found, .wake _ => true
  | .destroying _, _ | .found, _ | .leaving _ none, .delete _ => false
  | .leaving _ none, _ => true
  | .running call, p | .notifying _ call, p | .leaving _ (some call), p => call.fits p

def Loop.fits : Loop → Bool
  | .inside _ work p => work.fits p
  | _ => true

structure Frame (s : State) (i : Id) (s' : State) : Prop where
  wakeups : s'.wakeups = s.wakeups
  edge : s'.edge = s.edge
  writing : s'.writing = s.writing
  created : s'.created = s.created
  inserted : s'.inserted = s.inserted
  swapped : s'.swapped = s.swapped
  sessions : s'.sessions ⊆ s.sessions
  polled : s'.polled ⊆ s.polled
  deleteLater : s'.deleteLater ⊆ insert i s.deleteLater
  object : ∀ j, j ≠ i → s'.object j = s.object j

structure Inner (s : State) (i : Id) (s' : State) : Prop extends Frame s i s' where
  accept : s'.accept = s.accept
  loop : s'.loop = s.loop
  resumed : s'.resumed = s.resumed

section Frames

variable {s s' : State} {i : Id} {succeeds : Bool}

theorem Frame.jump (frame : Frame s i s') (accept : Accept) (loop : Loop) (resumed : Finset Id) :
    Frame s i { s' with accept := accept, loop := loop, resumed := resumed } :=
  ⟨frame.1, frame.2, frame.3, frame.4, frame.5, frame.6, frame.7, frame.8, frame.9, frame.10⟩

theorem inner_change {object : Id → Session} {sessions polled deleteLater : Finset Id}
    (earliest : Time) (fault : Bool) (others : ∀ j, j ≠ i → object j = s.object j) (fewer : sessions ⊆ s.sessions)
    (unpolled : polled ⊆ s.polled) (doomed : deleteLater ⊆ insert i s.deleteLater) :
    Inner s i { s with
      object := object, sessions := sessions, polled := polled, deleteLater := deleteLater,
      earliestDeadline := earliest, fault := fault } :=
  ⟨⟨rfl, rfl, rfl, rfl, rfl, rfl, fewer, unpolled, doomed, others⟩, rfl, rfl, rfl⟩

theorem inner_still (earliest : Time) (fault : Bool) :
    Inner s i { s with earliestDeadline := earliest, fault := fault } :=
  inner_change _ _ (fun _ _ => rfl) subset_rfl subset_rfl (Finset.subset_insert _ _)

theorem frame_still (earliest : Time) (fault : Bool) (accept : Accept) (loop : Loop) (resumed : Finset Id) :
    Frame s i { s with
      earliestDeadline := earliest, fault := fault, accept := accept, loop := loop, resumed := resumed } :=
  (inner_still earliest fault).jump accept loop resumed

theorem inner_set (session : Session) (fault : Bool) :
    Inner s i { s with object := Function.update s.object i session, fault := fault } :=
  inner_change _ _ (fun _ other => Function.update_of_ne other _ _) subset_rfl subset_rfl (Finset.subset_insert _ _)

theorem act_inner {action : Action} {notify : Option Notify} (done : act s i action = some (s', notify)) :
    Inner s i s' := by
  cases action
  all_goals
    simp only [act] at done
    split_ifs at done
    cases done
    exact inner_set _ _

theorem destroyStep_inner {stage : Destroy} {rest : Option Destroy}
    (done : destroyStep s i succeeds stage = some (s', rest)) : Inner s i s' := by
  cases stage with
  | mark =>
    cases done
    exact inner_set _ _
  | quitting =>
    simp only [destroyStep] at done
    split_ifs at done
    cases done
    exact inner_still _ _
  | notifying notify =>
    cases done
    exact inner_still _ _
  | erase =>
    cases done
    exact inner_change _ _ (fun _ _ => rfl) (Finset.erase_subset _ _) subset_rfl (Finset.subset_insert _ _)
  | remove =>
    cases done
    refine inner_change _ _ (fun _ _ => rfl) subset_rfl ?_ (Finset.subset_insert _ _)
    split_ifs
    · exact Finset.erase_subset _ _
    · exact subset_rfl
  | close =>
    cases done
    exact inner_change _ _ (fun _ other => Function.update_of_ne other _ _) subset_rfl (Finset.erase_subset _ _)
      (Finset.subset_insert _ _)

theorem leaveStep_inner {stage : Leave} {rest : Option Leave} (done : leaveStep s i succeeds stage = (s', rest)) :
    Inner s i s' := by
  cases stage with
  | check =>
    cases done
    exact inner_still _ _
  | erase =>
    cases done
    exact inner_change _ _ (fun _ _ => rfl) (Finset.erase_subset _ _) subset_rfl (Finset.subset_insert _ _)
  | remove =>
    cases done
    refine inner_change _ _ (fun _ _ => rfl) subset_rfl ?_ (Finset.subset_insert _ _)
    split_ifs
    · exact Finset.erase_subset _ _
    · exact subset_rfl
  | insert =>
    cases done
    refine inner_change _ _ (fun _ _ => rfl) subset_rfl subset_rfl ?_
    split_ifs
    · exact subset_rfl
    · exact Finset.subset_insert _ _

theorem returnStep_eq {phase : Phase} {call : Call} (taken : returnStep s i phase succeeds call = some s') :
    s' = { s with loop := .phase phase } ∧ call ≠ .timeout ∨
      s' = { s with loop := .inside i (.leaving .check none) phase } := by
  unfold returnStep at taken
  split at taken <;> split_ifs at taken <;> cases taken <;> simp

structure Inside (s : State) (i : Id) (work : Work) (phase : Phase) (s' : State) : Prop extends Frame s i s' where
  accept : s'.accept = s.accept
  loop : s'.loop = .phase phase ∨ ∃ w, s'.loop = .inside i w phase ∧ (work.fits phase → w.fits phase)
  resumed : s.resumed ⊆ s'.resumed
  found : work = .found → i ∈ s'.resumed

@[simp] theorem fits_destroying {phase : Phase} (stage : Destroy) :
    (Work.destroying stage).fits phase = (Work.destroying .mark).fits phase := by
  cases phase <;> rfl

@[simp] theorem fits_leaving {phase : Phase} (stage : Leave) (back : Option Call) :
    (Work.leaving stage back).fits phase = (Work.leaving .check back).fits phase := by
  cases back <;> cases phase <;> rfl

theorem leaving_fits {call : Call} {phase : Phase} (stage : Leave) (fits : call.fits phase) :
    (Work.leaving stage none).fits phase := by
  cases phase <;> simp_all [Work.fits, Call.fits]

theorem insideStep_inside {phase : Phase} {work : Work} (taken : insideStep s i phase succeeds work = some s') :
    Inside s i work phase s' := by
  cases work with
  | found =>
    cases taken
    refine ⟨frame_still _ _ _ _ _, rfl, .inr ⟨_, rfl, fun fits => ?_⟩, Finset.subset_insert _ _,
      fun _ => Finset.mem_insert_self _ _⟩
    cases phase <;> simp_all [Work.fits]
    split_ifs <;> rfl
  | running call =>
    obtain ⟨rfl, -⟩ | rfl := returnStep_eq taken
    · exact ⟨frame_still _ _ _ _ _, rfl, .inl rfl, subset_rfl, nofun⟩
    · exact ⟨frame_still _ _ _ _ _, rfl, .inr ⟨_, rfl, leaving_fits .check⟩, subset_rfl, nofun⟩
  | notifying notify call =>
    simp only [insideStep, Option.some.injEq] at taken
    subst taken
    refine ⟨frame_still _ _ _ _ _, rfl, .inr ⟨_, rfl, fun fits => ?_⟩, subset_rfl, nofun⟩
    cases (notify.step s.earliestDeadline succeeds).2 <;> exact fits
  | leaving stage back =>
    rcases done : leaveStep s i succeeds stage with ⟨t, rest⟩
    simp only [insideStep, done, Option.some.injEq] at taken
    subst taken
    have inner := leaveStep_inner done
    refine ⟨inner.jump _ _ _, inner.accept, ?_, subset_of_eq inner.resumed.symm, nofun⟩
    match rest, back with
    | some stage, back => exact .inr ⟨_, rfl, by simp⟩
    | none, some call => exact .inr ⟨_, rfl, id⟩
    | none, none => exact .inl rfl
  | destroying stage =>
    simp only [insideStep, Option.map_eq_some_iff, Prod.exists] at taken
    obtain ⟨t, rest, done, rfl⟩ := taken
    have inner := destroyStep_inner done
    refine ⟨inner.jump _ _ _, inner.accept, ?_, subset_of_eq inner.resumed.symm, nofun⟩
    cases rest with
    | none => exact .inl rfl
    | some stage => exact .inr ⟨_, rfl, by simp⟩

def Work.acts (work : Work) (notify : Option Notify) (w : Work) : Prop :=
  (∃ call, work = .running call ∧ w = notify.elim (.running call) fun notify => .notifying notify call) ∨
    work = .destroying .quitting ∧ w = .destroying (notify.elim .quitting .notifying)

theorem act_inside {action : Action} {notify : Option Notify} {work w : Work} (phase : Phase)
    (done : act s i action = some (s', notify)) (acts : work.acts notify w) :
    Inside s i work phase { s' with loop := .inside i w phase } := by
  have inner := act_inner done
  refine ⟨inner.jump _ _ _, inner.accept, .inr ⟨w, rfl, ?_⟩, subset_of_eq inner.resumed.symm, ?_⟩
  · obtain ⟨call, rfl, rfl⟩ | ⟨rfl, rfl⟩ := acts
    · cases notify <;> exact id
    · simp
  · obtain ⟨call, rfl, rfl⟩ | ⟨rfl, rfl⟩ := acts <;> nofun

theorem loopAct_eq {action : Action} (taken : loopAct s action = some s') :
    ∃ i work phase t notify w, s.loop = .inside i work phase ∧ act s i action = some (t, notify) ∧
      work.acts notify w ∧ s' = { t with loop := .inside i w phase } := by
  unfold loopAct at taken
  split at taken
  next i call phase here =>
    simp only [Option.map_eq_some_iff, Prod.exists] at taken
    obtain ⟨t, notify, done, rfl⟩ := taken
    exact ⟨i, _, phase, t, notify, _, here, done, .inl ⟨call, rfl, rfl⟩, rfl⟩
  next i phase here =>
    simp only [Option.map_eq_some_iff, Prod.exists] at taken
    obtain ⟨t, notify, done, rfl⟩ := taken
    exact ⟨i, _, phase, t, notify, _, here, done, .inr ⟨rfl, rfl⟩, rfl⟩
  next => cases taken

theorem loopAct_inside {action : Action} (taken : loopAct s action = some s') :
    ∃ i work phase, s.loop = .inside i work phase ∧ Inside s i work phase s' := by
  obtain ⟨i, work, phase, t, notify, w, here, done, acts, rfl⟩ := loopAct_eq taken
  exact ⟨i, work, phase, here, act_inside phase done acts⟩

theorem giveUp_inside (taken : step s .giveUp = some s') :
    ∃ i work phase, s.loop = .inside i work phase ∧ Inside s i work phase s' := by
  simp only [step] at taken
  split at taken
  next i call phase here =>
    split_ifs at taken
    cases taken
    exact ⟨_, _, _, here, frame_still _ _ _ _ _, rfl, .inr ⟨_, rfl, id⟩, subset_rfl, nofun⟩
  next => cases taken

theorem phaseStep_eq (p : Phase) : ∃ fault loop, phaseStep s p = { s with fault := fault, loop := loop } ∧
    (∀ j ∈ loop.todo, j ∈ p.todo) ∧ (∀ j, loop.working = some j → j ∈ p.todo) ∧ loop.fits := by
  fun_cases phaseStep s p
  case case1 wokeup =>
    refine ⟨_, _, rfl, ?_⟩
    split_ifs <;> simp [Loop.todo, Loop.working, Loop.current, Loop.fits]
  case case4 i todo =>
    refine ⟨_, _, rfl, ?_⟩
    split_ifs <;> simp_all [Loop.todo, Loop.working, Loop.current, Phase.todo, Loop.fits, Work.fits]
  case case5 earliest now =>
    refine ⟨_, _, rfl, ?_⟩
    cases notifyDeadline earliest <;> simp [Loop.todo, Loop.working, Loop.current, Loop.fits]
  case case2 | case7 =>
    refine ⟨_, _, rfl, by simp_all [Loop.todo, Loop.current, Phase.todo], by simp_all [Loop.working, Phase.todo], ?_⟩
    dsimp only [Loop.fits]
    split_ifs <;> rfl
  all_goals
    exact ⟨_, _, rfl, by simp_all [Loop.todo, Loop.working, Loop.current, Phase.todo, Loop.fits, Work.fits]⟩

def Loop.copies : Loop → Bool
  | .swap | .snapshot _ | .collect => true
  | _ => false

theorem plainStep_eq {clock : Time} {order : List Id} (idle : s.loop.current = none) (plain : s.loop.copies = false)
    (taken : loopStep s clock order succeeds = some s') :
    ∃ edge earliest wait loop, loop.current = none ∧
      (s.loop = .drain ∧ loop = .swap ∨ s.loop ≠ .drain ∧ edge = s.edge) ∧
      s' = { s with edge := edge, earliestDeadline := earliest, waitUntil := wait, loop := loop } := by
  cases here : s.loop with
  | phase | inside => simp [here, Loop.current] at idle
  | swap | snapshot | collect => simp [here, Loop.copies] at plain
  | exited => simp [loopStep, here] at taken
  | drain =>
    simp only [loopStep, here, Option.some.injEq] at taken
    subst taken
    exact ⟨_, _, _, _, rfl, .inl ⟨rfl, rfl⟩, rfl⟩
  | waiting =>
    simp only [loopStep, here] at taken
    split_ifs at taken
    cases taken
    exact ⟨_, _, _, _, rfl, .inr ⟨nofun, rfl⟩, rfl⟩
  | top | due =>
    simp only [loopStep, here, Option.some.injEq] at taken
    subst taken
    refine ⟨_, _, _, _, ?_, .inr ⟨nofun, rfl⟩, rfl⟩
    split_ifs <;> rfl
  | publish notify =>
    simp only [loopStep, here, Option.some.injEq] at taken
    subst taken
    refine ⟨_, _, _, _, ?_, .inr ⟨nofun, rfl⟩, rfl⟩
    cases (notify.step s.earliestDeadline succeeds).2 <;> rfl
  | _ =>
    simp only [loopStep, here, Option.some.injEq] at taken
    subst taken
    exact ⟨_, _, _, _, rfl, .inr ⟨nofun, rfl⟩, rfl⟩

structure Elsewhere (s s' : State) : Prop where
  wakeups : s'.wakeups = s.wakeups
  edge : s'.edge = s.edge
  writing : s'.writing = s.writing
  swapped : s'.swapped = s.swapped
  resumed : s'.resumed = s.resumed
  loop : s'.loop = s.loop
  sessions : ∀ j ∈ s'.sessions, j ∈ s.sessions ∨ s.accept = .constructed j

theorem acceptStep_elsewhere {deadline : Time} (taken : acceptStep s deadline succeeds = some s') : Elsewhere s s' := by
  cases here : s.accept with
  | destroying i stage =>
    simp only [acceptStep, here, Option.map_eq_some_iff, Prod.exists] at taken
    obtain ⟨t, rest, done, rfl⟩ := taken
    have inner := destroyStep_inner done
    exact ⟨inner.wakeups, inner.edge, inner.writing, inner.swapped, inner.resumed, inner.loop,
      fun j mem => .inl (inner.sessions mem)⟩
  | constructed i =>
    simp only [acceptStep, here, Option.some.injEq] at taken
    subst taken
    refine ⟨rfl, rfl, rfl, rfl, rfl, rfl, fun j mem => ?_⟩
    obtain rfl | mem := Finset.mem_insert.mp mem
    · exact .inr here
    · exact .inl mem
  | inserted i =>
    simp only [acceptStep, here] at taken
    split_ifs at taken <;> cases taken <;> exact ⟨rfl, rfl, rfl, rfl, rfl, rfl, fun _ => .inl⟩
  | idle =>
    simp only [acceptStep, here, Option.ite_none_right_eq_some, Option.some.injEq] at taken
    obtain ⟨-, rfl⟩ := taken
    exact ⟨rfl, rfl, rfl, rfl, rfl, rfl, fun _ => .inl⟩
  | notifying i notify =>
    simp only [acceptStep, here, Option.some.injEq] at taken
    subst taken
    exact ⟨rfl, rfl, rfl, rfl, rfl, rfl, fun _ => .inl⟩

theorem acceptAct_elsewhere {action : Action} (taken : acceptAct s action = some s') : Elsewhere s s' := by
  unfold acceptAct at taken
  split at taken
  next i here =>
    simp only [Option.map_eq_some_iff, Prod.exists] at taken
    obtain ⟨t, notify, done, rfl⟩ := taken
    have inner := act_inner done
    exact ⟨inner.wakeups, inner.edge, inner.writing, inner.swapped, inner.resumed, inner.loop,
      fun j mem => .inl (inner.sessions mem)⟩
  next => cases taken

end Frames

def Accept.fresh : Accept → Option Id
  | .notifying i _ | .constructed i => some i
  | _ => none

def Accept.held : Accept → Option Id
  | .inserted i | .destroying i _ => some i
  | _ => none

-- Somebody holds a pointer to the session, or its coroutine has run.
inductive Refers (s : State) (i : Id) : Prop
  | sessions : i ∈ s.sessions → Refers s i
  | polled : i ∈ s.polled → Refers s i
  | deleteLater : i ∈ s.deleteLater → Refers s i
  | wakeups : i ∈ s.wakeups → Refers s i
  | swapped : i ∈ s.swapped → Refers s i
  | todo : i ∈ s.loop.todo → Refers s i
  | working : s.loop.working = some i → Refers s i
  | held : s.accept.held = some i → Refers s i
  | started : (s.object i).stream ≠ none → Refers s i

structure Keeps (s s' : State) : Prop where
  sessions : ∀ j ∈ s'.sessions, Refers s j := by exact fun _ h => .sessions h
  polled : ∀ j ∈ s'.polled, Refers s j := by exact fun _ h => .polled h
  deleteLater : ∀ j ∈ s'.deleteLater, Refers s j := by exact fun _ h => .deleteLater h
  wakeups : ∀ j ∈ s'.wakeups, Refers s j := by exact fun _ h => .wakeups h
  swapped : ∀ j ∈ s'.swapped, Refers s j := by exact fun _ h => .swapped h
  todo : ∀ j ∈ s'.loop.todo, Refers s j := by exact fun _ h => .todo h
  working : ∀ j, s'.loop.working = some j → Refers s j := by exact fun _ h => .working h
  held : ∀ j, s'.accept.held = some j → Refers s j := by exact fun _ h => .held h
  started : ∀ j, (s'.object j).stream ≠ none → Refers s j := by exact fun _ h => .started h
  inserted : s'.inserted = s.inserted := by rfl
  created : s.created ≤ s'.created := by exact le_rfl
  fresh : ∀ j, s'.accept.fresh = some j → s.accept.fresh = some j ∨ j = s.created ∧ j < s'.created := by
    exact fun _ h => .inl h

section Steps

variable {s s' : State} {i : Id}

theorem Keeps.refers (keeps : Keeps s s') {j : Id} (referred : Refers s' j) : Refers s j := by
  cases referred with
  | sessions mem => exact keeps.sessions j mem
  | polled mem => exact keeps.polled j mem
  | deleteLater mem => exact keeps.deleteLater j mem
  | wakeups mem => exact keeps.wakeups j mem
  | swapped mem => exact keeps.swapped j mem
  | todo mem => exact keeps.todo j mem
  | working eq => exact keeps.working j eq
  | held eq => exact keeps.held j eq
  | started some => exact keeps.started j some

theorem Frame.keeps (frame : Frame s i s') (own : Refers s i) (held : ∀ j, s'.accept.held = some j → Refers s j)
    (todo : ∀ j ∈ s'.loop.todo, Refers s j) (working : ∀ j, s'.loop.working = some j → Refers s j)
    (fresh : s'.accept.fresh = s.accept.fresh) : Keeps s s' where
  sessions j mem := .sessions (frame.sessions mem)
  polled j mem := .polled (frame.polled mem)
  deleteLater j mem := by
    obtain rfl | mem := Finset.mem_insert.mp (frame.deleteLater mem)
    · exact own
    · exact .deleteLater mem
  wakeups j mem := .wakeups (frame.wakeups ▸ mem)
  swapped j mem := .swapped (frame.swapped ▸ mem)
  todo := todo
  working := working
  held := held
  started j some := by
    by_cases same : j = i
    · exact same ▸ own
    · exact .started (frame.object j same ▸ some)
  inserted := frame.inserted
  created := frame.created.ge
  fresh j eq := .inl (fresh ▸ eq)

theorem Inside.keeps {work : Work} {phase : Phase} (here : s.loop = .inside i work phase) (inside : Inside s i work phase s') :
    Keeps s s' := by
  have own : Refers s i := .working (by rw [here]; rfl)
  refine inside.toFrame.keeps own ?_ ?_ ?_ (by rw [inside.accept])
  · exact fun j held => .held (inside.accept ▸ held)
  · intro j listed
    refine .todo ?_
    rw [here]
    obtain eq | ⟨work, eq, -⟩ := inside.loop <;> rw [eq] at listed <;> exact listed
  · intro j working
    obtain eq | ⟨work, eq, -⟩ := inside.loop <;> rw [eq] at working
    · cases working
    · exact Option.some.inj working ▸ own

theorem nothing_todo {loop : Loop} (idle : loop.current = none) : loop.todo = [] ∧ loop.working = none := by
  cases loop <;> simp_all [Loop.current, Loop.todo, Loop.working]

theorem loopStep_keeps {clock : Time} {order : List Id} {succeeds : Bool}
    (taken : loopStep s clock order succeeds = some s') : Keeps s s' := by
  cases here : s.loop with
  | phase p =>
    simp only [loopStep, here, Option.some.injEq] at taken
    obtain ⟨fault, loop, eq, todo, working, -⟩ := phaseStep_eq (s := s) p
    rw [eq] at taken
    subst taken
    exact {
      todo := fun j listed => .todo (by rw [here]; exact todo j listed)
      working := fun j started => .todo (by rw [here]; exact working j started) }
  | inside i work p =>
    simp only [loopStep, here] at taken
    exact (insideStep_inside taken).keeps here
  | swap =>
    simp only [loopStep, here, Option.ite_none_right_eq_some, Option.some.injEq] at taken
    obtain ⟨⟨-, all⟩, rfl⟩ := taken
    exact {
      wakeups := by simp
      swapped := fun _ mem => .wakeups mem
      todo := fun j listed => .wakeups (all ▸ List.mem_toFinset.mpr listed)
      working := by simp [Loop.working] }
  | snapshot now =>
    simp only [loopStep, here, Option.ite_none_right_eq_some, Option.some.injEq] at taken
    obtain ⟨⟨-, all⟩, rfl⟩ := taken
    exact {
      todo := fun j listed => .sessions (all ▸ List.mem_toFinset.mpr listed)
      working := by simp [Loop.working] }
  | collect =>
    simp only [loopStep, here, Option.ite_none_right_eq_some, Option.some.injEq] at taken
    obtain ⟨⟨-, all⟩, rfl⟩ := taken
    exact {
      deleteLater := by simp
      todo := fun j listed => .deleteLater (all ▸ List.mem_toFinset.mpr listed)
      working := by simp [Loop.working] }
  | _ =>
    obtain ⟨edge, earliest, wait, loop, after, -, rfl⟩ := plainStep_eq (by rw [here]; rfl) (by rw [here]; rfl) taken
    exact { todo := by simp [nothing_todo after], working := by simp [nothing_todo after] }

theorem acceptStep_keeps {deadline : Time} {succeeds : Bool} (other : ∀ i, s.accept ≠ .constructed i)
    (taken : acceptStep s deadline succeeds = some s') : Keeps s s' := by
  cases here : s.accept with
  | idle =>
    simp only [acceptStep, here, Option.ite_none_right_eq_some, Option.some.injEq] at taken
    obtain ⟨-, rfl⟩ := taken
    exact {
      held := by cases notifyDeadline deadline <;> simp [Accept.held]
      started := fun j started => by
        by_cases new : j = s.created
        · simp [State.set, new] at started
        · exact .started (by simpa [State.set, new] using started)
      created := Nat.le_succ _
      fresh := by cases notifyDeadline deadline <;> simp [Accept.fresh, eq_comm] }
  | notifying i notify =>
    simp only [acceptStep, here, Option.some.injEq] at taken
    subst taken
    exact {
      held := by cases (notify.step s.earliestDeadline succeeds).2 <;> simp [Accept.held]
      fresh := by cases (notify.step s.earliestDeadline succeeds).2 <;> simp [Accept.fresh, here] }
  | constructed i => exact absurd here (other i)
  | inserted i =>
    have own : Refers s i := .held (by rw [here]; rfl)
    simp only [acceptStep, here] at taken
    split_ifs at taken
    · cases taken
      exact {
        polled := fun j mem => (Finset.mem_insert.mp mem).elim (fun same => same ▸ own) .polled
        held := by simp [Accept.held]
        fresh := by simp [Accept.fresh] }
    · cases taken
      exact { held := fun j eq => Option.some.inj eq ▸ own, fresh := by simp [Accept.fresh] }
  | destroying i stage =>
    have own : Refers s i := .held (by rw [here]; rfl)
    simp only [acceptStep, here, Option.map_eq_some_iff, Prod.exists] at taken
    obtain ⟨t, rest, done, rfl⟩ := taken
    have inner := destroyStep_inner done
    refine (inner.jump (rest.elim .idle (.destroying i)) t.loop t.resumed).keeps own ?_ ?_ ?_ ?_
    · cases rest with
      | none => simp [Accept.held]
      | some stage => exact fun j eq => Option.some.inj eq ▸ own
    · exact fun j listed => .todo (inner.loop ▸ listed)
    · exact fun j working => .working (inner.loop ▸ working)
    · cases rest <;> simp [Accept.fresh, here]

theorem acceptAct_keeps {action : Action} (taken : acceptAct s action = some s') : Keeps s s' := by
  unfold acceptAct at taken
  split at taken
  next i here =>
    have own : Refers s i := .held (by rw [here]; rfl)
    simp only [Option.map_eq_some_iff, Prod.exists] at taken
    obtain ⟨t, notify, done, rfl⟩ := taken
    have inner := act_inner done
    refine (inner.jump (.destroying i (notify.elim .quitting .notifying)) t.loop t.resumed).keeps own ?_ ?_ ?_ ?_
    · exact fun j eq => Option.some.inj eq ▸ own
    · exact fun j listed => .todo (inner.loop ▸ listed)
    · exact fun j working => .working (inner.loop ▸ working)
    · simp [Accept.fresh, here]
  next => cases taken

theorem waitStep_keeps {events : List (Id × Events)} {wokeup : Bool} (taken : waitStep s events wokeup = some s') :
    Keeps s s' := by
  simp only [waitStep, Option.ite_none_right_eq_some, Option.some.injEq] at taken
  obtain ⟨⟨-, -, polled, -⟩, rfl⟩ := taken
  refine { todo := ?_, working := by simp [Loop.working] }
  intro j listed
  obtain ⟨event, mem, rfl⟩ := List.mem_map.mp listed
  exact .polled (polled event mem)

theorem step_keeps {input : Input} (taken : step s input = some s') :
    Keeps s s' ∨ ∃ i, s.accept = .constructed i ∧
      s' = { s with sessions := insert i s.sessions, inserted := insert i s.inserted, accept := .inserted i } := by
  cases input with
  | accept deadline succeeds =>
    by_cases constructed : ∃ i, s.accept = .constructed i
    · obtain ⟨i, here⟩ := constructed
      simp only [step, acceptStep, here, Option.some.injEq] at taken
      exact .inr ⟨i, here, taken.symm⟩
    · exact .inl (acceptStep_keeps (not_exists.mp constructed) taken)
  | acceptAct action => exact .inl (acceptAct_keeps taken)
  | wait events wokeup => exact .inl (waitStep_keeps taken)
  | loop clock order succeeds => exact .inl (loopStep_keeps taken)
  | loopAct action =>
    obtain ⟨i, work, phase, here, inside⟩ := loopAct_inside taken
    exact .inl (inside.keeps here)
  | giveUp =>
    obtain ⟨i, work, phase, here, inside⟩ := giveUp_inside taken
    exact .inl (inside.keeps here)
  | insertWakeup thread i =>
    simp only [step, Option.ite_none_right_eq_some, Option.some.injEq] at taken
    obtain ⟨⟨-, started⟩, rfl⟩ := taken
    refine .inl { wakeups := ?_ }
    intro j mem
    obtain rfl | mem := Finset.mem_insert.mp mem
    · exact .started (Option.isSome_iff_ne_none.mp started)
    · exact .wakeups mem
  | writeWakeup thread =>
    simp only [step, Option.ite_none_right_eq_some, Option.some.injEq] at taken
    obtain ⟨-, rfl⟩ := taken
    exact .inl {}
  | storeQuit =>
    cases taken
    exact .inl {}
  | signal =>
    cases taken
    exact .inl {}

theorem Inside.fits {work : Work} {phase : Phase} (fits : s.loop.fits) (here : s.loop = .inside i work phase)
    (inside : Inside s i work phase s') : s'.loop.fits := by
  rw [here] at fits
  obtain eq | ⟨work, eq, keeps⟩ := inside.loop <;> rw [eq]
  · rfl
  · exact keeps fits

theorem loopStep_fits {clock : Time} {order : List Id} {succeeds : Bool} (fits : s.loop.fits)
    (taken : loopStep s clock order succeeds = some s') : s'.loop.fits := by
  cases here : s.loop with
  | phase p =>
    simp only [loopStep, here, Option.some.injEq] at taken
    obtain ⟨fault, loop, eq, -, -, fits⟩ := phaseStep_eq (s := s) p
    rw [← taken, eq]
    exact fits
  | inside i work p =>
    simp only [loopStep, here] at taken
    exact (insideStep_inside taken).fits fits here
  | swap | snapshot | collect =>
    simp only [loopStep, here, Option.ite_none_right_eq_some, Option.some.injEq] at taken
    obtain ⟨-, rfl⟩ := taken
    rfl
  | _ =>
    obtain ⟨edge, earliest, wait, loop, after, -, rfl⟩ := plainStep_eq (by rw [here]; rfl) (by rw [here]; rfl) taken
    cases loop <;> simp_all [Loop.fits, Loop.current]

theorem step_fits {input : Input} (fits : s.loop.fits) (taken : step s input = some s') : s'.loop.fits := by
  cases input with
  | accept deadline succeeds => rwa [(acceptStep_elsewhere taken).loop]
  | acceptAct action => rwa [(acceptAct_elsewhere taken).loop]
  | wait events wokeup =>
    simp only [step, waitStep, Option.ite_none_right_eq_some, Option.some.injEq] at taken
    obtain ⟨-, rfl⟩ := taken
    rfl
  | loop clock order succeeds => exact loopStep_fits fits taken
  | loopAct action =>
    obtain ⟨i, work, phase, here, inside⟩ := loopAct_inside taken
    exact inside.fits fits here
  | giveUp =>
    obtain ⟨i, work, phase, here, inside⟩ := giveUp_inside taken
    exact inside.fits fits here
  | insertWakeup | writeWakeup =>
    simp only [step, Option.ite_none_right_eq_some, Option.some.injEq] at taken
    obtain ⟨-, rfl⟩ := taken
    exact fits
  | storeQuit | signal =>
    cases taken
    exact fits

end Steps

structure Known (s : State) : Prop where
  refers : ∀ i, Refers s i → i ∈ s.inserted
  created : ∀ i ∈ s.inserted, i < s.created
  fresh : ∀ i, s.accept.fresh = some i → i ∉ s.inserted ∧ i < s.created
  fits : s.loop.fits

theorem step_known {s s' : State} {input : Input} (known : Known s) (taken : step s input = some s') : Known s' := by
  obtain keeps | ⟨i, here, rfl⟩ := step_keeps taken
  · refine ⟨fun j referred => ?_, fun j old => ?_, fun j fresh => ?_, step_fits known.fits taken⟩
    · rw [keeps.inserted]
      exact known.refers j (keeps.refers referred)
    · rw [keeps.inserted] at old
      exact (known.created j old).trans_le keeps.created
    · rw [keeps.inserted]
      obtain fresh | ⟨rfl, new⟩ := keeps.fresh j fresh
      · exact ⟨(known.fresh j fresh).1, (known.fresh j fresh).2.trans_le keeps.created⟩
      · exact ⟨fun old => (known.created _ old).false, new⟩
  · have new : i ∉ s.inserted ∧ i < s.created := known.fresh i (by rw [here]; rfl)
    refine ⟨fun j referred => ?_, fun j old => ?_, by simp [Accept.fresh], known.fits⟩
    · refine Finset.mem_insert.mpr ?_
      by_cases same : j = i
      · exact .inl same
      refine .inr (known.refers j ?_)
      cases referred with
      | sessions mem => exact .sessions (Finset.mem_of_mem_insert_of_ne mem same)
      | polled mem => exact .polled mem
      | deleteLater mem => exact .deleteLater mem
      | wakeups mem => exact .wakeups mem
      | swapped mem => exact .swapped mem
      | todo mem => exact .todo mem
      | working eq => exact .working eq
      | held eq => exact absurd (Option.some.inj eq).symm same
      | started some => exact .started some
    · obtain rfl | old := Finset.mem_insert.mp old
      · exact new.2
      · exact known.created j old

theorem known_start : Known {} where
  refers i referred := by
    cases referred
    all_goals rename_i impossible; simp [Loop.todo, Loop.working, Loop.current, Accept.held] at impossible
  created := by simp
  fresh := by simp [Accept.fresh]
  fits := rfl

end Dracon.SessionsEventLoop
