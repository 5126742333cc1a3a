import Dracon.Server.Lifetime

set_option autoImplicit false

namespace Dracon.SessionsEventLoop

open Shared

def Holds (s : State) (j : Id) : Prop :=
  j ∈ s.sessions ∨ j ∈ s.deleteLater ∨ j ∈ s.loop.doomed ∨ s.accept.session = some j

-- the loop thread has been through its sessions
def Loop.rests : Loop → Bool
  | .top | .waiting | .exited => true
  | _ => false

structure Kept (s : State) : Prop where
  unborn : ∀ j, (s.object j).life = .unborn ↔ s.created ≤ j
  alive : ∀ j, (s.object j).life = .alive → Holds s j
  deleting : ∀ j, (s.object j).life = .deleting → s.loop.deletes = some j ∨ s.accept.deletes = some j
  offered : ∀ j, s.accept = .inserted j → j ∈ s.sessions
  rested : s.loop.rests → s.deleteLater = ∅

-- The insertion into `m_delete_later_objects` does not throw.
def Remembers (s : State) : Input → Prop
  | .loop _ _ succeeds => ∀ i back p, s.loop = .inside i (.leaving .insert back) p → succeeds
  | _ => True

section Steps

variable {s s' : State} {i : Id}

theorem Kept.goes (kept : Kept s) (life : ∀ j, (s'.object j).life = (s.object j).life) (created : s'.created = s.created)
    (accept : s'.accept = s.accept) (sessions : s'.sessions = s.sessions) (deleteLater : s'.deleteLater = s.deleteLater)
    (doomed : ∀ j ∈ s.loop.doomed, j ∈ s'.loop.doomed) (deletes : ∀ j, s.loop.deletes = some j → s'.loop.deletes = some j)
    (rests : s'.loop.rests → s.loop.rests ∨ s.deleteLater = ∅) : Kept s' where
  unborn j := by rw [life, created]; exact kept.unborn j
  alive j alive := by
    rw [life] at alive
    unfold Holds
    rw [sessions, deleteLater, accept]
    exact (kept.alive j alive).imp id (Or.imp id (Or.imp (doomed j) id))
  deleting j deleting := by
    rw [life] at deleting
    rw [accept]
    exact (kept.deleting j deleting).imp (deletes j) id
  offered j offered := by
    rw [sessions]
    exact kept.offered j (accept ▸ offered)
  rested rested := by
    rw [deleteLater]
    exact (rests rested).elim kept.rested id

theorem doomed_goes {work : Work} {p : Phase} {j : Id} (other : j ≠ i) (mem : j ∈ (Loop.inside i work p).doomed) :
    j ∈ (Loop.phase p).doomed := by
  cases p with
  | delete todo => exact (List.mem_cons.mp mem).resolve_left other
  | _ =>
    unfold Loop.doomed at mem
    split at mem <;> simp_all

theorem Inside.kept {work : Work} {p : Phase} (kept : Kept s) (here : s.loop = .inside i work p)
    (inside : Inside s i work p s') (sessions : s.sessions.erase i ⊆ s'.sessions) (deleteLater : s.deleteLater ⊆ s'.deleteLater)
    (offered : s.accept ≠ .inserted i) (born : (s'.object i).life ≠ .unborn ∧ (s.object i).life ≠ .unborn)
    (alive : (s'.object i).life = .alive → Holds s' i)
    (deleting : (s'.object i).life = .deleting → s'.loop.deletes = some i) : Kept s' where
  unborn j := by
    rw [inside.created]
    by_cases same : j = i
    · subst same
      have before := kept.unborn j
      exact ⟨fun new => absurd new born.1, fun later => absurd (before.mpr later) born.2⟩
    · rw [inside.object j same]
      exact kept.unborn j
  alive j life := by
    by_cases same : j = i
    · subst same
      exact alive life
    rw [inside.object j same] at life
    rcases kept.alive j life with registered | later | doomed | accepted
    · exact .inl (sessions (Finset.mem_erase.mpr ⟨same, registered⟩))
    · exact .inr (.inl (deleteLater later))
    · rw [here] at doomed
      refine .inr (.inr (.inl ?_))
      rcases inside.loop with eq | ⟨w, eq, -⟩ <;> rw [eq]
      · exact doomed_goes same doomed
      · exact doomed_inside same doomed
    · exact .inr (.inr (.inr (inside.accept ▸ accepted)))
  deleting j life := by
    by_cases same : j = i
    · subst same
      exact .inl (deleting life)
    rw [inside.object j same] at life
    rcases kept.deleting j life with loop | accept
    · have working := working_of_deletes loop
      rw [here] at working
      exact absurd (Option.some.inj working).symm same
    · exact .inr (inside.accept ▸ accept)
  offered j held := by
    rw [inside.accept] at held
    have other : j ≠ i := fun same => offered (same ▸ held)
    exact sessions (Finset.mem_erase.mpr ⟨other, kept.offered j held⟩)
  rested rests := by
    rcases inside.loop with eq | ⟨w, eq, -⟩ <;> rw [eq] at rests <;> cases rests

theorem not_offered (safe : Safe s) (working : s.loop.working = some i) : s.accept ≠ .inserted i := by
  intro held
  exact ((safe.fine i).held (by rw [held]; rfl)).2.2 working

theorem Inside.kept_still {work : Work} {p : Phase} (kept : Kept s) (safe : Safe s) (here : s.loop = .inside i work p)
    (inside : Inside s i work p s') (sessions : s'.sessions = s.sessions) (deleteLater : s'.deleteLater = s.deleteLater)
    (life : (s'.object i).life = (s.object i).life) (alive : (s.object i).life = .alive)
    (undoomed : i ∉ s.loop.doomed) : Kept s' := by
  have offered := not_offered safe (i := i) (by rw [here]; rfl)
  refine inside.kept kept here (sessions ▸ Finset.erase_subset i s.sessions) deleteLater.ge offered ?_ ?_ ?_
  · simp [life, alive]
  · intro _
    unfold Holds
    rw [sessions, deleteLater, inside.accept]
    rcases kept.alive i alive with registered | later | doomed | accepted
    · exact .inl registered
    · exact .inr (.inl later)
    · exact absurd doomed undoomed
    · exact .inr (.inr (.inr accepted))
  · simp [life, alive]

theorem leaveStep_kept {succeeds : Bool} {stage : Leave} {back : Option Call} {p : Phase} (known : Known s) (safe : Safe s)
    (kept : Kept s) (here : s.loop = .inside i (.leaving stage back) p) (remembers : stage = .insert → succeeds)
    (taken : insideStep s i p succeeds (.leaving stage back) = some s') : Kept s' := by
  have alive := working_alive safe.toIntact here (by rintro _ ⟨⟩)
  have phases := not_deleting_of_fits known.fits here (by rintro _ ⟨⟩)
  have offered := not_offered safe (i := i) (by rw [here]; rfl)
  have inside := insideStep_inside taken
  cases stage with
  | check =>
    simp only [insideStep, leaveStep, if_neg (show (s.object i).life ≠ .deleting by simp [alive]), Option.some.injEq] at taken
    subst taken
    refine inside.kept_still kept safe here rfl rfl rfl alive ?_
    rw [here, not_doomed phases (by simp)]
    exact List.not_mem_nil
  | erase =>
    cases taken
    refine inside.kept kept here subset_rfl subset_rfl offered (by simp [State.touch, alive]) (fun _ => ?_) ?_
    · -- taken out of `m_sessions`, and on its way to the objects that are deleted later
      refine .inr (.inr (.inl ?_))
      cases p <;> split_ifs <;> simp_all [Loop.doomed]
    · simp [State.touch, alive]
  | remove =>
    cases taken
    refine inside.kept kept here (Finset.erase_subset _ _) subset_rfl offered (by simp [State.touch, alive]) (fun _ => ?_) ?_
    · refine .inr (.inr (.inl ?_))
      cases p <;> simp_all [Loop.doomed]
    · simp [State.touch, alive]
  | insert =>
    obtain rfl : succeeds = true := remembers rfl
    cases back with
    | none | some call =>
      cases taken
      refine inside.kept kept here (Finset.erase_subset _ _) (Finset.subset_insert _ _) offered (by simp [alive]) (fun _ => ?_) ?_
      · exact .inr (.inl (Finset.mem_insert_self _ _))
      · simp [alive]

theorem deletes_destroying {stage : Destroy} {p : Phase} (past : stage ≠ .mark) :
    (Loop.inside i (.destroying stage) p).deletes = some i := by
  cases stage <;> first | rfl | exact absurd rfl past

theorem destroyStep_kept {succeeds : Bool} {stage : Destroy} {p : Phase} (known : Known s) (safe : Safe s) (kept : Kept s)
    (here : s.loop = .inside i (.destroying stage) p)
    (taken : insideStep s i p succeeds (.destroying stage) = some s') : Kept s' := by
  obtain ⟨todo, rfl, once, collected, dying⟩ := destroying_deletes known safe.toIntact here
  have offered := not_offered safe (i := i) (by rw [here]; rfl)
  have inside := insideStep_inside taken
  cases stage with
  | mark =>
    have alive : (s.object i).life = .alive := (safe.fine i).working (by rw [here]; rfl) (by rw [here]; rintro ⟨⟩)
    cases taken
    exact inside.kept kept here (Finset.erase_subset _ _) subset_rfl offered (by simp [State.set, alive])
      (by simp [State.set]) (fun _ => rfl)
  | quitting =>
    have life := dying (by rintro ⟨⟩)
    simp only [insideStep, destroyStep] at taken
    split_ifs at taken <;> cases taken
    exact inside.kept kept here (Finset.erase_subset _ _) subset_rfl offered (by simp [life]) (by simp [life]) (fun _ => rfl)
  | notifying notify =>
    have life := dying (by rintro ⟨⟩)
    simp only [insideStep, destroyStep, Option.map_some, Option.some.injEq, Option.elim_some] at taken
    subst taken
    refine inside.kept kept here (Finset.erase_subset _ _) subset_rfl offered (by simp [life]) (by simp [life]) (fun _ => ?_)
    cases (notify.step s.earliestDeadline succeeds).2 <;> rfl
  | erase =>
    have life := dying (by rintro ⟨⟩)
    cases taken
    refine inside.kept kept here subset_rfl subset_rfl offered (by simp [life]) (by simp [life]) (fun _ => ?_)
    apply deletes_destroying
    split_ifs <;> rintro ⟨⟩
  | remove =>
    have life := dying (by rintro ⟨⟩)
    cases taken
    exact inside.kept kept here (Finset.erase_subset _ _) subset_rfl offered (by simp [life]) (by simp [life]) (fun _ => rfl)
  | close =>
    have life := dying (by rintro ⟨⟩)
    cases taken
    exact inside.kept kept here (Finset.erase_subset _ _) subset_rfl offered (by simp [State.set, life]) (by simp [State.set])
      (by simp [State.set])

theorem insideStep_kept {succeeds : Bool} {work : Work} {p : Phase} (known : Known s) (safe : Safe s) (kept : Kept s)
    (here : s.loop = .inside i work p) (remembers : ∀ back, work = .leaving .insert back → succeeds)
    (taken : insideStep s i p succeeds work = some s') : Kept s' := by
  have inside := insideStep_inside taken
  cases work with
  | leaving stage back => exact leaveStep_kept known safe kept here (fun insert => remembers back (insert ▸ rfl)) taken
  | destroying stage => exact destroyStep_kept known safe kept here taken
  | found | notifying =>
    have alive := working_alive safe.toIntact here (by rintro _ ⟨⟩)
    have phases := not_deleting_of_fits known.fits here (by rintro _ ⟨⟩)
    simp only [insideStep, Option.some.injEq] at taken
    subst taken
    refine inside.kept_still kept safe here rfl rfl rfl alive ?_
    rw [here, not_doomed phases (by simp)]
    exact List.not_mem_nil
  | running call =>
    have alive := working_alive safe.toIntact here (by rintro _ ⟨⟩)
    have phases := not_deleting_of_fits known.fits here (by rintro _ ⟨⟩)
    have undoomed : i ∉ s.loop.doomed := by
      rw [here, not_doomed phases (by simp)]
      exact List.not_mem_nil
    obtain ⟨rfl, -⟩ | rfl := returnStep_eq taken
    · exact inside.kept_still kept safe here rfl rfl rfl alive undoomed
    · exact inside.kept_still kept safe here rfl rfl rfl alive undoomed

theorem phaseStep_rests {p : Phase} (rests : (phaseStep s p).loop.rests) : ∃ todo, p = .delete todo := by
  cases p with
  | delete todo => exact ⟨todo, rfl⟩
  | dispatch todo wokeup =>
    cases todo with
    | nil => cases wokeup <;> simp [phaseStep, Loop.rests] at rests
    | cons event todo => simp [phaseStep, State.call, Loop.rests] at rests
  | wake todo =>
    cases todo with
    | nil => simp [phaseStep, Loop.rests] at rests
    | cons j todo =>
      simp only [phaseStep] at rests
      split_ifs at rests <;> cases rests
  | scan todo earliest now =>
    cases todo with
    | nil =>
      cases announced : notifyDeadline earliest <;> simp [phaseStep, announced, Loop.rests] at rests
    | cons j todo =>
      simp only [phaseStep] at rests
      split_ifs at rests <;> cases rests

theorem phaseStep_kept {p : Phase} (safe : Safe s) (kept : Kept s) (here : s.loop = .phase p) : Kept (phaseStep s p) := by
  have doomed : ∀ j ∈ s.loop.doomed, j ∈ (phaseStep s p).loop.doomed := by
    intro j mem
    rw [here] at mem
    cases p with
    | delete todo =>
      cases todo with
      | nil => simp [Loop.doomed] at mem
      | cons k todo => exact mem
    | _ => simp [Loop.doomed] at mem
  have rests (rests : (phaseStep s p).loop.rests) : s.deleteLater = ∅ := by
    obtain ⟨todo, rfl⟩ := phaseStep_rests rests
    exact safe.collected todo (by rw [here]; rfl)
  obtain ⟨fault, loop, eq, -, -, -⟩ := phaseStep_eq (s := s) p
  rw [eq] at doomed rests ⊢
  exact kept.goes (fun _ => rfl) rfl rfl rfl rfl doomed (by rw [here]; rintro _ ⟨⟩) (fun now => .inr (rests now))

theorem loopStep_kept {clock : Time} {order : List Id} {succeeds : Bool} (known : Known s) (safe : Safe s) (kept : Kept s)
    (remembers : ∀ i back p, s.loop = .inside i (.leaving .insert back) p → succeeds)
    (taken : loopStep s clock order succeeds = some s') : Kept s' := by
  cases here : s.loop with
  | phase p =>
    simp only [loopStep, here, Option.some.injEq] at taken
    exact taken ▸ phaseStep_kept safe kept here
  | inside i work p =>
    simp only [loopStep, here] at taken
    exact insideStep_kept known safe kept here (fun back eq => remembers i back p (eq ▸ here)) taken
  | collect =>
    simp only [loopStep, here, Option.ite_none_right_eq_some, Option.some.injEq] at taken
    obtain ⟨⟨-, all⟩, rfl⟩ := taken
    constructor
    case unborn => exact kept.unborn
    case alive =>
      intro j alive
      rcases kept.alive j alive with registered | later | doomed | accepted
      · exact .inl registered
      · -- the loop thread takes the whole set
        exact .inr (.inr (.inl (List.mem_toFinset.mp (all ▸ later))))
      · rw [here] at doomed
        cases doomed
      · exact .inr (.inr (.inr accepted))
    case deleting =>
      intro j deleting
      rcases kept.deleting j deleting with loop | accept
      · rw [here] at loop
        cases loop
      · exact .inr accept
    case offered => exact kept.offered
    case rested => rintro ⟨⟩
  | swap | snapshot =>
    simp only [loopStep, here, Option.ite_none_right_eq_some, Option.some.injEq] at taken
    obtain ⟨-, rfl⟩ := taken
    exact kept.goes (fun _ => rfl) rfl rfl rfl rfl (by rw [here]; rintro _ ⟨⟩) (by rw [here]; rintro _ ⟨⟩) (by rintro ⟨⟩)
  | top | waiting =>
    obtain ⟨edge, earliest, wait, loop, after, -, rfl⟩ := plainStep_eq (by rw [here]; rfl) (by rw [here]; rfl) taken
    exact kept.goes (fun _ => rfl) rfl rfl rfl rfl (by rw [here]; rintro _ ⟨⟩) (by rw [here]; rintro _ ⟨⟩)
      (fun _ => .inl (by rw [here]; rfl))
  | due =>
    simp only [loopStep, here, Option.some.injEq] at taken
    subst taken
    refine kept.goes (fun _ => rfl) rfl rfl rfl rfl (by rw [here]; rintro _ ⟨⟩) (by rw [here]; rintro _ ⟨⟩) ?_
    dsimp only
    split_ifs <;> rintro ⟨⟩
  | publish notify =>
    simp only [loopStep, here, Option.some.injEq] at taken
    subst taken
    refine kept.goes (fun _ => rfl) rfl rfl rfl rfl (by rw [here]; rintro _ ⟨⟩) (by rw [here]; rintro _ ⟨⟩) ?_
    cases (notify.step s.earliestDeadline succeeds).2 <;> rintro ⟨⟩
  | drain | store | load =>
    simp only [loopStep, here, Option.some.injEq] at taken
    subst taken
    exact kept.goes (fun _ => rfl) rfl rfl rfl rfl (by rw [here]; rintro _ ⟨⟩) (by rw [here]; rintro _ ⟨⟩) (by rintro ⟨⟩)
  | exited => simp [loopStep, here] at taken

theorem loopAct_kept {action : Action} (known : Known s) (safe : Safe s) (kept : Kept s)
    (taken : loopAct s action = some s') : Kept s' := by
  obtain ⟨i, work, p, t, notify, w, here, done, acts, rfl⟩ := loopAct_eq taken
  obtain ⟨-, life, sessions, deleteLater, -⟩ := act_spec done
  have inside := act_inside p done acts
  rcases acts with ⟨call, rfl, rfl⟩ | ⟨rfl, rfl⟩
  · have alive := working_alive safe.toIntact here (by rintro _ ⟨⟩)
    have phases := not_deleting_of_fits known.fits here (by rintro _ ⟨⟩)
    refine inside.kept_still kept safe here sessions deleteLater life alive ?_
    rw [here, not_doomed phases (by simp)]
    exact List.not_mem_nil
  · obtain ⟨todo, rfl, once, collected, dying⟩ := destroying_deletes known safe.toIntact here
    have dying : (t.object i).life = .deleting := life.trans (dying (by rintro ⟨⟩))
    have offered := not_offered safe (i := i) (by rw [here]; rfl)
    refine inside.kept kept here (sessions ▸ Finset.erase_subset _ _) deleteLater.ge offered ?_ ?_ ?_
    · exact ⟨by simp [dying], by simp [← life, dying]⟩
    · simp [dying]
    · intro _
      cases notify <;> rfl

theorem giveUp_kept (known : Known s) (safe : Safe s) (kept : Kept s) (taken : step s .giveUp = some s') : Kept s' := by
  obtain ⟨i, work, p, here, inside⟩ := giveUp_inside taken
  simp only [step, here] at taken
  split at taken
  next j call q eq =>
    obtain ⟨rfl, rfl, rfl⟩ : i = j ∧ work = .running call ∧ p = q := by simpa using eq
    have alive := working_alive safe.toIntact here (by rintro _ ⟨⟩)
    have phases := not_deleting_of_fits known.fits here (by rintro _ ⟨⟩)
    split_ifs at taken
    cases taken
    refine inside.kept_still kept safe here rfl rfl rfl alive ?_
    rw [here, not_doomed phases (by simp)]
    exact List.not_mem_nil
  next => cases taken

theorem waitStep_kept {events : List (Id × Events)} {wokeup : Bool} (kept : Kept s)
    (taken : waitStep s events wokeup = some s') : Kept s' := by
  simp only [waitStep, Option.ite_none_right_eq_some, Option.some.injEq] at taken
  obtain ⟨⟨waiting, -⟩, rfl⟩ := taken
  exact kept.goes (fun _ => rfl) rfl rfl rfl rfl (by rw [waiting]; rintro _ ⟨⟩) (by rw [waiting]; rintro _ ⟨⟩) (by rintro ⟨⟩)

theorem Kept.accepts (kept : Kept s) (loop : s'.loop = s.loop) (object : ∀ j, j ≠ i → s'.object j = s.object j)
    (created : ∀ j, j ≠ i → (s'.created ≤ j ↔ s.created ≤ j)) (sessions : ∀ j ∈ s.sessions, j ≠ i → j ∈ s'.sessions)
    (deleteLater : s'.deleteLater = s.deleteLater) (before : ∀ j, s.accept.session = some j → j = i)
    (unborn : (s'.object i).life = .unborn ↔ s'.created ≤ i) (alive : (s'.object i).life = .alive → Holds s' i)
    (deleting : (s'.object i).life = .deleting → s'.accept.deletes = some i)
    (offered : ∀ j, s'.accept = .inserted j → j ∈ s'.sessions) : Kept s' where
  unborn j := by
    by_cases same : j = i
    · exact same ▸ unborn
    · rw [object j same, created j same]
      exact kept.unborn j
  alive j life := by
    by_cases same : j = i
    · subst same
      exact alive life
    rw [object j same] at life
    rcases kept.alive j life with registered | later | doomed | accepted
    · exact .inl (sessions j registered same)
    · exact .inr (.inl (deleteLater ▸ later))
    · exact .inr (.inr (.inl (loop ▸ doomed)))
    · exact absurd (before j accepted) same
  deleting j life := by
    by_cases same : j = i
    · subst same
      exact .inr (deleting life)
    rw [object j same] at life
    rcases kept.deleting j life with dying | accept
    · exact .inl (loop ▸ dying)
    · exact absurd (before j (session_of_deletes accept)) same
  offered := offered
  rested rests := by
    rw [deleteLater]
    exact kept.rested (loop ▸ rests)

def Destroy.unregistered : Destroy → Bool
  | .remove | .close => true
  | _ => false

structure Destroyed (s : State) (i : Id) (stage : Destroy) (s' : State) (next : Option Destroy) : Prop where
  sessions : ∀ j ∈ s.sessions, j ≠ i → j ∈ s'.sessions
  deleteLater : s'.deleteLater = s.deleteLater
  fault : s'.fault = s.fault ∨ stage = .mark ∧ s'.fault = (s.fault || (s.object i).life != Life.alive)
  fate : next = none ∧ (s'.object i).life = .deleted ∨
    ∃ later, next = some later ∧ later ≠ .mark ∧
      (s'.object i).life = if stage = .mark then .deleting else (s.object i).life
  registered : i ∈ s'.sessions → i ∈ s.sessions ∧
    (stage.unregistered ∨ ∃ later, next = some later ∧ later.unregistered = false)

theorem destroyStep_destroyed {succeeds : Bool} {stage : Destroy} {next : Option Destroy}
    (done : destroyStep s i succeeds stage = some (s', next)) : Destroyed s i stage s' next := by
  cases stage with
  | mark =>
    cases done
    exact ⟨fun _ mem _ => mem, rfl, .inr ⟨rfl, rfl⟩, .inr ⟨_, rfl, by rintro ⟨⟩, by simp [State.set]⟩,
      fun mem => ⟨mem, .inr ⟨_, rfl, rfl⟩⟩⟩
  | quitting =>
    simp only [destroyStep] at done
    split_ifs at done
    cases done
    exact ⟨fun _ mem _ => mem, rfl, .inl rfl, .inr ⟨_, rfl, by rintro ⟨⟩, rfl⟩, fun mem => ⟨mem, .inr ⟨_, rfl, rfl⟩⟩⟩
  | notifying notify =>
    simp only [destroyStep, Option.some.injEq, Prod.mk.injEq] at done
    obtain ⟨rfl, rfl⟩ := done
    refine ⟨fun _ mem _ => mem, rfl, .inl rfl, .inr ⟨_, rfl, ?_, rfl⟩, fun mem => ⟨mem, .inr ⟨_, rfl, ?_⟩⟩⟩
    · cases (notify.step s.earliestDeadline succeeds).2 <;> rintro ⟨⟩
    · cases (notify.step s.earliestDeadline succeeds).2 <;> rfl
  | erase =>
    cases done
    refine ⟨fun _ mem other => Finset.mem_erase.mpr ⟨other, mem⟩, rfl, .inl rfl, .inr ⟨_, rfl, ?_, rfl⟩, fun mem => ?_⟩
    · split_ifs <;> rintro ⟨⟩
    · exact absurd mem (Finset.notMem_erase i _)
  | remove =>
    cases done
    exact ⟨fun _ mem _ => mem, rfl, .inl rfl, .inr ⟨_, rfl, by rintro ⟨⟩, rfl⟩, fun mem => ⟨mem, .inl rfl⟩⟩
  | close =>
    cases done
    exact ⟨fun _ mem _ => mem, rfl, .inl rfl, .inl ⟨rfl, by simp [State.set]⟩, fun mem => ⟨mem, .inl rfl⟩⟩

theorem refuseStep_kept {succeeds : Bool} {stage : Destroy} {rest : Option Destroy} {t : State} (safe : Safe s) (kept : Kept s)
    (here : s.accept = .destroying i stage) (done : destroyStep s i succeeds stage = some (t, rest)) :
    Kept { t with accept := rest.elim .idle (.destroying i) } := by
  have inner := destroyStep_inner done
  have destroyed := destroyStep_destroyed done
  obtain ⟨-, life, -⟩ := (safe.fine i).refused stage here
  have born : ¬ s.created ≤ i := fun later => by
    have new := (kept.unborn i).mpr later
    rw [life] at new
    split_ifs at new
  -- whatever the stage, the session is not alive after it, and the accept thread goes on until it is deleted
  have fate : (t.object i).life = .deleted ∨ (t.object i).life = .deleting ∧ ∃ later, rest = some later ∧ later ≠ .mark := by
    rcases destroyed.fate with ⟨-, gone⟩ | ⟨later, next, past, eq⟩
    · exact .inl gone
    · refine .inr ⟨?_, later, next, past⟩
      split_ifs at eq life <;> simp [eq, life]
  have before (j : Id) (eq : s.accept.session = some j) : j = i := by simpa [here, Accept.session, eq_comm] using eq
  refine kept.accepts (i := i) inner.loop inner.object (fun j _ => by rw [inner.created]) destroyed.sessions
    destroyed.deleteLater before ?unborn ?alive ?deleting ?offered
  case unborn =>
    rw [inner.created]
    exact ⟨fun new => by rcases fate with eq | ⟨eq, -⟩ <;> simp [eq] at new, fun later => absurd later born⟩
  case alive =>
    intro alive
    rcases fate with eq | ⟨eq, -⟩ <;> simp [eq] at alive
  case deleting =>
    intro deleting
    rcases fate with eq | ⟨-, next, rfl, past⟩
    · simp [eq] at deleting
    · cases next <;> first | rfl | exact absurd rfl past
  case offered => cases rest <;> rintro _ ⟨⟩

theorem acceptStep_kept {deadline : Time} {succeeds : Bool} (safe : Safe s) (kept : Kept s)
    (taken : acceptStep s deadline succeeds = some s') : Kept s' := by
  cases here : s.accept with
  | idle =>
    simp only [acceptStep, here, Option.ite_none_right_eq_some, Option.some.injEq] at taken
    obtain ⟨-, rfl⟩ := taken
    refine kept.accepts (i := s.created) rfl ?object ?created (fun _ mem _ => mem) rfl ?before ?unborn ?alive ?deleting ?offered
    case object => exact fun j other => Function.update_of_ne other _ _
    case created =>
      intro j other
      change s.created + 1 ≤ j ↔ s.created ≤ j
      exact ⟨Nat.le_of_succ_le, fun le => Nat.lt_of_le_of_ne le (Ne.symm other)⟩
    case before => simp [here, Accept.session]
    case unborn => simp [State.set]
    case alive =>
      refine fun _ => .inr (.inr (.inr ?_))
      cases notifyDeadline deadline <;> rfl
    case deleting => simp [State.set]
    case offered => cases notifyDeadline deadline <;> rintro _ ⟨⟩
  | notifying i notify =>
    simp only [acceptStep, here, Option.some.injEq] at taken
    subst taken
    have alive : (s.object i).life = .alive := (safe.fine i).fresh (by rw [here]; rfl)
    refine kept.accepts (i := i) rfl (fun _ _ => rfl) (fun _ _ => Iff.rfl) (fun _ mem _ => mem) rfl ?before ?unborn ?alive
      ?deleting ?offered
    case before => simp [here, Accept.session, eq_comm]
    case unborn => exact kept.unborn i
    case alive =>
      refine fun _ => .inr (.inr (.inr ?_))
      cases (notify.step s.earliestDeadline succeeds).2 <;> rfl
    case deleting => simp [alive]
    case offered => cases (notify.step s.earliestDeadline succeeds).2 <;> rintro _ ⟨⟩
  | constructed i =>
    simp only [acceptStep, here, Option.some.injEq] at taken
    subst taken
    have alive : (s.object i).life = .alive := (safe.fine i).fresh (by rw [here]; rfl)
    refine kept.accepts (i := i) rfl (fun _ _ => rfl) (fun _ _ => Iff.rfl) (fun _ mem _ => Finset.mem_insert_of_mem mem) rfl
      ?before ?unborn ?alive ?deleting ?offered
    case before => simp [here, Accept.session, eq_comm]
    case unborn => exact kept.unborn i
    case alive => exact fun _ => .inl (Finset.mem_insert_self _ _)
    case deleting => simp [alive]
    case offered =>
      rintro _ ⟨⟩
      exact Finset.mem_insert_self _ _
  | inserted i =>
    have alive : (s.object i).life = .alive := ((safe.fine i).offered here).1
    have registered := kept.offered i here
    have before (j : Id) (eq : s.accept.session = some j) : j = i := by simpa [here, Accept.session, eq_comm] using eq
    simp only [acceptStep, here] at taken
    split_ifs at taken
    · cases taken
      exact kept.accepts (i := i) rfl (fun _ _ => rfl) (fun _ _ => Iff.rfl) (fun _ mem _ => mem) rfl before (kept.unborn i)
        (fun _ => .inl registered) (by simp [State.touch, alive]) (by rintro _ ⟨⟩)
    · cases taken
      exact kept.accepts (i := i) rfl (fun _ _ => rfl) (fun _ _ => Iff.rfl) (fun _ mem _ => mem) rfl before (kept.unborn i)
        (fun _ => .inl registered) (by simp [State.touch, alive]) (by rintro _ ⟨⟩)
  | destroying i stage =>
    simp only [acceptStep, here, Option.map_eq_some_iff, Prod.exists] at taken
    obtain ⟨t, rest, done, rfl⟩ := taken
    exact refuseStep_kept safe kept here done

theorem acceptAct_kept {action : Action} (safe : Safe s) (kept : Kept s) (taken : acceptAct s action = some s') : Kept s' := by
  unfold acceptAct at taken
  split at taken
  next i here =>
    simp only [Option.map_eq_some_iff, Prod.exists] at taken
    obtain ⟨t, notify, done, rfl⟩ := taken
    have inner := act_inner done
    obtain ⟨-, life, sessions, deleteLater, -⟩ := act_spec done
    have dying : (s.object i).life = .deleting := ((safe.fine i).refused _ here).2.1
    refine kept.accepts (i := i) inner.loop inner.object (fun j _ => by rw [inner.created]) (fun j mem _ => sessions ▸ mem)
      deleteLater ?before ?unborn ?alive ?deleting ?offered
    case before => simp [here, Accept.session, eq_comm]
    case unborn =>
      dsimp only
      rw [life, inner.created]
      exact kept.unborn i
    case alive => simp [life, dying]
    case deleting => intro _; cases notify <;> rfl
    case offered => cases notify <;> rintro _ ⟨⟩
  next => cases taken

theorem step_kept {input : Input} (known : Known s) (safe : Safe s) (kept : Kept s) (remembers : Remembers s input)
    (taken : step s input = some s') : Kept s' := by
  cases input with
  | accept deadline succeeds => exact acceptStep_kept safe kept taken
  | acceptAct action => exact acceptAct_kept safe kept taken
  | wait events wokeup => exact waitStep_kept kept taken
  | loop clock order succeeds => exact loopStep_kept known safe kept remembers taken
  | loopAct action => exact loopAct_kept known safe kept taken
  | giveUp => exact giveUp_kept known safe kept taken
  | insertWakeup | writeWakeup =>
    simp only [step, Option.ite_none_right_eq_some, Option.some.injEq] at taken
    obtain ⟨-, rfl⟩ := taken
    exact kept.goes (fun _ => rfl) rfl rfl rfl rfl (fun _ mem => mem) (fun _ eq => eq) .inl
  | storeQuit | signal =>
    cases taken
    exact kept.goes (fun _ => rfl) rfl rfl rfl rfl (fun _ mem => mem) (fun _ eq => eq) .inl

end Steps

def Orderly (s : State) (input : Input) : Prop := KeepsAway s input ∧ Remembers s input

theorem reaches_kept {inputs : List Input} {s : State} (reached : sessionsEventLoop.Reaches Orderly {} inputs s) :
    Safe s ∧ Kept s := by
  have kept : Kept {} := ⟨by simp, by simp, by simp, by simp, fun _ => rfl⟩
  have all : Known s ∧ Safe s ∧ Kept s := by
    apply reached.invariant (P := fun _ s => Known s ∧ Safe s ∧ Kept s) ⟨known_start, safe_start, kept⟩
    intro inputs input s s' before orderly taken
    obtain ⟨known, safe, kept⟩ := before
    exact ⟨step_known known taken, step_safe known safe orderly.1 taken, step_kept known safe kept orderly.2 taken⟩
  exact all.2

/--
No session is forgotten in an orderly run. Whatever else the accept thread, the loop thread and the waking threads do, a session
that was made and is not deleted yet is in `m_sessions`, waits to be deleted later, is being deleted, or is still with the
accept thread.
-/
theorem no_session_leaks {inputs : List Input} {s : State} (reached : sessionsEventLoop.Reaches Orderly {} inputs s)
    {j : Id} (made : j < s.created) :
    (s.object j).life = .deleted ∨ Holds s j ∨ s.loop.deletes = some j ∨ s.accept.deletes = some j := by
  have kept := (reaches_kept reached).2
  cases life : (s.object j).life with
  | unborn => exact absurd ((kept.unborn j).mp life) (Nat.not_le.mpr made)
  | alive => exact .inr (.inl (kept.alive j life))
  | deleting => exact .inr (.inr (kept.deleting j life))
  | deleted => exact .inl rfl

-- Stricter than orderly: the threads keep apart, and nothing fails.
def apart (s : State) (input : Input) : Bool :=
  s.apart input && match input with
    | .loop _ _ succeeds => succeeds
    | _ => true

theorem orderly_of_apart (s : State) (input : Input) (checked : apart s input) : Orderly s input := by
  obtain ⟨checked, good⟩ := Bool.and_eq_true_iff.mp checked
  refine ⟨keepsAway_of_apart checked, ?_⟩
  cases input with
  | loop clock order succeeds => exact fun _ _ _ _ => good
  | _ => trivial

-- Two sessions are made; the first one has an error and is deleted later.
theorem no_session_leaks_later :
    ∃ inputs s, sessionsEventLoop.Reaches Orderly {} inputs s ∧ 0 < s.created ∧ s.deleteLater = {0} ∧
      ((s.object 0).life = .deleted ∨ Holds s 0 ∨ s.loop.deletes = some 0 ∨ s.accept.deletes = some 0) := by
  let inputs : List Input :=
    [.accept 0 true, .accept 0 true, .accept 0 true, .accept 0 true, .accept 0 true, .accept 0 true, .loop 0 [] true,
      .wait [(0, .error)] false, .loop 0 [] true, .loopAct .finish, .loop 0 [] true, .loop 0 [] true, .loop 0 [] true,
      .loop 0 [] true, .loop 0 [] true]
  have ran : ((sessionsEventLoop.guarded apart).run {} inputs).map (fun s => (s.created, s.deleteLater)) = some (2, {0}) := by
    decide +kernel
  obtain ⟨s, ran, seen⟩ := Option.map_eq_some_iff.mp ran
  obtain ⟨created, later⟩ : s.created = 2 ∧ s.deleteLater = {0} := by simpa using seen
  have reached := System.reaches_of_guarded orderly_of_apart ran
  have made : 0 < s.created := by simp [created]
  exact ⟨inputs, s, reached, made, later, no_session_leaks reached made⟩

-- `~sessions_event_loop` once the thread is joined: the sessions from the iterator on, and the one that is deleted.
structure Closing where
  state : State
  todo : List Id
  current : Option (Id × Destroy) := none

inductive CloseInput where
  -- `auto session = it++`: the session that goes is not under the iterator any more
  | next
  | destroy (succeeds : Bool)
  | act (action : Action)
  -- threads that still have a wakeupper
  | insertWakeup (thread : Nat) (i : Id)
  | writeWakeup (thread : Nat)
  deriving DecidableEq

def closing : System Closing CloseInput where
  step c
    | .next =>
      match c.current, c.todo with
      | none, i :: todo => some { c with todo, current := some (i, .mark) }
      | _, _ => none
    | .destroy succeeds =>
      match c.current with
      | some (i, stage) =>
        (destroyStep c.state i succeeds stage).map fun (s, rest) => { c with state := s, current := rest.map (i, ·) }
      | none => none
    | .act action =>
      match c.current with
      | some (i, .quitting) =>
        (act c.state i action).map fun (s, notify) =>
          { c with state := s, current := some (i, notify.elim .quitting .notifying) }
      | _ => none
    | .insertWakeup thread i => (step c.state (.insertWakeup thread i)).map fun s => { c with state := s }
    | .writeWakeup thread => (step c.state (.writeWakeup thread)).map fun s => { c with state := s }

structure Closes (created : Nat) (c : Closing) : Prop where
  sound : c.state.fault = false
  unborn : ∀ j, (c.state.object j).life = .unborn ↔ created ≤ j
  todo : c.todo.Nodup ∧ ∀ j ∈ c.todo, (c.state.object j).life = .alive
  alive : ∀ j, (c.state.object j).life = .alive → j ∈ c.todo ∨ c.current = some (j, .mark)
  deleting : ∀ j, (c.state.object j).life = .deleting → ∃ stage, c.current = some (j, stage)
  current : ∀ i stage, c.current = some (i, stage) → i ∉ c.todo ∧
    (c.state.object i).life = if stage = .mark then .alive else .deleting
  registered : ∀ j ∈ c.state.sessions, j ∈ c.todo ∨ ∃ stage, c.current = some (j, stage) ∧ stage.unregistered = false

section Closing

variable {created : Nat} {c c' : Closing} {i : Id} {stage : Destroy}

theorem Closes.moves (closes : Closes created c) (here : c.current = some (i, stage)) {s : State} {next : Option Destroy}
    (sound : s.fault = false) (object : ∀ j, j ≠ i → s.object j = c.state.object j)
    (sessions : s.sessions ⊆ c.state.sessions)
    (fate : next = none ∧ (s.object i).life = .deleted ∨
      ∃ stage, next = some stage ∧ stage ≠ .mark ∧ (s.object i).life = .deleting)
    (registered : i ∈ s.sessions → ∃ stage, next = some stage ∧ stage.unregistered = false) :
    Closes created { c with state := s, current := next.map (i, ·) } := by
  obtain ⟨outside, life⟩ := closes.current i stage here
  have others (j : Id) (mem : j ∈ c.todo) : j ≠ i := fun same => outside (same ▸ mem)
  constructor
  case sound => exact sound
  case unborn =>
    intro j
    by_cases same : j = i
    · subst same
      have born := closes.unborn j
      rw [life] at born
      have young : ¬ created ≤ j := fun later => by
        have new := born.mpr later
        split_ifs at new
      refine ⟨fun new => ?_, fun later => absurd later young⟩
      rcases fate with ⟨-, eq⟩ | ⟨-, -, -, eq⟩ <;> simp [eq] at new
    · rw [object j same]
      exact closes.unborn j
  case todo => exact ⟨closes.todo.1, fun j mem => (object j (others j mem)).symm ▸ closes.todo.2 j mem⟩
  case alive =>
    intro j alive
    by_cases same : j = i
    · subst same
      rcases fate with ⟨-, eq⟩ | ⟨-, -, -, eq⟩ <;> simp [eq] at alive
    rw [object j same] at alive
    refine .inl ((closes.alive j alive).resolve_right fun eq => same ?_)
    rw [here] at eq
    simpa [eq_comm] using congrArg (Option.map Prod.fst) eq
  case deleting =>
    intro j deleting
    by_cases same : j = i
    · subst same
      rcases fate with ⟨-, eq⟩ | ⟨stage, rfl, -, -⟩
      · simp [eq] at deleting
      · exact ⟨stage, rfl⟩
    rw [object j same] at deleting
    obtain ⟨stage', eq⟩ := closes.deleting j deleting
    rw [here] at eq
    exact absurd (by simpa [eq_comm] using congrArg (Option.map Prod.fst) eq) same
  case current =>
    intro k stage' eq
    rcases fate with ⟨rfl, -⟩ | ⟨stage, rfl, past, dying⟩
    · cases eq
    · obtain ⟨rfl, rfl⟩ : i = k ∧ stage = stage' := by simpa using eq
      exact ⟨outside, by simp [past, dying]⟩
  case registered =>
    intro j mem
    by_cases same : j = i
    · subst same
      obtain ⟨stage, rfl, early⟩ := registered mem
      exact .inr ⟨stage, rfl, early⟩
    · refine .inl ((closes.registered j (sessions mem)).resolve_right ?_)
      rintro ⟨stage', eq, -⟩
      rw [here] at eq
      exact same (by simpa [eq_comm] using congrArg (Option.map Prod.fst) eq)

theorem destroy_closes {succeeds : Bool} {s : State} {next : Option Destroy} (closes : Closes created c)
    (here : c.current = some (i, stage)) (done : destroyStep c.state i succeeds stage = some (s, next)) :
    Closes created { c with state := s, current := next.map (i, ·) } := by
  have inner := destroyStep_inner done
  have destroyed := destroyStep_destroyed done
  obtain ⟨outside, life⟩ := closes.current i stage here
  refine closes.moves here ?sound inner.object inner.sessions ?fate ?registered
  case sound =>
    rcases destroyed.fault with same | ⟨rfl, marked⟩
    · rw [same, closes.sound]
    · simpa [marked, closes.sound] using life
  case fate =>
    rcases destroyed.fate with gone | ⟨later, next, past, eq⟩
    · exact .inl gone
    · refine .inr ⟨later, next, past, ?_⟩
      split_ifs at eq life <;> simp [eq, life]
  case registered =>
    intro mem
    obtain ⟨before, late | early⟩ := destroyed.registered mem
    · -- a stage behind the erasure finds the session erased
      rcases closes.registered i before with listed | ⟨stage', eq, early⟩
      · exact absurd listed outside
      · obtain rfl : stage = stage' := by simpa [here] using eq
        simp [late] at early
    · exact early

theorem act_closes {action : Action} {s : State} {notify : Option Notify} (closes : Closes created c)
    (here : c.current = some (i, .quitting)) (done : act c.state i action = some (s, notify)) :
    Closes created { c with state := s, current := some (i, notify.elim .quitting .notifying) } := by
  have inner := act_inner done
  obtain ⟨fault, same, sessions, -, -⟩ := act_spec done
  have life : (c.state.object i).life = .deleting := (closes.current i _ here).2
  refine closes.moves here ?_ inner.object inner.sessions (.inr ⟨_, rfl, ?_, same.trans life⟩) (fun _ => ⟨_, rfl, ?_⟩)
  · rw [fault]
    exact touch_sound closes.sound (by simp [life])
  · cases notify <;> rintro ⟨⟩
  · cases notify <;> rfl

theorem close_step {input : CloseInput} (closes : Closes created c) (taken : closing.step c input = some c') :
    Closes created c' := by
  cases input with
  | next =>
    simp only [closing] at taken
    split at taken
    next i todo free rest =>
      cases taken
      have listed := closes.todo
      rw [rest] at listed
      have fresh := List.nodup_cons.mp listed.1
      constructor
      case sound => exact closes.sound
      case unborn => exact closes.unborn
      case todo => exact ⟨fresh.2, fun j mem => listed.2 j (List.mem_cons_of_mem _ mem)⟩
      case alive =>
        intro j alive
        have before := closes.alive j alive
        simp only [rest, free, List.mem_cons, reduceCtorEq, or_false] at before
        exact before.elim (fun same => .inr (same ▸ rfl)) .inl
      case deleting =>
        intro j deleting
        obtain ⟨stage, eq⟩ := closes.deleting j deleting
        simp [free] at eq
      case current =>
        intro k stage eq
        obtain ⟨rfl, rfl⟩ : i = k ∧ Destroy.mark = stage := by simpa using eq
        exact ⟨fresh.1, listed.2 i List.mem_cons_self⟩
      case registered =>
        intro j mem
        have before := closes.registered j mem
        simp only [rest, free, List.mem_cons, reduceCtorEq, false_and, exists_false, or_false] at before
        rcases before with rfl | mem
        · exact .inr ⟨_, rfl, rfl⟩
        · exact .inl mem
    next => cases taken
  | destroy succeeds =>
    simp only [closing] at taken
    split at taken
    next i stage here =>
      simp only [Option.map_eq_some_iff, Prod.exists] at taken
      obtain ⟨s, rest, done, rfl⟩ := taken
      exact destroy_closes closes here done
    next => cases taken
  | act action =>
    simp only [closing] at taken
    split at taken
    next i here =>
      simp only [Option.map_eq_some_iff, Prod.exists] at taken
      obtain ⟨s, notify, done, rfl⟩ := taken
      exact act_closes closes here done
    next => cases taken
  | insertWakeup | writeWakeup =>
    simp only [closing, step, Option.map_eq_some_iff, Option.ite_none_right_eq_some, Option.some.injEq] at taken
    obtain ⟨s, ⟨-, rfl⟩, rfl⟩ := taken
    exact { closes with }

theorem closes_start {s : State} {order : List Id} (safe : Safe s) (kept : Kept s) (exited : s.loop = .exited)
    (idle : s.accept = .idle) (all : Enumerates order s.sessions) : Closes s.created { state := s, todo := order } := by
  have listed (j : Id) : j ∈ order ↔ j ∈ s.sessions := by rw [← all.2, List.mem_toFinset]
  constructor
  case sound => exact safe.sound
  case unborn => exact kept.unborn
  case todo =>
    refine ⟨all.1, fun j mem => ?_⟩
    rcases (safe.fine j).registered ((listed j).mp mem) with alive | deleted
    · exact alive
    · simp [idle, Accept.deletes] at deleted
  case alive =>
    intro j alive
    -- the loop thread is past the deletions and the accept thread has no session
    have rested := kept.rested (by rw [exited]; rfl)
    rcases kept.alive j alive with registered | later | doomed | accepted
    · exact .inl ((listed j).mpr registered)
    · simp [rested] at later
    · simp [exited, Loop.doomed] at doomed
    · simp [idle, Accept.session] at accepted
  case deleting =>
    intro j deleting
    rcases kept.deleting j deleting with loop | accept
    · simp [exited, Loop.deletes] at loop
    · simp [idle, Accept.deletes] at accept
  case current => rintro _ _ ⟨⟩
  case registered => exact fun j mem => .inl ((listed j).mpr mem)

end Closing

section Ends

variable {s s' : State} {todo : List Id} {i : Id}

def Ends (c : Closing) : Prop := ∃ inputs s, closing.run c inputs = some { state := s, todo := c.todo }

theorem Ends.next (input : CloseInput) {current : Option (Id × Destroy)} {c : Closing}
    (taken : closing.step c input = some { state := s, todo := c.todo, current })
    (ends : Ends { state := s, todo := c.todo, current }) : Ends c := by
  obtain ⟨inputs, s', ran⟩ := ends
  exact ⟨input :: inputs, s', by simpa [System.run, taken] using ran⟩

theorem close_ends : Ends ⟨s, todo, some (i, .close)⟩ := ⟨[.destroy true], _, rfl⟩

theorem erase_ends : Ends ⟨s, todo, some (i, .erase)⟩ := by
  apply Ends.next (.destroy true) rfl
  split_ifs
  · exact Ends.next (.destroy true) rfl close_ends
  · exact close_ends

theorem finished_ends (finished : (s.object i).finished) : Ends ⟨s, todo, some (i, .quitting)⟩ := by
  have left : closing.step ⟨s, todo, some (i, .quitting)⟩ (.destroy true) = some ⟨s, todo, some (i, .erase)⟩ := by
    simp [closing, destroyStep, finished]
  exact Ends.next _ left erase_ends

theorem quitting_ends : Ends ⟨s, todo, some (i, .quitting)⟩ := by
  cases finished : (s.object i).finished with
  | true => exact finished_ends finished
  | false =>
    -- a coroutine that is asked to quit comes to its end
    have quits : closing.step ⟨s, todo, some (i, .quitting)⟩ (.act .finish) =
        some ⟨(s.touch i).set i { s.object i with finished := true }, todo, some (i, .quitting)⟩ := by
      simp [closing, act, finished]
    exact Ends.next _ quits (finished_ends (by simp [State.set]))

theorem notified_ends {notify : Notify} (succeeds : Bool)
    (ends : Ends ⟨{ s with earliestDeadline := (notify.step s.earliestDeadline succeeds).1 }, todo,
      some (i, (notify.step s.earliestDeadline succeeds).2.elim .quitting .notifying)⟩) :
    Ends ⟨s, todo, some (i, .notifying notify)⟩ := Ends.next (.destroy succeeds) rfl ends

theorem notifying_ends (notify : Notify) : Ends ⟨s, todo, some (i, .notifying notify)⟩ := by
  have current (value : Time) : Ends ⟨s, todo, some (i, .notifying ⟨value, some s.earliestDeadline⟩)⟩ := by
    apply notified_ends true
    simp only [Notify.step, and_self, if_true]
    split_ifs <;> exact quitting_ends
  apply notified_ends false
  obtain ⟨value, _ | seen⟩ := notify
  · exact current value
  · simp only [Notify.step, Bool.false_eq_true, and_false, if_false]
    split_ifs
    · exact current value
    · exact quitting_ends

theorem destroy_ends (stage : Destroy) : Ends ⟨s, todo, some (i, stage)⟩ := by
  cases stage with
  | mark => exact Ends.next (.destroy true) rfl quitting_ends
  | quitting => exact quitting_ends
  | notifying notify => exact notifying_ends notify
  | erase => exact erase_ends
  | remove => exact Ends.next (.destroy true) rfl close_ends
  | close => exact close_ends

theorem closing_ends (c : Closing) : ∃ inputs s, closing.run c inputs = some { state := s, todo := [] } := by
  obtain ⟨s, todo, current⟩ := c
  induction todo generalizing s current with
  | nil =>
    cases current with
    | none => exact ⟨[], s, rfl⟩
    | some current => exact destroy_ends current.2
  | cons i todo ih =>
    have free (s : State) : ∃ inputs s', closing.run ⟨s, i :: todo, none⟩ inputs = some { state := s', todo := [] } := by
      obtain ⟨inputs, s', ran⟩ := ih s (some (i, .mark))
      exact ⟨.next :: inputs, s', ran⟩
    cases current with
    | none => exact free s
    | some current =>
      obtain ⟨first, t, ran⟩ : Ends ⟨s, i :: todo, some current⟩ := destroy_ends current.2
      obtain ⟨more, s', rest⟩ := free t
      exact ⟨first ++ more, s', by rw [System.run_append, ran]; exact rest⟩

end Ends

/--
After an orderly run the destructor of the loop deletes every session. It starts when the loop thread is joined and the accept thread is done;
in whatever order it finds the sessions it uses none after its deletion and can get to its end, and there every session
ever made is deleted, each once, so that nothing is left for the last loop of `exec`.
-/
theorem shutdown_deletes_sessions {inputs : List Input} {s : State} {order : List Id} {closes : List CloseInput} {c : Closing}
    (reached : sessionsEventLoop.Reaches Orderly {} inputs s) (exited : s.loop = .exited) (idle : s.accept = .idle)
    (all : Enumerates order s.sessions)
    (closed : closing.Reaches (fun _ _ => True) { state := s, todo := order } closes c) :
    c.state.fault = false ∧ (∃ more s', closing.run c more = some { state := s', todo := [] }) ∧
      (c.todo = [] → c.current = none → (∀ j < s.created, (c.state.object j).life = .deleted) ∧ c.state.sessions = ∅) := by
  obtain ⟨safe, kept⟩ := reaches_kept reached
  have holds : Closes s.created c :=
    closed.invariant (P := fun _ c => Closes s.created c) (closes_start safe kept exited idle all)
      (fun before _ taken => close_step before taken)
  refine ⟨holds.sound, closing_ends c, fun done free => ⟨fun j made => ?_, ?_⟩⟩
  · cases life : (c.state.object j).life with
    | unborn => exact absurd ((holds.unborn j).mp life) (Nat.not_le.mpr made)
    | alive => simpa [done, free] using holds.alive j life
    | deleting => simpa [free] using holds.deleting j life
    | deleted => rfl
  · apply Finset.eq_empty_of_forall_notMem
    intro j mem
    simpa [done, free] using holds.registered j mem

-- The first of two sessions is deleted by the loop thread, which then leaves; the second one is deleted here.
theorem shutdown_deletes_sessions_two :
    ∃ inputs s closes c, sessionsEventLoop.Reaches Orderly {} inputs s ∧ s.created = 2 ∧ s.sessions = {1} ∧
      closing.Reaches (fun _ _ => True) { state := s, todo := [1] } closes c ∧
      (∀ j < s.created, (c.state.object j).life = .deleted) ∧ c.state.sessions = ∅ := by
  let inputs : List Input :=
    [.accept 0 true, .accept 0 true, .accept 0 true, .accept 0 true, .accept 0 true, .accept 0 true, .loop 0 [] true,
      .wait [(0, .error)] false, .loop 0 [] true, .loopAct .finish, .loop 0 [] true, .loop 0 [] true, .loop 0 [] true,
      .loop 0 [] true, .loop 0 [] true, .storeQuit, .loop 0 [] true, .loop 0 [] true, .loop 0 [] true, .loop 0 [0] true,
      .loop 0 [] true, .loop 0 [] true, .loop 0 [] true, .loop 0 [] true, .loop 0 [] true, .loop 0 [] true, .loop 0 [] true]
  have ran : ((sessionsEventLoop.guarded apart).run {} inputs).map (fun s => (s.loop, s.accept, s.created, s.sessions)) =
      some (.exited, .idle, 2, {1}) := by
    decide +kernel
  obtain ⟨s, ran, seen⟩ := Option.map_eq_some_iff.mp ran
  obtain ⟨exited, idle, created, sessions⟩ : s.loop = .exited ∧ s.accept = .idle ∧ s.created = 2 ∧ s.sessions = {1} := by
    simpa using seen
  have reached := System.reaches_of_guarded orderly_of_apart ran
  have all : Enumerates [1] s.sessions := by simp [Enumerates, sessions]
  obtain ⟨closes, t, ended⟩ := closing_ends { state := s, todo := [1] }
  have closed := System.reaches_of_run ended
  obtain ⟨-, -, done⟩ := shutdown_deletes_sessions reached exited idle all closed
  exact ⟨inputs, s, closes, _, reached, created, sessions, closed, done rfl rfl⟩

end Dracon.SessionsEventLoop
