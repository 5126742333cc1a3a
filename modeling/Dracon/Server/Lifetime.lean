import Dracon.Server.Wakeups

set_option autoImplicit false

namespace Dracon.SessionsEventLoop

open Shared

def Phase.uses : Phase → List Id
  | .wake _ => []
  | p => p.todo

def Loop.uses (loop : Loop) : List Id := loop.current.elim [] Phase.uses

-- the session whose destructor the loop thread has started
def Loop.deletes : Loop → Option Id
  | .inside _ (.destroying .mark) _ => none
  | .inside i (.destroying _) _ => some i
  | _ => none

-- the sessions `delete_later` has unregistered, as far as the loop thread knows them
def Loop.doomed : Loop → List Id
  | .phase (.delete todo) => todo
  | .inside i _ (.delete todo) => i :: todo
  | .inside i (.leaving .remove _) _ | .inside i (.leaving .insert _) _ => [i]
  | _ => []

def Accept.session : Accept → Option Id
  | .idle => none
  | .notifying i _ | .constructed i | .inserted i | .destroying i _ => some i

def Accept.deletes : Accept → Option Id
  | .destroying _ .mark => none
  | .destroying i _ => some i
  | _ => none

-- What holds of a session with respect to everybody who has a pointer to it.
structure Fine (s : State) (j : Id) : Prop where
  uses : j ∈ s.loop.uses → (s.object j).life = .alive
  working : s.loop.working = some j → s.loop.deletes ≠ some j → (s.object j).life = .alive
  dying : s.loop.deletes = some j → (s.object j).life = .deleting
  polled : j ∈ s.polled → (s.object j).life = .alive ∨ s.loop.deletes = some j
  registered : j ∈ s.sessions → (s.object j).life = .alive ∨ s.accept.deletes = some j
  doomed : j ∈ s.deleteLater → (s.object j).life = .alive
  unregistered : j ∈ s.deleteLater ∨ j ∈ s.loop.doomed → j ∉ s.sessions
  fresh : s.accept.fresh = some j → (s.object j).life = .alive
  held : s.accept.held = some j → j ∉ s.polled ∧ j ∉ s.deleteLater ∧ s.loop.working ≠ some j
  -- between the insertion and the registration only a scan can meet the session
  offered : s.accept = .inserted j → (s.object j).life = .alive ∧ (s.object j).stream = none ∧
    (j ∈ s.loop.uses → ∃ todo earliest now, s.loop.current = some (.scan todo earliest now))
  refused : ∀ stage, s.accept = .destroying j stage → j ∉ s.loop.uses ∧
    (s.object j).life = (if stage = .mark then .alive else .deleting) ∧ (stage = .remove ∨ stage = .close → j ∉ s.sessions)

structure Intact (s : State) : Prop where
  sound : s.fault = false
  fine : ∀ j, Fine s j
  once : s.loop.doomed.Nodup
  collected : ∀ todo, s.loop.current = some (.delete todo) → s.deleteLater = ∅

-- a session gets its wakeupper with its stream
def Woken (s : State) : Prop := ∀ j, j ∈ s.wakeups ∨ j ∈ s.loop.wakes → (s.object j).stream ≠ none

structure Safe (s : State) : Prop extends Intact s where
  woken : Woken s

-- The loop thread keeps away from a session that the accept thread has not given to epoll: it does not time the session out, and
-- when epoll refuses it, the session is not in the rest of the snapshot, and until it is unregistered no snapshot is taken and
-- no wakeup finds it.
def KeepsAway (s : State) : Input → Prop
  | .accept _ succeeds => ∀ i todo earliest now, s.accept = .inserted i →
      s.loop.current = some (.scan todo earliest now) → succeeds ∨ i ∉ todo
  | .loop _ _ _ =>
    (∀ i todo earliest now, s.accept = .inserted i → s.loop = .phase (.scan (i :: todo) earliest now) →
      (s.object i).deadline = 0 ∨ now < (s.object i).deadline) ∧
    ∀ i stage, s.accept = .destroying i stage → i ∈ s.sessions →
      (∀ now, s.loop ≠ .snapshot now) ∧ ∀ todo, s.loop ≠ .phase (.wake (i :: todo))
  | _ => True

-- No wakeup finds a session that the accept thread is about to give to epoll.
def Unmet (s : State) : Input → Prop
  | .loop _ _ _ => ∀ i todo, s.accept = .inserted i → s.loop ≠ .phase (.wake (i :: todo))
  | _ => True

section Loops

variable {loop : Loop} {j : Id}

theorem working_of_deletes (dying : loop.deletes = some j) : loop.working = some j := by
  unfold Loop.deletes at dying
  split at dying <;> cases dying
  rfl

theorem session_of_fresh {accept : Accept} (fresh : accept.fresh = some j) : accept.session = some j := by
  cases accept <;> simp_all [Accept.fresh, Accept.session]

theorem session_of_held {accept : Accept} (held : accept.held = some j) : accept.session = some j := by
  cases accept <;> simp_all [Accept.held, Accept.session]

theorem session_of_deletes {accept : Accept} (deletes : accept.deletes = some j) : accept.session = some j := by
  unfold Accept.deletes at deletes
  split at deletes <;> cases deletes
  rfl

theorem todo_of_uses (mem : j ∈ loop.uses) : j ∈ loop.todo := by
  unfold Loop.uses at mem
  unfold Loop.todo
  cases here : loop.current with
  | none => simp [here] at mem
  | some p => cases p <;> simp_all [Phase.uses]

theorem doomed_inside {i : Id} {work w : Work} {p : Phase} (other : j ≠ i) (mem : j ∈ (Loop.inside i w p).doomed) :
    j ∈ (Loop.inside i work p).doomed := by
  unfold Loop.doomed at mem
  split at mem
  case h_2 here =>
    cases here
    exact mem
  all_goals simp_all

theorem doomed_phase {i : Id} {work : Work} {p : Phase} (mem : j ∈ (Loop.phase p).doomed) :
    j ∈ (Loop.inside i work p).doomed := by
  cases p with
  | delete todo => exact List.mem_cons_of_mem _ mem
  | _ => cases mem

end Loops

section Others

variable {s s' : State} {i j : Id}

theorem Fine.aside (fine : Fine s j) (loop : s'.loop = s.loop) (object : s'.object j = s.object j) (polled : j ∈ s'.polled → j ∈ s.polled)
    (sessions : j ∈ s'.sessions → j ∈ s.sessions) (deleteLater : j ∈ s'.deleteLater → j ∈ s.deleteLater)
    (before : s.accept.session ≠ some j) (after : s'.accept.session ≠ some j) : Fine s' j where
  uses := by
    rw [loop, object]
    exact fine.uses
  working := by
    rw [loop, object]
    exact fine.working
  dying := by
    rw [loop, object]
    exact fine.dying
  polled := by
    rw [loop, object]
    exact fun mem => fine.polled (polled mem)
  registered := by
    rw [object]
    exact fun mem => .inl ((fine.registered (sessions mem)).resolve_right fun dies => before (session_of_deletes dies))
  doomed := by
    rw [object]
    exact fun mem => fine.doomed (deleteLater mem)
  unregistered := by
    rw [loop]
    exact fun gone mem => fine.unregistered (gone.imp_left deleteLater) (sessions mem)
  fresh eq := absurd (session_of_fresh eq) after
  held eq := absurd (session_of_held eq) after
  offered eq := absurd (by rw [eq]; rfl) after
  refused stage eq := absurd (by rw [eq]; rfl) after

theorem Fine.beside {work : Work} {p : Phase} (fine : Fine s j) (other : j ≠ i) (here : s.loop = .inside i work p)
    (inside : Inside s i work p s') : Fine s' j := by
  have object := inside.object j other
  have current : s'.loop.current = s.loop.current := by
    obtain eq | ⟨w, eq, -⟩ := inside.loop <;> rw [eq, here] <;> rfl
  have uses : s'.loop.uses = s.loop.uses := by rw [Loop.uses, Loop.uses, current]
  have idle : s'.loop.working ≠ some j := by
    obtain eq | ⟨w, eq, -⟩ := inside.loop <;> rw [eq]
    · rintro ⟨⟩
    · exact fun same => other (Option.some.inj same).symm
  have alone : s.loop.deletes ≠ some j := by
    intro deletes
    have working := working_of_deletes deletes
    rw [here] at working
    exact other (Option.some.inj working).symm
  have later (mem : j ∈ s'.deleteLater) : j ∈ s.deleteLater :=
    Finset.mem_of_mem_insert_of_ne (inside.deleteLater mem) other
  have doomed (mem : j ∈ s'.loop.doomed) : j ∈ s.loop.doomed := by
    rw [here]
    obtain eq | ⟨w, eq, -⟩ := inside.loop <;> rw [eq] at mem
    · exact doomed_phase mem
    · exact doomed_inside other mem
  refine ⟨?_, fun eq => absurd eq idle, fun eq => absurd (working_of_deletes eq) idle, ?_, ?_, ?_, ?_, ?_, ?_, ?_, ?_⟩
  · rw [uses, object]
    exact fine.uses
  · rw [object]
    exact fun mem => .inl ((fine.polled (inside.polled mem)).resolve_right alone)
  · rw [object, inside.accept]
    exact fun mem => fine.registered (inside.sessions mem)
  · rw [object]
    exact fun mem => fine.doomed (later mem)
  · exact fun gone mem => fine.unregistered (gone.imp later doomed) (inside.sessions mem)
  · rw [object, inside.accept]
    exact fine.fresh
  · rw [inside.accept]
    intro held
    obtain ⟨unpolled, kept, -⟩ := fine.held held
    exact ⟨fun mem => unpolled (inside.polled mem), fun mem => kept (later mem), idle⟩
  · rw [object, inside.accept, uses, current]
    exact fine.offered
  · rw [object, inside.accept, uses]
    intro stage refused
    obtain ⟨unused, life, gone⟩ := fine.refused stage refused
    exact ⟨unused, life, fun late mem => gone late (inside.sessions mem)⟩

theorem Fine.goes (fine : Fine s j) (outside : s.loop.working = none) (object : s'.object = s.object)
    (polled : s'.polled = s.polled) (sessions : s'.sessions = s.sessions) (accept : s'.accept = s.accept)
    (deleteLater : s'.deleteLater ⊆ s.deleteLater) (idle : s'.loop.deletes = none)
    (uses : j ∈ s'.loop.uses → (s.object j).life = .alive ∧ (∀ stage, s.accept ≠ .destroying j stage) ∧
      (s.accept = .inserted j → ∃ todo earliest now, s'.loop.current = some (.scan todo earliest now)))
    (working : s'.loop.working = some j → (s.object j).life = .alive ∧ s.accept.held ≠ some j)
    (doomed : j ∈ s'.loop.doomed → j ∉ s.sessions) : Fine s' j := by
  have alone : s.loop.deletes ≠ some j := by
    intro deletes
    simp [working_of_deletes deletes] at outside
  refine ⟨?_, ?_, by simp [idle], ?_, ?_, ?_, ?_, ?_, ?_, ?_, ?_⟩
  · rw [object]
    exact fun mem => (uses mem).1
  · rw [object]
    exact fun eq _ => (working eq).1
  · rw [object, polled]
    exact fun mem => .inl ((fine.polled mem).resolve_right alone)
  · rw [object, sessions, accept]
    exact fine.registered
  · rw [object]
    exact fun mem => fine.doomed (deleteLater mem)
  · rw [sessions]
    rintro (mem | mem)
    · exact fine.unregistered (.inl (deleteLater mem))
    · exact doomed mem
  · rw [object, accept]
    exact fine.fresh
  · rw [polled, accept]
    intro held
    obtain ⟨unpolled, kept, -⟩ := fine.held held
    exact ⟨unpolled, fun mem => kept (deleteLater mem), fun eq => (working eq).2 held⟩
  · rw [object, accept]
    intro offered
    obtain ⟨alive, none, -⟩ := fine.offered offered
    exact ⟨alive, none, fun mem => (uses mem).2.2 offered⟩
  · rw [object, accept, sessions]
    intro stage refused
    obtain ⟨-, rest⟩ := fine.refused stage refused
    exact ⟨fun mem => (uses mem).2.1 stage refused, rest⟩

theorem wakes_after {work w : Work} {p : Phase} (new : w ≠ .found) (mem : j ∈ (Loop.inside i w p).wakes) :
    j ∈ (Loop.inside i work p).wakes :=
  wakes_inside i work p j ((wakes_of_inside mem).resolve_left fun found => new found.1)

theorem given_away (known : Known s) (fine : Fine s i) (working : s.loop.working = some i) :
    s.accept.session ≠ some i := by
  intro eq
  cases here : s.accept with
  | idle => simp [here, Accept.session] at eq
  | notifying k | constructed k =>
    obtain rfl : k = i := by simpa [here, Accept.session] using eq
    exact (known.fresh k (by rw [here]; rfl)).1 (known.refers k (.working working))
  | inserted k | destroying k =>
    obtain rfl : k = i := by simpa [here, Accept.session] using eq
    exact (fine.held (by rw [here]; rfl)).2.2 working

theorem Fine.own {work : Work} {p : Phase} (fine : Fine s i) (known : Known s) (here : s.loop = .inside i work p)
    (inside : Inside s i work p s') (alive : (s'.object i).life = .alive)
    (after : s'.loop = .phase p ∨ ∃ w, s'.loop = .inside i w p ∧ ∀ stage, w ≠ .destroying stage)
    (unregistered : i ∈ s'.deleteLater ∨ i ∈ s'.loop.doomed → i ∉ s'.sessions) : Fine s' i := by
  have elsewhere : s'.accept.session ≠ some i :=
    inside.accept ▸ given_away known fine (by rw [here]; rfl)
  have idle : s'.loop.deletes ≠ some i := by
    obtain eq | ⟨w, eq, other⟩ := after <;> rw [eq]
    · rintro ⟨⟩
    · unfold Loop.deletes
      split
      · rintro ⟨⟩
      · rename_i stage _ _ eq
        cases eq
        exact absurd rfl (other stage)
      · rintro ⟨⟩
  refine ⟨fun _ => alive, fun _ _ => alive, fun eq => absurd eq idle, fun _ => .inl alive, fun _ => .inl alive,
    fun _ => alive, unregistered, fun eq => absurd (session_of_fresh eq) elsewhere,
    fun eq => absurd (session_of_held eq) elsewhere, fun eq => absurd (by rw [eq]; rfl) elsewhere,
    fun stage eq => absurd (by rw [eq]; rfl) elsewhere⟩

theorem Fine.destroyed {stage : Destroy} {todo : List Id} (fine : Fine s i) (known : Known s)
    (here : s.loop = .inside i (.destroying stage) (.delete todo)) (inside : Inside s i (.destroying stage) (.delete todo) s')
    (once : i ∉ todo) (collected : s'.deleteLater = ∅)
    (after : s'.loop = .phase (.delete todo) ∧ i ∉ s'.polled ∨
      ∃ stage, s'.loop = .inside i (.destroying stage) (.delete todo) ∧ stage ≠ .mark ∧ (s'.object i).life = .deleting) :
    Fine s' i := by
  have elsewhere : s'.accept.session ≠ some i :=
    inside.accept ▸ given_away known fine (by rw [here]; rfl)
  have uses : i ∉ s'.loop.uses := by
    obtain ⟨eq, -⟩ | ⟨w, eq, -⟩ := after <;> rw [eq] <;> exact once
  have deletes (w : Destroy) (past : w ≠ .mark) : (Loop.inside i (.destroying w) (.delete todo)).deletes = some i := by
    cases w <;> simp_all [Loop.deletes]
  have gone : i ∉ s'.sessions := fun mem =>
    fine.unregistered (.inr (by rw [here]; exact List.mem_cons_self)) (inside.sessions mem)
  refine ⟨fun mem => absurd mem uses, fun working dying => ?_, fun dying => ?_, fun mem => .inr ?_, fun mem => absurd mem gone,
    by simp [collected], fun _ => gone, fun eq => absurd (session_of_fresh eq) elsewhere,
    fun eq => absurd (session_of_held eq) elsewhere, fun eq => absurd (by rw [eq]; rfl) elsewhere,
    fun stage eq => absurd (by rw [eq]; rfl) elsewhere⟩
  · obtain ⟨eq, -⟩ | ⟨w, eq, past, -⟩ := after
    · rw [eq] at working
      cases working
    · exact absurd (by rw [eq]; exact deletes w past) dying
  · obtain ⟨eq, -⟩ | ⟨w, eq, past, life⟩ := after
    · rw [eq] at dying
      cases dying
    · exact life
  · obtain ⟨-, unpolled⟩ | ⟨w, eq, past, -⟩ := after
    · exact absurd mem unpolled
    · rw [eq]
      exact deletes w past

theorem Fine.refuses {stage : Destroy} (fine : Fine s i) (here : s.accept = .destroying i stage) (loop : s'.loop = s.loop)
    (polled : i ∈ s'.polled → i ∈ s.polled) (deleteLater : i ∈ s'.deleteLater → i ∈ s.deleteLater)
    (after : s'.accept = .idle ∧ i ∉ s'.sessions ∨
      ∃ stage, s'.accept = .destroying i stage ∧ stage ≠ .mark ∧ (s'.object i).life = .deleting ∧
        (stage = .remove ∨ stage = .close → i ∉ s'.sessions)) : Fine s' i := by
  obtain ⟨unpolled, kept, idle⟩ := fine.held (by rw [here]; rfl)
  obtain ⟨unused, -⟩ := fine.refused stage here
  rw [← loop] at idle unused
  have deletes (w : Destroy) (past : w ≠ .mark) : (Accept.destroying i w).deletes = some i := by
    cases w <;> simp_all [Accept.deletes]
  refine ⟨fun mem => absurd mem unused, fun eq => absurd eq idle, fun eq => absurd (working_of_deletes eq) idle,
    fun mem => absurd (polled mem) unpolled, fun mem => .inr ?_, fun mem => absurd (deleteLater mem) kept, ?_, ?_,
    fun _ => ⟨fun mem => unpolled (polled mem), fun mem => kept (deleteLater mem), idle⟩, ?_, ?_⟩
  · obtain ⟨-, gone⟩ | ⟨w, eq, past, -⟩ := after
    · exact absurd mem gone
    · rw [eq]
      exact deletes w past
  -- it is in no list of `delete_later`: the loop thread is not in it, and does not go to it
  · rintro (mem | mem)
    · exact absurd (deleteLater mem) kept
    · refine absurd mem ?_
      unfold Loop.doomed
      split
      case h_1 todo eq => simpa [eq, Loop.uses, Loop.current, Phase.uses, Phase.todo] using unused
      case h_2 k w todo eq =>
        simp only [eq, Loop.uses, Loop.current, Option.elim_some, Phase.uses, Phase.todo] at unused
        rw [List.mem_cons, not_or]
        exact ⟨fun same => idle (by rw [eq, same]; rfl), unused⟩
      case h_3 k _ _ eq | h_4 k _ _ eq =>
        rw [List.mem_singleton]
        exact fun same => idle (by rw [eq, same]; rfl)
      case h_5 => simp
  · intro fresh
    obtain ⟨eq, -⟩ | ⟨w, eq, -⟩ := after <;> rw [eq] at fresh <;> cases fresh
  · intro offered
    obtain ⟨eq, -⟩ | ⟨w, eq, -⟩ := after <;> rw [eq] at offered <;> cases offered
  · intro stage refused
    obtain ⟨eq, -⟩ | ⟨w, eq, past, life, gone⟩ := after
    · rw [eq] at refused
      cases refused
    · obtain rfl : w = stage := by simpa [eq] using refused
      exact ⟨unused, by rw [if_neg past, life], gone⟩

end Others

section Steps

variable {s s' : State} {i : Id} {work : Work} {p : Phase}

theorem touch_sound (sound : s.fault = false) (present : (s.object i).life ≠ .deleted) : (s.touch i).fault = false := by
  simp [State.touch, sound, present]

theorem Inside.intact (intact : Intact s) (here : s.loop = .inside i work p) (inside : Inside s i work p s')
    (sound : s'.fault = false) (own : Fine s' i) (collected : ∀ todo, p = .delete todo → s'.deleteLater = ∅) : Intact s' where
  sound := sound
  fine j := by
    by_cases same : j = i
    · exact same ▸ own
    · exact (intact.fine j).beside same here inside
  once := by
    have once := intact.once
    rw [here] at once
    cases p with
    | delete todo =>
      obtain eq | ⟨w, eq, -⟩ := inside.loop <;> rw [eq]
      · exact once.of_cons
      · exact once
    | _ =>
      obtain eq | ⟨w, eq, -⟩ := inside.loop <;> rw [eq]
      · exact List.nodup_nil
      · unfold Loop.doomed
        split <;> simp_all
  collected todo eq := by
    refine collected todo ?_
    obtain after | ⟨w, after, -⟩ := inside.loop <;> rw [after] at eq <;> exact Option.some.inj eq

theorem not_deleting_of_fits (fits : s.loop.fits) (here : s.loop = .inside i work p)
    (other : ∀ stage, work ≠ .destroying stage) : ∀ todo, p ≠ .delete todo := by
  rintro todo rfl
  rw [here] at fits
  cases work with
  | destroying stage => exact other stage rfl
  | leaving stage back =>
    cases back with
    | none => simp [Loop.fits, Work.fits] at fits
    | some call => cases call <;> simp [Loop.fits, Work.fits, Call.fits] at fits
  | running call | notifying _ call => cases call <;> simp [Loop.fits, Work.fits, Call.fits] at fits
  | found => simp [Loop.fits, Work.fits] at fits

theorem not_doomed {w : Work} (phases : ∀ todo, p ≠ .delete todo)
    (other : ∀ back, w ≠ .leaving .remove back ∧ w ≠ .leaving .insert back) : (Loop.inside i w p).doomed = [] := by
  unfold Loop.doomed
  split <;> simp_all

theorem working_alive (intact : Intact s) (here : s.loop = .inside i work p) (other : ∀ stage, work ≠ .destroying stage) :
    (s.object i).life = .alive := by
  refine (intact.fine i).working (by rw [here]; rfl) ?_
  rw [here]
  unfold Loop.deletes
  split
  · rintro ⟨⟩
  · rename_i stage _ _ eq
    cases eq
    exact absurd rfl (other stage)
  · rintro ⟨⟩

theorem leaveStep_intact {succeeds : Bool} {stage : Leave} {back : Option Call} (known : Known s) (intact : Intact s)
    (here : s.loop = .inside i (.leaving stage back) p)
    (taken : insideStep s i p succeeds (.leaving stage back) = some s') : Intact s' := by
  have alive := working_alive intact here (by rintro _ ⟨⟩)
  have present : (s.object i).life ≠ .deleted := by simp [alive]
  have inside := insideStep_inside taken
  have fine := intact.fine i
  have unregistered := fine.unregistered
  rw [here] at unregistered
  have phases := not_deleting_of_fits known.fits here (by rintro _ ⟨⟩)
  have none (todo : List Id) (eq : p = .delete todo) : s'.deleteLater = ∅ := absurd eq (phases todo)
  cases stage with
  | check =>
    simp only [insideStep, leaveStep, if_neg (show (s.object i).life ≠ .deleting by simp [alive]), Option.some.injEq] at taken
    subst taken
    refine inside.intact intact here (touch_sound intact.sound present) (fine.own known here inside alive ?_ ?_) none
    · exact .inr ⟨_, rfl, by rintro _ ⟨⟩⟩
    · rintro (mem | mem)
      · exact unregistered (.inl mem)
      · simp [not_doomed (i := i) phases (w := .leaving .erase back) (by simp)] at mem
  | erase =>
    cases taken
    refine inside.intact intact here (touch_sound intact.sound present) (fine.own known here inside alive ?_ ?_) none
    · exact .inr ⟨_, rfl, by rintro _ ⟨⟩⟩
    · exact fun _ => Finset.notMem_erase i s.sessions
  | remove =>
    cases taken
    refine inside.intact intact here (touch_sound intact.sound present) (fine.own known here inside alive ?_ ?_) none
    · exact .inr ⟨_, rfl, by rintro _ ⟨⟩⟩
    · exact fun _ => unregistered (.inr (by cases p <;> simp_all [Loop.doomed]))
  | insert =>
    have gone : i ∉ s.sessions := unregistered (.inr (by cases p <;> simp_all [Loop.doomed]))
    cases back with
    | some call =>
      cases taken
      refine inside.intact intact here intact.sound (fine.own known here inside alive ?_ ?_) none
      · exact .inr ⟨_, rfl, by rintro _ ⟨⟩⟩
      · exact fun _ => gone
    | none =>
      cases taken
      refine inside.intact intact here intact.sound (fine.own known here inside alive ?_ ?_) none
      · exact .inl rfl
      · exact fun _ => gone

theorem destroying_deletes {stage : Destroy} (known : Known s) (intact : Intact s)
    (here : s.loop = .inside i (.destroying stage) p) :
    ∃ todo, p = .delete todo ∧ i ∉ todo ∧ s.deleteLater = ∅ ∧ (stage ≠ .mark → (s.object i).life = .deleting) := by
  have fits := known.fits
  rw [here] at fits
  cases p with
  | delete todo =>
    have once := intact.once
    rw [here] at once
    refine ⟨todo, rfl, (List.nodup_cons.mp once).1, intact.collected todo (by rw [here]; rfl), fun past => ?_⟩
    refine (intact.fine i).dying ?_
    rw [here]
    cases stage <;> simp_all [Loop.deletes]
  | _ => simp [Loop.fits, Work.fits] at fits

theorem destroyStep_intact {succeeds : Bool} {stage : Destroy} (known : Known s) (intact : Intact s)
    (here : s.loop = .inside i (.destroying stage) p)
    (taken : insideStep s i p succeeds (.destroying stage) = some s') : Intact s' := by
  obtain ⟨todo, rfl, once, collected, dying⟩ := destroying_deletes known intact here
  have inside := insideStep_inside taken
  have fine := intact.fine i
  cases stage with
  | mark =>
    have alive : (s.object i).life = .alive := fine.working (by rw [here]; rfl) (by rw [here]; rintro ⟨⟩)
    cases taken
    refine inside.intact intact here (by simp [State.set, intact.sound, alive]) ?_ (fun _ _ => collected)
    exact fine.destroyed known here inside once collected (.inr ⟨_, rfl, by rintro ⟨⟩, by simp [State.set]⟩)
  | quitting =>
    simp only [insideStep, destroyStep] at taken
    split_ifs at taken <;> cases taken
    refine inside.intact intact here intact.sound ?_ (fun _ _ => collected)
    exact fine.destroyed known here inside once collected (.inr ⟨_, rfl, by rintro ⟨⟩, dying (by rintro ⟨⟩)⟩)
  | notifying notify =>
    simp only [insideStep, destroyStep, Option.map_some, Option.some.injEq, Option.elim_some] at taken
    subst taken
    refine inside.intact intact here intact.sound ?_ (fun _ _ => collected)
    refine fine.destroyed known here inside once collected (.inr ⟨_, rfl, ?_, dying (by rintro ⟨⟩)⟩)
    cases (notify.step s.earliestDeadline succeeds).2 <;> rintro ⟨⟩
  | erase =>
    cases taken
    refine inside.intact intact here intact.sound ?_ (fun _ _ => collected)
    refine fine.destroyed known here inside once collected (.inr ⟨_, rfl, ?_, dying (by rintro ⟨⟩)⟩)
    split_ifs <;> rintro ⟨⟩
  | remove =>
    cases taken
    refine inside.intact intact here intact.sound ?_ (fun _ _ => collected)
    exact fine.destroyed known here inside once collected (.inr ⟨_, rfl, by rintro ⟨⟩, dying (by rintro ⟨⟩)⟩)
  | close =>
    cases taken
    refine inside.intact intact here intact.sound ?_ (fun _ _ => collected)
    exact fine.destroyed known here inside once collected (.inl ⟨rfl, Finset.notMem_erase i s.polled⟩)

theorem insideStep_intact {succeeds : Bool} (known : Known s) (intact : Intact s) (here : s.loop = .inside i work p)
    (taken : insideStep s i p succeeds work = some s') : Intact s' := by
  have inside := insideStep_inside taken
  have fine := intact.fine i
  have unregistered := fine.unregistered
  cases work with
  | leaving stage back => exact leaveStep_intact known intact here taken
  | destroying stage => exact destroyStep_intact known intact here taken
  | found =>
    have alive := working_alive intact here (by rintro _ ⟨⟩)
    have phases := not_deleting_of_fits known.fits here (by rintro _ ⟨⟩)
    cases taken
    refine inside.intact intact here (touch_sound intact.sound (by simp [alive])) ?_ (fun todo eq => absurd eq (phases todo))
    refine fine.own known here inside alive (.inr ⟨_, rfl, ?_⟩) ?_
    · split_ifs <;> rintro _ ⟨⟩
    · rintro (mem | mem)
      · exact unregistered (.inl mem)
      · refine absurd mem ?_
        dsimp only [State.call]
        rw [not_doomed phases]
        · exact List.not_mem_nil
        · split_ifs <;> simp
  | notifying notify call =>
    have alive := working_alive intact here (by rintro _ ⟨⟩)
    have phases := not_deleting_of_fits known.fits here (by rintro _ ⟨⟩)
    simp only [insideStep, Option.some.injEq] at taken
    subst taken
    refine inside.intact intact here intact.sound ?_ (fun todo eq => absurd eq (phases todo))
    refine fine.own known here inside alive (.inr ⟨_, rfl, ?_⟩) ?_
    · cases (notify.step s.earliestDeadline succeeds).2 <;> rintro _ ⟨⟩
    · rintro (mem | mem)
      · exact unregistered (.inl mem)
      · refine absurd mem ?_
        dsimp only
        rw [not_doomed phases]
        · exact List.not_mem_nil
        · cases (notify.step s.earliestDeadline succeeds).2 <;> simp
  | running call =>
    have alive := working_alive intact here (by rintro _ ⟨⟩)
    have phases := not_deleting_of_fits known.fits here (by rintro _ ⟨⟩)
    obtain ⟨rfl, -⟩ | rfl := returnStep_eq taken
    · refine inside.intact intact here intact.sound ?_ (fun todo eq => absurd eq (phases todo))
      refine fine.own known here inside alive (.inl rfl) ?_
      rintro (mem | mem)
      · exact unregistered (.inl mem)
      · cases p <;> simp_all [Loop.doomed]
    · refine inside.intact intact here intact.sound ?_ (fun todo eq => absurd eq (phases todo))
      refine fine.own known here inside alive (.inr ⟨_, rfl, by rintro _ ⟨⟩⟩) ?_
      rintro (mem | mem)
      · exact unregistered (.inl mem)
      · simp [not_doomed phases] at mem

theorem act_spec {action : Action} {notify : Option Notify} (done : act s i action = some (s', notify)) :
    s'.fault = (s.touch i).fault ∧ (s'.object i).life = (s.object i).life ∧ s'.sessions = s.sessions ∧
      s'.deleteLater = s.deleteLater ∧ ((s.object i).stream ≠ none → (s'.object i).stream ≠ none) := by
  cases action
  all_goals
    simp only [act] at done
    split_ifs at done
    cases done
    exact ⟨rfl, by simp [State.set], rfl, rfl, by simp [State.set]⟩

theorem loopAct_intact {action : Action} (known : Known s) (intact : Intact s) (taken : loopAct s action = some s') : Intact s' := by
  obtain ⟨i, work, p, t, notify, w, here, done, acts, rfl⟩ := loopAct_eq taken
  obtain ⟨fault, life, sessions, deleteLater, stream⟩ := act_spec done
  have inside := act_inside p done acts
  have fine := intact.fine i
  obtain ⟨call, rfl, rfl⟩ | ⟨rfl, rfl⟩ := acts
  · have alive := working_alive intact here (by rintro _ ⟨⟩)
    have phases := not_deleting_of_fits known.fits here (by rintro _ ⟨⟩)
    refine inside.intact intact here (fault.trans (touch_sound intact.sound (by simp [alive]))) ?_
      (fun todo eq => absurd eq (phases todo))
    refine fine.own known here inside (life.trans alive) (.inr ⟨_, rfl, ?_⟩) ?_
    · cases notify <;> rintro _ ⟨⟩
    · dsimp only
      rw [sessions, deleteLater]
      rintro (mem | mem)
      · exact fine.unregistered (.inl mem)
      · refine absurd mem ?_
        rw [not_doomed phases]
        · exact List.not_mem_nil
        · cases notify <;> simp
  · obtain ⟨todo, rfl, once, collected, dying⟩ := destroying_deletes known intact here
    have collected := deleteLater.trans collected
    have dying := dying (by rintro ⟨⟩)
    refine inside.intact intact here (fault.trans (touch_sound intact.sound (by simp [dying]))) ?_ (fun _ _ => collected)
    refine fine.destroyed known here inside once collected (.inr ⟨_, rfl, ?_, life.trans dying⟩)
    cases notify <;> rintro ⟨⟩

theorem giveUp_intact (known : Known s) (intact : Intact s) (taken : step s .giveUp = some s') : Intact s' := by
  obtain ⟨i, work, p, here, inside⟩ := giveUp_inside taken
  have fine := intact.fine i
  simp only [step, here] at taken
  split at taken
  next j call q eq =>
    obtain ⟨rfl, rfl, rfl⟩ : i = j ∧ work = .running call ∧ p = q := by simpa using eq
    have alive := working_alive intact here (by rintro _ ⟨⟩)
    have phases := not_deleting_of_fits known.fits here (by rintro _ ⟨⟩)
    split_ifs at taken
    cases taken
    refine inside.intact intact here intact.sound ?_ (fun todo eq => absurd eq (phases todo))
    refine fine.own known here inside alive (.inr ⟨_, rfl, by rintro _ ⟨⟩⟩) ?_
    rintro (mem | mem)
    · exact fine.unregistered (.inl mem)
    · simp [not_doomed phases] at mem
  next => cases taken

theorem uses_not_held (fine : Fine s i) (mem : i ∈ s.loop.uses)
    (other : ∀ todo earliest now, s.loop.current ≠ some (.scan todo earliest now)) : s.accept.held ≠ some i := by
  intro held
  cases here : s.accept with
  | inserted j =>
    obtain rfl : j = i := by simpa [here, Accept.held] using held
    obtain ⟨todo, earliest, now, scan⟩ := (fine.offered here).2.2 mem
    exact other todo earliest now scan
  | destroying j stage =>
    obtain rfl : j = i := by simpa [here, Accept.held] using held
    exact (fine.refused stage here).1 mem
  | _ => simp [here, Accept.held] at held

theorem idle_lists {loop : Loop} (idle : loop.current = none) :
    loop.uses = [] ∧ loop.working = none ∧ loop.deletes = none ∧ loop.doomed = [] := by
  cases loop <;> simp_all [Loop.current, Loop.uses, Loop.working, Loop.deletes, Loop.doomed]

theorem phaseStep_intact {clock : Time} {order : List Id} {succeeds : Bool} (intact : Intact s) (here : s.loop = .phase p)
    (away : KeepsAway s (.loop clock order succeeds)) (unmet : Unmet s (.loop clock order succeeds)) :
    Intact (phaseStep s p) := by
  have used (j : Id) : j ∈ p.uses → (s.object j).life = .alive := by
    have alive := (intact.fine j).uses
    rwa [here] at alive
  have free (j : Id) (mem : j ∈ p.uses) (other : ∀ todo earliest now, p ≠ .scan todo earliest now) :
      s.accept.held ≠ some j := by
    refine uses_not_held (intact.fine j) (by rw [here]; exact mem) ?_
    rw [here]
    exact fun todo earliest now eq => other todo earliest now (Option.some.inj eq)
  have goes (fault : Bool) (loop : Loop) (sound : fault = false) (idle : loop.deletes = none)
      (uses : ∀ j ∈ loop.uses, j ∈ p.uses ∧ ((∃ todo earliest now, p = .scan todo earliest now) →
        ∃ todo earliest now, loop.current = some (.scan todo earliest now)))
      (working : ∀ j, loop.working = some j → (s.object j).life = .alive ∧ s.accept.held ≠ some j)
      (doomed : loop.doomed = [] ∨ loop.doomed = s.loop.doomed)
      (collected : ∀ todo, loop.current = some (.delete todo) → s.deleteLater = ∅) :
      Intact { s with fault := fault, loop := loop } := by
    refine ⟨sound, fun j => ?_, ?_, collected⟩
    · refine (intact.fine j).goes (by rw [here]; rfl) rfl rfl rfl rfl subset_rfl idle (fun mem => ?_) (working j) (fun mem => ?_)
      · obtain ⟨mem, scans⟩ := uses j mem
        have before : j ∈ s.loop.uses := by rw [here]; exact mem
        refine ⟨used j mem, fun stage refused => ((intact.fine j).refused stage refused).1 before, fun offered => ?_⟩
        obtain ⟨todo, earliest, now, scan⟩ := ((intact.fine j).offered offered).2.2 before
        rw [here] at scan
        exact scans ⟨todo, earliest, now, Option.some.inj scan⟩
      · dsimp only at mem
        obtain none | same := doomed
        · simp [none] at mem
        · exact (intact.fine j).unregistered (.inr (same ▸ mem))
    · obtain none | same := doomed
      · simp [none]
      · exact same ▸ intact.once
  -- out of the loop over the sessions
  have leaves (loop : Loop) (idle : loop.current = none) : Intact { s with loop := loop } := by
    obtain ⟨uses, working, deletes, doomed⟩ := idle_lists idle
    exact goes _ _ intact.sound deletes (by simp [uses]) (by simp [working]) (.inl doomed) (by simp [idle])
  have calls (i : Id) (call : Call) (q : Phase) (resumes : Bool) (other : ∀ todo, q ≠ .delete todo) :
      (Loop.inside i (if resumes then .running call else .leaving .check none) q).deletes = none ∧
        (Loop.inside i (if resumes then .running call else .leaving .check none) q).doomed = [] := by
    refine ⟨?_, not_doomed other ?_⟩ <;> split_ifs <;> simp [Loop.deletes]
  fun_cases phaseStep s p
  case case1 wokeup =>
    cases wokeup <;> exact leaves _ rfl
  case case2 i events todo wokeup =>
    have started := (calls i (.processEvents events) (.dispatch todo wokeup) · (by rintro _ ⟨⟩))
    have alive := used i List.mem_cons_self
    refine goes _ _ (touch_sound intact.sound (by simp [alive])) (started _).1
      (fun j mem => ⟨List.mem_cons_of_mem _ mem, by rintro ⟨_, _, _, ⟨⟩⟩⟩) ?_ (.inl (started _).2) (by rintro _ ⟨⟩)
    rintro j ⟨⟩
    exact ⟨alive, free _ List.mem_cons_self (by rintro _ _ _ ⟨⟩)⟩
  case case3 => exact leaves _ rfl
  case case4 i todo =>
    split_ifs with registered
    · refine goes _ _ intact.sound rfl (by rintro _ ⟨⟩) ?_ (.inl rfl) (by rintro _ ⟨⟩)
      rintro j ⟨⟩
      -- the session is not one that the accept thread is about to delete
      have kept (stage : Destroy) : s.accept ≠ .destroying i stage :=
        fun refused => (away.2 i stage refused registered).2 todo here
      refine ⟨((intact.fine i).registered registered).resolve_right fun deletes => ?_, fun held => ?_⟩
      · unfold Accept.deletes at deletes
        split at deletes <;> cases deletes
        exact kept _ ‹_›
      · cases offered : s.accept with
        | inserted j =>
          obtain rfl : j = i := by simpa [offered, Accept.held] using held
          exact unmet j todo offered here
        | destroying j stage =>
          obtain rfl : j = i := by simpa [offered, Accept.held] using held
          exact kept stage offered
        | _ => simp [offered, Accept.held] at held
    · exact goes _ _ intact.sound rfl (by rintro _ ⟨⟩) (by rintro _ ⟨⟩) (.inl rfl) (by rintro _ ⟨⟩)
  case case5 earliest now =>
    cases notifyDeadline earliest <;> exact leaves _ rfl
  case case6 i todo earliest now none _ =>
    have alive := used i List.mem_cons_self
    exact goes _ _ (touch_sound intact.sound (by simp [alive])) rfl
      (fun j mem => ⟨List.mem_cons_of_mem _ mem, fun _ => ⟨_, _, _, rfl⟩⟩) (by rintro _ ⟨⟩) (.inl rfl)
      (by rintro _ ⟨⟩)
  case case7 i todo earliest now some due =>
    have started := (calls i .timeout (.scan todo earliest now) · (by rintro _ ⟨⟩))
    have alive := used i List.mem_cons_self
    refine goes _ _ (touch_sound (touch_sound intact.sound (by simp [alive])) (by simp [State.touch, alive]))
      (started _).1 (fun j mem => ⟨List.mem_cons_of_mem _ mem, fun _ => ⟨_, _, _, rfl⟩⟩) ?_
      (.inl (started _).2) (by rintro _ ⟨⟩)
    rintro j ⟨⟩
    refine ⟨alive, fun held => ?_⟩
    cases offered : s.accept with
    | inserted j =>
      obtain rfl : j = i := by simpa [offered, Accept.held] using held
      obtain none | later := away.1 j todo earliest now offered here
      · exact some none
      · exact later.not_ge due
    | destroying j stage =>
      obtain rfl : j = i := by simpa [offered, Accept.held] using held
      exact ((intact.fine j).refused stage offered).1 (by rw [here]; exact List.mem_cons_self)
    | _ => simp [offered, Accept.held] at held
  case case8 i todo earliest now some later _ =>
    have alive := used i List.mem_cons_self
    exact goes _ _ (touch_sound intact.sound (by simp [alive])) rfl
      (fun j mem => ⟨List.mem_cons_of_mem _ mem, fun _ => ⟨_, _, _, rfl⟩⟩) (by rintro _ ⟨⟩) (.inl rfl)
      (by rintro _ ⟨⟩)
  case case9 => exact leaves _ rfl
  case case10 i todo =>
    refine goes _ _ intact.sound rfl (fun j mem => ⟨List.mem_cons_of_mem _ mem, by rintro ⟨_, _, _, ⟨⟩⟩⟩) ?_
      (.inr (by rw [here]; rfl)) ?_
    · rintro j ⟨⟩
      exact ⟨used i List.mem_cons_self, free i List.mem_cons_self (by rintro _ _ _ ⟨⟩)⟩
    · exact fun _ _ => intact.collected (i :: todo) (by rw [here]; rfl)

theorem loopStep_intact {clock : Time} {order : List Id} {succeeds : Bool} (known : Known s) (intact : Intact s)
    (away : KeepsAway s (.loop clock order succeeds)) (unmet : Unmet s (.loop clock order succeeds))
    (taken : loopStep s clock order succeeds = some s') : Intact s' := by
  cases here : s.loop with
  | phase p =>
    simp only [loopStep, here, Option.some.injEq] at taken
    exact taken ▸ phaseStep_intact intact here away unmet
  | inside i work p =>
    simp only [loopStep, here] at taken
    exact insideStep_intact known intact here taken
  | swap =>
    simp only [loopStep, here, Option.ite_none_right_eq_some, Option.some.injEq] at taken
    obtain ⟨-, rfl⟩ := taken
    refine ⟨intact.sound, fun j => ?_, List.nodup_nil, by rintro _ ⟨⟩⟩
    exact (intact.fine j).goes (by rw [here]; rfl) rfl rfl rfl rfl subset_rfl rfl (by rintro ⟨⟩) (by rintro ⟨⟩)
      (by rintro ⟨⟩)
  | snapshot now =>
    simp only [loopStep, here, Option.ite_none_right_eq_some, Option.some.injEq] at taken
    obtain ⟨⟨-, all⟩, rfl⟩ := taken
    refine ⟨intact.sound, fun j => ?_, List.nodup_nil, by rintro _ ⟨⟩⟩
    refine (intact.fine j).goes (by rw [here]; rfl) rfl rfl rfl rfl subset_rfl rfl (fun mem => ?_) (by rintro ⟨⟩)
      (by rintro ⟨⟩)
    have registered : j ∈ s.sessions := all ▸ List.mem_toFinset.mpr mem
    have kept (stage : Destroy) : s.accept ≠ .destroying j stage :=
      fun refused => (away.2 j stage refused registered).1 now here
    refine ⟨((intact.fine j).registered registered).resolve_right fun deletes => ?_, kept, fun _ => ⟨_, _, _, rfl⟩⟩
    unfold Accept.deletes at deletes
    split at deletes <;> cases deletes
    exact kept _ ‹_›
  | collect =>
    simp only [loopStep, here, Option.ite_none_right_eq_some, Option.some.injEq] at taken
    obtain ⟨⟨once, all⟩, rfl⟩ := taken
    have doomed (j : Id) (mem : j ∈ order) : j ∈ s.deleteLater := all ▸ List.mem_toFinset.mpr mem
    refine ⟨intact.sound, fun j => ?_, once, fun _ _ => rfl⟩
    refine (intact.fine j).goes (by rw [here]; rfl) rfl rfl rfl rfl (Finset.empty_subset _) rfl (fun mem => ?_) (by rintro ⟨⟩)
      (fun mem => (intact.fine j).unregistered (.inl (doomed j mem)))
    have mem := doomed j mem
    refine ⟨(intact.fine j).doomed mem, fun stage refused => ?_, fun offered => ?_⟩
    · exact ((intact.fine j).held (by rw [refused]; rfl)).2.1 mem
    · exact absurd mem ((intact.fine j).held (by rw [offered]; rfl)).2.1
  | _ =>
    obtain ⟨edge, earliest, wait, loop, after, -, rfl⟩ := plainStep_eq (by rw [here]; rfl) (by rw [here]; rfl) taken
    obtain ⟨uses, working, deletes, doomed⟩ := idle_lists after
    refine ⟨intact.sound, fun j => ?_, by simp [doomed], by simp [after]⟩
    refine (intact.fine j).goes (by rw [here]; rfl) rfl rfl rfl rfl subset_rfl deletes ?_ ?_ ?_ <;>
      simp [uses, working, doomed]

theorem waitStep_intact {events : List (Id × Events)} {wokeup : Bool} (intact : Intact s)
    (taken : waitStep s events wokeup = some s') : Intact s' := by
  simp only [waitStep, Option.ite_none_right_eq_some, Option.some.injEq] at taken
  obtain ⟨⟨here, -, polled, -⟩, rfl⟩ := taken
  have alive (j : Id) (mem : j ∈ s.polled) : (s.object j).life = .alive :=
    ((intact.fine j).polled mem).resolve_right (by rw [here]; rintro ⟨⟩)
  refine ⟨?_, fun j => ?_, List.nodup_nil, by rintro _ ⟨⟩⟩
  · simp only [intact.sound, Bool.false_or, List.any_eq_false, beq_iff_eq]
    intro event mem
    rw [alive event.1 (polled event mem)]
    rintro ⟨⟩
  · refine (intact.fine j).goes (by rw [here]; rfl) rfl rfl rfl rfl subset_rfl rfl (fun mem => ?_) (by rintro ⟨⟩)
      (by rintro ⟨⟩)
    obtain ⟨event, listed, rfl⟩ := List.mem_map.mp mem
    have mem := polled event listed
    refine ⟨alive _ mem, fun stage refused => ?_, fun offered => ?_⟩
    · exact ((intact.fine _).held (by rw [refused]; rfl)).1 mem
    · exact absurd mem ((intact.fine _).held (by rw [offered]; rfl)).1

theorem refers_of_doomed {j : Id} (mem : j ∈ s.loop.doomed) : Refers s j := by
  unfold Loop.doomed at mem
  split at mem
  case h_1 todo here => exact .todo (by rw [here]; exact mem)
  case h_2 k w todo here =>
    obtain rfl | mem := List.mem_cons.mp mem
    · exact .working (by rw [here]; rfl)
    · exact .todo (by rw [here]; exact mem)
  case h_3 k back p _ here | h_4 k back p _ here =>
    obtain rfl := List.mem_singleton.mp mem
    exact .working (by rw [here]; rfl)
  case h_5 => cases mem

theorem Fine.alone (alone : ¬ Refers s i) (loop : s'.loop = s.loop) (polled : s'.polled = s.polled)
    (deleteLater : s'.deleteLater = s.deleteLater) (alive : (s'.object i).life = .alive) (none : (s'.object i).stream = none)
    (kept : ∀ stage, s'.accept ≠ .destroying i stage) : Fine s' i := by
  have unused : i ∉ s'.loop.uses := fun mem => alone (.todo (todo_of_uses (loop ▸ mem)))
  have idle : s'.loop.working ≠ some i := fun eq => alone (.working (loop ▸ eq))
  have unpolled : i ∉ s'.polled := fun mem => alone (.polled (polled ▸ mem))
  have wanted : i ∉ s'.deleteLater := fun mem => alone (.deleteLater (deleteLater ▸ mem))
  refine ⟨fun _ => alive, fun _ _ => alive, fun eq => absurd (working_of_deletes eq) idle, fun _ => .inl alive,
    fun _ => .inl alive, fun _ => alive, fun gone => ?_, fun _ => alive, fun _ => ⟨unpolled, wanted, idle⟩,
    fun _ => ⟨alive, none, fun mem => absurd mem unused⟩, fun stage eq => absurd eq (kept stage)⟩
  exact (gone.elim wanted fun mem => alone (refers_of_doomed (loop ▸ mem))).elim

theorem Elsewhere.intact (intact : Intact s) (elsewhere : Elsewhere s s') (before : ∀ j, s.accept.session = some j → j = i)
    (after : ∀ j, s'.accept.session = some j → j = i) (object : ∀ j, j ≠ i → s'.object j = s.object j)
    (polled : s'.polled ⊆ insert i s.polled) (deleteLater : s'.deleteLater = s.deleteLater) (sound : s'.fault = false)
    (own : Fine s' i) : Intact s' where
  sound := sound
  fine j := by
    by_cases same : j = i
    · exact same ▸ own
    refine (intact.fine j).aside elsewhere.loop (object j same)
      (fun mem => Finset.mem_of_mem_insert_of_ne (polled mem) same) (fun mem => ?_) (fun mem => deleteLater ▸ mem)
      (fun eq => same (before j eq)) (fun eq => same (after j eq))
    exact (elsewhere.sessions j mem).resolve_right fun new => same (before j (by rw [new]; rfl))
  once := by
    rw [elsewhere.loop]
    exact intact.once
  collected := by
    rw [elsewhere.loop, deleteLater]
    exact intact.collected

theorem refuseStep_intact {succeeds : Bool} {stage : Destroy} {rest : Option Destroy} {t : State} (intact : Intact s)
    (here : s.accept = .destroying i stage) (done : destroyStep s i succeeds stage = some (t, rest))
    (elsewhere : Elsewhere s { t with accept := rest.elim .idle (.destroying i) }) :
    Intact { t with accept := rest.elim .idle (.destroying i) } := by
  have fine := intact.fine i
  have inner := destroyStep_inner done
  obtain ⟨unused, life, gone⟩ := fine.refused stage here
  have before (j : Id) (eq : s.accept.session = some j) : j = i := by
    simpa [here, Accept.session, eq_comm] using eq
  have after (j : Id) (eq : (rest.elim Accept.idle (.destroying i)).session = some j) : j = i := by
    cases rest <;> simp_all [Accept.session]
  have polled : t.polled ⊆ insert i s.polled := inner.polled.trans (Finset.subset_insert _ _)
  cases stage with
  | mark =>
    cases done
    refine elsewhere.intact intact before after inner.object polled rfl (by simp_all [State.set, intact.sound]) ?_
    refine fine.refuses here rfl id id (.inr ⟨_, rfl, by rintro ⟨⟩, by simp [State.set], by simp⟩)
  | quitting =>
    simp only [destroyStep] at done
    split_ifs at done
    cases done
    refine elsewhere.intact intact before after inner.object polled rfl intact.sound ?_
    exact fine.refuses here rfl id id (.inr ⟨_, rfl, by rintro ⟨⟩, life, by simp⟩)
  | notifying notify =>
    simp only [destroyStep, Option.some.injEq, Prod.mk.injEq] at done
    obtain ⟨rfl, rfl⟩ := done
    refine elsewhere.intact intact before after inner.object polled rfl intact.sound ?_
    refine fine.refuses here rfl id id (.inr ⟨_, rfl, ?_, life, ?_⟩) <;>
      cases (notify.step s.earliestDeadline succeeds).2 <;> simp
  | erase =>
    cases done
    refine elsewhere.intact intact before after inner.object polled rfl intact.sound ?_
    refine fine.refuses here rfl id id (.inr ⟨_, rfl, ?_, life, fun _ => Finset.notMem_erase i s.sessions⟩)
    split_ifs <;> rintro ⟨⟩
  | remove =>
    cases done
    refine elsewhere.intact intact before after inner.object polled rfl intact.sound ?_
    exact fine.refuses here rfl (fun mem => inner.polled mem) id
      (.inr ⟨_, rfl, by rintro ⟨⟩, life, fun _ => gone (.inl rfl)⟩)
  | close =>
    cases done
    refine elsewhere.intact intact before after inner.object polled rfl intact.sound ?_
    exact fine.refuses here rfl (fun mem => inner.polled mem) id
      (.inl ⟨rfl, gone (.inr rfl)⟩)

theorem acceptStep_intact {deadline : Time} {succeeds : Bool} (known : Known s) (intact : Intact s)
    (away : KeepsAway s (.accept deadline succeeds)) (taken : acceptStep s deadline succeeds = some s') : Intact s' := by
  have elsewhere := acceptStep_elsewhere taken
  cases here : s.accept with
  | idle =>
    simp only [acceptStep, here, Option.ite_none_right_eq_some, Option.some.injEq] at taken
    obtain ⟨-, rfl⟩ := taken
    have new : ¬ Refers s s.created := fun referred => (known.created _ (known.refers _ referred)).false
    refine elsewhere.intact (i := s.created) intact (by simp [here, Accept.session]) ?_ ?_ (Finset.subset_insert _ _) rfl intact.sound
      (Fine.alone new rfl rfl rfl ?_ ?_ ?_)
    · cases notifyDeadline deadline <;> simp [Accept.session, eq_comm]
    · exact fun j other => Function.update_of_ne other _ _
    · simp [State.set]
    · simp [State.set]
    · cases notifyDeadline deadline <;> rintro _ ⟨⟩
  | notifying i notify =>
    simp only [acceptStep, here, Option.some.injEq] at taken
    subst taken
    have fresh : s.accept.fresh = some i := by rw [here]; rfl
    have new : ¬ Refers s i := fun referred => (known.fresh i fresh).1 (known.refers i referred)
    refine elsewhere.intact (i := i) intact (by simp [here, Accept.session, eq_comm]) ?_ (fun _ _ => rfl)
      (Finset.subset_insert _ _) rfl intact.sound
      (Fine.alone new rfl rfl rfl ((intact.fine i).fresh fresh) (not_not.mp fun started => new (.started started)) ?_)
    · cases (notify.step s.earliestDeadline succeeds).2 <;> simp [Accept.session, eq_comm]
    · cases (notify.step s.earliestDeadline succeeds).2 <;> rintro _ ⟨⟩
  | constructed i =>
    simp only [acceptStep, here, Option.some.injEq] at taken
    subst taken
    have fresh : s.accept.fresh = some i := by rw [here]; rfl
    have new : ¬ Refers s i := fun referred => (known.fresh i fresh).1 (known.refers i referred)
    exact elsewhere.intact (i := i) intact (by simp [here, Accept.session, eq_comm]) (by simp [Accept.session, eq_comm])
      (fun _ _ => rfl) (Finset.subset_insert _ _) rfl intact.sound
      (Fine.alone new rfl rfl rfl ((intact.fine i).fresh fresh) (not_not.mp fun started => new (.started started))
      (by rintro _ ⟨⟩))
  | inserted i =>
    have fine := intact.fine i
    obtain ⟨alive, none, scans⟩ := fine.offered here
    obtain ⟨unpolled, wanted, idle⟩ := fine.held (by rw [here]; rfl)
    have before (j : Id) (eq : s.accept.session = some j) : j = i := by
      simpa [here, Accept.session, eq_comm] using eq
    have sound := touch_sound intact.sound (i := i) (by simp [alive])
    cases succeeds with
    | true =>
      simp only [acceptStep, here, if_true, Option.some.injEq] at taken
      subst taken
      refine elsewhere.intact intact before (by simp [Accept.session]) (fun _ _ => rfl) subset_rfl rfl sound ?_
      exact ⟨fun _ => alive, fun _ _ => alive, fine.dying, fun _ => .inl alive, fun _ => .inl alive, fun _ => alive,
        fine.unregistered, by rintro ⟨⟩, by rintro ⟨⟩, by rintro ⟨⟩, by rintro _ ⟨⟩⟩
    | false =>
      simp only [acceptStep, here, Bool.false_eq_true, if_false, Option.some.injEq] at taken
      subst taken
      have unused : i ∉ s.loop.uses := by
        intro mem
        obtain ⟨todo, earliest, now, scan⟩ := scans mem
        obtain impossible | absent := away i todo earliest now here scan
        · cases impossible
        · simp [Loop.uses, scan, Phase.uses, Phase.todo] at mem
          exact absent mem
      refine elsewhere.intact intact before (by simp [Accept.session, eq_comm]) (fun _ _ => rfl) (Finset.subset_insert _ _) rfl
        sound ?_
      refine ⟨fun _ => alive, fun _ _ => alive, fine.dying, fun _ => .inl alive, fun _ => .inl alive, fun _ => alive,
        fine.unregistered, by rintro ⟨⟩, fun _ => ⟨unpolled, wanted, idle⟩, by rintro ⟨⟩, ?_⟩
      rintro stage ⟨⟩
      exact ⟨unused, alive, by simp⟩
  | destroying i stage =>
    simp only [acceptStep, here, Option.map_eq_some_iff, Prod.exists] at taken
    obtain ⟨t, rest, done, rfl⟩ := taken
    exact refuseStep_intact intact here done elsewhere

theorem acceptAct_intact {action : Action} (intact : Intact s) (taken : acceptAct s action = some s') : Intact s' := by
  have elsewhere := acceptAct_elsewhere taken
  unfold acceptAct at taken
  split at taken
  next i here =>
    simp only [Option.map_eq_some_iff, Prod.exists] at taken
    obtain ⟨t, notify, done, rfl⟩ := taken
    have inner := act_inner done
    obtain ⟨fault, life, sessions, deleteLater, stream⟩ := act_spec done
    have dying : (s.object i).life = .deleting := ((intact.fine i).refused _ here).2.1
    refine elsewhere.intact intact (by simp [here, Accept.session, eq_comm]) (by simp [Accept.session, eq_comm]) inner.object
      (inner.polled.trans (Finset.subset_insert _ _)) deleteLater
      (fault.trans (touch_sound intact.sound (by simp [dying]))) ?_
    refine (intact.fine i).refuses here inner.loop (fun mem => inner.polled mem) (fun mem => deleteLater ▸ mem)
      (.inr ⟨_, rfl, ?_, life.trans dying, ?_⟩) <;> cases notify <;> simp
  next => cases taken

theorem step_intact {input : Input} (known : Known s) (intact : Intact s) (away : KeepsAway s input)
    (unmet : Unmet s input) (taken : step s input = some s') : Intact s' := by
  cases input with
  | accept deadline succeeds => exact acceptStep_intact known intact away taken
  | acceptAct action => exact acceptAct_intact intact taken
  | wait events wokeup => exact waitStep_intact intact taken
  | loop clock order succeeds => exact loopStep_intact known intact away unmet taken
  | loopAct action => exact loopAct_intact known intact taken
  | giveUp => exact giveUp_intact known intact taken
  | insertWakeup thread i =>
    simp only [step, Option.ite_none_right_eq_some, Option.some.injEq] at taken
    obtain ⟨-, rfl⟩ := taken
    exact ⟨intact.sound, fun j => { intact.fine j with }, intact.once, intact.collected⟩
  | writeWakeup thread =>
    simp only [step, Option.ite_none_right_eq_some, Option.some.injEq] at taken
    obtain ⟨-, rfl⟩ := taken
    exact ⟨intact.sound, fun j => { intact.fine j with }, intact.once, intact.collected⟩
  | storeQuit | signal =>
    cases taken
    exact ⟨intact.sound, fun j => { intact.fine j with }, intact.once, intact.collected⟩

theorem destroyStep_stream {succeeds : Bool} {stage : Destroy} {rest : Option Destroy}
    (done : destroyStep s i succeeds stage = some (s', rest)) (j : Id) : (s'.object j).stream = (s.object j).stream := by
  have others := (destroyStep_inner done).object j
  by_cases same : j = i
  · subst same
    cases stage
    case quitting =>
      simp only [destroyStep] at done
      split_ifs at done
      cases done
      rfl
    all_goals
      cases done
      simp [State.set]
  · rw [others same]

theorem insideStep_stream {succeeds : Bool} (taken : insideStep s i p succeeds work = some s') (j : Id) :
    (s'.object j).stream = (s.object j).stream := by
  cases work with
  | found =>
    cases taken
    rfl
  | running call => obtain ⟨rfl, -⟩ | rfl := returnStep_eq taken <;> rfl
  | notifying notify call =>
    cases taken
    rfl
  | leaving stage back =>
    cases taken
    cases stage <;> rfl
  | destroying stage =>
    simp only [insideStep, Option.map_eq_some_iff, Prod.exists] at taken
    obtain ⟨t, rest, done, rfl⟩ := taken
    exact destroyStep_stream done j

theorem act_stream {action : Action} {notify : Option Notify} {j : Id} (done : act s i action = some (s', notify))
    (started : (s.object j).stream ≠ none) : (s'.object j).stream ≠ none := by
  by_cases same : j = i
  · subst same
    exact (act_spec done).2.2.2.2 started
  · rwa [(act_inner done).object j same]

theorem acceptStep_stream {deadline : Time} {succeeds : Bool} {j : Id} (known : Known s)
    (taken : acceptStep s deadline succeeds = some s') (started : (s.object j).stream ≠ none) :
    (s'.object j).stream ≠ none := by
  cases here : s.accept with
  | idle =>
    simp only [acceptStep, here, Option.ite_none_right_eq_some, Option.some.injEq] at taken
    obtain ⟨-, rfl⟩ := taken
    have old : j ≠ s.created := (known.created j (known.refers j (.started started))).ne
    simpa [State.set, old] using started
  | notifying i notify | constructed i =>
    simp only [acceptStep, here, Option.some.injEq] at taken
    subst taken
    exact started
  | inserted i =>
    simp only [acceptStep, here] at taken
    split_ifs at taken <;> cases taken <;> exact started
  | destroying i stage =>
    simp only [acceptStep, here, Option.map_eq_some_iff, Prod.exists] at taken
    obtain ⟨t, rest, done, rfl⟩ := taken
    dsimp only
    rwa [destroyStep_stream done j]

theorem step_started {input : Input} {j : Id} (known : Known s) (taken : step s input = some s')
    (started : (s.object j).stream ≠ none) : (s'.object j).stream ≠ none := by
  cases input with
  | accept deadline succeeds => exact acceptStep_stream known taken started
  | acceptAct action =>
    simp only [step, acceptAct] at taken
    split at taken
    next i here =>
      simp only [Option.map_eq_some_iff, Prod.exists] at taken
      obtain ⟨t, notify, done, rfl⟩ := taken
      have kept := act_stream done started
      exact kept
    next => cases taken
  | wait events wokeup =>
    simp only [step, waitStep, Option.ite_none_right_eq_some, Option.some.injEq] at taken
    obtain ⟨-, rfl⟩ := taken
    exact started
  | loop clock order succeeds =>
    have kept : (s'.object j).stream = (s.object j).stream := by
      cases here : s.loop with
      | phase p =>
        simp only [step, loopStep, here, Option.some.injEq] at taken
        obtain ⟨fault, loop, eq, -⟩ := phaseStep_eq (s := s) p
        rw [← taken, eq]
      | inside i work p =>
        simp only [step, loopStep, here] at taken
        exact insideStep_stream taken j
      | swap | snapshot | collect =>
        simp only [step, loopStep, here, Option.ite_none_right_eq_some, Option.some.injEq] at taken
        obtain ⟨-, rfl⟩ := taken
        rfl
      | _ =>
        obtain ⟨edge, earliest, wait, loop, -, -, rfl⟩ := plainStep_eq (by rw [here]; rfl) (by rw [here]; rfl) taken
        rfl
    rwa [kept]
  | loopAct action =>
    obtain ⟨i, work, p, t, notify, w, -, done, -, rfl⟩ := loopAct_eq taken
    have kept := act_stream done started
    exact kept
  | giveUp =>
    simp only [step] at taken
    split at taken
    next i call p here =>
      split_ifs at taken
      cases taken
      exact started
    next => cases taken
  | insertWakeup thread i | writeWakeup thread =>
    simp only [step, Option.ite_none_right_eq_some, Option.some.injEq] at taken
    obtain ⟨-, rfl⟩ := taken
    exact started
  | storeQuit | signal =>
    cases taken
    exact started

theorem insideStep_wakes {succeeds : Bool} {j : Id} (taken : insideStep s i p succeeds work = some s')
    (mem : j ∈ s'.loop.wakes) : j ∈ p.wakes := by
  have went : s'.loop = .phase p ∨ ∃ w, s'.loop = .inside i w p ∧ w ≠ .found := by
    cases work with
    | found =>
      cases taken
      refine .inr ⟨_, rfl, ?_⟩
      split_ifs <;> rintro ⟨⟩
    | running call =>
      obtain ⟨rfl, -⟩ | rfl := returnStep_eq taken
      · exact .inl rfl
      · exact .inr ⟨_, rfl, by rintro ⟨⟩⟩
    | notifying notify call =>
      simp only [insideStep, Option.some.injEq] at taken
      subst taken
      refine .inr ⟨_, rfl, ?_⟩
      cases (notify.step s.earliestDeadline succeeds).2 <;> rintro ⟨⟩
    | leaving stage back =>
      simp only [insideStep, Option.some.injEq] at taken
      subst taken
      cases (leaveStep s i succeeds stage).2 <;> cases back <;> simp
    | destroying stage =>
      simp only [insideStep, Option.map_eq_some_iff, Prod.exists] at taken
      obtain ⟨t, rest, done, rfl⟩ := taken
      cases rest <;> simp
  obtain eq | ⟨w, eq, other⟩ := went <;> rw [eq] at mem
  · exact mem
  · exact (wakes_of_inside mem).resolve_left fun found => other found.1

theorem phaseStep_wakes {j : Id} (mem : j ∈ (phaseStep s p).loop.wakes) : j ∈ p.wakes := by
  revert mem
  fun_cases phaseStep s p
  case case1 wokeup => cases wokeup <;> simp [Loop.wakes]
  case case4 i todo => split_ifs <;> simp_all [Loop.wakes, Phase.wakes]
  case case5 earliest now => cases notifyDeadline earliest <;> simp [Loop.wakes]
  case case2 | case7 =>
    dsimp only [State.call]
    split_ifs <;> simp [Loop.wakes, Phase.wakes]
  all_goals simp [Loop.wakes, Phase.wakes]

-- The only way into `m_wakeup_sessions` is `wakeup_session`.
theorem step_wakes {input : Input} {j : Id} (taken : step s input = some s') (mem : j ∈ s'.wakeups ∨ j ∈ s'.loop.wakes) :
    (j ∈ s.wakeups ∨ j ∈ s.loop.wakes) ∨ (s.object j).stream ≠ none := by
  cases input with
  | accept deadline succeeds =>
    have elsewhere := acceptStep_elsewhere taken
    rw [elsewhere.wakeups, elsewhere.loop] at mem
    exact .inl mem
  | acceptAct action =>
    have elsewhere := acceptAct_elsewhere taken
    rw [elsewhere.wakeups, elsewhere.loop] at mem
    exact .inl mem
  | wait events wokeup =>
    simp only [step, waitStep, Option.ite_none_right_eq_some, Option.some.injEq] at taken
    obtain ⟨-, rfl⟩ := taken
    exact .inl (.inl (mem.resolve_right (by rintro ⟨⟩)))
  | loop clock order succeeds =>
    cases here : s.loop with
    | phase p =>
      simp only [step, loopStep, here, Option.some.injEq] at taken
      subst taken
      refine .inl (mem.imp (fun mem => ?_) phaseStep_wakes)
      obtain ⟨fault, loop, eq, -⟩ := phaseStep_eq (s := s) p
      rwa [eq] at mem
    | inside i work p =>
      simp only [step, loopStep, here] at taken
      rw [(insideStep_inside taken).wakeups] at mem
      exact .inl (mem.imp_right fun mem => wakes_inside i work p j (insideStep_wakes taken mem))
    | swap =>
      simp only [step, loopStep, here, Option.ite_none_right_eq_some, Option.some.injEq] at taken
      obtain ⟨⟨-, all⟩, rfl⟩ := taken
      refine .inl (.inl (mem.elim (by simp) fun mem => all ▸ List.mem_toFinset.mpr mem))
    | snapshot | collect =>
      simp only [step, loopStep, here, Option.ite_none_right_eq_some, Option.some.injEq] at taken
      obtain ⟨-, rfl⟩ := taken
      exact .inl (.inl (mem.resolve_right (by rintro ⟨⟩)))
    | _ =>
      obtain ⟨edge, earliest, wait, loop, after, -, rfl⟩ := plainStep_eq (by rw [here]; rfl) (by rw [here]; rfl) taken
      exact .inl (.inl (mem.resolve_right (by simp [wakes_of_idle after])))
  | loopAct action =>
    obtain ⟨i, work, p, t, notify, w, here, done, acts, rfl⟩ := loopAct_eq taken
    have wakeups := (act_inner done).wakeups
    dsimp only at mem
    rw [wakeups] at mem
    refine .inl (mem.imp_right fun mem => ?_)
    have other : w ≠ .found := by
      obtain ⟨call, -, rfl⟩ | ⟨-, rfl⟩ := acts <;> cases notify <;> rintro ⟨⟩
    rw [here]
    exact wakes_after other mem
  | giveUp =>
    simp only [step] at taken
    split at taken
    next i call p here =>
      split_ifs at taken
      cases taken
      rw [here]
      exact .inl (mem.imp_right (wakes_after (by rintro ⟨⟩)))
    next => cases taken
  | insertWakeup thread i =>
    simp only [step, Option.ite_none_right_eq_some, Option.some.injEq] at taken
    obtain ⟨⟨-, started⟩, rfl⟩ := taken
    obtain mem | mem := mem
    · obtain rfl | mem := Finset.mem_insert.mp mem
      · exact .inr (Option.isSome_iff_ne_none.mp started)
      · exact .inl (.inl mem)
    · exact .inl (.inr mem)
  | writeWakeup thread =>
    simp only [step, Option.ite_none_right_eq_some, Option.some.injEq] at taken
    obtain ⟨-, rfl⟩ := taken
    exact .inl mem
  | storeQuit | signal =>
    cases taken
    exact .inl mem

theorem step_woken {input : Input} (known : Known s) (woken : Woken s) (taken : step s input = some s') : Woken s' :=
  fun j mem => step_started known taken ((step_wakes taken mem).elim (woken j) id)

-- A session that is offered to epoll has not been started: nobody has a wakeupper of it.
theorem Safe.unmet (safe : Safe s) (input : Input) : Unmet s input := by
  cases input with
  | loop clock order succeeds =>
    intro i todo offered here
    exact safe.woken i (.inr (by rw [here]; exact List.mem_cons_self)) ((safe.fine i).offered offered).2.1
  | _ => trivial

theorem step_safe {input : Input} (known : Known s) (safe : Safe s) (away : KeepsAway s input)
    (taken : step s input = some s') : Safe s' :=
  ⟨step_intact known safe.toIntact away (safe.unmet input) taken, step_woken known safe.woken taken⟩

theorem safe_start : Safe {} := by
  refine ⟨⟨rfl, fun j => ?_, List.nodup_nil, by rintro _ ⟨⟩⟩, fun j => by simp [Loop.wakes]⟩
  constructor <;> simp [Loop.uses, Loop.working, Loop.deletes, Loop.doomed, Loop.current, Accept.fresh, Accept.held]

end Steps

-- Stricter than keeping away: one thread rests while the other one is in the middle of something.
def State.apart (s : State) : Input → Bool
  | .accept _ succeeds => succeeds || s.loop.current.isNone
  | .loop _ _ _ => s.accept.held.isNone
  | _ => true

theorem keepsAway_of_apart {s : State} {input : Input} (checked : s.apart input) : KeepsAway s input := by
  cases input with
  | accept deadline succeeds =>
    intro i todo earliest now _ scan
    exact .inl (by simpa [State.apart, scan] using checked)
  | loop clock order succeeds =>
    refine ⟨fun i todo earliest now offered => ?_, fun i stage refused => ?_⟩
    · simp [State.apart, offered, Accept.held] at checked
    · simp [State.apart, refused, Accept.held] at checked
  | _ => trivial

theorem unmet_of_apart {s : State} {input : Input} (checked : s.apart input) : Unmet s input := by
  cases input with
  | loop clock order succeeds =>
    intro i todo offered
    simp [State.apart, offered, Accept.held] at checked
  | _ => trivial

end Dracon.SessionsEventLoop
