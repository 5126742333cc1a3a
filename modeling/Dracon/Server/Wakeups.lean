import Dracon.Server.Custody

set_option autoImplicit false

namespace Dracon.SessionsEventLoop

open Shared

def Loop.received : Loop → Bool
  | .drain | .swap => true
  | .phase (.dispatch _ wokeup) | .inside _ _ (.dispatch _ wokeup) => wokeup
  | _ => false

def Phase.wakes : Phase → List Id
  | .wake todo => todo
  | _ => []

def Loop.wakes : Loop → List Id
  | .phase p => p.wakes
  | .inside i .found (.wake todo) => i :: todo
  | .inside _ _ p => p.wakes
  | _ => []

structure Announced (s : State) : Prop where
  pending : s.wakeups.Nonempty → s.writing.Nonempty ∨ s.edge ∨ s.loop.received
  resumed : ∀ i ∈ s.swapped, i ∈ s.sessions → i ∈ s.resumed ∨ i ∈ s.loop.wakes

section Steps

variable {s s' : State} {i : Id}

theorem wakes_of_gone {loop : Loop} (gone : ∀ todo, loop.current ≠ some (.wake todo)) : loop.wakes = [] := by
  fun_cases Loop.wakes loop <;> simp_all [Loop.current, Phase.wakes]

theorem wakes_of_idle {loop : Loop} (idle : loop.current = none) : loop.wakes = [] :=
  wakes_of_gone (by simp [idle])

theorem wakes_inside (i : Id) (work : Work) (p : Phase) : ∀ j ∈ p.wakes, j ∈ (Loop.inside i work p).wakes := by
  intro j mem
  cases work <;> cases p <;> simp_all [Loop.wakes, Phase.wakes]

theorem wakes_of_inside {i j : Id} {work : Work} {p : Phase} (mem : j ∈ (Loop.inside i work p).wakes) :
    work = .found ∧ j = i ∨ j ∈ p.wakes := by
  cases work <;> cases p <;> simp_all [Loop.wakes, Phase.wakes]

theorem Inside.announced {work : Work} {p : Phase} (announced : Announced s) (here : s.loop = .inside i work p)
    (inside : Inside s i work p s') : Announced s' := by
  refine ⟨fun some => ?_, fun j mem registered => ?_⟩
  · have same : s'.loop.received = s.loop.received := by
      obtain eq | ⟨w, eq, -⟩ := inside.loop <;> rw [eq, here] <;> cases p <;> rfl
    rw [inside.wakeups] at some
    rw [inside.writing, inside.edge, same]
    exact announced.pending some
  · rw [inside.swapped] at mem
    have kept : ∀ j ∈ p.wakes, j ∈ s'.loop.wakes := by
      obtain eq | ⟨w, eq, -⟩ := inside.loop <;> rw [eq]
      · exact fun _ => id
      · exact wakes_inside i w p
    obtain done | left := announced.resumed j mem (inside.sessions registered)
    · exact .inl (inside.resumed done)
    · rw [here] at left
      obtain ⟨found, rfl⟩ | left := wakes_of_inside left
      · exact .inl (inside.found found)
      · exact .inr (kept j left)

theorem phaseStep_announced {p : Phase} (announced : Announced s) (here : s.loop = .phase p) :
    Announced (phaseStep s p) := by
  obtain ⟨pending, resumed⟩ := announced
  rw [here] at pending resumed
  have quiet (fault : Bool) (loop : Loop) (kept : (Loop.phase p).received → loop.received) (none : p.wakes = []) :
      Announced { s with fault := fault, loop := loop } := by
    refine ⟨fun some => (pending some).imp_right (.imp_right kept), fun j mem registered => .inl ?_⟩
    exact (resumed j mem registered).resolve_right (by simp [Loop.wakes, none])
  fun_cases phaseStep s p
  case case1 wokeup => exact quiet _ _ (by cases wokeup <;> simp [Loop.received]) rfl
  case case4 i todo =>
    refine ⟨fun some => ?_, fun j mem registered => ?_⟩
    · exact (pending some).imp_right (.imp_right (by simp [Loop.received]))
    · obtain done | left := resumed j mem registered
      · exact .inl done
      · refine .inr ?_
        dsimp only
        split_ifs with found
        · exact left
        -- only a session that is not registered is skipped
        · exact (List.mem_cons.mp left).resolve_left fun same => found (same ▸ registered)
  case case2 i events todo wokeup => exact quiet _ _ id rfl
  all_goals exact quiet _ _ (by simp [Loop.received]) rfl

theorem loopStep_announced {clock : Time} {order : List Id} {succeeds : Bool} (announced : Announced s)
    (taken : loopStep s clock order succeeds = some s') : Announced s' := by
  obtain ⟨pending, resumed⟩ := announced
  -- outside of the phases there is nobody left to resume
  have settled (idle : s.loop.current = none) : ∀ j ∈ s.swapped, j ∈ s.sessions → j ∈ s.resumed := by
    intro j mem registered
    exact (resumed j mem registered).resolve_right (by simp [wakes_of_idle idle])
  cases here : s.loop with
  | phase p =>
    simp only [loopStep, here, Option.some.injEq] at taken
    exact taken ▸ phaseStep_announced ⟨pending, resumed⟩ here
  | inside i work p =>
    simp only [loopStep, here] at taken
    exact (insideStep_inside taken).announced ⟨pending, resumed⟩ here
  | swap =>
    simp only [loopStep, here, Option.ite_none_right_eq_some, Option.some.injEq] at taken
    obtain ⟨⟨-, all⟩, rfl⟩ := taken
    refine ⟨by simp, fun j mem _ => .inr ?_⟩
    exact List.mem_toFinset.mp (all ▸ mem)
  | drain =>
    simp only [loopStep, here, Option.some.injEq] at taken
    subst taken
    exact ⟨fun _ => .inr (.inr rfl), fun j mem registered => .inl (settled (by rw [here]; rfl) j mem registered)⟩
  | snapshot | collect =>
    simp only [loopStep, here, Option.ite_none_right_eq_some, Option.some.injEq] at taken
    obtain ⟨-, rfl⟩ := taken
    refine ⟨fun some => ?_, fun j mem registered => .inl (settled (by rw [here]; rfl) j mem registered)⟩
    simpa [here, Loop.received] using pending some
  | _ =>
    have idle : s.loop.current = none := by rw [here]; rfl
    obtain ⟨edge, earliest, wait, loop, after, event, rfl⟩ := plainStep_eq idle (by rw [here]; rfl) taken
    refine ⟨fun some => ?_, fun j mem registered => .inl (settled idle j mem registered)⟩
    obtain ⟨drained, -⟩ | ⟨-, rfl⟩ := event
    · rw [here] at drained
      cases drained
    · refine (pending some).imp_right (.imp_right fun received => ?_)
      rw [here] at received
      cases received

theorem waitStep_announced {events : List (Id × Events)} {wokeup : Bool} (announced : Announced s)
    (taken : waitStep s events wokeup = some s') : Announced s' := by
  simp only [waitStep, Option.ite_none_right_eq_some, Option.some.injEq] at taken
  obtain ⟨⟨here, -⟩, rfl⟩ := taken
  refine ⟨fun some => ?_, fun j mem registered => .inl ?_⟩
  · have before := announced.pending some
    rw [here] at before
    cases wokeup <;> simp_all [Loop.received]
  · exact (announced.resumed j mem registered).resolve_right (by simp [here, Loop.wakes])

theorem Elsewhere.announced (known : Known s) (announced : Announced s) (elsewhere : Elsewhere s s') : Announced s' := by
  refine ⟨?_, fun j mem registered => ?_⟩
  · rw [elsewhere.wakeups, elsewhere.writing, elsewhere.edge, elsewhere.loop]
    exact announced.pending
  · rw [elsewhere.swapped] at mem
    rw [elsewhere.resumed, elsewhere.loop]
    obtain old | new := elsewhere.sessions j registered
    · exact announced.resumed j mem old
    -- nobody could ask for a session that was not registered
    · exact absurd (known.refers j (.swapped mem)) (known.fresh j (by rw [new]; rfl)).1

theorem step_announced {input : Input} (known : Known s) (announced : Announced s) (taken : step s input = some s') :
    Announced s' := by
  cases input with
  | accept deadline succeeds => exact (acceptStep_elsewhere taken).announced known announced
  | acceptAct action => exact (acceptAct_elsewhere taken).announced known announced
  | wait events wokeup => exact waitStep_announced announced taken
  | loop clock order succeeds => exact loopStep_announced announced taken
  | loopAct action =>
    obtain ⟨i, work, p, here, inside⟩ := loopAct_inside taken
    exact inside.announced announced here
  | giveUp =>
    obtain ⟨i, work, p, here, inside⟩ := giveUp_inside taken
    exact inside.announced announced here
  | insertWakeup thread i =>
    simp only [step, Option.ite_none_right_eq_some, Option.some.injEq] at taken
    obtain ⟨-, rfl⟩ := taken
    exact ⟨fun _ => .inl ⟨thread, Finset.mem_insert_self _ _⟩, announced.resumed⟩
  | writeWakeup thread =>
    simp only [step, Option.ite_none_right_eq_some, Option.some.injEq] at taken
    obtain ⟨-, rfl⟩ := taken
    exact ⟨fun _ => .inr (.inl rfl), announced.resumed⟩
  | storeQuit =>
    cases taken
    exact ⟨announced.pending, announced.resumed⟩
  | signal =>
    cases taken
    exact ⟨fun _ => .inr (.inl rfl), announced.resumed⟩

end Steps

/-- A woken session is announced, and it is resumed after the swap unless it is not registered any more. -/
theorem wakeup_not_lost {inputs : List Input} {s : State}
    (reached : sessionsEventLoop.Reaches (fun _ _ => True) {} inputs s) :
    (s.wakeups.Nonempty → s.writing.Nonempty ∨ s.edge ∨ s.loop.received) ∧
      (∀ i ∈ s.swapped, i ∈ s.sessions → i ∈ s.resumed ∨ i ∈ s.loop.wakes) ∧
      ((∀ todo, s.loop.current ≠ some (.wake todo)) → ∀ i ∈ s.swapped, i ∈ s.sessions → i ∈ s.resumed) := by
  obtain ⟨-, pending, resumed⟩ := reached.invariant (P := fun _ s => Known s ∧ Announced s)
    ⟨known_start, by simp, by simp⟩
    (fun both _ taken => ⟨step_known both.1 taken, step_announced both.1 both.2 taken⟩)
  refine ⟨pending, resumed, fun gone i mem registered => (resumed i mem registered).resolve_right ?_⟩
  rw [wakes_of_gone gone]
  exact List.not_mem_nil

-- A session that is woken up twice: it is resumed for the first one, and the second one is not written yet.
theorem wakeup_not_lost_twice :
    ∃ inputs s, sessionsEventLoop.Reaches (fun _ _ => True) {} inputs s ∧ 0 ∈ s.wakeups ∧ 0 ∈ s.swapped ∧
      (s.writing.Nonempty ∨ s.edge ∨ s.loop.received) ∧ 0 ∈ s.resumed := by
  let inputs : List Input :=
    [.accept 0 true, .accept 0 true, .accept 0 true, .loop 0 [] true, .wait [(0, .io)] false, .loop 0 [] true,
      .loopAct .openStream, .insertWakeup 1 0, .loop 0 [] true, .loop 0 [] true, .writeWakeup 1, .loop 0 [] true,
      .loop 0 [] true, .loop 0 [] true, .loop 0 [] true, .loop 0 [] true, .wait [] true, .loop 0 [] true,
      .loop 0 [] true, .loop 0 [0] true, .loop 0 [] true, .loop 0 [] true, .loop 0 [] true, .insertWakeup 2 0,
      .loop 0 [] true]
  have ran : (sessionsEventLoop.run {} inputs).map (fun s => (s.sessions, s.wakeups, s.swapped, s.loop)) =
      some ({0}, {0}, {0}, .due) := by decide +kernel
  obtain ⟨s, ran, seen⟩ := Option.map_eq_some_iff.mp ran
  obtain ⟨registered, woken, swapped, gone⟩ : s.sessions = {0} ∧ s.wakeups = {0} ∧ s.swapped = {0} ∧ s.loop = .due := by
    simpa using seen
  have reached := System.reaches_of_run ran
  obtain ⟨pending, -, resumed⟩ := wakeup_not_lost reached
  refine ⟨inputs, s, reached, by simp [woken], by simp [swapped], pending (by simp [woken]), ?_⟩
  exact resumed (by simp [gone, Loop.current]) 0 (by simp [swapped]) (by simp [registered])

end Dracon.SessionsEventLoop
