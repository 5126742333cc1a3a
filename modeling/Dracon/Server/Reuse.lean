import Dracon.Server.Lifetime

set_option autoImplicit false

namespace Dracon.SessionsEventLoop

open Shared

abbrev Address := Nat

-- The memory of a deleted session is given to a later one, and the sets and the wakeuppers know a session by its address.
structure Heap where
  state : State := {}
  address : Id → Address := fun _ => 0

namespace Heap

variable (h : Heap)

def Free (a : Address) : Prop := ∀ i < h.state.created, h.address i = a → (h.state.object i).life = .deleted

instance (a : Address) : Decidable (h.Free a) :=
  inferInstanceAs (Decidable (∀ i < h.state.created, h.address i = a → (h.state.object i).life = .deleted))

-- `m_sessions.find`
def lookup (i : Id) : Id :=
  if i ∈ h.state.sessions then i
  else ((List.range h.state.created).find? fun j => j ∈ h.state.sessions ∧ h.address j = h.address i).getD i

-- the loop thread looks a woken session up right before it wakes it
def found : State :=
  match h.state.loop with
  | .phase (.wake (i :: todo)) => { h.state with loop := .phase (.wake (h.lookup i :: todo)) }
  | _ => h.state

def seen : Input → State
  | .loop _ _ _ => h.found
  | _ => h.state

-- the address may be in the set already, inserted for another session that was there
def insertWakeup (thread : Nat) (i : Id) : Option State :=
  if ∃ j ∈ h.state.wakeups, h.address j = h.address i then
    (SessionsEventLoop.step h.state (.insertWakeup thread i)).map fun s => { s with wakeups := h.state.wakeups }
  else SessionsEventLoop.step h.state (.insertWakeup thread i)

-- the address of an input is the one that the allocator gives to a session that is made
def step (input : Input × Address) : Option Heap :=
  match input.1 with
  | .accept deadline succeeds =>
    if h.state.accept = .idle ∧ ¬ h.Free input.2 then none
    else (acceptStep h.state deadline succeeds).map fun s =>
      ⟨s, if h.state.accept = .idle then Function.update h.address h.state.created input.2 else h.address⟩
  | .insertWakeup thread i => (h.insertWakeup thread i).map fun s => ⟨s, h.address⟩
  | input => (SessionsEventLoop.step (h.seen input) input).map fun s => ⟨s, h.address⟩

-- The loop thread keeps away from a session that epoll does not have yet, and no wakeup finds one, be it that of an earlier
-- session at the same address.
def KeepsAway (input : Input × Address) : Prop :=
  SessionsEventLoop.KeepsAway (h.seen input.1) input.1 ∧ Unmet (h.seen input.1) input.1

end Heap

def addressedEventLoop : System Heap (Input × Address) := ⟨Heap.step⟩

section Steps

variable {h h' : Heap} {input : Input × Address}

theorem lookup_cases (i : Id) : h.lookup i = i ∨ h.lookup i ∈ h.state.sessions := by
  unfold Heap.lookup
  split_ifs with registered
  · exact .inl rfl
  · cases hit : (List.range h.state.created).find? fun j => j ∈ h.state.sessions ∧ h.address j = h.address i with
    | none => exact .inl rfl
    | some j =>
      have here := List.find?_some hit
      simp only [decide_eq_true_eq] at here
      exact .inr here.1

theorem found_eq : h.found = h.state ∨ ∃ i todo, h.state.loop = .phase (.wake (i :: todo)) ∧
    h.found = { h.state with loop := .phase (.wake (h.lookup i :: todo)) } := by
  unfold Heap.found
  split
  · exact .inr ⟨_, _, ‹_›, rfl⟩
  · exact .inl rfl

theorem found_known (known : Known h.state) : Known h.found := by
  obtain same | ⟨i, todo, here, eq⟩ := found_eq (h := h)
  · rwa [same]
  have keeps : Keeps h.state h.found := by
    rw [eq]
    refine { todo := fun j mem => ?_, working := by rintro _ ⟨⟩ }
    obtain rfl | mem := List.mem_cons.mp mem
    · obtain same | registered := lookup_cases (h := h) i
      · exact .todo (by rw [here, same]; exact List.mem_cons_self)
      · exact .sessions registered
    · exact .todo (by rw [here]; exact List.mem_cons_of_mem _ mem)
  refine ⟨fun j referred => ?_, ?_, ?_, ?_⟩
  · rw [keeps.inserted]
    exact known.refers j (keeps.refers referred)
  all_goals rw [eq]
  · exact known.created
  · exact known.fresh
  · rfl

theorem found_intact (intact : Intact h.state) : Intact h.found := by
  obtain same | ⟨i, todo, here, eq⟩ := found_eq (h := h)
  · rwa [same]
  rw [eq]
  refine ⟨intact.sound, fun j => ?_, List.nodup_nil, by rintro _ ⟨⟩⟩
  exact (intact.fine j).goes (by rw [here]; rfl) rfl rfl rfl rfl subset_rfl rfl (by rintro ⟨⟩) (by rintro ⟨⟩)
    (by rintro ⟨⟩)

theorem insertWakeup_cases {thread : Nat} {i : Id} {s : State} (taken : h.insertWakeup thread i = some s) :
    SessionsEventLoop.step h.state (.insertWakeup thread i) = some s ∨
      s = { h.state with writing := insert thread h.state.writing } := by
  unfold Heap.insertWakeup at taken
  split_ifs at taken
  · obtain ⟨t, done, rfl⟩ := Option.map_eq_some_iff.mp taken
    simp only [SessionsEventLoop.step, Option.ite_none_right_eq_some, Option.some.injEq] at done
    obtain ⟨-, rfl⟩ := done
    exact .inr rfl
  · exact .inl taken

theorem heap_step_cases (taken : h.step input = some h') :
    SessionsEventLoop.step (h.seen input.1) input.1 = some h'.state ∨
      ∃ thread, h'.state = { h.state with writing := insert thread h.state.writing } := by
  unfold Heap.step at taken
  split at taken
  next deadline succeeds eq =>
    obtain ⟨-, taken⟩ := Option.ite_none_left_eq_some.mp taken
    obtain ⟨s, done, rfl⟩ := Option.map_eq_some_iff.mp taken
    exact .inl (eq ▸ done)
  next thread i eq =>
    obtain ⟨s, done, rfl⟩ := Option.map_eq_some_iff.mp taken
    obtain done | eq' := insertWakeup_cases done
    · exact .inl (eq ▸ done)
    · exact .inr ⟨thread, eq'⟩
  next =>
    obtain ⟨s, done, rfl⟩ := Option.map_eq_some_iff.mp taken
    exact .inl done

theorem seen_kept (input : Input) (known : Known h.state) (intact : Intact h.state) :
    Known (h.seen input) ∧ Intact (h.seen input) := by
  cases input with
  | loop clock order succeeds => exact ⟨found_known known, found_intact intact⟩
  | _ => exact ⟨known, intact⟩

theorem writing_kept {s : State} (thread : Nat) (known : Known s) (intact : Intact s) :
    Known { s with writing := insert thread s.writing } ∧ Intact { s with writing := insert thread s.writing } := by
  have keeps : Keeps s { s with writing := insert thread s.writing } := {}
  exact ⟨⟨fun j referred => known.refers j (keeps.refers referred), known.created, known.fresh, known.fits⟩,
    intact.sound, fun j => { intact.fine j with }, intact.once, intact.collected⟩

theorem heap_step_kept (kept : Known h.state ∧ Intact h.state) (away : h.KeepsAway input)
    (taken : h.step input = some h') : Known h'.state ∧ Intact h'.state := by
  obtain ⟨known, intact⟩ := kept
  obtain done | ⟨thread, eq⟩ := heap_step_cases taken
  · obtain ⟨known, intact⟩ := seen_kept input.1 known intact
    exact ⟨step_known known done, step_intact known intact away.1 away.2 done⟩
  · rw [eq]
    exact writing_kept thread known intact

end Steps

/--
No operation is invoked on a deleted session and no session is deleted twice, in every run in which the loop thread keeps
away from the sessions that epoll does not have.
-/
theorem sessions_used_alive {inputs : List (Input × Address)} {h : Heap}
    (reached : addressedEventLoop.Reaches Heap.KeepsAway {} inputs h) : h.state.fault = false := by
  have kept := reached.invariant (P := fun _ h => Known h.state ∧ Intact h.state)
    ⟨known_start, safe_start.toIntact⟩ heap_step_kept
  exact kept.2.sound

def oneSession : List Input :=
  [.accept 0 true, .accept 0 true, .accept 0 true, .loop 0 [] true, .wait [(0, .io)] false, .loop 0 [] true,
    .loopAct .openStream, .loopAct .finish, .loop 0 [] false, .loop 0 [] true, .loop 0 [] true, .loop 0 [] true,
    .loop 0 [] true, .loop 0 [] true, .loop 0 [] true, .loop 0 [] true, .loop 0 [0] true, .loop 0 [] true,
    .loop 0 [] true, .loop 0 [] true, .loop 0 [] true, .loop 0 [] true, .loop 0 [] true]

-- The same address is given to a second session, which is woken up by a wakeupper of the first one.
theorem sessions_used_alive_reused :
    ∃ inputs h, addressedEventLoop.Reaches Heap.KeepsAway {} inputs h ∧ h.address 0 = h.address 1 ∧
      (h.state.object 0).life = .deleted ∧ 1 ∈ h.state.resumed ∧ h.state.fault = false := by
  let inputs : List Input := oneSession ++
    [.accept 0 true, .insertWakeup 0 0, .accept 0 true, .writeWakeup 0, .accept 0 true, .loop 0 [] true, .wait [] true,
      .loop 0 [] true, .loop 0 [] true, .loop 0 [0] true, .loop 0 [] true, .loop 0 [] true]
  let apart (h : Heap) (input : Input × Address) : Bool := (h.seen input.1).apart input.1
  have ran : ((addressedEventLoop.guarded apart).run {} (inputs.map (·, 7))).map
      (fun h => (h.address 0, h.address 1, (h.state.object 0).life, h.state.resumed)) = some (7, 7, .deleted, {1}) := by
    decide +kernel
  obtain ⟨h, ran, seen⟩ := Option.map_eq_some_iff.mp ran
  have reached : addressedEventLoop.Reaches Heap.KeepsAway {} (inputs.map (·, 7)) h :=
    System.reaches_of_guarded (fun h input checked => ⟨keepsAway_of_apart checked, unmet_of_apart checked⟩) ran
  obtain ⟨first, second, gone, resumed⟩ : h.address 0 = 7 ∧ h.address 1 = 7 ∧ (h.state.object 0).life = .deleted ∧
      h.state.resumed = {1} := by
    simpa using seen
  exact ⟨_, h, reached, first.trans second.symm, gone, by simp [resumed], sessions_used_alive reached⟩

def Accept.destroys : Accept → Bool
  | .destroying _ _ => true
  | _ => false

def Loop.scans : Loop → Bool
  | .phase (.scan _ _ _) => true
  | _ => false

-- no session is refused, and no deadline is due
def Heap.calm (h : Heap) (input : Input × Address) : Bool :=
  match input.1 with
  | .accept _ succeeds => succeeds
  | .loop _ _ _ => !h.state.accept.destroys && !h.state.loop.scans
  | _ => true

theorem keepsAway_of_calm {h : Heap} {input : Input × Address} (calm : h.calm input) : KeepsAway h.state input.1 := by
  unfold Heap.calm at calm
  split at calm
  next deadline succeeds eq =>
    rw [eq]
    exact fun _ _ _ _ _ _ => .inl calm
  next clock order succeeds eq =>
    rw [eq]
    refine ⟨fun i todo earliest now _ here => ?_, fun i stage here => ?_⟩ <;>
      simp [here, Accept.destroys, Loop.scans] at calm
  next other =>
    cases eq : input.1 <;> simp_all [KeepsAway]

/--
Three ways into a session that epoll does not have yet. Epoll refuses a session that a scan has in its snapshot: the scan asks
it for its deadline after it was deleted. A scan times the session out, or a wakeup of an earlier session at its address lets
it fail: the loop thread deletes it, and the accept thread asks it for its socket.
-/
theorem unregistered_session_used_deleted :
    (∃ inputs h, addressedEventLoop.Reaches (fun _ _ => True) {} inputs h ∧ (h.state.object 1).life = .deleted ∧
      h.state.loop.todo = [0] ∧ h.state.fault = true) ∧
    (∃ inputs h, addressedEventLoop.Reaches (fun _ _ => True) {} inputs h ∧ (h.state.object 0).life = .deleted ∧
      0 ∈ h.state.polled ∧ h.state.fault = true) ∧
    ∃ inputs h, addressedEventLoop.Reaches (fun h input => KeepsAway h.state input.1) {} inputs h ∧
      h.address 0 = h.address 1 ∧ (h.state.object 1).life = .deleted ∧ 1 ∈ h.state.polled ∧ h.state.fault = true := by
  let refused : List Input :=
    [.accept 5 true, .accept 0 true, .accept 0 true, .accept 0 true, .accept 0 true, .accept 100 true, .accept 0 true,
      .accept 0 true, .accept 0 true, .loop 0 [] true, .wait [] false, .loop 10 [] true, .loop 10 [] true,
      .loop 10 [] true, .loop 10 [1, 0] true, .accept 0 false, .accept 0 true, .acceptAct .finish, .accept 0 true,
      .accept 0 true, .accept 0 true, .accept 0 true, .loop 10 [] true]
  let early : List Input :=
    [.accept 5 true, .accept 0 true, .accept 0 true, .accept 0 true, .loop 0 [] true, .wait [] false, .loop 10 [] true,
      .loop 10 [] true, .loop 10 [] true, .loop 10 [0] true, .loop 10 [] true, .loopAct .finish, .loop 10 [] true,
      .loop 10 [] true, .loop 10 [] true, .loop 10 [] true, .loop 10 [] true, .loop 10 [] true, .loop 10 [] true,
      .loop 10 [] true, .loop 10 [] true, .loop 10 [0] true, .loop 10 [] true, .loop 10 [] true, .loop 10 [] true,
      .loop 10 [] true, .loop 10 [] true, .accept 0 true]
  let stale : List Input := oneSession ++
    [.insertWakeup 0 0, .writeWakeup 0, .accept 0 true, .accept 0 true, .loop 0 [] true, .wait [] true, .loop 0 [] true,
      .loop 0 [] true, .loop 0 [0] true, .loop 0 [] true, .loop 0 [] true, .loop 0 [] false, .loop 0 [] true,
      .loop 0 [] true, .loop 0 [] true, .loop 0 [] true, .loop 0 [] true, .loop 0 [] true, .loop 0 [] true,
      .loop 0 [1] true, .loop 0 [] true, .loop 0 [] true, .loopAct .finish, .loop 0 [] true, .loop 0 [] true,
      .loop 0 [] true, .accept 0 true]
  have first : (addressedEventLoop.run {} refused.zipIdx).map
      (fun h => ((h.state.object 1).life, h.state.loop.todo, h.state.fault)) = some (.deleted, [0], true) := by
    decide +kernel
  have second : (addressedEventLoop.run {} early.zipIdx).map
      (fun h => ((h.state.object 0).life, decide (0 ∈ h.state.polled), h.state.fault)) = some (.deleted, true, true) := by
    decide +kernel
  have third : ((addressedEventLoop.guarded Heap.calm).run {} (stale.map (·, 7))).map
      (fun h => (h.address 0, h.address 1, (h.state.object 1).life, decide (1 ∈ h.state.polled), h.state.fault)) =
      some (7, 7, .deleted, true, true) := by
    decide +kernel
  obtain ⟨h₁, ran₁, seen₁⟩ := Option.map_eq_some_iff.mp first
  obtain ⟨h₂, ran₂, seen₂⟩ := Option.map_eq_some_iff.mp second
  obtain ⟨h₃, ran₃, seen₃⟩ := Option.map_eq_some_iff.mp third
  obtain ⟨here, there, gone⟩ : h₃.address 0 = 7 ∧ h₃.address 1 = 7 ∧ (h₃.state.object 1).life = .deleted ∧
      1 ∈ h₃.state.polled ∧ h₃.state.fault = true := by
    simpa using seen₃
  exact ⟨⟨_, h₁, System.reaches_of_run ran₁, by simpa using seen₁⟩, ⟨_, h₂, System.reaches_of_run ran₂, by simpa using seen₂⟩,
    _, h₃, System.reaches_of_guarded (fun h input => keepsAway_of_calm) ran₃, here.trans there.symm, gone⟩

end Dracon.SessionsEventLoop
