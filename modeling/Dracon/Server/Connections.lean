import Mathlib
import Dracon.Shared.StepSystem

set_option autoImplicit false

namespace Dracon.Connections

open Shared

structure Session (Addr : Type) where
  id : Nat
  peerAddress : Addr
  order : UInt32
  deriving DecidableEq

inductive Stage where
  -- counted, and not allocated or inside the base constructor
  | counted
  -- the base constructor has finished
  | based
  -- the whole constructor has finished
  | constructed
  deriving DecidableEq

structure State (Addr : Type) where
  connectionsPerIp : Addr → Option UInt32 := fun _ => none
  activeSessions : List (Session Addr) := []
  peakSessions : Nat := 0
  creation : Option (Session Addr × Stage) := none
  created : Nat := 0
  -- `server_session_deleted` has not found the entry it decrements
  missing : Bool := false

variable {Addr : Type} [DecidableEq Addr]

-- `m_connections_per_ip[addr]`: an absent entry is created, with the value 0.
def count (s : State Addr) (addr : Addr) : UInt32 := (s.connectionsPerIp addr).getD 0

def refuses (maxConnectionsPerIp : UInt32) (s : State Addr) (addr : Addr) : Bool := count s addr ≥ maxConnectionsPerIp

def accept (maxConnectionsPerIp : UInt32) (s : State Addr) (addr : Addr) : State Addr :=
  if refuses maxConnectionsPerIp s addr then
    { s with connectionsPerIp := Function.update s.connectionsPerIp addr (some (count s addr)) }
  else
    { s with
      connectionsPerIp := Function.update s.connectionsPerIp addr (some (count s addr + 1))
      creation := some (⟨s.created, addr, count s addr⟩, .counted)
      created := s.created + 1 }

def serverSessionCreated (s : State Addr) (session : Session Addr) : State Addr :=
  { s with
    activeSessions := session :: s.activeSessions
    peakSessions := max s.peakSessions (s.activeSessions.length + 1) }

def serverSessionDeleted (s : State Addr) (session : Session Addr) : State Addr :=
  let s := { s with activeSessions := s.activeSessions.erase session }
  match s.connectionsPerIp session.peerAddress with
  | none => { s with missing := true }
  | some n =>
    { s with
      connectionsPerIp := Function.update s.connectionsPerIp session.peerAddress
        (if n - 1 = 0 then none else some (n - 1)) }

inductive Input (Addr : Type) where
  | accept (addr : Addr)
  -- the base constructor, or a throw before it has finished
  | construct (fails : Bool)
  -- the coroutine and the socket option
  | complete (fails : Bool)
  | register (fails : Bool)
  | delete (session : Session Addr)
  deriving DecidableEq

def step (maxConnectionsPerIp : UInt32) (s : State Addr) : Input Addr → Option (State Addr)
  | .accept addr => if s.creation = none then some (accept maxConnectionsPerIp s addr) else none
  | .construct fails =>
    match s.creation with
    | some (session, .counted) =>
      -- without an object no destructor runs: only the socket is closed
      if fails then some { s with creation := none }
      else some { serverSessionCreated s session with creation := some (session, .based) }
    | _ => none
  | .complete fails =>
    match s.creation with
    | some (session, .based) =>
      -- the destructor of the base runs
      if fails then some (serverSessionDeleted { s with creation := none } session)
      else some { s with creation := some (session, .constructed) }
    | _ => none
  | .register fails =>
    match s.creation with
    | some (session, .constructed) =>
      if fails then some (serverSessionDeleted { s with creation := none } session)
      else some { s with creation := none }
    | _ => none
  | .delete session =>
    if session ∈ s.activeSessions ∧ s.creation.map Prod.fst ≠ some session then
      some (serverSessionDeleted s session)
    else none

def connections (Addr : Type) [DecidableEq Addr] (maxConnectionsPerIp : UInt32) : System (State Addr) (Input Addr) :=
  ⟨step maxConnectionsPerIp⟩

-- counted in the accept loop, and not among the active sessions yet
def underway (creation : Option (Session Addr × Stage)) (addr : Addr) : Nat :=
  match creation with
  | some (session, .counted) => if session.peerAddress = addr then 1 else 0
  | _ => 0

def live (s : State Addr) (addr : Addr) : Nat :=
  s.activeSessions.countP (·.peerAddress = addr) + underway s.creation addr

structure Accounted (maxConnectionsPerIp : UInt32) (s : State Addr) : Prop where
  counted : ∀ addr, (count s addr).toNat = live s addr
  bounded : ∀ addr, live s addr ≤ maxConnectionsPerIp.toNat
  -- the object that is under construction is one of the active sessions from the base constructor on
  active : ∀ session stage, s.creation = some (session, stage) → stage ≠ .counted → session ∈ s.activeSessions
  found : s.missing = false

section Steps

variable {maxConnectionsPerIp : UInt32} {s s' : State Addr}

theorem accept_accounted (accounted : Accounted maxConnectionsPerIp s) (idle : s.creation = none) (addr : Addr) :
    Accounted maxConnectionsPerIp (accept maxConnectionsPerIp s addr) := by
  unfold accept
  split_ifs with refused
  · have same (other : Addr) : ((Function.update s.connectionsPerIp addr (some (count s addr))) other).getD 0 =
        count s other := by
      by_cases here : other = addr <;> simp [here, count]
    exact ⟨fun other => (congrArg UInt32.toNat (same other)).trans (accounted.counted other), accounted.bounded,
      accounted.active, accounted.found⟩
  · have room : (count s addr).toNat < maxConnectionsPerIp.toNat := by
      simpa [refuses, UInt32.le_iff_toNat_le] using refused
    have more : (count s addr + 1).toNat = (count s addr).toNat + 1 := by
      have := maxConnectionsPerIp.toNat_lt
      rw [UInt32.toNat_add]
      simp
      omega
    have before := accounted.counted addr
    refine ⟨fun other => ?_, fun other => ?_, by simp, accounted.found⟩
    · have there := accounted.counted other
      by_cases here : other = addr
      · simp_all [count, live, underway]
      · simp_all [count, live, underway, Ne.symm here]
    · have limit := accounted.bounded other
      by_cases here : other = addr
      · simp_all [live, underway]
      · simp_all [live, underway, Ne.symm here]

theorem deleted_accounted (accounted : Accounted maxConnectionsPerIp s) {session : Session Addr}
    (present : session ∈ s.activeSessions) (other : s.creation.map Prod.fst ≠ some session) :
    Accounted maxConnectionsPerIp (serverSessionDeleted s session) := by
  have one : 0 < s.activeSessions.countP (·.peerAddress = session.peerAddress) :=
    List.countP_pos_iff.mpr ⟨session, present, by simp⟩
  have before := accounted.counted session.peerAddress
  have positive : 0 < live s session.peerAddress := by
    unfold live
    omega
  have fewer (addr : Addr) : live { s with activeSessions := s.activeSessions.erase session } addr =
      live s addr - if session.peerAddress = addr then 1 else 0 := by
    unfold live
    rw [List.countP_erase]
    by_cases here : session.peerAddress = addr
    · subst here
      simp only [present, decide_true, and_self, if_true]
      omega
    · simp [here]
  cases entry : s.connectionsPerIp session.peerAddress with
  | none =>
    simp [count, entry] at before
    omega
  | some n =>
    have value : n.toNat = live s session.peerAddress := by simpa [count, entry] using before
    have less : (n - 1).toNat = n.toNat - 1 := by
      rw [UInt32.toNat_sub_of_le _ _ (by rw [UInt32.le_iff_toNat_le]; simp; omega)]
      rfl
    simp only [serverSessionDeleted, entry]
    refine ⟨fun addr => ?_, fun addr => ?_, ?_, accounted.found⟩
    · refine Eq.trans ?_ (fewer addr).symm
      by_cases here : addr = session.peerAddress
      · subst here
        by_cases last : n - 1 = 0
        · simp_all [count]
        · simp_all [count]
      · simpa [count, here, Ne.symm here] using accounted.counted addr
    · exact (fewer addr).trans_le ((Nat.sub_le _ _).trans (accounted.bounded addr))
    · intro creating stage under built
      refine (List.mem_erase_of_ne ?_).mpr (accounted.active creating stage under built)
      rintro rfl
      exact other (by simp [show s.creation = _ from under])

theorem settled_accounted (accounted : Accounted maxConnectionsPerIp s) {session : Session Addr} {stage : Stage}
    (under : s.creation = some (session, stage)) (built : stage ≠ .counted) :
    Accounted maxConnectionsPerIp { s with creation := none } ∧ session ∈ s.activeSessions := by
  have nothing (addr : Addr) : live { s with creation := none } addr = live s addr := by
    cases stage <;> simp_all [live, underway]
  refine ⟨⟨fun addr => ?_, fun addr => ?_, by simp, accounted.found⟩, accounted.active session stage under built⟩
  · rw [nothing]
    exact accounted.counted addr
  · rw [nothing]
    exact accounted.bounded addr

theorem created_accounted (accounted : Accounted maxConnectionsPerIp s) {session : Session Addr}
    (under : s.creation = some (session, .counted)) :
    Accounted maxConnectionsPerIp { serverSessionCreated s session with creation := some (session, .based) } := by
  have same (addr : Addr) :
      live { serverSessionCreated s session with creation := some (session, .based) } addr = live s addr := by
    simp only [live, underway, serverSessionCreated, under, List.countP_cons, decide_eq_true_eq]
    omega
  refine ⟨fun addr => ?_, fun addr => ?_, ?_, accounted.found⟩
  · rw [same]
    exact accounted.counted addr
  · rw [same]
    exact accounted.bounded addr
  · rintro creating stage under -
    obtain ⟨rfl, -⟩ : session = creating ∧ _ := by simpa using under
    simp [serverSessionCreated]

def BaseFinishes (_ : State Addr) (input : Input Addr) : Prop := input ≠ .construct true

theorem step_accounted {input : Input Addr} (accounted : Accounted maxConnectionsPerIp s) (finishes : BaseFinishes s input)
    (taken : step maxConnectionsPerIp s input = some s') : Accounted maxConnectionsPerIp s' := by
  cases input with
  | accept addr =>
    obtain ⟨idle, rfl⟩ : s.creation = none ∧ _ = s' := by simpa [step] using taken
    exact accept_accounted accounted idle addr
  | construct fails =>
    simp only [step] at taken
    split at taken
    · rename_i session under
      split_ifs at taken with failed
      · exact absurd (by rw [failed]) finishes
      · cases taken
        exact created_accounted accounted under
    · cases taken
  | complete fails =>
    simp only [step] at taken
    split at taken
    · rename_i session under
      obtain ⟨settled, present⟩ := settled_accounted accounted under (by simp)
      split_ifs at taken with failed
      · cases taken
        exact deleted_accounted settled present (by simp)
      · cases taken
        refine ⟨fun addr => settled.counted addr, fun addr => settled.bounded addr, ?_, accounted.found⟩
        rintro creating stage again -
        obtain ⟨rfl, -⟩ : session = creating ∧ _ := by simpa using again
        exact present
    · cases taken
  | register fails =>
    simp only [step] at taken
    split at taken
    · rename_i session under
      obtain ⟨settled, present⟩ := settled_accounted accounted under (by simp)
      split_ifs at taken with failed
      · cases taken
        exact deleted_accounted settled present (by simp)
      · cases taken
        exact settled
    · cases taken
  | delete session =>
    obtain ⟨⟨present, other⟩, rfl⟩ : (session ∈ s.activeSessions ∧ s.creation.map Prod.fst ≠ some session) ∧ _ = s' := by
      simpa only [step, Option.ite_none_right_eq_some, Option.some.injEq] using taken
    exact deleted_accounted accounted present other

end Steps

/-- The entries count the sessions, in every run in which no creation fails before the base constructor has finished. -/
theorem connections_accounted (Addr : Type) [DecidableEq Addr] (maxConnectionsPerIp : UInt32)
    {inputs : List (Input Addr)} {s : State Addr}
    (reached : (connections Addr maxConnectionsPerIp).Reaches BaseFinishes {} inputs s) :
    s.missing = false ∧ ∀ addr, (count s addr).toNat = live s addr ∧ live s addr ≤ maxConnectionsPerIp.toNat ∧
      (refuses maxConnectionsPerIp s addr ↔ maxConnectionsPerIp.toNat ≤ live s addr) := by
  have accounted := reached.invariant (P := fun _ s => Accounted maxConnectionsPerIp s)
    ⟨by simp [count, live, underway], by simp [live, underway], by simp, rfl⟩
    (fun accounted finishes taken => step_accounted accounted finishes taken)
  refine ⟨accounted.found, fun addr => ⟨accounted.counted addr, accounted.bounded addr, ?_⟩⟩
  rw [← accounted.counted addr]
  simp [refuses, UInt32.le_iff_toNat_le]

-- Two connections of one address, a failed registration in between, and a session that is deleted.
theorem connections_accounted_two :
    ∃ inputs s, (connections Nat 2).Reaches BaseFinishes {} inputs s ∧ live s 7 = 1 ∧ (count s 7).toNat = live s 7 := by
  let inputs : List (Input Nat) :=
    [.accept 7, .construct false, .complete false, .register true, .accept 7, .construct false, .complete false,
      .register false, .accept 7, .construct false, .complete true, .accept 7, .delete ⟨1, 7, 0⟩]
  have ran : (((connections Nat 2).guarded fun _ input => input != .construct true).run {} inputs).map
      (fun s => live s 7) = some 1 := by decide +kernel
  obtain ⟨s, ran, one⟩ := Option.map_eq_some_iff.mp ran
  have reached : (connections Nat 2).Reaches BaseFinishes {} inputs s :=
    System.reaches_of_guarded (fun _ _ checked => by simpa [BaseFinishes] using checked) ran
  exact ⟨inputs, s, reached, one, ((connections_accounted Nat 2 reached).2 7).1⟩

-- The slot of a session that was never allocated is not given back.
theorem failed_allocation_keeps_slot :
    ∃ inputs s, (connections Nat 1).Reaches (fun _ _ => True) {} inputs s ∧ live s 7 = 0 ∧ count s 7 = 1 ∧
      refuses 1 s 7 := by
  have ran : ((connections Nat 1).run {} [.accept 7, .construct true]).map
      (fun s => (live s 7, count s 7, refuses 1 s 7)) = some (0, 1, true) := by decide +kernel
  obtain ⟨s, ran, seen⟩ := Option.map_eq_some_iff.mp ran
  exact ⟨_, s, System.reaches_of_run ran, by simpa using seen⟩

end Dracon.Connections
