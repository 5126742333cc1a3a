import Dracon.Session.Connection
import Dracon.Shared.Potential

set_option autoImplicit false

namespace Dracon

open Shared

def Act.blocks : Act → Bool
  | .read | .write .. | .yield => true
  | _ => false

def Input.isResume : Input → Bool
  | .resume _ => true
  | _ => false

def Input.blocks : Input → Bool
  | .act action => action.blocks
  | _ => false

def Input.quits : Input → Bool
  | .resume ec => ec.isSome
  | _ => true

def Caller.resumes : Caller → Nat
  | .handler => 1
  | .session _ | .unclaimed => 2
  | .callback .. => 3

-- How often the coroutine is resumed with errors until it has ended, when the session makes no further calls.
def Control.resumes : Control → Nat
  | .closed => 0
  -- the response of a `catch` block
  | .raised .. | .session => 1
  | .write _ caller | .writeYield _ caller => caller.resumes
  | .callbackYield .. | .start => 3
  | _ => 2

namespace Conn

variable {keepAliveTimeout : Int} {buffer : Bytes} {c c' : Conn} {input : Input}

def Quitting (c : Conn) : Prop := c.lastYield ≠ none ∨ c.control.suspended = true

structure Leaves (c c' : Conn) (limit : Nat) : Prop where
  lastYield : c'.lastYield = c.lastYield
  resumes : c'.control.resumes ≤ limit

theorem readFails_leaves : Leaves c c.readFails 1 := ⟨rfl, le_rfl⟩

theorem bodyReturned_leaves (buffer : Bytes) (c : Conn) (src : Source) (pos : Nat) : Leaves c (c.bodyReturned buffer src pos) 2 := by
  cases src with
  | pending => exact ⟨rfl, by simp only [bodyReturned]; split_ifs <;> simp [Control.resumes]⟩
  | shared size =>
    unfold bodyReturned
    split_ifs
    · exact ⟨rfl, by simp [Control.resumes]⟩
    · exact ⟨rfl, by simp [Control.resumes]⟩

theorem turn_leaves (src : Source) (pos : Nat) (turn : Turn) : Leaves c (c.turn buffer src pos turn) 2 := by
  cases turn with
  | ret p req n =>
    obtain ⟨same, few⟩ := bodyReturned_leaves buffer { c with parser := p, req := req } src (pos + n)
    exact ⟨same, few⟩
  | next p req n => exact ⟨rfl, by simp [turn, Control.resumes]⟩
  | call p req n => exact ⟨rfl, by simp [turn, Control.resumes]⟩
  | fail e p req => exact ⟨rfl, by simp [turn, readFails, Control.resumes]⟩

theorem parsePending_leaves : Leaves c (c.parsePending keepAliveTimeout) 2 := by
  unfold parsePending
  split
  · exact ⟨rfl, by simp [Control.resumes]⟩
  · dsimp only
    split_ifs
    · exact ⟨rfl, by simp [headParsed, Control.resumes]⟩
    · exact ⟨rfl, by simp [Control.resumes]⟩

theorem parseReceived_leaves (data : Bytes) : Leaves c (c.parseReceived keepAliveTimeout data) 2 := by
  unfold parseReceived
  split
  · exact ⟨rfl, by simp [Control.resumes]⟩
  · dsimp only
    split_ifs
    · exact ⟨rfl, by simp [headParsed, Control.resumes]⟩
    · exact ⟨rfl, by simp [Control.resumes]⟩

theorem writeReturned_leaves (caller : Caller) : Leaves c (c.writeReturned caller) (caller.resumes - 1) := by
  cases caller <;> exact ⟨rfl, by simp [writeReturned, Control.resumes, Caller.resumes]⟩

theorem writeFails_leaves (ec : ErrorCode) (caller : Caller) : Leaves c (c.writeFails ec caller) (caller.resumes - 1) := by
  cases caller <;> exact ⟨rfl, by simp [writeFails, writeReturned, Control.resumes, Caller.resumes]⟩

theorem startWrite_leaves (buffers : List Bytes) (caller : Caller) : Leaves c (c.startWrite buffers caller) caller.resumes := by
  unfold startWrite
  split_ifs
  · obtain ⟨same, few⟩ := writeReturned_leaves (c := c) caller
    exact ⟨same, by omega⟩
  · exact ⟨rfl, by simp [Control.resumes]⟩

theorem accepted_leaves (job : List Bytes) (caller : Caller) (size : Nat) :
    Leaves c (c.accepted job caller size) caller.resumes := by
  unfold accepted
  dsimp only
  split_ifs
  · exact ⟨rfl, by simp [Control.resumes]⟩
  · split
    · obtain ⟨same, few⟩ := writeReturned_leaves (c := { c with
        canWriteError := false
        answered := c.answered || (0 < size && answers caller)
        responded := c.responded || (0 < size && responds caller) }) caller
      exact ⟨same, by omega⟩
    · exact ⟨rfl, by simp [Control.resumes]⟩

theorem sessionReturned_leaves (told : c.lastYield ≠ none) : Leaves c c.sessionReturned 0 := by
  unfold sessionReturned
  split_ifs <;> exact ⟨rfl, by simp [told, Control.resumes]⟩

def Spends (c c' : Conn) (input : Input) : Prop :=
  c'.Quitting ∧ c'.control.resumes + input.isResume.toNat ≤ c.control.resumes + input.blocks.toNat

theorem Spends.move (quitting : c.Quitting) {control : Control} (here : c.control = control) (awake : control.suspended = false)
    (other : input.isResume = false) {limit : Nat} (leaves : Leaves c c' limit)
    (few : limit ≤ control.resumes + input.blocks.toNat) : c.Spends c' input := by
  have told : c.lastYield ≠ none := by simpa [Quitting, here, awake] using quitting
  refine ⟨.inl (leaves.lastYield ▸ told), ?_⟩
  have := leaves.resumes
  simp only [here, other, Bool.toNat_false]
  omega

theorem Spends.resumed {control : Control} (here : c.control = control) {ec : Option ErrorCode} (quits : (Input.resume ec).quits)
    {c₁ : Conn} (told : c₁.lastYield = ec) {limit : Nat} (leaves : Leaves c₁ c' limit) (less : limit < control.resumes) :
    c.Spends c' (.resume ec) := by
  refine ⟨.inl ?_, ?_⟩
  · rw [leaves.lastYield, told]
    exact Option.isSome_iff_ne_none.mp quits
  · have := leaves.resumes
    simp only [here, Input.isResume, Input.blocks, Bool.toNat_true, Bool.toNat_false]
    omega

theorem Leaves.rfl : Leaves c c c.control.resumes := ⟨Eq.refl _, le_rfl⟩

theorem readHeadersStep_spends (quits : input.quits) (quitting : c.Quitting)
    (taken : c.readHeadersStep keepAliveTimeout buffer input = some c') : c.Spends c' input := by
  unfold readHeadersStep at taken
  split at taken
  next here =>
    split_ifs at taken <;> cases taken
    · exact .move quitting here rfl rfl ⟨rfl, le_rfl⟩ le_rfl
    · exact .move quitting here rfl rfl parsePending_leaves le_rfl
  next here =>
    cases taken
    exact .move quitting here rfl rfl ⟨rfl, le_rfl⟩ (by simp [Control.resumes, Input.blocks])
  next here =>
    cases taken
    exact .move quitting here rfl rfl ⟨rfl, le_rfl⟩ le_rfl
  next data here =>
    split_ifs at taken <;> cases taken
    · have leaves : Leaves { c with canWriteError := true } (parseReceived keepAliveTimeout { c with canWriteError := true } data) 2 :=
        parseReceived_leaves data
      exact .move quitting here rfl rfl ⟨leaves.lastYield, leaves.resumes⟩ le_rfl
    · exact .move quitting here rfl rfl ⟨rfl, le_rfl⟩ le_rfl
  next => cases quits
  next here =>
    cases taken
    exact .resumed here quits rfl .rfl (by simp [Control.resumes])
  next => cases taken

theorem callbackStep_leaves {src : Source} {pos size : Nat} {act : Act} (taken : c.callbackStep buffer src pos size act = some c')
    (here : c.control = .callback src pos size) : Leaves c c' (2 + act.blocks.toNat) := by
  cases act with
  | read => cases taken
  | appendBodyCallback callback maxSize =>
    cases taken
    exact ⟨rfl, by simp [here, Control.resumes]⟩
  | write kind buffers =>
    cases taken
    exact startWrite_leaves buffers _
  | setKeepAlive seconds =>
    cases taken
    exact ⟨rfl, by simp [here, Control.resumes]⟩
  | setState state =>
    cases taken
    exact ⟨rfl, by simp [here, Control.resumes]⟩
  | yield =>
    cases taken
    exact ⟨rfl, le_rfl⟩
  | throws exc =>
    cases taken
    exact ⟨rfl, by simp [readFails, Control.resumes, Act.blocks]⟩
  | returns =>
    cases taken
    exact turn_leaves src pos _

theorem readStep_spends (quits : input.quits) (quitting : c.Quitting) (taken : c.readStep buffer input = some c') :
    c.Spends c' input := by
  unfold readStep at taken
  split at taken
  next here =>
    cases taken
    refine .move quitting here rfl rfl ⟨rfl, ?_⟩ le_rfl
    dsimp only
    split_ifs <;> simp [Control.resumes]
  next here =>
    cases taken
    exact .move quitting here rfl rfl readFails_leaves (by simp [Control.resumes, Input.blocks])
  next here =>
    cases taken
    exact .move quitting here rfl rfl ⟨rfl, le_rfl⟩ le_rfl
  next data here =>
    split_ifs at taken <;> cases taken
    · exact .move quitting here rfl rfl ⟨rfl, le_rfl⟩ le_rfl
    · exact .move quitting here rfl rfl ⟨rfl, le_rfl⟩ le_rfl
  next => cases quits
  next ec here =>
    cases taken
    exact .resumed here quits rfl readFails_leaves (by simp [Control.resumes])
  next src here =>
    cases taken
    exact .move quitting here rfl rfl (turn_leaves src 0 _) le_rfl
  next src pos here =>
    cases taken
    exact .move quitting here rfl rfl (turn_leaves src pos _) le_rfl
  next src pos size act here => exact .move quitting here rfl rfl (callbackStep_leaves taken here) le_rfl
  next src pos size ec here =>
    cases taken
    exact .resumed here quits rfl .rfl (by simp [Control.resumes])
  next => cases taken

theorem writeStep_spends (quits : input.quits) (quitting : c.Quitting) (taken : c.writeStep input = some c') :
    c.Spends c' input := by
  have positive (caller : Caller) : 0 < caller.resumes := by cases caller <;> simp [Caller.resumes]
  unfold writeStep at taken
  split at taken
  next job caller ec here =>
    cases taken
    exact .move quitting here rfl rfl (writeFails_leaves ec caller) (Nat.sub_le _ _)
  next job caller here =>
    cases taken
    exact .move quitting here rfl rfl ⟨rfl, le_rfl⟩ le_rfl
  next job caller size here =>
    split_ifs at taken
    cases taken
    exact .move quitting here rfl rfl (accepted_leaves job caller size) le_rfl
  next => cases quits
  next job caller ec here =>
    cases taken
    exact .resumed here quits rfl (writeFails_leaves ec caller) (Nat.sub_lt (positive caller) Nat.one_pos)
  next => cases taken

theorem sessionStep_leaves (told : c.lastYield ≠ none) (here : c.control = .session) (act : Act) :
    Leaves c (c.sessionStep act) (1 + act.blocks.toNat) := by
  cases act with
  | read =>
    unfold sessionStep
    split_ifs
    · exact ⟨rfl, by simp [here, Control.resumes]⟩
    · exact ⟨rfl, le_rfl⟩
  | write kind buffers => exact startWrite_leaves buffers _
  | setKeepAlive seconds => exact ⟨rfl, by simp [sessionStep, here, Control.resumes]⟩
  | appendBodyCallback callback maxSize => exact ⟨rfl, by simp [sessionStep, here, Control.resumes]⟩
  | setState state => exact ⟨rfl, by simp [sessionStep, here, Control.resumes]⟩
  | yield => exact ⟨rfl, le_rfl⟩
  | throws exc => exact ⟨rfl, le_rfl⟩
  | returns =>
    obtain ⟨same, none⟩ := sessionReturned_leaves told
    exact ⟨same, none.trans (Nat.zero_le _)⟩

theorem ioLoopStep_spends (quits : input.quits) (quitting : c.Quitting) (taken : c.ioLoopStep input = some c') :
    c.Spends c' input := by
  unfold ioLoopStep at taken
  split at taken
  next ec here =>
    cases taken
    exact .resumed here quits rfl .rfl (by simp [Control.resumes])
  next here =>
    cases taken
    exact .move quitting here rfl rfl ⟨rfl, le_rfl⟩ le_rfl
  next here =>
    cases taken
    exact .move quitting here rfl rfl ⟨rfl, le_rfl⟩ (by simp [Control.resumes, Input.blocks])
  next here =>
    cases taken
    exact .move quitting here rfl rfl (startWrite_leaves _ _) le_rfl
  next exc here =>
    cases taken
    exact .move quitting here rfl rfl ⟨rfl, le_rfl⟩ (by simp [Control.resumes, Input.blocks])
  next act here =>
    cases taken
    have told : c.lastYield ≠ none := by simpa [Quitting, here, Control.suspended] using quitting
    exact .move quitting here rfl rfl (sessionStep_leaves told here act) le_rfl
  next ec here =>
    cases taken
    exact .resumed here quits rfl .rfl (by simp [Control.resumes])
  next exc origin here =>
    split_ifs at taken <;> cases taken
    · exact .move quitting here rfl rfl (startWrite_leaves _ _) le_rfl
    · exact .move quitting here rfl rfl ⟨rfl, le_rfl⟩ (by simp [Control.resumes, Input.blocks])
  next => cases taken

theorem step_spends (quits : input.quits) (quitting : c.Quitting) (taken : c.step keepAliveTimeout buffer input = some c') :
    c.Spends c' input := by
  unfold step at taken
  split at taken
  · exact readHeadersStep_spends quits quitting taken
  · exact readHeadersStep_spends quits quitting taken
  · exact readHeadersStep_spends quits quitting taken
  all_goals first
    | exact readStep_spends quits quitting taken
    | exact writeStep_spends quits quitting taken
    | exact ioLoopStep_spends quits quitting taken

end Conn

def Event.isResume : Event → Bool
  | .own input => input.isResume
  | .others _ => false

def Event.blocks : Event → Bool
  | .own input => input.blocks
  | .others _ => false

def Event.quits : Event → Bool
  | .own input => input.quits
  | .others _ => true

section Plain

variable {keepAliveTimeout : Int} {s s' : Served}

theorem connection_spends {event : Event} (quits : event.quits) (quitting : s.conn.Quitting)
    (taken : (connection keepAliveTimeout).step s event = some s') :
    s'.conn.Quitting ∧
      s'.conn.control.resumes + event.isResume.toNat ≤ s.conn.control.resumes + event.blocks.toNat := by
  cases event with
  | own input => exact Conn.step_spends quits quitting (connection_own.mp taken).1
  | others buffer =>
    obtain ⟨-, -, rfl⟩ := connection_others.mp taken
    exact ⟨quitting, le_rfl⟩

theorem Control.resumes_le (control : Control) : control.resumes ≤ 3 := by
  cases control with
  | write job caller => cases caller <;> simp [resumes, Caller.resumes]
  | writeYield job caller => cases caller <;> simp [resumes, Caller.resumes]
  | _ => simp [resumes]

theorem resume_taken (suspended : s.conn.control.suspended) (ec : Option ErrorCode) :
    ((connection keepAliveTimeout).step s (.own (.resume ec))).isSome := by
  cases here : s.conn.control with
  | start | sessionYield | callbackYield => simp [connection, Conn.step, Conn.ioLoopStep, Conn.readStep, here]
  | headYield => cases ec <;> simp [connection, Conn.step, Conn.readHeadersStep, here]
  | readYield => cases ec <;> simp [connection, Conn.step, Conn.readStep, here]
  | writeYield job caller => cases ec <;> simp [connection, Conn.step, Conn.writeStep, here]
  | _ => simp [here, Control.suspended] at suspended

end Plain

/--
The loop of `quit_io_loop` ends. From any point where a session has yielded it is resumed at most three times, and
once more for every call of the session that waits although it has been told; what it does else, what it reads
and what its client sends makes no difference. As long as the coroutine waits it can be resumed.
-/
theorem quit_io_loop_ends {keepAliveTimeout : Int} {s s' : Served} {events : List Event} (waits : s.conn.control.suspended)
    (quits : ∀ event ∈ events, event.quits) (ran : (connection keepAliveTimeout).run s events = some s') :
    events.countP Event.isResume ≤ 3 + events.countP Event.blocks ∧
      (s'.conn.control.suspended → ∀ ec, ((connection keepAliveTimeout).step s' (.own (.resume (some ec)))).isSome) := by
  refine ⟨?_, fun waits ec => resume_taken waits _⟩
  obtain ⟨-, total⟩ : s'.conn.Quitting ∧
      s'.conn.control.resumes + events.countP Event.isResume ≤ s.conn.control.resumes + events.countP Event.blocks :=
    System.run_potential (P := fun s => s.conn.Quitting) (fun quitting quits taken => connection_spends quits quitting taken)
      (.inr waits) quits ran
  have most := s.conn.control.resumes_le
  omega

-- The client hangs up in the middle of a head, and the session still tries to tell it so.
def hangup : List Event :=
  [.own (.resume (some ⟨[]⟩)), .own .run, .own (.writeSome .again), .own (.resume (some ⟨[]⟩))]

theorem quit_io_loop_ends_hangup :
    ∃ s', (connection 10).run ⟨[0], { control := .headYield, canWriteError := true }⟩ hangup = some s' ∧
      s'.conn.control = .closed ∧ hangup.countP Event.isResume = 2 ∧
      hangup.countP Event.isResume ≤ 3 + hangup.countP Event.blocks := by
  have ran : ((connection 10).run ⟨[0], { control := .headYield, canWriteError := true }⟩ hangup).map
      (fun s => s.conn.control) = some .closed := by
    decide +kernel
  obtain ⟨s', ran, closed⟩ := Option.map_eq_some_iff.mp ran
  exact ⟨s', ran, closed, by decide, (quit_io_loop_ends rfl (by decide) ran).1⟩

inductive TlsInput where
  -- what `SSL_accept` comes back with; the session finds the buffer of the event loop as it is then
  | accepted (buffer : Bytes)
  | acceptWants
  | acceptFails
  | event (event : Event)
  -- `SSL_shutdown` returns
  | shutdown (result : Int)
  | resume (ec : Option ErrorCode)

inductive TlsStage where
  | start
  | accept (lastYield : Option ErrorCode)
  | acceptYield
  | serving (s : Served)
  -- in `shutdown`, with the tries that are left
  | closing (count : Nat)
  | closingYield (count : Nat)
  | ended
  deriving DecidableEq

-- The exception of a `write` in a `catch` block leaves `io_loop`, and with it its `shutdown`.
def Served.escapes (s : Served) (event : Event) : Bool :=
  match s.conn.control, event with
  | .write _ .handler, .own (.writeSome (.error _)) => true
  | .writeYield _ .handler, .own (.resume (some _)) => true
  | _, _ => false

def tlsStep (keepAliveTimeout : Int) : TlsStage → TlsInput → Option TlsStage
  | .start, .resume ec => some (.accept ec)
  | .accept lastYield, .accepted buffer => some (.serving ⟨buffer, { control := .request, lastYield }⟩)
  | .accept _, .acceptWants => some .acceptYield
  | .accept _, .acceptFails => some .ended
  | .acceptYield, .resume none => some (.accept none)
  | .acceptYield, .resume (some _) => some .ended
  | .serving s, .event event =>
    ((connection keepAliveTimeout).step s event).map fun next =>
      if next.conn.control ≠ .closed then .serving next else if s.escapes event then .ended else .closing 5
  | .closing (count + 1), .shutdown result => some (if result = 0 then .closingYield count else .ended)
  | .closingYield count, .resume none => some (if count = 0 then .ended else .closing count)
  | .closingYield _, .resume (some _) => some .ended
  | _, _ => none

def tlsSession (keepAliveTimeout : Int) : System TlsStage TlsInput := ⟨tlsStep keepAliveTimeout⟩

def TlsStage.suspended : TlsStage → Bool
  | .start | .acceptYield | .closingYield _ => true
  | .serving s => s.conn.control.suspended
  | _ => false

namespace TlsInput

def isResume : TlsInput → Bool
  | .resume _ => true
  | .event own => own.isResume
  | _ => false

def blocks : TlsInput → Bool
  | .event own => own.blocks
  | _ => false

def quits : TlsInput → Bool
  | .resume ec => ec.isSome
  | .event own => own.quits
  | _ => true

def isShutdown : TlsInput → Bool
  | .shutdown _ => true
  | _ => false

end TlsInput

namespace TlsStage

def resumes : TlsStage → Nat
  | .start => 4
  | .accept _ => 3
  | .serving s => s.conn.control.resumes + 1
  | .acceptYield | .closing _ | .closingYield _ => 1
  | .ended => 0

def Quitting : TlsStage → Prop
  | .accept lastYield => lastYield ≠ none
  | .serving s => s.conn.Quitting
  | _ => True

def tries : TlsStage → Nat
  | .closing count | .closingYield count => count
  | .ended => 0
  | _ => 5

end TlsStage

section Tls

variable {keepAliveTimeout : Int} {stage stage' : TlsStage} {input : TlsInput}

theorem tlsStep_spends (quitting : stage.Quitting) (quits : input.quits)
    (taken : tlsStep keepAliveTimeout stage input = some stage') :
    stage'.Quitting ∧ stage'.resumes + input.isResume.toNat ≤ stage.resumes + input.blocks.toNat := by
  unfold tlsStep at taken
  split at taken
  next ec =>
    cases taken
    exact ⟨Option.isSome_iff_ne_none.mp quits, le_rfl⟩
  next =>
    cases taken
    exact ⟨.inl quitting, le_rfl⟩
  next =>
    cases taken
    exact ⟨trivial, by simp [TlsStage.resumes, TlsInput.isResume, TlsInput.blocks]⟩
  next =>
    cases taken
    exact ⟨trivial, by simp [TlsStage.resumes, TlsInput.isResume, TlsInput.blocks]⟩
  next => cases quits
  next =>
    cases taken
    exact ⟨trivial, le_rfl⟩
  next s event =>
    obtain ⟨after, stepped, rfl⟩ := Option.map_eq_some_iff.mp taken
    obtain ⟨still, cost⟩ := connection_spends quits quitting stepped
    split_ifs with running escapes
    · exact ⟨still, by simp only [TlsStage.resumes, TlsInput.isResume, TlsInput.blocks]; omega⟩
    · exact ⟨trivial, by simp only [TlsStage.resumes, TlsInput.isResume, TlsInput.blocks]; omega⟩
    · exact ⟨trivial, by simp only [TlsStage.resumes, TlsInput.isResume, TlsInput.blocks]; omega⟩
  next count result =>
    cases taken
    split_ifs
    · exact ⟨trivial, le_rfl⟩
    · exact ⟨trivial, by simp [TlsStage.resumes, TlsInput.isResume]⟩
  next => cases quits
  next =>
    cases taken
    exact ⟨trivial, le_rfl⟩
  next => cases taken

theorem tlsStep_tries (taken : tlsStep keepAliveTimeout stage input = some stage') :
    stage'.tries + input.isShutdown.toNat ≤ stage.tries := by
  unfold tlsStep at taken
  split at taken
  case h_7 s event =>
    obtain ⟨after, -, rfl⟩ := Option.map_eq_some_iff.mp taken
    split_ifs <;> simp [TlsStage.tries, TlsInput.isShutdown]
  case h_8 count result =>
    cases taken
    split_ifs <;> simp [TlsStage.tries, TlsInput.isShutdown]
  case h_9 count =>
    cases taken
    split_ifs <;> simp [TlsStage.tries, TlsInput.isShutdown]
  all_goals
    cases taken
    try simp [TlsStage.tries, TlsInput.isShutdown]

theorem TlsStage.resumes_le (stage : TlsStage) : stage.resumes ≤ 4 := by
  cases stage with
  | serving s =>
    have := s.conn.control.resumes_le
    simp only [resumes]
    omega
  | _ => simp [resumes]

theorem TlsStage.quitting_of_suspended (waits : stage.suspended) : stage.Quitting := by
  cases stage with
  | accept lastYield => cases waits
  | serving s => exact .inr waits
  | _ => trivial

end Tls

/--
A session over TLS ends as well, also one that is in its handshake or in its shutdown: one more time at most it is resumed.
In a whole run it calls `SSL_shutdown` five times at most.
-/
theorem tls_session_ends {keepAliveTimeout : Int} {before inputs : List TlsInput} {stage stage' : TlsStage}
    (reached : (tlsSession keepAliveTimeout).run .start before = some stage) (waits : stage.suspended)
    (quits : ∀ input ∈ inputs, input.quits) (ran : (tlsSession keepAliveTimeout).run stage inputs = some stage') :
    inputs.countP TlsInput.isResume ≤ 4 + inputs.countP TlsInput.blocks ∧
      (before ++ inputs).countP TlsInput.isShutdown ≤ 5 := by
  constructor
  · obtain ⟨-, total⟩ : stage'.Quitting ∧
        stage'.resumes + inputs.countP TlsInput.isResume ≤ stage.resumes + inputs.countP TlsInput.blocks :=
      System.run_potential (P := TlsStage.Quitting) tlsStep_spends (TlsStage.quitting_of_suspended waits) quits ran
    have most := stage.resumes_le
    omega
  · have whole : (tlsSession keepAliveTimeout).run .start (before ++ inputs) = some stage' := by
      rw [System.run_append, reached]
      exact ran
    obtain ⟨-, total⟩ : True ∧ stage'.tries + (before ++ inputs).countP TlsInput.isShutdown ≤
        TlsStage.start.tries + (before ++ inputs).countP (fun _ => false) :=
      System.run_potential (P := fun _ => True) (fun _ (_ : True) taken => ⟨trivial, tlsStep_tries taken⟩) trivial
        (fun _ _ => trivial) whole
    rw [List.countP_false] at total
    exact (Nat.le_add_left _ _).trans total

-- A client that connects and says nothing until it is timed out.
def silentClient : List TlsInput :=
  [.resume none, .accepted [0], .event (.own .run), .event (.own .run), .event (.own (.readSome .again))]

def timedOut : List TlsInput :=
  [.event (.own (.resume (some ⟨[]⟩))), .event (.own .run), .shutdown 0, .resume (some ⟨[]⟩)]

theorem tls_session_ends_silent :
    ∃ stage, (tlsSession 10).run .start silentClient = some stage ∧ (tlsSession 10).run stage timedOut = some .ended ∧
      timedOut.countP TlsInput.isResume ≤ 4 + timedOut.countP TlsInput.blocks ∧
      (silentClient ++ timedOut).countP TlsInput.isShutdown ≤ 5 := by
  have reached : (tlsSession 10).run .start silentClient = some (.serving ⟨[0], { control := .headYield }⟩) := by decide +kernel
  have ended : (tlsSession 10).run (.serving ⟨[0], { control := .headYield }⟩) timedOut = some .ended := by decide +kernel
  exact ⟨_, reached, ended, tls_session_ends reached rfl (by decide) ended⟩

end Dracon
