import Dracon.Session.Connection

set_option autoImplicit false

namespace Dracon

open Shared

structure Loop (ι : Type) where
  buffer : Bytes
  conns : ι → Conn
  -- the session whose coroutine is running
  running : Option ι := none

-- One thread serves all the sessions. A coroutine that was resumed runs until it yields or ends; only then another one is
-- resumed.
def eventLoop (ι : Type) [DecidableEq ι] (keepAliveTimeout : Int) : System (Loop ι) (ι × Input) where
  step w := fun (i, input) =>
    if w.running = some i ∨ (w.running = none ∧ (w.conns i).control.suspended) then
      ((w.conns i).step keepAliveTimeout w.buffer input).map fun c =>
        { buffer := input.fill w.buffer
          conns := Function.update w.conns i c
          running := if c.control.suspended ∨ c.control = .closed then none else some i }
    else none

def own {ι : Type} [DecidableEq ι] (i : ι) (run : List (ι × Input)) : List Input :=
  run.filterMap fun event => if event.1 = i then some event.2 else none

section SharedBuffer

def Source.sharedAt (pos : Nat) : Source → Option (Nat × Nat)
  | .pending => none
  | .shared size => some (size, pos)

def Caller.sharedAt : Caller → Option (Nat × Nat)
  | .callback _ src pos size => src.sharedAt (pos + size)
  | _ => none

def Control.sharedAt : Control → Option (Nat × Nat)
  | .parseBody src => src.sharedAt 0
  | .parseChunked src pos => src.sharedAt pos
  | .callback src pos size | .callbackYield src pos size => src.sharedAt (pos + size)
  | .write _ caller | .writeYield _ caller => caller.sharedAt
  | _ => none

def Control.sharedRest (buffer : Bytes) (control : Control) : Bytes :=
  match control.sharedAt with
  | none => []
  | some (size, pos) => (buffer.take size).drop pos

variable {keepAliveTimeout : Int} {b₁ b₂ : Bytes} {c c₁ c₂ : Conn} {input : Input}

theorem sharedRest_of_none {control : Control} (none : control.sharedAt = none) (buffer : Bytes) :
    control.sharedRest buffer = [] := by
  simp [Control.sharedRest, none]

theorem view_agree {control : Control} {src : Source} {pos : Nat} (located : control.sharedAt = src.sharedAt pos)
    (agree : control.sharedRest b₁ = control.sharedRest b₂) (c : Conn) :
    c.view b₁ src pos = c.view b₂ src pos := by
  cases src with
  | pending => rfl
  | shared size => simpa [Control.sharedRest, located, Source.sharedAt, Conn.view] using agree

theorem sharedRest_agree {control : Control} {src : Source} {pos : Nat}
    (located : control.sharedAt = src.sharedAt pos) (same : c.view b₁ src pos = c.view b₂ src pos) :
    control.sharedRest b₁ = control.sharedRest b₂ := by
  cases src with
  | pending => simp [Control.sharedRest, located, Source.sharedAt]
  | shared size => simpa [Control.sharedRest, located, Source.sharedAt, Conn.view] using same

theorem bodyReturned_agree {src : Source} {pos : Nat} (same : c.view b₁ src pos = c.view b₂ src pos) :
    c.bodyReturned b₁ src pos = c.bodyReturned b₂ src pos ∧
      (c.bodyReturned b₁ src pos).control.sharedAt = none := by
  cases src with
  | pending => exact ⟨rfl, by simp only [Conn.bodyReturned]; split_ifs <;> rfl⟩
  | shared size => exact ⟨by simp [Conn.bodyReturned, same], by simp only [Conn.bodyReturned]; split_ifs <;> rfl⟩

theorem turn_agree {src : Source} {pos : Nat} (same : c.view b₁ src pos = c.view b₂ src pos) (turn : Turn) :
    c.turn b₁ src pos turn = c.turn b₂ src pos turn ∧
      (c.turn b₁ src pos turn).control.sharedRest b₁ = (c.turn b₁ src pos turn).control.sharedRest b₂ := by
  have beyond (n : Nat) : c.view b₁ src (pos + n) = c.view b₂ src (pos + n) := by
    rw [Conn.view_add, Conn.view_add, same]
  cases turn with
  | ret p req n =>
    have moved : Conn.view b₁ { c with parser := p, req := req } src (pos + n) =
        Conn.view b₂ { c with parser := p, req := req } src (pos + n) := by
      cases src <;> exact beyond n
    obtain ⟨equal, none⟩ := bodyReturned_agree moved
    exact ⟨equal, by rw [Conn.turn, sharedRest_of_none none, sharedRest_of_none none]⟩
  | next p req n => exact ⟨rfl, sharedRest_agree rfl (beyond n)⟩
  | call p req n => exact ⟨by simp [Conn.turn, same], sharedRest_agree rfl (beyond n)⟩
  | fail e p req => exact ⟨rfl, rfl⟩

theorem delivered_agree {src : Source} {pos size : Nat}
    (same : c.view b₁ src (pos + size) = c.view b₂ src (pos + size)) :
    c.turn b₁ src pos (delivered c.parser c.req size) = c.turn b₂ src pos (delivered c.parser c.req size) ∧
      (c.turn b₁ src pos (delivered c.parser c.req size)).control.sharedRest b₁ =
        (c.turn b₁ src pos (delivered c.parser c.req size)).control.sharedRest b₂ := by
  unfold delivered
  split_ifs
  · exact ⟨rfl, sharedRest_agree rfl same⟩
  · obtain ⟨p, req⟩ := lengthDelivered c.parser c.req size
    have moved : Conn.view b₁ { c with parser := p, req := req } src (pos + size) =
        Conn.view b₂ { c with parser := p, req := req } src (pos + size) := by
      cases src <;> exact same
    obtain ⟨equal, none⟩ := bodyReturned_agree moved
    exact ⟨equal, by simp only [Conn.turn]; rw [sharedRest_of_none none, sharedRest_of_none none]⟩

theorem writeReturned_sharedAt (c : Conn) (caller : Caller) :
    (c.writeReturned caller).control.sharedAt = caller.sharedAt := by
  cases caller <;> rfl

theorem startWrite_sharedAt (c : Conn) (buffers : List Bytes) (caller : Caller) :
    (c.startWrite buffers caller).control.sharedAt = caller.sharedAt := by
  unfold Conn.startWrite
  split_ifs
  · exact writeReturned_sharedAt c caller
  · rfl

theorem parsePending_sharedAt (c : Conn) : (c.parsePending keepAliveTimeout).control.sharedAt = none := by
  unfold Conn.parsePending
  split
  · rfl
  · dsimp only
    split_ifs <;> rfl

theorem parseReceived_sharedAt (c : Conn) (data : Bytes) :
    (c.parseReceived keepAliveTimeout data).control.sharedAt = none := by
  unfold Conn.parseReceived
  split
  · rfl
  · dsimp only
    split_ifs <;> rfl

theorem fits_agree (size : b₁.length = b₂.length) (data : Bytes) : Conn.fits b₁ data = Conn.fits b₂ data := by
  simp [Conn.fits, size]

-- Two buffers that agree on what a session has still to parse.
structure Agree (control : Control) (b₁ b₂ : Bytes) : Prop where
  size : b₁.length = b₂.length
  rest : control.sharedRest b₁ = control.sharedRest b₂

theorem Agree.of_none {control : Control} (size : b₁.length = b₂.length) (none : control.sharedAt = none) :
    Agree control b₁ b₂ :=
  ⟨size, by rw [sharedRest_of_none none, sharedRest_of_none none]⟩

theorem readHeadersStep_agree (size : b₁.length = b₂.length) :
    c.readHeadersStep keepAliveTimeout b₁ input = c.readHeadersStep keepAliveTimeout b₂ input := by
  unfold Conn.readHeadersStep
  simp only [fits_agree size]

theorem readHeadersStep_sharedAt (taken : c.readHeadersStep keepAliveTimeout b₁ input = some c₁) :
    c₁.control.sharedAt = none := by
  unfold Conn.readHeadersStep at taken
  split at taken
  case h_1 =>
    split_ifs at taken <;> cases taken
    · rfl
    · exact parsePending_sharedAt c
  case h_4 data =>
    split_ifs at taken <;> cases taken
    · exact parseReceived_sharedAt _ _
    · rfl
  all_goals
    cases taken
    try rfl

theorem callbackStep_agree {src : Source} {pos size : Nat} {act : Act} (agree : Agree c.control b₁ b₂)
    (control : c.control = .callback src pos size) :
    c.callbackStep b₁ src pos size act = c.callbackStep b₂ src pos size act ∧
      ∀ c₁, c.callbackStep b₁ src pos size act = some c₁ → Agree c₁.control b₁ b₂ := by
  have same : c.view b₁ src (pos + size) = c.view b₂ src (pos + size) :=
    view_agree (by rw [control]; rfl) agree.rest c
  cases act with
  | write kind buffers =>
    refine ⟨rfl, fun c₁ taken => ⟨agree.size, ?_⟩⟩
    cases taken
    exact sharedRest_agree (startWrite_sharedAt ..) same
  | returns =>
    obtain ⟨equal, rest⟩ := delivered_agree same
    refine ⟨congrArg some equal, fun c₁ taken => ⟨agree.size, ?_⟩⟩
    cases taken
    exact rest
  | read => exact ⟨rfl, fun c₁ taken => by cases taken⟩
  | throws =>
    refine ⟨rfl, fun c₁ taken => .of_none agree.size ?_⟩
    cases taken
    rfl
  | _ =>
    refine ⟨rfl, fun c₁ taken => ⟨agree.size, ?_⟩⟩
    cases taken
    exact sharedRest_agree (by simp [control, Control.sharedAt]) same

theorem fill_size (input : Input) (size : b₁.length = b₂.length) : (input.fill b₁).length = (input.fill b₂).length := by
  unfold Input.fill
  split <;> simp [size]

theorem readStep_agree (agree : Agree c.control b₁ b₂) : c.readStep b₁ input = c.readStep b₂ input := by
  unfold Conn.readStep
  split
  case h_4 => simp only [fits_agree agree.size]
  case h_7 | h_8 =>
    rename_i control
    have same := view_agree (by rw [control]; rfl) agree.rest c
    rw [same, (turn_agree same _).1]
  case h_9 control => exact (callbackStep_agree agree control).1
  all_goals rfl

theorem readStep_keeps (agree : Agree c.control b₁ b₂) (taken : c.readStep b₁ input = some c₁) :
    Agree c₁.control (input.fill b₁) (input.fill b₂) := by
  unfold Conn.readStep at taken
  split at taken
  case h_11 => cases taken
  all_goals rename_i control
  case h_1 =>
    cases taken
    exact .of_none agree.size (by dsimp only; split_ifs <;> rfl)
  case h_4 data =>
    split_ifs at taken with fits <;> cases taken
    · exact ⟨fill_size _ agree.size, by simp [Control.sharedRest, Control.sharedAt, Source.sharedAt, Input.fill]⟩
    · exact .of_none (fill_size _ agree.size) rfl
  case h_7 | h_8 =>
    have same := view_agree (by rw [control]; rfl) agree.rest c
    cases taken
    exact ⟨agree.size, (turn_agree same _).2⟩
  case h_9 => exact (callbackStep_agree agree control).2 c₁ taken
  case h_10 =>
    cases taken
    exact ⟨agree.size, sharedRest_agree rfl (view_agree (by rw [control]; rfl) agree.rest c)⟩
  all_goals
    cases taken
    exact .of_none agree.size rfl

theorem writeStep_sharedAt (taken : c.writeStep input = some c₁) :
    c₁.control.sharedAt = c.control.sharedAt ∧ ∀ buffer, input.fill buffer = buffer := by
  unfold Conn.writeStep at taken
  split at taken
  · rename_i caller ec control
    cases taken
    refine ⟨?_, fun _ => rfl⟩
    rw [control]
    cases caller <;> rfl
  · rename_i control
    cases taken
    exact ⟨by rw [control]; rfl, fun _ => rfl⟩
  · rename_i job caller size control
    split_ifs at taken
    cases taken
    refine ⟨?_, fun _ => rfl⟩
    rw [control]
    unfold Conn.accepted
    dsimp only
    split_ifs
    · rfl
    · split
      · exact writeReturned_sharedAt _ caller
      · rfl
  · rename_i control
    cases taken
    exact ⟨by rw [control]; rfl, fun _ => rfl⟩
  · rename_i caller ec control
    cases taken
    refine ⟨?_, fun _ => rfl⟩
    rw [control]
    cases caller <;> rfl
  · cases taken

theorem ioLoopStep_sharedAt (taken : c.ioLoopStep input = some c₁) :
    c₁.control.sharedAt = none ∧ ∀ buffer, input.fill buffer = buffer := by
  unfold Conn.ioLoopStep at taken
  split at taken
  case h_4 =>
    cases taken
    exact ⟨startWrite_sharedAt .., fun _ => rfl⟩
  case h_6 act control =>
    cases taken
    refine ⟨?_, fun _ => rfl⟩
    cases act with
    | read => simp only [Conn.sessionStep]; split_ifs <;> simp [control, Control.sharedAt]
    | write => exact startWrite_sharedAt ..
    | returns => simp only [Conn.sessionStep, Conn.sessionReturned]; split_ifs <;> rfl
    | _ => simp [Conn.sessionStep, control, Control.sharedAt]
  case h_8 =>
    split_ifs at taken <;> cases taken
    · exact ⟨startWrite_sharedAt .., fun _ => rfl⟩
    · exact ⟨rfl, fun _ => rfl⟩
  case h_9 => cases taken
  all_goals
    cases taken
    exact ⟨rfl, fun _ => rfl⟩

theorem step_agree (agree : Agree c.control b₁ b₂) :
    c.step keepAliveTimeout b₁ input = c.step keepAliveTimeout b₂ input := by
  unfold Conn.step
  split
  iterate 3 exact readHeadersStep_agree agree.size
  iterate 7 exact readStep_agree agree
  all_goals rfl

theorem step_keeps (agree : Agree c.control b₁ b₂)
    (taken : c.step keepAliveTimeout b₁ input = some c₁) :
    Agree c₁.control (input.fill b₁) (input.fill b₂) := by
  have size := fill_size input agree.size
  unfold Conn.step at taken
  split at taken
  iterate 3 exact .of_none size (readHeadersStep_sharedAt taken)
  iterate 7 exact readStep_keeps agree taken
  iterate 2
    obtain ⟨same, kept⟩ := writeStep_sharedAt taken
    exact ⟨size, by simpa [Control.sharedRest, same, kept] using agree.rest⟩
  exact .of_none size (ioLoopStep_sharedAt taken).1

theorem step_fits {data : Bytes} (taken : c.step keepAliveTimeout b₁ (.readSome (.data data)) = some c₁) :
    Conn.fits b₁ data := by
  unfold Conn.step at taken
  split at taken
  all_goals
    simp only [Conn.readHeadersStep, Conn.readStep, Conn.writeStep, Conn.ioLoopStep] at taken
    split at taken <;> simp_all

theorem sharedRest_nil {control : Control} (size : b₁.length = b₂.length)
    (none : control.sharedRest b₁ = []) : control.sharedRest b₂ = [] := by
  unfold Control.sharedRest at *
  split at none <;> simp_all

end SharedBuffer

section Interference

variable {ι : Type} [DecidableEq ι] {keepAliveTimeout : Int}

-- A session reads into the buffer only when no other one has something left to parse in it.
def LeavesUnread (w : Loop ι) (event : ι × Input) : Prop :=
  (∃ data, event.2 = .readSome (.data data)) →
    ∀ i ≠ event.1, (w.conns i).control.sharedRest w.buffer = []

def alone (keepAliveTimeout : Int) (buffer : Bytes) (inputs : List Input) : Option Served :=
  (connection keepAliveTimeout).run ⟨buffer, {}⟩ (inputs.map .own)

theorem own_snoc (i : ι) (run : List (ι × Input)) (event : ι × Input) :
    own i (run ++ [event]) = own i run ++ if event.1 = i then [event.2] else [] := by
  by_cases same : event.1 = i <;> simp [own, same]

theorem alone_snoc {buffer : Bytes} {inputs : List Input} {s : Served} (ran : alone keepAliveTimeout buffer inputs = some s)
    (input : Input) : alone keepAliveTimeout buffer (inputs ++ [input]) =
      (connection keepAliveTimeout).step s (.own input) := by
  simp only [alone] at *
  simp [System.run_append, ran, System.run]

theorem loop_alone {buffer : Bytes} {run : List (ι × Input)} {w : Loop ι} (i : ι)
    (reached : (eventLoop ι keepAliveTimeout).Reaches LeavesUnread ⟨buffer, fun _ => {}, none⟩ run w) :
    ∃ ownBuffer, alone keepAliveTimeout buffer (own i run) = some ⟨ownBuffer, w.conns i⟩ ∧
      Agree (w.conns i).control ownBuffer w.buffer := by
  refine reached.invariant (P := fun run w => ∃ ownBuffer, alone keepAliveTimeout buffer (own i run) =
    some ⟨ownBuffer, w.conns i⟩ ∧ Agree (w.conns i).control ownBuffer w.buffer) ⟨buffer, rfl, rfl, rfl⟩ ?_
  rintro run ⟨j, input⟩ w w' ⟨ownBuffer, ran, agree⟩ unread taken
  obtain ⟨-, taken⟩ := Option.ite_none_right_eq_some.mp taken
  obtain ⟨c', step, rfl⟩ := Option.map_eq_some_iff.mp taken
  rw [own_snoc]
  by_cases same : j = i
  · subst same
    rw [← step_agree agree] at step
    refine ⟨input.fill ownBuffer, ?_, ?_⟩
    · rw [if_pos rfl, alone_snoc ran]
      exact connection_own.mpr ⟨by simpa using step, rfl⟩
    · simpa using step_keeps agree step
  · have other : i ≠ j := fun equal => same equal.symm
    simp only [if_neg same, List.append_nil, Function.update_of_ne other]
    refine ⟨ownBuffer, ran, ?_⟩
    cases input with
    | readSome result =>
      cases result with
      | data data =>
        have kept : (Input.fill w.buffer (.readSome (.data data))).length = w.buffer.length := by
          have := (step_fits step).2
          simp [Input.fill]
          omega
        have none := unread ⟨data, rfl⟩ i other
        exact ⟨agree.size.trans kept.symm, (agree.rest.trans none).trans (sharedRest_nil kept.symm none).symm⟩
      | _ => exact agree
    | _ => exact agree

/--
What a session is given of its body, and what it keeps for later, depends on its own inputs
alone, as long as no session reads while another one has something left to parse in the buffer.
-/
theorem sessions_do_not_interfere (keepAliveTimeout : Int) (buffer : Bytes) (i : ι)
    (run₁ run₂ : List (ι × Input)) (w₁ w₂ : Loop ι) (same : own i run₁ = own i run₂)
    (reached₁ : (eventLoop ι keepAliveTimeout).Reaches LeavesUnread ⟨buffer, fun _ => {}, none⟩ run₁ w₁)
    (reached₂ : (eventLoop ι keepAliveTimeout).Reaches LeavesUnread ⟨buffer, fun _ => {}, none⟩ run₂ w₂) :
    (w₁.conns i).req.delivered = (w₂.conns i).req.delivered ∧
      (w₁.conns i).pending = (w₂.conns i).pending := by
  obtain ⟨_, alone₁, -⟩ := loop_alone i reached₁
  obtain ⟨_, alone₂, -⟩ := loop_alone i reached₂
  rw [same, alone₂] at alone₁
  have equal := congrArg Served.conn (Option.some.inj alone₁)
  exact ⟨congrArg (·.req.delivered) equal.symm, congrArg (·.pending) equal.symm⟩

def yieldingUpload (meanwhile : List (Bool × Input)) : List (Bool × Input) :=
  [.resume none, .run, .run,
    .readSome (.data (bytes "POST / HTTP/1.1\r\nTransfer-Encoding: chunked\r\n\r\n")),
    .created .session, .act (.appendBodyCallback true 0), .act .read, .run,
    .readSome (.data (bytes "1\r\na\r\n1\r\nb\r\n0\r\n\r\n")), .run, .run, .run, .act .yield].map (false, ·) ++
  meanwhile ++ [.resume none, .act .returns, .run, .run, .run].map (false, ·)

def stranger (text : String) : List (Bool × Input) :=
  [.resume none, .run, .run, .readSome (.data (bytes text)), .run, .writeSome .again].map (true, ·)

def leavesUnread (w : Loop Bool) (event : Bool × Input) : Bool :=
  ∀ i ≠ event.1, (w.conns i).control.sharedRest w.buffer = []

theorem sessions_do_not_interfere_upload :
    let run₁ := stranger "Hello, I am not the one\n" ++ yieldingUpload []
    let run₂ := stranger "?\n" ++ yieldingUpload []
    ∃ w₁ w₂, (eventLoop Bool 10).Reaches LeavesUnread ⟨List.replicate 64 0, fun _ => {}, none⟩ run₁ w₁ ∧
      (eventLoop Bool 10).Reaches LeavesUnread ⟨List.replicate 64 0, fun _ => {}, none⟩ run₂ w₂ ∧
      (w₁.conns false).req.delivered = [bytes "a", bytes "b"] ∧
      (w₁.conns false).req.delivered = (w₂.conns false).req.delivered := by
  intro run₁ run₂
  have ran₁ : (((eventLoop Bool 10).guarded leavesUnread).run ⟨List.replicate 64 0, fun _ => {}, none⟩
      run₁).map (fun w => (w.conns false).req.delivered) = some [bytes "a", bytes "b"] := by decide +kernel
  have ran₂ : (((eventLoop Bool 10).guarded leavesUnread).run ⟨List.replicate 64 0, fun _ => {}, none⟩
      run₂).map (fun w => (w.conns false).req.delivered) = some [bytes "a", bytes "b"] := by decide +kernel
  obtain ⟨w₁, ran₁, delivered₁⟩ := Option.map_eq_some_iff.mp ran₁
  obtain ⟨w₂, ran₂, -⟩ := Option.map_eq_some_iff.mp ran₂
  have sound (w : Loop Bool) (event : Bool × Input) (checked : leavesUnread w event) : LeavesUnread w event :=
    fun _ => of_decide_eq_true checked
  have reached₁ := System.reaches_of_guarded sound ran₁
  have reached₂ := System.reaches_of_guarded sound ran₂
  exact ⟨w₁, w₂, reached₁, reached₂, delivered₁,
    (sessions_do_not_interfere _ _ false _ _ _ _ (by decide) reached₁ reached₂).1⟩

/-- The other client is heard while the callback has yielded: its bytes end up in the upload. -/
theorem yieldingUpload_interfered :
    ∃ w₁ w₂, (eventLoop Bool 10).Reaches (fun _ _ => True) ⟨List.replicate 64 0, fun _ => {}, none⟩
        (yieldingUpload (stranger "????\r\n1\r\nX\r\n0\r\n\r\n")) w₁ ∧
      (eventLoop Bool 10).Reaches (fun _ _ => True) ⟨List.replicate 64 0, fun _ => {}, none⟩
        (yieldingUpload (stranger "????\r\n1\r\nY\r\n0\r\n\r\n")) w₂ ∧
      own false (yieldingUpload (stranger "????\r\n1\r\nX\r\n0\r\n\r\n")) =
        own false (yieldingUpload (stranger "????\r\n1\r\nY\r\n0\r\n\r\n")) ∧
      (w₁.conns false).req.delivered = [bytes "a", bytes "X"] ∧
      (w₂.conns false).req.delivered = [bytes "a", bytes "Y"] := by
  have ran₁ : ((eventLoop Bool 10).run ⟨List.replicate 64 0, fun _ => {}, none⟩
      (yieldingUpload (stranger "????\r\n1\r\nX\r\n0\r\n\r\n"))).map
        (fun w => (w.conns false).req.delivered) = some [bytes "a", bytes "X"] := by decide +kernel
  have ran₂ : ((eventLoop Bool 10).run ⟨List.replicate 64 0, fun _ => {}, none⟩
      (yieldingUpload (stranger "????\r\n1\r\nY\r\n0\r\n\r\n"))).map
        (fun w => (w.conns false).req.delivered) = some [bytes "a", bytes "Y"] := by decide +kernel
  obtain ⟨w₁, ran₁, delivered₁⟩ := Option.map_eq_some_iff.mp ran₁
  obtain ⟨w₂, ran₂, delivered₂⟩ := Option.map_eq_some_iff.mp ran₂
  exact ⟨w₁, w₂, System.reaches_of_run ran₁, System.reaches_of_run ran₂, by decide, delivered₁, delivered₂⟩

end Interference

end Dracon
