import Dracon.Session.Connection

set_option autoImplicit false

namespace Dracon

open Shared

inductive Phase where
  | idle
  | head
  | handling
  | handler
  deriving DecidableEq

def Origin.counts : Origin → Bool
  | .parser | .createSession | .session => true
  | .socket | .unclaimed => false

def Caller.phase : Caller → Phase
  | .session _ | .callback .. => .handling
  | .unclaimed => .idle
  | .handler => .handler

def Control.phase : Control → Phase
  | .start | .request | .closed => .idle
  | .headPending | .headSome | .headYield => .head
  | .raised _ origin => if origin.counts then .handling else .idle
  | .write _ caller | .writeYield _ caller => caller.phase
  | _ => .handling

structure Flags where
  canWriteError : Bool
  answered : Bool
  responded : Bool

def Conn.flags (c : Conn) : Flags := ⟨c.canWriteError, c.answered, c.responded⟩

-- A head is about to be completed, or rejected, out of what `m_pending` holds.
def Conn.LeftOver (c : Conn) : Prop :=
  c.control = .headPending ∧ c.pending ≠ [] ∧
    ∀ n p req, parseHead c.parser c.pending c.req = .ok (n, p, req) → req.headParsed

inductive Effect (c c' : Conn) : Input → Prop
  | silent {input : Input} : c'.flags = c.flags →
      (c'.control.phase = c.control.phase ∨ c'.control.phase = .idle) → Effect c c' input
  -- the next request
  | begins : c'.flags = ⟨c.canWriteError, false, false⟩ → c'.control.phase = .head → Effect c c' .run
  | leftOver : c.LeftOver → c'.flags = c.flags → c'.control.phase = .handling → Effect c c' .run
  -- bytes of a head are received
  | hears {data : Bytes} : c.control = .headSome → c'.flags = { c.flags with canWriteError := true } →
      (c'.control.phase = .head ∨ c'.control.phase = .handling) → Effect c c' (.readSome (.data data))
  -- `read` is entered
  | reads : c.control = .session → c.req.state ≠ .completed →
      c'.flags = { c.flags with canWriteError := true } → c'.control.phase = .handling →
      Effect c c' (.act .read)
  | accepts {job : List Bytes} {caller : Caller} {size : Nat} : c.control = .write job caller →
      c'.flags = ⟨false, c.answered || (0 < size && Conn.answers caller),
        c.responded || (0 < size && Conn.responds caller)⟩ →
      (c'.control.phase = caller.phase ∨ c'.control.phase = .idle) →
      Effect c c' (.writeSome (.accepted size))
  -- a `catch` block writes its response
  | catches {exc : Exc} {origin : Origin} : c.control = .raised exc origin → c.canWriteError = true →
      c'.flags = c.flags → (c'.control.phase = .handler ∨ c'.control.phase = .idle) → Effect c c' .run

variable {keepAliveTimeout : Int} {buffer : Bytes} {c c' : Conn} {input : Input}

theorem writeReturned_phase (c : Conn) (caller : Caller) :
    (c.writeReturned caller).flags = c.flags ∧ ((c.writeReturned caller).control.phase = caller.phase ∨
      (c.writeReturned caller).control.phase = .idle) := by
  cases caller <;> simp [Conn.writeReturned, Conn.flags, Control.phase, Caller.phase]

theorem writeFails_phase (c : Conn) (ec : ErrorCode) (caller : Caller) :
    (c.writeFails ec caller).flags = c.flags ∧ ((c.writeFails ec caller).control.phase = caller.phase ∨
      (c.writeFails ec caller).control.phase = .idle) := by
  cases caller <;>
    simp [Conn.writeFails, Conn.writeReturned, Conn.flags, Control.phase, Caller.phase, Origin.counts]

theorem startWrite_phase (c : Conn) (buffers : List Bytes) (caller : Caller) :
    (c.startWrite buffers caller).flags = c.flags ∧
      ((c.startWrite buffers caller).control.phase = caller.phase ∨
        (c.startWrite buffers caller).control.phase = .idle) := by
  unfold Conn.startWrite
  split_ifs
  · exact writeReturned_phase c caller
  · exact ⟨rfl, .inl rfl⟩

theorem accepted_phase (c : Conn) (job : List Bytes) (caller : Caller) (size : Nat) :
    (c.accepted job caller size).flags = ⟨false, c.answered || (0 < size && Conn.answers caller),
        c.responded || (0 < size && Conn.responds caller)⟩ ∧
      ((c.accepted job caller size).control.phase = caller.phase ∨
        (c.accepted job caller size).control.phase = .idle) := by
  unfold Conn.accepted
  dsimp only
  split_ifs
  · exact ⟨rfl, .inl rfl⟩
  · split
    · exact writeReturned_phase _ caller
    · exact ⟨rfl, .inl rfl⟩

theorem turn_phase (buffer : Bytes) (c : Conn) (src : Source) (pos : Nat) (turn : Turn) :
    (c.turn buffer src pos turn).flags = c.flags ∧ (c.turn buffer src pos turn).control.phase = .handling := by
  cases turn with
  | ret p req n =>
    cases src <;> simp only [Conn.turn, Conn.bodyReturned] <;> split_ifs <;> exact ⟨rfl, rfl⟩
  | _ => exact ⟨rfl, rfl⟩

theorem parsePending_effect (control : c.control = .headPending) (filled : c.pending ≠ []) :
    Effect c (c.parsePending keepAliveTimeout) .run := by
  unfold Conn.parsePending
  cases result : parseHead c.parser c.pending c.req with
  | error e => exact .leftOver ⟨control, filled, by simp [result]⟩ rfl rfl
  | ok r =>
    obtain ⟨n, p, req⟩ := r
    by_cases parsed : req.headParsed
    · simp only [parsed, if_true]
      exact .leftOver ⟨control, filled, by simp [result, parsed]⟩ rfl rfl
    · simp only [parsed, Bool.false_eq_true, if_false]
      exact .silent rfl (.inl (by simp [control, Control.phase]))

theorem parseReceived_phase (keepAliveTimeout : Int) (c : Conn) (data : Bytes) :
    (c.parseReceived keepAliveTimeout data).flags = c.flags ∧
      ((c.parseReceived keepAliveTimeout data).control.phase = .head ∨
        (c.parseReceived keepAliveTimeout data).control.phase = .handling) := by
  unfold Conn.parseReceived
  cases parseHead c.parser data c.req with
  | error e => exact ⟨rfl, .inr rfl⟩
  | ok r =>
    dsimp only
    split_ifs
    · exact ⟨rfl, .inr rfl⟩
    · exact ⟨rfl, .inl rfl⟩

theorem readHeadersStep_effect (taken : c.readHeadersStep keepAliveTimeout buffer input = some c') :
    Effect c c' input := by
  unfold Conn.readHeadersStep at taken
  split at taken
  · rename_i control
    split_ifs at taken with empty <;> cases taken
    · exact .silent rfl (.inl (by simp [control, Control.phase]))
    · exact parsePending_effect control empty
  · cases taken
    exact .silent rfl (.inr rfl)
  · rename_i control
    cases taken
    exact .silent rfl (.inl (by simp [control, Control.phase]))
  · rename_i data control
    split_ifs at taken with fits empty <;> cases taken
    · have received := parseReceived_phase keepAliveTimeout { c with canWriteError := true } data
      exact .hears control received.1 received.2
    · exact .hears control rfl (.inl rfl)
  · rename_i control
    cases taken
    exact .silent rfl (.inl (by simp [control, Control.phase]))
  · cases taken
    exact .silent rfl (.inr rfl)
  · cases taken

theorem callbackStep_effect {src : Source} {pos size : Nat} {act : Act}
    (control : c.control = .callback src pos size)
    (taken : c.callbackStep buffer src pos size act = some c') : Effect c c' (.act act) := by
  have here : c.control.phase = .handling := by rw [control]; rfl
  cases act with
  | write kind buffers =>
    cases taken
    have wrote := startWrite_phase c buffers (.callback kind src pos size)
    exact .silent wrote.1 (here ▸ wrote.2)
  | returns =>
    cases taken
    have turned := turn_phase buffer c src pos (delivered c.parser c.req size)
    exact .silent turned.1 (.inl (turned.2.trans here.symm))
  | read => cases taken
  | _ =>
    cases taken
    exact .silent rfl (.inl (by simp [control, Control.phase, Conn.readFails]))

theorem readStep_effect (taken : c.readStep buffer input = some c') : Effect c c' input := by
  have stays (here : c.control.phase = .handling) (same : c'.flags = c.flags)
      (there : c'.control.phase = .handling) : Effect c c' input := .silent same (.inl (there.trans here.symm))
  unfold Conn.readStep at taken
  split at taken
  case h_9 control => exact callbackStep_effect control taken
  case h_11 => cases taken
  all_goals
    rename_i control
    have here : c.control.phase = .handling := by rw [control]; rfl
  case h_1 =>
    cases taken
    exact stays here rfl (by dsimp only; split_ifs <;> rfl)
  case h_4 => split_ifs at taken <;> cases taken <;> exact stays here rfl rfl
  case h_7 | h_8 =>
    cases taken
    exact stays here (turn_phase ..).1 (turn_phase ..).2
  all_goals
    cases taken
    exact stays here rfl rfl

theorem writeStep_effect (taken : c.writeStep input = some c') : Effect c c' input := by
  unfold Conn.writeStep at taken
  split at taken
  · rename_i caller ec control
    cases taken
    have failed := writeFails_phase c ec caller
    exact .silent failed.1 (by simpa [control, Control.phase] using failed.2)
  · rename_i control
    cases taken
    exact .silent rfl (.inl (by simp [control, Control.phase]))
  · rename_i job caller size control
    split_ifs at taken
    cases taken
    have wrote := accepted_phase c job caller size
    exact .accepts control wrote.1 wrote.2
  · rename_i control
    cases taken
    exact .silent rfl (.inl (by simp [control, Control.phase]))
  · rename_i caller ec control
    cases taken
    have failed := writeFails_phase { c with lastYield := some ec } ec caller
    exact .silent failed.1 (by simpa [control, Control.phase] using failed.2)
  · cases taken

theorem sessionStep_effect {act : Act} (control : c.control = .session) :
    Effect c (c.sessionStep act) (.act act) := by
  have here : c.control.phase = .handling := by rw [control]; rfl
  cases act with
  | read =>
    simp only [Conn.sessionStep]
    split_ifs with completed
    · exact .silent rfl (.inl rfl)
    · exact .reads control completed rfl rfl
  | write kind buffers =>
    have wrote := startWrite_phase c buffers (.session kind)
    exact .silent wrote.1 (here ▸ wrote.2)
  | returns =>
    simp only [Conn.sessionStep, Conn.sessionReturned]
    exact .silent (by split_ifs <;> rfl) (.inr (by split_ifs <;> rfl))
  | _ => exact .silent rfl (.inl (by simp [Conn.sessionStep, control, Control.phase, Origin.counts]))

theorem ioLoopStep_effect (taken : c.ioLoopStep input = some c') : Effect c c' input := by
  unfold Conn.ioLoopStep at taken
  split at taken
  · cases taken
    exact .silent rfl (.inr rfl)
  · cases taken
    exact .begins rfl rfl
  · rename_i control
    cases taken
    exact .silent rfl (.inl (by simp [control, Control.phase]))
  · cases taken
    have wrote := startWrite_phase c [{ statusCode := 503 : Response }.toString] .unclaimed
    exact .silent wrote.1 (.inr (wrote.2.elim id id))
  · rename_i control
    cases taken
    exact .silent rfl (.inl (by simp [control, Control.phase, Origin.counts]))
  · rename_i control
    cases taken
    exact sessionStep_effect control
  · rename_i control
    cases taken
    exact .silent rfl (.inl (by simp [control, Control.phase]))
  · rename_i exc _ control
    split_ifs at taken with can <;> cases taken
    · have wrote := startWrite_phase c [Conn.errorResponse exc] .handler
      exact .catches control can wrote.1 wrote.2
    · exact .silent rfl (.inr rfl)
  · cases taken

theorem step_effect (taken : c.step keepAliveTimeout buffer input = some c') : Effect c c' input := by
  unfold Conn.step at taken
  split at taken
  iterate 3 exact readHeadersStep_effect taken
  iterate 7 exact readStep_effect taken
  iterate 2 exact writeStep_effect taken
  exact ioLoopStep_effect taken

section Answers

-- The handling of a request has failed, and no byte of a response to it has gone out.
def Conn.Unanswered (c : Conn) (exc : Exc) : Prop :=
  ∃ origin, c.control = .raised exc origin ∧ origin.counts ∧ c.answered = false

def AnswersErrors (keepAliveTimeout : Int) (s : Served) : Prop :=
  ∀ exc, s.conn.Unanswered exc → (connection keepAliveTimeout).step s (.own .run) =
    some { s with conn := { s.conn with control := .write [Conn.errorResponse exc] .handler } }

-- The error flag is set whenever a head is completed or rejected out of left over bytes, and `write_some` does not succeed with
-- nothing.
def KeepsErrorsOpen (s : Served) (event : Event) : Prop :=
  (s.conn.LeftOver → s.conn.canWriteError) ∧ event ≠ .own (.writeSome (.accepted 0))

def ErrorsOpen (c : Conn) : Prop :=
  c.control.phase = .handling → c.answered = false → c.canWriteError = true

theorem Caller.answers_of_handling {caller : Caller} (handling : caller.phase = .handling) :
    Conn.answers caller = true := by
  cases caller <;> simp_all [Caller.phase, Conn.answers]

theorem Effect.errorsOpen (effect : Effect c c' input) (before : ErrorsOpen c)
    (leftOver : c.LeftOver → c.canWriteError) (filled : input ≠ .writeSome (.accepted 0)) :
    ErrorsOpen c' := by
  intro handling unanswered
  cases effect with
  | silent same phase =>
    simp only [Conn.flags, Flags.mk.injEq] at same
    rw [same.2.1] at unanswered
    rw [same.1]
    exact before (phase.elim (·.symm.trans handling) (by simp [handling])) unanswered
  | begins _ phase => simp [phase] at handling
  | leftOver left same =>
    simp only [Conn.flags, Flags.mk.injEq] at same
    exact same.1.trans (leftOver left)
  | hears _ same => exact congrArg Flags.canWriteError same
  | reads _ _ same => exact congrArg Flags.canWriteError same
  | @accepts job caller size _ same phase =>
    have answers := Caller.answers_of_handling
      (phase.elim (·.symm.trans handling) (by simp [handling]) : caller.phase = .handling)
    have some : 0 < size := Nat.pos_of_ne_zero fun none => filled (by rw [none])
    simp only [Conn.flags, Flags.mk.injEq] at same
    simp [same.2.1, answers, some] at unanswered
  | catches _ _ _ phase => simp [handling] at phase

theorem errorResponse_ne_nil (exc : Exc) : Conn.errorResponse exc ≠ [] := by
  have text (res : Response) : res.toString ≠ [] := by
    simp [Response.toString, statusCodeString]
  cases exc <;> exact text _

/--
Every request that fails unanswered gets its error response, as long as no head is taken
out of left over bytes with the error flag down.
-/
theorem failing_requests_answered (keepAliveTimeout : Int) (buffer : Bytes) (events : List Event)
    (s : Served)
    (reached : (connection keepAliveTimeout).Reaches KeepsErrorsOpen ⟨buffer, {}⟩ events s) :
    AnswersErrors keepAliveTimeout s := by
  have kept := conn_invariant (P := ErrorsOpen) (by simp [ErrorsOpen, Control.phase])
    (fun before ok taken => (step_effect taken).errorsOpen before ok.1 fun same => ok.2 (by rw [same]))
    reached
  rintro exc ⟨origin, control, counts, unanswered⟩
  have can := kept (by simp [control, Control.phase, counts]) unanswered
  refine connection_own.mpr ⟨?_, rfl⟩
  simp [Conn.step, control, Conn.ioLoopStep, can, Conn.startWrite, errorResponse_ne_nil]

theorem keepsErrorsOpen_of_check {s : Served} {event : Event}
    (checked : ((s.conn.pending = [] ∨ s.conn.canWriteError) ∧ event ≠ .own (.writeSome (.accepted 0)))) :
    KeepsErrorsOpen s event :=
  ⟨fun left => checked.1.resolve_left left.2.1, checked.2⟩

theorem failing_requests_answered_post :
    let failure := firstRequest (bytes "POST / HTTP/1.1\r\nContent-Length: 1\r\n\r\n") ++
      [.own (.act (.throws (.int 404)))]
    ∃ s, (connection 10).Reaches KeepsErrorsOpen ⟨List.replicate 64 0, {}⟩ failure s ∧
      s.conn.Unanswered (.int 404) ∧ AnswersErrors 10 s := by
  intro failure
  have ran : (((connection 10).guarded fun s event =>
      (s.conn.pending = [] ∨ s.conn.canWriteError) ∧ event ≠ .own (.writeSome (.accepted 0))).run
        ⟨List.replicate 64 0, {}⟩ failure).map (fun s => (s.conn.control, s.conn.answered)) =
        some (.raised (.int 404) .session, false) := by decide +kernel
  obtain ⟨s, ran, state⟩ := Option.map_eq_some_iff.mp ran
  obtain ⟨control, unanswered⟩ := Prod.mk.inj state
  have reached := System.reaches_of_guarded
    (fun _ _ checked => keepsErrorsOpen_of_check (of_decide_eq_true checked)) ran
  exact ⟨s, reached, ⟨.session, control, rfl, unanswered⟩, failing_requests_answered _ _ _ _ reached⟩

def pipelinedFailure : List Event :=
  firstRequest (bytes "GET / HTTP/1.1\r\n\r\nGET / HTTP/1.1\r\n\r\n") ++
    [.own (.act (.write .response [bytes "HTTP/1.1 204 No Content\r\n\r\n"])),
      .own (.writeSome (.accepted 27)), .own (.act .returns), .own .run, .own .run,
      .own (.created .session), .own (.act (.throws (.int 404)))]

theorem pipelinedFailure_unanswered :
    ∃ s, (connection 10).Reaches (fun _ _ => True) ⟨List.replicate 64 0, {}⟩ pipelinedFailure s ∧
      s.conn.Unanswered (.int 404) ∧ ¬ AnswersErrors 10 s := by
  have ran : ((connection 10).run ⟨List.replicate 64 0, {}⟩ pipelinedFailure).map
      (fun s => (s.conn.control, s.conn.answered, s.conn.canWriteError)) =
        some (.raised (.int 404) .session, false, false) := by decide +kernel
  obtain ⟨s, ran, state⟩ := Option.map_eq_some_iff.mp ran
  simp only [Prod.mk.injEq] at state
  obtain ⟨control, unanswered, cannot⟩ := state
  have failed : s.conn.Unanswered (.int 404) := ⟨.session, control, rfl, unanswered⟩
  refine ⟨s, System.reaches_of_run ran, failed, fun answers => ?_⟩
  have step := (connection_own.mp (answers _ failed)).1
  simp [Conn.step, control, Conn.ioLoopStep, cannot] at step

end Answers

section Splicing

def NotSpliced (keepAliveTimeout : Int) (s : Served) : Prop :=
  s.conn.responded →
    (∀ job, s.conn.control ≠ .write job .handler ∧ s.conn.control ≠ .writeYield job .handler) ∧
    ∀ exc origin, s.conn.control = .raised exc origin →
      (connection keepAliveTimeout).step s (.own .run) =
        some { s with conn := { s.conn with control := .closed } }

-- `read` is not entered for a request whose response has begun.
def ReadsFirst (s : Served) (event : Event) : Prop :=
  event = .own (.act .read) → s.conn.control = .session → s.conn.req.state ≠ .completed →
    s.conn.responded = false

structure ErrorsShut (c : Conn) : Prop where
  head : c.control.phase = .head → c.responded = false
  handler : c.control.phase = .handler → c.responded = false
  flag : c.responded → c.canWriteError = false

theorem Caller.phase_ne_head (caller : Caller) : caller.phase ≠ .head := by
  cases caller <;> simp [Caller.phase]

theorem Caller.not_responds {caller : Caller} (handler : caller.phase = .handler) :
    Conn.responds caller = false := by
  cases caller <;> simp_all [Caller.phase, Conn.responds]

theorem Effect.errorsShut (effect : Effect c c' input) (before : ErrorsShut c)
    (reads : input = .act .read → c.control = .session → c.req.state ≠ .completed →
      c.responded = false) : ErrorsShut c' := by
  obtain ⟨head, handler, flag⟩ := before
  cases effect with
  | silent same phase =>
    simp only [Conn.flags, Flags.mk.injEq] at same
    constructor <;> grind
  | begins same phase =>
    simp only [Conn.flags, Flags.mk.injEq] at same
    constructor <;> simp [same]
  | leftOver _ same phase =>
    simp only [Conn.flags, Flags.mk.injEq] at same
    constructor <;> simp_all
  | hears control same phase =>
    simp only [Conn.flags, Flags.mk.injEq] at same
    have quiet := head (by simp [control, Control.phase])
    constructor <;> simp [same, quiet]
  | reads control unfinished same =>
    simp only [Conn.flags, Flags.mk.injEq] at same
    have quiet := reads rfl control unfinished
    constructor <;> simp [same, quiet]
  | @accepts job caller size control same phase =>
    simp only [Conn.flags, Flags.mk.injEq] at same
    have here : c.control.phase = caller.phase := by rw [control]; rfl
    have other := caller.phase_ne_head
    refine ⟨fun there => by grind, fun there => ?_, by simp [same]⟩
    have writes : caller.phase = .handler := by grind
    simp [same, handler (here.trans writes), Caller.not_responds writes]
  | catches _ can same phase =>
    simp only [Conn.flags, Flags.mk.injEq] at same
    constructor <;> grind

/--
No error response is spliced into a response that has begun, as long as `read` is not
called for a request once its response has begun.
-/
theorem error_responses_not_spliced (keepAliveTimeout : Int) (buffer : Bytes) (events : List Event)
    (s : Served) (reached : (connection keepAliveTimeout).Reaches ReadsFirst ⟨buffer, {}⟩ events s) :
    NotSpliced keepAliveTimeout s := by
  have shut := conn_invariant (P := ErrorsShut) (by constructor <;> simp)
    (fun before ok taken => (step_effect taken).errorsShut before fun same => ok (by rw [same])) reached
  intro responded
  refine ⟨fun job => ⟨fun control => ?_, fun control => ?_⟩, fun exc origin control => ?_⟩
  · simpa [responded] using shut.handler (by simp [control, Control.phase, Caller.phase])
  · simpa [responded] using shut.handler (by simp [control, Control.phase, Caller.phase])
  · refine connection_own.mpr ⟨?_, rfl⟩
    simp [Conn.step, control, Conn.ioLoopStep, shut.flag responded]

theorem error_responses_not_spliced_get :
    let failure := firstRequest (bytes "GET / HTTP/1.1\r\n\r\n") ++
      [.own (.act (.write .response [bytes "HTTP/1.1 200 OK\r\n"])), .own (.writeSome (.accepted 9)),
        .own (.writeSome .again), .own (.resume (some ⟨bytes "reset"⟩)),
        .own (.act (.throws (.errorCode ⟨bytes "reset"⟩)))]
    ∃ s, (connection 10).Reaches ReadsFirst ⟨List.replicate 64 0, {}⟩ failure s ∧
      s.conn.responded ∧ NotSpliced 10 s := by
  intro failure
  have ran : (((connection 10).guarded fun _ event => event ≠ .own (.act .read)).run
      ⟨List.replicate 64 0, {}⟩ failure).map (fun s => s.conn.responded) = some true := by decide +kernel
  obtain ⟨s, ran, responded⟩ := Option.map_eq_some_iff.mp ran
  have reached : (connection 10).Reaches ReadsFirst _ failure s := System.reaches_of_guarded
    (fun _ _ checked entered => absurd entered (of_decide_eq_true checked)) ran
  exact ⟨s, reached, responded, error_responses_not_spliced _ _ _ _ reached⟩

def lateRead : List Event :=
  firstRequest (bytes "POST / HTTP/1.1\r\nContent-Length: 1\r\n\r\n") ++
    [.own (.act (.write .response [bytes "HTTP/1.1 200 OK\r\n"])), .own (.writeSome (.accepted 17)),
      .own (.act .read), .own .run, .own (.readSome (.error ⟨bytes "reset"⟩)),
      .own (.act (.throws (.errorCode ⟨bytes "reset"⟩))), .own .run]

theorem lateRead_spliced :
    ∃ s, (connection 10).Reaches (fun _ _ => True) ⟨List.replicate 64 0, {}⟩ lateRead s ∧
      s.conn.control = .write [Conn.errorResponse (.errorCode ⟨bytes "reset"⟩)] .handler ∧
      ¬ NotSpliced 10 s := by
  have ran : ((connection 10).run ⟨List.replicate 64 0, {}⟩ lateRead).map
      (fun s => (s.conn.control, s.conn.responded)) =
        some (.write [Conn.errorResponse (.errorCode ⟨bytes "reset"⟩)] .handler, true) := by
    decide +kernel
  obtain ⟨s, ran, state⟩ := Option.map_eq_some_iff.mp ran
  obtain ⟨control, responded⟩ := Prod.mk.inj state
  exact ⟨s, System.reaches_of_run ran, control, fun holds => ((holds responded).1 _).1 control⟩

end Splicing

end Dracon
