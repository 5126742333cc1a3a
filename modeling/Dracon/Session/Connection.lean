import Dracon.Http.Segmentation
import Dracon.Shared.StepSystem

set_option autoImplicit false

namespace Dracon

open Shared

-- What `parse_body` reads: `m_pending`, or the first bytes of the buffer of the event loop.
inductive Source where
  | pending
  | shared (size : Nat)
  deriving DecidableEq

inductive WriteKind where
  | interim
  | response
  deriving DecidableEq

inductive Caller where
  | session (kind : WriteKind)
  | callback (kind : WriteKind) (src : Source) (pos size : Nat)
  -- the 503 of a request that no plugin claims
  | unclaimed
  -- a `catch` block of `io_loop`
  | handler
  deriving DecidableEq

inductive Origin where
  | parser
  | socket
  | createSession
  | session
  | unclaimed
  deriving DecidableEq

-- Where the coroutine is.
inductive Control where
  | start
  -- the top of the loop of `io_loop`
  | request
  | headPending
  | headSome
  | headYield
  | createSession
  | session
  | sessionYield
  | readPending
  | readSome
  | readYield
  | parseBody (src : Source)
  | parseChunked (src : Source) (pos : Nat)
  -- the body callback has been given `size` bytes at `pos`
  | callback (src : Source) (pos size : Nat)
  | callbackYield (src : Source) (pos size : Nat)
  | write (job : List Bytes) (caller : Caller)
  | writeYield (job : List Bytes) (caller : Caller)
  | raised (exc : Exc) (origin : Origin)
  | closed
  deriving DecidableEq

structure Conn where
  control : Control := .start
  keepAlive : Int := 0
  parser : Parser := {}
  pending : Bytes := []
  canWriteError : Bool := false
  req : Request := {}
  -- what the coroutine was last resumed with
  lastYield : Option ErrorCode := none
  served : Nat := 0
  -- a `read` of the current request has failed
  readFailed : Bool := false
  -- `write_some` has accepted a byte of a response to the current request
  answered : Bool := false
  -- ... of a response other than an interim one
  responded : Bool := false
  deriving DecidableEq

inductive ReadResult where
  | error (ec : ErrorCode)
  | again
  | data (piece : Bytes)
  deriving DecidableEq

inductive WriteResult where
  | error (ec : ErrorCode)
  | again
  | accepted (size : Nat)
  deriving DecidableEq

inductive Created where
  | session
  | none
  | throws (exc : Exc)
  deriving DecidableEq

-- Sessions are arbitrary: what they get from `read` or `write` as an exception is theirs to pass on or to drop.
inductive Act where
  | read
  | write (kind : WriteKind) (buffers : List Bytes)
  | setKeepAlive (seconds : Int)
  | appendBodyCallback (callback : Bool) (maxSize : Nat)
  | setState (state : ParseState)
  | yield
  | throws (exc : Exc)
  | returns
  deriving DecidableEq

inductive Input where
  | run
  | readSome (result : ReadResult)
  | writeSome (result : WriteResult)
  | resume (ec : Option ErrorCode)
  | created (result : Created)
  | act (act : Act)
  deriving DecidableEq

namespace Conn

def view (buffer : Bytes) (c : Conn) : Source → Nat → Bytes
  | .pending, pos => c.pending.drop pos
  | .shared size, pos => (buffer.take size).drop pos

theorem view_add (buffer : Bytes) (c : Conn) (src : Source) (pos n : Nat) :
    c.view buffer src (pos + n) = (c.view buffer src pos).drop n := by
  cases src <;> simp [Conn.view, List.drop_drop]

def readFails (c : Conn) : Conn := { c with keepAlive := 0, readFailed := true, control := .session }

def bodyReturned (buffer : Bytes) (c : Conn) (src : Source) (pos : Nat) : Conn :=
  match src with
  | .pending =>
    { c with
      pending := c.pending.drop pos
      control := if c.req.state = .completed then .session else .readSome }
  | .shared size =>
    if c.req.state = .completed then
      { c with pending := c.view buffer (.shared size) pos, control := .session }
    else
      { c with pending := c.pending ++ c.view buffer (.shared size) pos, control := .readPending }

def turn (buffer : Bytes) (c : Conn) (src : Source) (pos : Nat) : Turn → Conn
  | .ret p req n => bodyReturned buffer { c with parser := p, req := req } src (pos + n)
  | .next p req n => { c with parser := p, req := req, control := .parseChunked src (pos + n) }
  | .call p req n =>
    { c with
      parser := p
      req := req.receive ((c.view buffer src pos).take n)
      control := .callback src pos n }
  | .fail _ p req => readFails { c with parser := p, req := req }

def headParsed (keepAliveTimeout : Int) (c : Conn) : Conn :=
  { c with
    keepAlive := if c.req.keepAlive then keepAliveTimeout else 0
    control := .createSession }

def parsePending (keepAliveTimeout : Int) (c : Conn) : Conn :=
  match parseHead c.parser c.pending c.req with
  | .error e => { c with control := .raised e .parser }
  | .ok (n, p, req) =>
    let c := { c with parser := p, req := req, pending := c.pending.drop n }
    if req.headParsed then c.headParsed keepAliveTimeout else { c with control := .headSome }

def parseReceived (keepAliveTimeout : Int) (c : Conn) (data : Bytes) : Conn :=
  match parseHead c.parser data c.req with
  | .error e => { c with control := .raised e .parser }
  | .ok (n, p, req) =>
    let c := { c with parser := p, req := req }
    if req.headParsed then { c with pending := data.drop n }.headParsed keepAliveTimeout
    else { c with pending := c.pending ++ data.drop n, control := .headPending }

def writeReturned (c : Conn) : Caller → Conn
  | .session _ => { c with control := .session }
  | .callback _ src pos size => { c with control := .callback src pos size }
  | .unclaimed | .handler => { c with control := .closed }

def writeFails (c : Conn) (ec : ErrorCode) : Caller → Conn
  | .unclaimed => { c with control := .raised (.errorCode ec) .unclaimed }
  | caller => c.writeReturned caller

def startWrite (c : Conn) (buffers : List Bytes) (caller : Caller) : Conn :=
  if buffers.flatten = [] then c.writeReturned caller else { c with control := .write buffers caller }

-- Drops what went out completely, and shortens the buffer that went out half way.
def dropWritten (written : Nat) : List Bytes → List Bytes
  | [] => []
  | buffer :: rest =>
    if buffer.length ≤ written then dropWritten (written - buffer.length) rest
    else buffer.drop written :: rest

def answers : Caller → Bool
  | .handler => false
  | _ => true

def responds : Caller → Bool
  | .session kind | .callback kind _ _ _ => kind = .response
  | .unclaimed => true
  | .handler => false

def accepted (c : Conn) (job : List Bytes) (caller : Caller) (size : Nat) : Conn :=
  let c := { c with
    canWriteError := false
    answered := c.answered || (0 < size && answers caller)
    responded := c.responded || (0 < size && responds caller) }
  if size = 0 then { c with control := .writeYield job caller }
  else match dropWritten size job with
    | [] => c.writeReturned caller
    | job => { c with control := .write job caller }

def sessionReturned (c : Conn) : Conn :=
  let c := if c.req.state ≠ .completed then { c with keepAlive := 0 } else c
  { c with
    served := c.served + 1
    control := if c.lastYield = none ∧ c.keepAlive ≠ 0 then .request else .closed }

def errorResponse : Exc → Bytes
  | .int error =>
    { statusCode := if 0 < error ∧ error < 65535 then error.toNat.toUInt16 else 500 : Response }.toString
  | .response res => res.toString
  | .stdException what => { statusCode := 500, body := what : Response }.toString
  | .errorCode ec => { statusCode := 500, body := ec.message : Response }.toString
  | .unknown => ({} : Response).toString

def sessionStep (c : Conn) : Act → Conn
  | .read =>
    if c.req.state = .completed then c
    else { c with canWriteError := true, control := .readPending }
  | .write kind buffers => c.startWrite buffers (.session kind)
  | .setKeepAlive seconds => { c with keepAlive := seconds }
  | .appendBodyCallback callback maxSize => { c with req := c.req.appendBodyCallback callback maxSize }
  | .setState state => { c with req := { c.req with state := state } }
  | .yield => { c with control := .sessionYield }
  | .throws exc => { c with control := .raised exc .session }
  | .returns => c.sessionReturned

def callbackStep (buffer : Bytes) (c : Conn) (src : Source) (pos size : Nat) : Act → Option Conn
  | .write kind buffers => some (c.startWrite buffers (.callback kind src pos size))
  | .setKeepAlive seconds => some { c with keepAlive := seconds }
  | .setState state => some { c with req := { c.req with state := state } }
  | .yield => some { c with control := .callbackYield src pos size }
  | .throws _ => some c.readFails
  | .returns => some (c.turn buffer src pos (delivered c.parser c.req size))
  | .appendBodyCallback callback maxSize => some { c with req := c.req.appendBodyCallback callback maxSize }
  | .read => none

-- The bytes `read_some` may bring: some, and no more than the buffer holds.
def fits (buffer data : Bytes) : Prop := data ≠ [] ∧ data.length ≤ buffer.length

instance (buffer data : Bytes) : Decidable (fits buffer data) := inferInstanceAs (Decidable (_ ∧ _))

def readHeadersStep (keepAliveTimeout : Int) (buffer : Bytes) (c : Conn) (input : Input) : Option Conn :=
  match c.control, input with
  | .headPending, .run =>
    if c.pending = [] then some { c with control := .headSome }
    else some (c.parsePending keepAliveTimeout)
  | .headSome, .readSome (.error ec) => some { c with control := .raised (.errorCode ec) .socket }
  | .headSome, .readSome .again => some { c with control := .headYield }
  | .headSome, .readSome (.data data) =>
    if ¬ fits buffer data then none
    else if c.pending = [] then some ({ c with canWriteError := true }.parseReceived keepAliveTimeout data)
    else some { c with canWriteError := true, pending := c.pending ++ data, control := .headPending }
  | .headYield, .resume none => some { c with lastYield := none, control := .headPending }
  | .headYield, .resume (some ec) =>
    some { c with lastYield := some ec, control := .raised (.errorCode ec) .socket }
  | _, _ => none

def readStep (buffer : Bytes) (c : Conn) (input : Input) : Option Conn :=
  match c.control, input with
  | .readPending, .run =>
    some { c with control := if c.pending = [] then .readSome else .parseBody .pending }
  | .readSome, .readSome (.error _) => some c.readFails
  | .readSome, .readSome .again => some { c with control := .readYield }
  | .readSome, .readSome (.data data) =>
    if ¬ fits buffer data then none
    else if c.pending = [] then some { c with control := .parseBody (.shared data.length) }
    else some { c with pending := c.pending ++ data, control := .readPending }
  | .readYield, .resume none => some { c with lastYield := none, control := .readPending }
  | .readYield, .resume (some ec) => some { c with lastYield := some ec }.readFails
  | .parseBody src, .run => some (c.turn buffer src 0 (bodyTurn c.parser c.req (c.view buffer src 0)))
  | .parseChunked src pos, .run =>
    some (c.turn buffer src pos (chunkTurn c.parser c.req (c.view buffer src pos)))
  | .callback src pos size, .act act => c.callbackStep buffer src pos size act
  | .callbackYield src pos size, .resume ec =>
    some { c with lastYield := ec, control := .callback src pos size }
  | _, _ => none

def writeStep (c : Conn) (input : Input) : Option Conn :=
  match c.control, input with
  | .write _ caller, .writeSome (.error ec) => some (c.writeFails ec caller)
  | .write job caller, .writeSome .again => some { c with control := .writeYield job caller }
  | .write job caller, .writeSome (.accepted size) =>
    if size ≤ job.flatten.length then some (c.accepted job caller size) else none
  | .writeYield job caller, .resume none =>
    some { c with lastYield := none, control := .write job caller }
  | .writeYield _ caller, .resume (some ec) => some ({ c with lastYield := some ec }.writeFails ec caller)
  | _, _ => none

def ioLoopStep (c : Conn) (input : Input) : Option Conn :=
  match c.control, input with
  | .start, .resume ec => some { c with lastYield := ec, control := .request }
  | .request, .run =>
    some { c with
      req := {}, readFailed := false, answered := false, responded := false, control := .headPending }
  | .createSession, .created .session => some { c with control := .session }
  | .createSession, .created .none =>
    some (c.startWrite [{ statusCode := 503 : Response }.toString] .unclaimed)
  | .createSession, .created (.throws exc) => some { c with control := .raised exc .createSession }
  | .session, .act act => some (c.sessionStep act)
  | .sessionYield, .resume ec => some { c with lastYield := ec, control := .session }
  | .raised exc _, .run =>
    if c.canWriteError then some (c.startWrite [errorResponse exc] .handler)
    else some { c with control := .closed }
  | _, _ => none

def step (keepAliveTimeout : Int) (buffer : Bytes) (c : Conn) (input : Input) : Option Conn :=
  match c.control with
  | .headPending | .headSome | .headYield => c.readHeadersStep keepAliveTimeout buffer input
  | .readPending | .readSome | .readYield | .parseBody _ | .parseChunked .. | .callback ..
  | .callbackYield .. => c.readStep buffer input
  | .write .. | .writeYield .. => c.writeStep input
  | _ => c.ioLoopStep input

end Conn

def Control.suspended : Control → Bool
  | .start | .headYield | .sessionYield | .readYield | .callbackYield .. | .writeYield .. => true
  | _ => false

def Input.fill (buffer : Bytes) : Input → Bytes
  | .readSome (.data data) => data ++ buffer.drop data.length
  | _ => buffer

structure Served where
  buffer : Bytes
  conn : Conn := {}
  deriving DecidableEq

inductive Event where
  | own (input : Input)
  -- other sessions have used the buffer
  | others (buffer : Bytes)
  deriving DecidableEq

-- One connection among others that do anything they like when it has yielded.
def connection (keepAliveTimeout : Int) : System Served Event where
  step s
    | .own input => (s.conn.step keepAliveTimeout s.buffer input).map fun c => ⟨input.fill s.buffer, c⟩
    | .others buffer =>
      if s.conn.control.suspended ∧ buffer.length = s.buffer.length then some ⟨buffer, s.conn⟩ else none

theorem connection_own {keepAliveTimeout : Int} {s s' : Served} {input : Input} :
    (connection keepAliveTimeout).step s (.own input) = some s' ↔
      s.conn.step keepAliveTimeout s.buffer input = some s'.conn ∧ s'.buffer = input.fill s.buffer := by
  obtain ⟨buffer', c'⟩ := s'
  simp only [connection, Option.map_eq_some_iff, Served.mk.injEq]
  grind

theorem connection_others {keepAliveTimeout : Int} {s s' : Served} {buffer : Bytes} :
    (connection keepAliveTimeout).step s (.others buffer) = some s' ↔
      s.conn.control.suspended ∧ buffer.length = s.buffer.length ∧ s' = ⟨buffer, s.conn⟩ := by
  simp only [connection, Option.ite_none_right_eq_some, Option.some.injEq]
  grind

theorem conn_invariant {keepAliveTimeout : Int} {ok : Served → Event → Prop} {P : Conn → Prop}
    {buffer : Bytes} {events : List Event} {s : Served} (start : P {})
    (keeps : ∀ {s input c'}, P s.conn → ok s (.own input) →
      s.conn.step keepAliveTimeout s.buffer input = some c' → P c')
    (reached : (connection keepAliveTimeout).Reaches ok ⟨buffer, {}⟩ events s) : P s.conn := by
  refine reached.invariant (P := fun _ s => P s.conn) start ?_
  intro _ event s s' before allowed taken
  cases event with
  | own input => exact keeps before allowed (connection_own.mp taken).1
  | others buffer =>
    obtain ⟨-, -, rfl⟩ := connection_others.mp taken
    exact before

def firstRequest (data : Bytes) : List Event :=
  [.own (.resume none), .own .run, .own .run, .own (.readSome (.data data)), .own (.created .session)]

end Dracon
