import Dracon.Http.HeadMeaning
import Dracon.Session.Pipelining

set_option autoImplicit false

namespace Dracon

open Shared

-- What a body callback was handed when it called `read` itself.
structure Delivery where
  src : Source
  pos : Nat
  size : Nat
  deriving DecidableEq

-- A connection whose body callbacks may call `read`.
structure Nested where
  served : Served
  -- the callbacks that wait for the `read` they have called
  outer : List Delivery := []
  -- the callback that runs has called `read`
  reread : Bool := false
  deriving DecidableEq

inductive NestedEvent where
  | plain (event : Event)
  -- the body callback calls `read`
  | reread
  deriving DecidableEq

namespace Control

def inCallback : Control → Bool
  | .callback .. | .callbackYield .. | .write _ (.callback ..) | .writeYield _ (.callback ..) => true
  | _ => false

end Control

-- `m_remaining -= size`, when the `read` in between has changed `m_remaining`
def deliveredAgain (p : Parser) (req : Request) (n : Nat) : Turn :=
  let left := sizeSub p.remaining n
  if p.body = .chunked then .next { p with remaining := left, chunk := if left = 0 then .dataEnd else p.chunk } req n
  else .ret { p with remaining := left } (if left = 0 then { req with state := .completed } else req) n

namespace Nested

variable (n : Nested)

-- a nested `read` that is over, or that has failed, is back in the callback that has called it
def settle (s : Served) : Nested :=
  match n.outer with
  | d :: outer =>
    if s.conn.control = .session then
      { served := { s with conn := { s.conn with control := .callback d.src d.pos d.size } }, outer := outer, reread := true }
    else { served := s, outer := n.outer, reread := n.reread && s.conn.control.inCallback }
  | [] => { served := s, reread := n.reread && s.conn.control.inCallback }

-- the callback that has called `read` returns
def returns (src : Source) (pos size : Nat) : Nested :=
  let c := n.served.conn
  n.settle { n.served with conn := c.turn n.served.buffer src pos (deliveredAgain c.parser c.req size) }

def plainStep (keepAliveTimeout : Int) (event : Event) : Option Nested :=
  match n.reread, n.served.conn.control, event with
  | true, .callback src pos size, .own (.act .returns) => some (n.returns src pos size)
  | _, _, event => ((connection keepAliveTimeout).step n.served event).map n.settle

-- Only over the buffer of the event loop: a `read` under the parsing of `m_pending` leaves it a view of a string that has changed.
def rereadStep : Option Nested :=
  match n.served.conn.control with
  | .callback (.shared length) pos size =>
    if n.served.conn.req.state = .completed then some n
    else some {
      served := { n.served with conn := { n.served.conn with canWriteError := true, control := .readPending } }
      outer := ⟨.shared length, pos, size⟩ :: n.outer }
  | _ => none

end Nested

def nestedConnection (keepAliveTimeout : Int) : System Nested NestedEvent where
  step n
    | .plain event => n.plainStep keepAliveTimeout event
    | .reread => n.rereadStep

def NestedEvent.received : NestedEvent → Bytes
  | .plain event => event.received
  | .reread => []

def nestedReceived (events : List NestedEvent) : Bytes := events.flatMap NestedEvent.received

-- The same as without nested calls; a nested `read` that yields is a callback that yields.
def NestedBehaves (keepAliveTimeout : Int) (n : Nested) : NestedEvent → Prop
  | .plain event => Behaves keepAliveTimeout n.served event ∧
      (n.outer ≠ [] → ∀ s ∈ (connection keepAliveTimeout).step n.served event, s.conn.control.suspended = false)
  | .reread => n.served.conn.readFailed = false

instance (keepAliveTimeout : Int) (n : Nested) (event : NestedEvent) : Decidable (NestedBehaves keepAliveTimeout n event) :=
  match event with
  | .plain _ => inferInstanceAs (Decidable (_ ∧ _))
  | .reread => inferInstanceAs (Decidable (_ = _))

section Plain

variable {keepAliveTimeout : Int} {buffer : Bytes} {events : List NestedEvent} {n : Nested}

theorem nestedReceived_plain (base : List Event) : nestedReceived (base.map .plain) = received base := by
  simp [nestedReceived, received, List.flatMap_map, NestedEvent.received]

-- Without nested calls it is the connection itself that takes the steps.
theorem plain_of_reached
    (reached : (nestedConnection keepAliveTimeout).Reaches
      (fun n event => NestedBehaves keepAliveTimeout n event ∧ event ≠ .reread) ⟨⟨buffer, {}⟩, [], false⟩ events n) :
    n.outer = [] ∧ n.reread = false ∧ ∃ base, events = base.map .plain ∧
      (connection keepAliveTimeout).Reaches (Behaves keepAliveTimeout) ⟨buffer, {}⟩ base n.served := by
  apply reached.invariant (P := fun events n => n.outer = [] ∧ n.reread = false ∧ ∃ base, events = base.map .plain ∧
    (connection keepAliveTimeout).Reaches (Behaves keepAliveTimeout) ⟨buffer, {}⟩ base n.served)
  · exact ⟨rfl, rfl, [], rfl, .start⟩
  · rintro events event n n' ⟨outer, reread, base, rfl, before⟩ ⟨behaves, other⟩ taken
    cases event with
    | reread => exact absurd rfl other
    | plain event =>
      simp only [nestedConnection, Nested.plainStep, reread] at taken
      obtain ⟨s, step, rfl⟩ := Option.map_eq_some_iff.mp taken
      simp only [Nested.settle, outer, reread]
      exact ⟨trivial, rfl, base ++ [event], by simp, .step before behaves.1 step⟩

end Plain

/--
On a connection whose sessions behave and whose body callbacks do not call `read`, a request head is parsed only when the
request before it is completed, by a parser that is as good as new, and from the byte after that request on.
-/
theorem requests_in_sync (keepAliveTimeout : Int) (buffer : Bytes) (events : List NestedEvent) (n : Nested)
    (reached : (nestedConnection keepAliveTimeout).Reaches
      (fun n event => NestedBehaves keepAliveTimeout n event ∧ event ≠ .reread) ⟨⟨buffer, {}⟩, [], false⟩ events n) :
    (n.served.conn.control = .request → 0 < n.served.conn.served → n.served.conn.req.state = .completed) ∧
    (n.served.conn.control = .session → n.served.conn.req.state ≠ .completed → ∀ n',
      (nestedConnection keepAliveTimeout).step n (.plain (.own (.act .returns))) = some n' →
        n'.served.conn.control = .closed) ∧
    ∀ input data, n.served.conn.headData input = some data → n.served.conn.req.state = .uninitialized →
      (∃ messages : List Bytes, messages.length = n.served.conn.served ∧
        (∀ message ∈ messages, IsMessage message) ∧
        nestedReceived (events ++ [.plain (.own input)]) = messages.flatten ++ data) ∧
      ∀ bytes, parseHead n.served.conn.parser bytes n.served.conn.req = parseHead {} bytes n.served.conn.req := by
  obtain ⟨outer, reread, base, rfl, plain⟩ := plain_of_reached reached
  have synced := synced_of_reached plain
  refine ⟨fun control => (synced.at_control control).2, fun control unfinished n' returned => ?_,
    fun input data given fresh => ⟨?_, fun bytes => ?_⟩⟩
  · simp only [nestedConnection, Nested.plainStep, reread] at returned
    obtain ⟨s, step, rfl⟩ := Option.map_eq_some_iff.mp returned
    have step := (connection_own.mp step).1
    simp only [Conn.step, control, Conn.ioLoopStep, Conn.sessionStep, Option.some.injEq] at step
    simp [Nested.settle, outer, ← step, Conn.sessionReturned, unfinished]
  · obtain ⟨current, read, running, messages, count, whole, all⟩ := synced.headData_unread given
    obtain rfl := read.nothing_before fresh
    refine ⟨messages, count, whole, ?_⟩
    have heard : nestedReceived (base.map .plain ++ [.plain (.own input)]) = received base ++ input.received := by
      rw [← nestedReceived_plain]
      simp [nestedReceived, NestedEvent.received, Event.received]
    rw [heard]
    simpa using all
  · simp [parseHead, fresh, beginRequest]

-- Two requests in one piece: the second is parsed from its first byte on.
theorem requests_in_sync_pipelined :
    let events : List Event := firstRequest (bytes "GET / HTTP/1.1\r\n\r\nGET / HTTP/1.0\r\n\r\n") ++
      [.own (.act .returns), .own .run]
    ∃ n, (nestedConnection 10).Reaches (fun n event => NestedBehaves 10 n event ∧ event ≠ .reread)
        ⟨⟨List.replicate 64 0, {}⟩, [], false⟩ (events.map .plain) n ∧
      ∃ messages : List Bytes, messages.length = 1 ∧ (∀ message ∈ messages, IsMessage message) ∧
        nestedReceived (events.map .plain ++ [.plain (.own .run)]) = messages.flatten ++ bytes "GET / HTTP/1.0\r\n\r\n" := by
  intro events
  have ran : (((nestedConnection 10).guarded fun n event => NestedBehaves 10 n event ∧ event ≠ .reread).run
      ⟨⟨List.replicate 64 0, {}⟩, [], false⟩ (events.map .plain)).map
        (fun n => (n.served.conn.served, n.served.conn.headData .run, n.served.conn.req.state)) =
        some (1, some (bytes "GET / HTTP/1.0\r\n\r\n"), .uninitialized) := by decide +kernel
  obtain ⟨n, ran, state⟩ := Option.map_eq_some_iff.mp ran
  simp only [Prod.mk.injEq] at state
  obtain ⟨served, given, fresh⟩ := state
  have reached := System.reaches_of_guarded (fun _ _ checked => of_decide_eq_true checked) ran
  have synced := ((requests_in_sync _ _ _ _ reached).2.2 _ _ given fresh).1
  exact ⟨n, reached, served ▸ synced⟩

def postHead : Bytes := bytes "POST / HTTP/1.1\r\nContent-Length: 4\r\n\r\n"

def requestA : Bytes := bytes "GET /a HTTP/1.1\r\n\r\n"

def requestB : Bytes := bytes "GET /b HTTP/1.1\r\n\r\n"

def postEvents : List Event :=
  firstRequest postHead ++ [.own (.act (.appendBodyCallback true 0)), .own (.act .read), .own .run,
    .own (.readSome (.data (bytes "abcd"))), .own .run]

def rereadEvents : List Event :=
  [.own .run, .own (.readSome (.data requestA)), .own .run, .own (.act .returns), .own (.act .returns),
    .own (.act .returns), .own .run, .own .run]

-- the callback that is handed the body reads what comes in behind it
def rereading : List NestedEvent := postEvents.map .plain ++ .reread :: rereadEvents.map .plain

theorem post_parsed : ∃ p req, parseHead {} (postHead ++ (bytes "abcd" ++ requestA)) {} = .ok (postHead.length, p, req) ∧
    p.body = .contentLength ∧ p.remaining = 4 ∧ req.state = .headersCompleted := by
  have parsed : (parseHead {} (postHead ++ (bytes "abcd" ++ requestA)) {}).toOption.map
      (fun found => (found.1, found.2.1.body, found.2.1.remaining, found.2.2.state)) =
        some (postHead.length, .contentLength, 4, .headersCompleted) := by decide +kernel
  cases result : parseHead {} (postHead ++ (bytes "abcd" ++ requestA)) {} with
  | error e => simp [result, Except.toOption] at parsed
  | ok found =>
    obtain ⟨n, p, req⟩ := found
    simp only [result, Except.toOption, Option.map_some, Option.some.injEq, Prod.mk.injEq] at parsed
    obtain ⟨rfl, mode, remaining, running⟩ := parsed
    exact ⟨p, req, rfl, mode, remaining, running⟩

/--
The body of a request is in the callback, and the callback calls `read`. The first bytes of the next request are handed to it
as another body, the rest of it is dropped when the outer `read` assigns `m_pending`, and the keep alive stays: the request
after it is parsed next.
-/
theorem reread_loses_request :
    ∃ n, (nestedConnection 10).Reaches (NestedBehaves 10) ⟨⟨List.replicate 64 0, {}⟩, [], false⟩ rereading n ∧
      n.served.conn.keepAlive = 10 ∧ n.served.conn.served = 1 ∧ n.served.conn.req.state = .uninitialized ∧
      n.served.conn.headData (.readSome (.data requestB)) = some requestB ∧
      nestedReceived (rereading ++ [.plain (.own (.readSome (.data requestB)))]) =
        postHead ++ (bytes "abcd" ++ (requestA ++ requestB)) ∧
      ¬ ∃ messages : List Bytes, messages.length = n.served.conn.served ∧ (∀ message ∈ messages, IsMessage message) ∧
        nestedReceived (rereading ++ [.plain (.own (.readSome (.data requestB)))]) = messages.flatten ++ requestB := by
  have ran : (((nestedConnection 10).guarded fun n event => NestedBehaves 10 n event).run
      ⟨⟨List.replicate 64 0, {}⟩, [], false⟩ rereading).map
        (fun n => (n.served.conn.keepAlive, n.served.conn.served, n.served.conn.req.state,
          n.served.conn.headData (.readSome (.data requestB)))) =
        some (10, 1, .uninitialized, some requestB) := by decide +kernel
  obtain ⟨n, ran, state⟩ := Option.map_eq_some_iff.mp ran
  simp only [Prod.mk.injEq] at state
  obtain ⟨alive, served, fresh, given⟩ := state
  have reached := System.reaches_of_guarded (fun _ _ checked => of_decide_eq_true checked) ran
  have heard : nestedReceived (rereading ++ [.plain (.own (.readSome (.data requestB)))]) =
      postHead ++ (bytes "abcd" ++ requestA) ++ requestB := by
    decide +kernel
  refine ⟨n, reached, alive, served, fresh, given, by simpa using heard, ?_⟩
  rw [heard, served]
  rintro ⟨messages, one, whole, same⟩
  obtain ⟨message, rfl⟩ := List.length_eq_one_iff.mp one
  rw [List.flatten_singleton] at same
  obtain rfl := List.append_cancel_right same
  obtain ⟨p, req, parsed, mode, remaining, running⟩ := post_parsed
  have length := (whole _ List.mem_cons_self).length_eq parsed mode running
  rw [remaining] at length
  exact absurd length (by decide)

end Dracon
