import Dracon.Http.BodyGrammar
import Dracon.Session.Connection

set_option autoImplicit false

namespace Dracon

open Shared

def Input.received : Input → Bytes
  | .readSome (.data data) => data
  | _ => []

def Event.received : Event → Bytes
  | .own input => input.received
  | .others _ => []

def received (events : List Event) : Bytes := events.flatMap Event.received

-- All that was received: the messages served, what has been read of the current one, the rest.
def Accounts (received : Bytes) (served : Nat) (current unread : Bytes) : Prop :=
  ∃ messages : List Bytes, messages.length = served ∧ (∀ message ∈ messages, IsMessage message) ∧
    received = messages.flatten ++ current ++ unread

namespace Accounts

variable {received current unread : Bytes} {served : Nat}

theorem receive (accounts : Accounts received served current unread) (data : Bytes) :
    Accounts (received ++ data) served current (unread ++ data) := by
  obtain ⟨messages, count, whole, rfl⟩ := accounts
  exact ⟨messages, count, whole, by simp⟩

theorem read (accounts : Accounts received served current unread) (n : Nat) :
    Accounts received served (current ++ unread.take n) (unread.drop n) := by
  obtain ⟨messages, count, whole, rfl⟩ := accounts
  exact ⟨messages, count, whole, by simp⟩

theorem serve (accounts : Accounts received served current unread) (message : IsMessage current) :
    Accounts received (served + 1) [] unread := by
  obtain ⟨messages, rfl, whole, rfl⟩ := accounts
  exact ⟨messages ++ [current], by simp, by simpa [or_imp, forall_and] using ⟨whole, message⟩, by simp⟩

end Accounts

inductive Place where
  | between
  | head
  | session
  | reading
  | parsing (src : Source)
  | chunked (src : Source) (pos : Nat)
  | callback (src : Source) (pos size : Nat)
  | over

def Caller.place : Caller → Place
  | .session _ => .session
  | .callback _ src pos size => .callback src pos size
  | .unclaimed | .handler => .over

def Control.place : Control → Place
  | .start | .request => .between
  | .headPending | .headSome | .headYield => .head
  | .createSession | .session | .sessionYield => .session
  | .readPending | .readSome | .readYield => .reading
  | .parseBody src => .parsing src
  | .parseChunked src pos => .chunked src pos
  | .callback src pos size | .callbackYield src pos size => .callback src pos size
  | .write _ caller | .writeYield _ caller => caller.place
  | .raised .. | .closed => .over

-- What has been read of the current message, and what of it is still to be read.
def Conn.Reads (received : Bytes) (c : Conn) (unread current : Bytes) : Prop :=
  c.readFailed = false ∧ Accounts received c.served current unread ∧
    MessageRead (framing c.parser c.req) current

def Source.Exclusive (src : Source) (pending : Bytes) : Prop := src ≠ .pending → pending = []

def Conn.SyncedAt (received buffer : Bytes) (c : Conn) : Place → Prop
  | .between => Accounts received c.served [] c.pending ∧ (0 < c.served → c.req.state = .completed)
  | .head => c.req.inBody = false ∧ ∃ current, c.Reads received c.pending current
  | .session => (c.readFailed ∧ c.req.state ≠ .completed) ∨
      (c.req.inBody ∧ ∃ current, c.Reads received c.pending current)
  | .reading => c.req.inBody ∧ c.req.state ≠ .completed ∧ ∃ current, c.Reads received c.pending current
  | .parsing src => c.req.inBody ∧ c.req.state ≠ .completed ∧ c.view buffer src 0 ≠ [] ∧
      src.Exclusive c.pending ∧ ∃ current, c.Reads received (c.view buffer src 0) current
  | .chunked src pos => c.req.state = .processingBody ∧ c.parser.body = .chunked ∧
      src.Exclusive c.pending ∧ ∃ current, c.Reads received (c.view buffer src pos) current
  | .callback src pos size => c.req.state = .processingBody ∧ c.readFailed = false ∧
      src.Exclusive c.pending ∧ ∃ current, Accounts received c.served current (c.view buffer src pos) ∧
        ReadOn current (c.view buffer src pos) (delivered c.parser c.req size)
  | .over => True

def Conn.Synced (received buffer : Bytes) (c : Conn) : Prop := c.SyncedAt received buffer c.control.place

variable {keepAliveTimeout : Int} {rcvd buffer : Bytes} {c c' : Conn} {input : Input}

def Conn.core (c : Conn) : Parser × Request × Bytes × Nat × Bool :=
  (c.parser, c.req, c.pending, c.served, c.readFailed)

theorem Conn.SyncedAt.of_core {place : Place} (synced : c.SyncedAt rcvd buffer place)
    (core : c'.core = c.core) : c'.SyncedAt rcvd buffer place := by
  obtain ⟨_, _, parser, pending, _, req, _, served, failed, _, _⟩ := c
  obtain ⟨_, _, parser', pending', _, req', _, served', failed', _, _⟩ := c'
  simp only [Conn.core, Prod.mk.injEq] at core
  obtain ⟨rfl, rfl, rfl, rfl, rfl⟩ := core
  cases place with
  | parsing src | chunked src pos | callback src pos size => cases src <;> exact synced
  | _ => exact synced

theorem Conn.Synced.of_core (synced : c.Synced rcvd buffer) (core : c'.core = c.core)
    (place : c'.control.place = c.control.place ∨ c'.control.place = .over) :
    c'.Synced rcvd buffer := by
  unfold Conn.Synced at *
  rcases place with place | place
  · rw [place]
    exact synced.of_core core
  · rw [place]
    trivial

theorem Conn.turn_synced {src : Source} {pos : Nat} {turn : Turn} {current : Bytes}
    (good : c.readFailed = false) (exclusive : src.Exclusive c.pending)
    (accounts : Accounts rcvd c.served current (c.view buffer src pos))
    (read : TurnRead current (c.view buffer src pos) turn) :
    (c.turn buffer src pos turn).Synced rcvd buffer := by
  cases turn with
  | ret p req n =>
    obtain ⟨read, inBody⟩ := read
    have moved := accounts.read n
    rw [← Conn.view_add] at moved
    cases src with
    | pending =>
      by_cases done : req.state = .completed
      · simp only [Conn.turn, Conn.bodyReturned, done, if_true]
        exact .inr ⟨inBody, _, good, moved, read⟩
      · simp only [Conn.turn, Conn.bodyReturned, done, if_false]
        exact ⟨inBody, done, _, good, moved, read⟩
    | shared size =>
      have empty : c.pending = [] := exclusive (by simp)
      by_cases done : req.state = .completed
      · simp only [Conn.turn, Conn.bodyReturned, done, if_true]
        exact .inr ⟨inBody, _, good, moved, read⟩
      · simp only [Conn.turn, Conn.bodyReturned, done, if_false, empty, List.nil_append]
        exact ⟨inBody, done, _, good, moved, read⟩
  | next p req n =>
    obtain ⟨read, mode, state⟩ := read
    have moved := accounts.read n
    rw [← Conn.view_add] at moved
    refine ⟨state, mode, exclusive, _, good, ?_, read⟩
    cases src <;> exact moved
  | call p req n =>
    obtain ⟨state, read⟩ := read
    refine ⟨state, good, exclusive, current, ?_, ?_⟩
    · cases src <;> exact accounts
    · cases src <;> exact read
  | fail e p req => exact .inl ⟨rfl, read⟩

theorem Conn.Synced.at_control {control : Control} (synced : c.Synced rcvd buffer)
    (here : c.control = control) : c.SyncedAt rcvd buffer control.place := here ▸ synced

theorem Conn.Synced.quiet (synced : c'.Synced rcvd buffer) (silent : input.received = [])
    (kept : input.fill buffer = buffer) : c'.Synced (rcvd ++ input.received) (input.fill buffer) := by
  rwa [silent, kept, List.append_nil]

theorem parseHead_synced {current data : Bytes} {n : Nat} {p : Parser} {req : Request}
    (running : c.req.inBody = false) (reads : c.Reads rcvd data current) (filled : data ≠ [])
    (parsed : parseHead c.parser data c.req = .ok (n, p, req)) (rest : c'.pending = data.drop n)
    (core : c'.core = (p, req, c'.pending, c.served, c.readFailed))
    (place : c'.control.place = if req.headParsed then .session else .head) :
    c'.Synced rcvd buffer := by
  obtain ⟨good, accounts, read⟩ := reads
  obtain ⟨read', parsed'⟩ := read.parseHead running filled parsed
  simp only [Conn.core, Prod.mk.injEq] at core
  obtain ⟨rfl, rfl, -, served, failed⟩ := core
  have reads : c'.Reads rcvd c'.pending (current ++ data.take n) :=
    ⟨failed.trans good, by rw [served, rest]; exact accounts.read n, read'⟩
  unfold Conn.Synced
  rw [place]
  split_ifs with done
  · exact .inr ⟨parsed'.trans done, _, reads⟩
  · exact ⟨by simpa [done] using parsed', _, reads⟩

theorem parsePending_synced (running : c.req.inBody = false) {current : Bytes}
    (reads : c.Reads rcvd c.pending current) (filled : c.pending ≠ []) :
    (c.parsePending keepAliveTimeout).Synced rcvd buffer := by
  unfold Conn.parsePending
  cases parsed : parseHead c.parser c.pending c.req with
  | error e => trivial
  | ok r =>
    obtain ⟨n, p, req⟩ := r
    dsimp only
    refine parseHead_synced running reads filled parsed ?_ ?_ ?_ <;> split_ifs <;> rfl

theorem parseReceived_synced (running : c.req.inBody = false) {current data : Bytes}
    (reads : c.Reads rcvd data current) (filled : data ≠ []) (empty : c.pending = []) :
    (c.parseReceived keepAliveTimeout data).Synced rcvd buffer := by
  unfold Conn.parseReceived
  cases parsed : parseHead c.parser data c.req with
  | error e => trivial
  | ok r =>
    obtain ⟨n, p, req⟩ := r
    dsimp only
    refine parseHead_synced running reads filled parsed ?_ ?_ ?_ <;> split_ifs <;>
      simp [Conn.headParsed, Conn.core, empty, Control.place]

theorem readHeadersStep_synced (synced : c.Synced rcvd buffer)
    (taken : c.readHeadersStep keepAliveTimeout buffer input = some c') :
    c'.Synced (rcvd ++ input.received) (input.fill buffer) := by
  unfold Conn.readHeadersStep at taken
  split at taken
  · rename_i control
    obtain ⟨running, current, reads⟩ := synced.at_control control
    refine .quiet ?_ rfl rfl
    split_ifs at taken with empty <;> cases taken
    · exact ⟨running, current, reads⟩
    · exact parsePending_synced running reads empty
  · cases taken
    trivial
  · rename_i control
    cases taken
    exact .quiet (synced.at_control control) rfl rfl
  · rename_i data control
    obtain ⟨running, current, good, accounts, read⟩ := synced.at_control control
    have heard := accounts.receive data
    split_ifs at taken with fits empty <;> cases taken
    · rw [empty, List.nil_append] at heard
      exact parseReceived_synced (c := { c with canWriteError := true }) running ⟨good, heard, read⟩
        fits.1 empty
    · exact ⟨running, current, good, heard, read⟩
  · rename_i control
    cases taken
    exact .quiet (synced.at_control control) rfl rfl
  · cases taken
    trivial
  · cases taken

theorem writeReturned_core (c : Conn) (caller : Caller) :
    (c.writeReturned caller).core = c.core ∧ (c.writeReturned caller).control.place = caller.place := by
  cases caller <;> exact ⟨rfl, rfl⟩

theorem writeFails_core (c : Conn) (ec : ErrorCode) (caller : Caller) :
    (c.writeFails ec caller).core = c.core ∧ (c.writeFails ec caller).control.place = caller.place := by
  cases caller <;> exact ⟨rfl, rfl⟩

theorem startWrite_core (c : Conn) (buffers : List Bytes) (caller : Caller) :
    (c.startWrite buffers caller).core = c.core ∧
      (c.startWrite buffers caller).control.place = caller.place := by
  unfold Conn.startWrite
  split_ifs
  · exact writeReturned_core c caller
  · exact ⟨rfl, rfl⟩

theorem accepted_core (c : Conn) (job : List Bytes) (caller : Caller) (size : Nat) :
    (c.accepted job caller size).core = c.core ∧
      (c.accepted job caller size).control.place = caller.place := by
  unfold Conn.accepted
  dsimp only
  split_ifs
  · exact ⟨rfl, rfl⟩
  · split
    · exact writeReturned_core _ caller
    · exact ⟨rfl, rfl⟩

theorem ReadOn.appendBodyCallback {before view : Bytes} {p : Parser} {req : Request} {n : Nat}
    (read : ReadOn before view (delivered p req n)) (callback : Bool) (maxSize : Nat) :
    ReadOn before view (delivered p (req.appendBodyCallback callback maxSize) n) := by
  unfold delivered lengthDelivered at *
  split_ifs at * <;> exact read

theorem callbackStep_synced {src : Source} {pos size : Nat} {act : Act} (synced : c.Synced rcvd buffer)
    (control : c.control = .callback src pos size) (plain : ∀ state, act ≠ .setState state)
    (taken : c.callbackStep buffer src pos size act = some c') : c'.Synced rcvd buffer := by
  have here := synced.at_control control
  obtain ⟨state, good, exclusive, current, accounts, read⟩ := here
  cases act with
  | write kind buffers =>
    cases taken
    have wrote := startWrite_core c buffers (.callback kind src pos size)
    exact synced.of_core wrote.1 (.inl (by rw [wrote.2, control]; rfl))
  | returns =>
    cases taken
    have chunked : TurnRead current (c.view buffer src pos) (delivered c.parser c.req size) := by
      unfold delivered at read ⊢
      split_ifs at read ⊢ <;> exact read
    exact c.turn_synced good exclusive accounts chunked
  | throws exc =>
    cases taken
    exact .inl ⟨rfl, by simp [Conn.readFails, state]⟩
  | setState => exact absurd rfl (plain _)
  | read => cases taken
  | appendBodyCallback callback maxSize =>
    cases taken
    unfold Conn.Synced
    simp only [control]
    refine ⟨state, good, exclusive, current, ?_, ?_⟩
    · cases src <;> exact accounts
    · cases src <;> exact read.appendBodyCallback callback maxSize
  | setKeepAlive | yield =>
    cases taken
    exact synced.of_core rfl (.inl (by simp [control, Control.place]))

theorem readStep_synced (synced : c.Synced rcvd buffer) (plain : ∀ state, input ≠ .act (.setState state))
    (taken : c.readStep buffer input = some c') :
    c'.Synced (rcvd ++ input.received) (input.fill buffer) := by
  unfold Conn.readStep at taken
  split at taken
  · rename_i control
    obtain ⟨inBody, running, current, reads⟩ := synced.at_control control
    cases taken
    refine .quiet ?_ rfl rfl
    split_ifs with empty
    · exact ⟨inBody, running, current, reads⟩
    · exact ⟨inBody, running, by simpa [Conn.view] using empty, fun other => absurd rfl other, current, reads⟩
  · rename_i control
    obtain ⟨inBody, running, -⟩ := synced.at_control control
    cases taken
    exact .quiet (.inl ⟨rfl, running⟩) rfl rfl
  · rename_i control
    cases taken
    exact .quiet (synced.at_control control) rfl rfl
  · rename_i data control
    obtain ⟨inBody, running, current, good, accounts, read⟩ := synced.at_control control
    have heard := accounts.receive data
    split_ifs at taken with fits empty <;> cases taken
    · have view : c.view (data ++ buffer.drop data.length) (.shared data.length) 0 = data := by
        simp [Conn.view]
      have filled : c.view (data ++ buffer.drop data.length) (.shared data.length) 0 ≠ [] := by
        rw [view]
        exact fits.1
      have unread : Accounts (rcvd ++ data) c.served current
          (c.view (data ++ buffer.drop data.length) (.shared data.length) 0) := by
        rw [view]
        simpa [empty] using heard
      exact ⟨inBody, running, filled, fun _ => empty, current, good, unread, read⟩
    · exact ⟨inBody, running, current, good, heard, read⟩
  · rename_i control
    cases taken
    exact .quiet (synced.at_control control) rfl rfl
  · rename_i control
    obtain ⟨inBody, running, -⟩ := synced.at_control control
    cases taken
    exact .quiet (.inl ⟨rfl, running⟩) rfl rfl
  · rename_i src control
    obtain ⟨inBody, running, filled, exclusive, current, good, accounts, read⟩ := synced.at_control control
    cases taken
    exact .quiet (c.turn_synced good exclusive accounts (bodyTurn_read read inBody running filled)) rfl rfl
  · rename_i src pos control
    obtain ⟨state, mode, exclusive, current, good, accounts, read⟩ := synced.at_control control
    cases taken
    exact .quiet (c.turn_synced good exclusive accounts (chunkTurn_read read mode state)) rfl rfl
  · rename_i control
    exact .quiet (callbackStep_synced synced control (fun state same => plain state (by rw [same])) taken) rfl rfl
  · rename_i control
    cases taken
    exact .quiet (synced.of_core rfl (.inl (by simp [control, Control.place]))) rfl rfl
  · cases taken

theorem writeStep_synced (synced : c.Synced rcvd buffer) (taken : c.writeStep input = some c') :
    c'.Synced (rcvd ++ input.received) (input.fill buffer) := by
  unfold Conn.writeStep at taken
  split at taken
  · rename_i caller ec control
    cases taken
    have failed := writeFails_core c ec caller
    exact .quiet (synced.of_core failed.1 (.inl (by rw [failed.2, control]; rfl))) rfl rfl
  · rename_i control
    cases taken
    exact .quiet (synced.of_core rfl (.inl (by rw [control]; rfl))) rfl rfl
  · rename_i job caller size control
    split_ifs at taken
    cases taken
    have wrote := accepted_core c job caller size
    exact .quiet (synced.of_core wrote.1 (.inl (by rw [wrote.2, control]; rfl))) rfl rfl
  · rename_i control
    cases taken
    exact .quiet (synced.of_core rfl (.inl (by rw [control]; rfl))) rfl rfl
  · rename_i caller ec control
    cases taken
    have failed := writeFails_core { c with lastYield := some ec } ec caller
    exact .quiet (synced.of_core failed.1 (.inl (by rw [failed.2, control]; rfl))) rfl rfl
  · cases taken

theorem sessionReturned_synced (here : c.SyncedAt rcvd buffer .session) :
    c.sessionReturned.Synced rcvd buffer := by
  by_cases done : c.req.state = .completed
  · obtain ⟨-, unfinished⟩ | ⟨-, current, -, accounts, read⟩ := here
    · exact absurd done unfinished
    · simp only [Conn.sessionReturned, done, ne_eq, not_true, if_false]
      split_ifs
      · exact ⟨accounts.serve (read.isMessage done), fun _ => done⟩
      · trivial
  · simp only [Conn.sessionReturned, done, ne_eq, not_false_eq_true, if_true, not_true, and_false, if_false]
    trivial

theorem sessionStep_synced {act : Act} (synced : c.Synced rcvd buffer) (control : c.control = .session)
    (plain : ∀ state, act ≠ .setState state) (fresh : act = .read → c.readFailed = false) :
    (c.sessionStep act).Synced rcvd buffer := by
  have here := synced.at_control control
  cases act with
  | read =>
    obtain ⟨failed, -⟩ | ⟨inBody, current, reads⟩ := here
    · simp [fresh rfl] at failed
    · simp only [Conn.sessionStep]
      split_ifs with done
      · exact synced
      · exact ⟨inBody, done, current, reads⟩
  | write kind buffers =>
    have wrote := startWrite_core c buffers (.session kind)
    exact synced.of_core wrote.1 (.inl (wrote.2.trans (by rw [control]; rfl)))
  | appendBodyCallback callback maxSize =>
    unfold Conn.Synced
    simp only [Conn.sessionStep, control]
    exact here
  | setState => exact absurd rfl (plain _)
  | throws => trivial
  | returns => exact sessionReturned_synced here
  | setKeepAlive | yield => exact synced.of_core rfl (.inl (by simp [Conn.sessionStep, control, Control.place]))

theorem ioLoopStep_synced (synced : c.Synced rcvd buffer) (plain : ∀ state, input ≠ .act (.setState state))
    (fresh : input = .act .read → c.readFailed = false) (taken : c.ioLoopStep input = some c') :
    c'.Synced (rcvd ++ input.received) (input.fill buffer) := by
  unfold Conn.ioLoopStep at taken
  split at taken
  · rename_i control
    cases taken
    exact .quiet (synced.at_control control) rfl rfl
  · rename_i control
    obtain ⟨accounts, -⟩ := synced.at_control control
    cases taken
    have read : MessageRead (framing c.parser {}) [] := (HeadRead.start rfl).message
    exact .quiet ⟨rfl, [], rfl, accounts, read⟩ rfl rfl
  · rename_i control
    cases taken
    exact .quiet (synced.at_control control) rfl rfl
  · cases taken
    have wrote := startWrite_core c [{ statusCode := 503 : Response }.toString] .unclaimed
    exact .quiet (synced.of_core wrote.1 (.inr wrote.2)) rfl rfl
  · cases taken
    trivial
  · rename_i act control
    cases taken
    exact .quiet (sessionStep_synced synced control (fun state same => plain state (by rw [same]))
      fun same => fresh (by rw [same])) rfl rfl
  · rename_i control
    cases taken
    exact .quiet (synced.at_control control) rfl rfl
  · rename_i exc origin control
    split_ifs at taken <;> cases taken
    · have wrote := startWrite_core c [Conn.errorResponse exc] .handler
      exact .quiet (synced.of_core wrote.1 (.inr wrote.2)) rfl rfl
    · trivial
  · cases taken

theorem step_synced (synced : c.Synced rcvd buffer) (plain : ∀ state, input ≠ .act (.setState state))
    (fresh : input = .act .read → c.readFailed = false)
    (taken : c.step keepAliveTimeout buffer input = some c') :
    c'.Synced (rcvd ++ input.received) (input.fill buffer) := by
  unfold Conn.step at taken
  split at taken
  iterate 3 exact readHeadersStep_synced synced taken
  iterate 7 exact readStep_synced synced plain taken
  iterate 2 exact writeStep_synced synced taken
  exact ioLoopStep_synced synced plain fresh taken

def Control.yieldedInCallback : Control → Bool
  | .callbackYield .. | .writeYield _ (.callback ..) => true
  | _ => false

def Event.setsState : Event → Bool
  | .own (.act (.setState _)) => true
  | _ => false

-- A session that neither reads a request again whose read has failed nor sets the state of the request, and whose body callback
-- does not yield.
structure Behaves (keepAliveTimeout : Int) (s : Served) (event : Event) : Prop where
  read : event = .own (.act .read) → s.conn.readFailed = false
  state : event.setsState = false
  callback : ∀ s' ∈ (connection keepAliveTimeout).step s event, s'.conn.control.yieldedInCallback = false

instance (keepAliveTimeout : Int) (s : Served) (event : Event) :
    Decidable (Behaves keepAliveTimeout s event) :=
  decidable_of_iff ((event = .own (.act .read) → s.conn.readFailed = false) ∧ event.setsState = false ∧
      ∀ s' ∈ (connection keepAliveTimeout).step s event, s'.conn.control.yieldedInCallback = false)
    ⟨fun ⟨read, state, callback⟩ => ⟨read, state, callback⟩, fun ⟨read, state, callback⟩ => ⟨read, state, callback⟩⟩

theorem Conn.Synced.others (synced : c.Synced rcvd buffer) (suspended : c.control.suspended)
    (outside : c.control.yieldedInCallback = false) (buffer' : Bytes) : c.Synced rcvd buffer' := by
  unfold Conn.Synced at *
  cases control : c.control with
  | writeYield job caller => cases caller <;> simp_all [Control.place, Caller.place, Control.yieldedInCallback] <;> exact synced
  | _ => simp_all [Control.suspended, Control.place, Control.yieldedInCallback] <;> exact synced

theorem MessageRead.nothing_before {s : Framing} {text : Bytes} (read : MessageRead s text)
    (fresh : s.req.state = .uninitialized) : text = [] := by
  cases read with
  | head read =>
    cases read with
    | start => rfl
    | blank _ _ state | lines _ _ state => simp [state] at fresh
    | done _ _ delimited => cases delimited <;> simp_all
  | body _ read => simpa [Request.inBody, fresh] using read.inBody

def Conn.headData (c : Conn) : Input → Option Bytes
  | .run => if c.control = .headPending ∧ c.pending ≠ [] then some c.pending else none
  | .readSome (.data data) => if c.control = .headSome ∧ c.pending = [] then some data else none
  | _ => none

theorem synced_step {events : List Event} {event : Event} {s s' : Served}
    (synced : s.conn.Synced (received events) s.buffer ∧ s.conn.control.yieldedInCallback = false)
    (behaves : Behaves keepAliveTimeout s event)
    (taken : (connection keepAliveTimeout).step s event = some s') :
    s'.conn.Synced (received (events ++ [event])) s'.buffer ∧ s'.conn.control.yieldedInCallback = false := by
  refine ⟨?_, behaves.callback s' taken⟩
  have heard : received (events ++ [event]) = received events ++ event.received := by simp [received]
  rw [heard]
  cases event with
  | own input =>
    obtain ⟨step, fill⟩ := connection_own.mp taken
    rw [fill]
    exact step_synced synced.1 (fun state same => by simpa [same, Event.setsState] using behaves.state)
      (fun same => behaves.read (by rw [same])) step
  | others buffer =>
    obtain ⟨suspended, -, rfl⟩ := connection_others.mp taken
    rw [Event.received, List.append_nil]
    exact synced.1.others suspended synced.2 buffer

theorem Conn.Synced.headData_unread {data : Bytes} (synced : c.Synced rcvd buffer)
    (given : c.headData input = some data) :
    ∃ current, MessageRead (framing c.parser c.req) current ∧ c.req.inBody = false ∧
      Accounts (rcvd ++ input.received) c.served current data := by
  unfold Conn.headData at given
  split at given
  · obtain ⟨⟨control, -⟩, same⟩ := Option.ite_none_right_eq_some.mp given
    obtain ⟨running, current, -, accounts, read⟩ := synced.at_control control
    obtain rfl := Option.some.inj same
    exact ⟨current, read, running, by simpa [Input.received] using accounts⟩
  · obtain ⟨⟨control, empty⟩, same⟩ := Option.ite_none_right_eq_some.mp given
    obtain ⟨running, current, -, accounts, read⟩ := synced.at_control control
    cases same
    have heard := accounts.receive data
    rw [empty] at heard
    exact ⟨current, read, running, heard⟩
  · cases given

theorem synced_of_reached {buffer : Bytes} {events : List Event} {s : Served}
    (reached : (connection keepAliveTimeout).Reaches (Behaves keepAliveTimeout) ⟨buffer, {}⟩ events s) :
    s.conn.Synced (received events) s.buffer :=
  (reached.invariant (P := fun events s => s.conn.Synced (received events) s.buffer ∧
    s.conn.control.yieldedInCallback = false) ⟨⟨⟨[], rfl, by simp, rfl⟩, by simp⟩, rfl⟩ synced_step).1

end Dracon
