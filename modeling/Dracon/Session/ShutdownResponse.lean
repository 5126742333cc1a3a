import Mathlib
import Dracon.Http.ResponseClient
import Dracon.Session.Errors

set_option autoImplicit false

namespace Dracon

open Shared

namespace Client

def states (name value line : Bytes) : Bool :=
  responseHeaderNameEquals (fieldName line) name && responseHeaderNameEquals (fieldValue line) value

def keepsAlive (line : Bytes) : Bool :=
  responseHeaderNameEquals (fieldName line) (bytes "Keep-Alive") || states (bytes "Connection") (bytes "keep-alive") line

end Client

def AnnouncesClose (text : Bytes) : Prop :=
  ∃ statusLine fields body, Client.readHead text = some (statusLine :: fields, body) ∧
    (∃ line ∈ fields, Client.states (bytes "Connection") (bytes "close") line) ∧
    ∀ line ∈ fields, ¬ Client.keepsAlive line

def promises (field : Bytes × Bytes) : Bool :=
  !reserved field.1 && (responseHeaderNameEquals (shownName field.1) (bytes "Keep-Alive") ||
    (responseHeaderNameEquals (shownName field.1) (bytes "Connection") && !field.1.contains (ch ':') &&
      responseHeaderNameEquals (trimOws (headerPart field.2)) (bytes "keep-alive")))

theorem colon_headerPart {part : Bytes} : ch ':' ∈ headerPart part ↔ ch ':' ∈ part := by
  rw [headerPart, List.mem_map]
  constructor
  · rintro ⟨c, mem, shown⟩
    split_ifs at shown
    · exact absurd shown (by decide)
    · exact shown ▸ mem
  · intro mem
    exact ⟨_, mem, by decide⟩

theorem fieldValue_fieldLine {field : Bytes × Bytes} (plain : ch ':' ∉ field.1) :
    Client.fieldValue (fieldLine field) = trimOws (headerPart field.2) := by
  have skipped : ∀ c ∈ headerPart field.1, decide (c ≠ ch ':') := by
    intro c mem
    refine decide_eq_true fun colon => ?_
    exact plain (colon_headerPart.mp (colon ▸ mem))
  have colon : bytes ": " = [ch ':', sp] := by decide
  rw [Client.fieldValue, fieldLine, List.append_assoc, List.dropWhile_append_of_pos skipped, colon]
  simp [trimOws, isOws]

theorem colon_fieldValue {field : Bytes × Bytes} (colon : ch ':' ∈ field.1) :
    ch ':' ∈ Client.fieldValue (fieldLine field) := by
  have rest : ch ':' ∈ (headerPart field.1).dropWhile (· ≠ ch ':') :=
    mem_dropWhile (colon_headerPart.mpr colon) (by simp)
  have filled : ((headerPart field.1).dropWhile (· ≠ ch ':')).isEmpty = false := by
    rw [List.isEmpty_eq_false_iff]
    exact List.ne_nil_of_mem rest
  rw [Client.fieldValue, fieldLine, List.append_assoc, List.dropWhile_append, filled, trimOws]
  -- the one in front of the value is behind the first one
  refine mem_trim ?_ (by decide)
  rw [if_neg (by simp), List.drop_append_of_le_length (List.length_pos_of_mem rest)]
  exact List.mem_append_right _ (List.mem_append_left _ (by decide))

theorem keepsAlive_fieldLine {field : Bytes × Bytes} (kept : reserved field.1 = false) :
    Client.keepsAlive (fieldLine field) = promises field := by
  have alive : responseHeaderNameEquals (headerPart (shownName field.1)) (bytes "Keep-Alive") = _ :=
    nameEquals_headerPart (by decide +kernel) _
  have connection : responseHeaderNameEquals (headerPart (shownName field.1)) (bytes "Connection") = _ :=
    nameEquals_headerPart (by decide +kernel) _
  rw [Client.keepsAlive, Client.states, fieldName_fieldLine, alive, connection, promises, kept]
  by_cases colon : ch ':' ∈ field.1
  · have other : responseHeaderNameEquals (Client.fieldValue (fieldLine field)) (bytes "keep-alive") = false := by
      refine beq_false_of_ne fun same => ?_
      have mem := List.mem_map_of_mem (f := toLowerAscii) (colon_fieldValue colon)
      rw [same] at mem
      exact absurd mem (by decide +kernel)
    simp [other, colon]
  · simp [fieldValue_fieldLine colon, colon]

section

variable (res : Response)

theorem connectionLines_keepsAlive (open_ : 0 < res.keepAlive) (plain : res.informational = false) :
    ∃ line ∈ res.connectionLines (-1), Client.keepsAlive line := by
  refine ⟨bytes "Connection: keep-alive", ?_, by decide +kernel⟩
  simp [Response.connectionLines, open_, plain]

theorem connectionLines_close (closed : res.keepAlive ≤ 0) (plain : res.informational = false) :
    res.connectionLines (-1) = [bytes "Connection: close"] := by
  simp [Response.connectionLines, not_lt.mpr closed, plain]

theorem framingLines_keepsAlive : ∀ line ∈ res.framingLines, ¬ Client.keepsAlive line := by
  intro line mem
  obtain ⟨text, known, shape⟩ := res.mem_framingLines mem
  have texts : Response.framingTexts.all (fun text => text.contains (ch ':') &&
      !(responseHeaderNameEquals (Client.fieldName text) (bytes "Keep-Alive") ||
        responseHeaderNameEquals (Client.fieldName text) (bytes "Connection"))) := by decide +kernel
  obtain ⟨colon, other⟩ := Bool.and_eq_true_iff.mp (List.all_eq_true.mp texts text known)
  rw [← fieldName_numbered shape colon] at other
  unfold Client.keepsAlive Client.states
  grind

theorem fieldLines_keepsAlive :
    (∀ line ∈ res.fieldLines, ¬ Client.keepsAlive line) ↔ ∀ field ∈ res.fields, ¬ promises field := by
  rw [Response.fieldLines, List.forall_mem_map]
  constructor
  · intro silent field mem promised
    have kept : reserved field.1 = false := by
      simp only [promises, Bool.and_eq_true, Bool.not_eq_true'] at promised
      exact promised.1
    refine silent field (List.mem_filter.mpr ⟨mem, by simp [kept]⟩) ?_
    rwa [keepsAlive_fieldLine kept]
  · intro silent field mem
    obtain ⟨mem, kept⟩ := List.mem_filter.mp mem
    rw [keepsAlive_fieldLine (by simpa using kept)]
    exact silent field mem

theorem toString_announcesClose (plain : res.informational = false) :
    AnnouncesClose res.toString ↔ res.keepAlive ≤ 0 ∧ ∀ field ∈ res.fields, ¬ promises field := by
  rw [← fieldLines_keepsAlive]
  constructor
  · rintro ⟨statusLine, fields, body, read, -, silent⟩
    rw [readHead_toString] at read
    obtain ⟨⟨-, rfl⟩, -⟩ : (_ ∧ _ = fields) ∧ _ := by simpa using read
    constructor
    · by_contra open_
      obtain ⟨line, mem, alive⟩ := connectionLines_keepsAlive res (not_le.mp open_) plain
      exact silent line (List.mem_append_right _ (List.mem_append_right _ mem)) alive
    · exact fun line mem => silent line (List.mem_append_left _ mem)
  · rintro ⟨closed, silent⟩
    have last := connectionLines_close res closed plain
    refine ⟨_, _, _, readHead_toString res (-1), ⟨bytes "Connection: close", ?_, by decide +kernel⟩, ?_⟩
    · simp [Response.computedLines, last]
    · intro line mem
      rcases List.mem_append.mp mem with field | computed
      · exact silent line field
      rcases List.mem_append.mp computed with framing | connection
      · exact framingLines_keepsAlive res line framing
      · rw [last] at connection
        rw [List.mem_singleton.mp connection]
        decide +kernel

theorem informational_iff : res.informational ↔ 100 ≤ res.statusCode ∧ res.statusCode < 200 := by
  unfold Response.informational Response.status
  by_cases zero : res.statusCode = 0
  · simp [zero]
  · simp [zero]

theorem bare_announcesClose (statusCode : UInt16) (body : Bytes) :
    AnnouncesClose { statusCode := statusCode, body := body : Response }.toString ↔
      ¬ (100 ≤ statusCode ∧ statusCode < 200) := by
  have interim := informational_iff { statusCode := statusCode, body := body }
  cases informational : Response.informational { statusCode := statusCode, body := body } with
  | false =>
    rw [informational] at interim
    refine iff_of_true ?_ (by simpa using interim)
    exact (toString_announcesClose _ informational).mpr ⟨by simp, by simp⟩
  | true =>
    refine iff_of_false ?_ (not_not.mpr (interim.mp informational))
    rintro ⟨statusLine, fields, content, read, ⟨line, mem, -⟩, -⟩
    rw [readHead_toString] at read
    obtain ⟨⟨-, rfl⟩, -⟩ : (_ ∧ fields = []) ∧ _ := by
      simpa [Response.fieldLines, Response.computedLines, Response.framingLines, Response.bodyLess, informational,
        Response.connectionLines, eq_comm] using read
    cases mem

end

-- The exceptions whose response announces that the connection is closed.
def Exc.Closing : Exc → Prop
  | .int error => ¬ (100 ≤ error ∧ error < 200)
  | .response res => res.keepAlive ≤ 0 ∧ ∀ field ∈ res.fields, ¬ promises field
  | .stdException _ | .errorCode _ | .unknown => True

theorem errorResponse_announcesClose {exc : Exc} (final : ∀ res, exc = .response res → 200 ≤ res.statusCode) :
    AnnouncesClose (Conn.errorResponse exc) ↔ exc.Closing := by
  cases exc with
  | int error =>
    simp only [Conn.errorResponse, Exc.Closing]
    refine (bare_announcesClose _ _).trans (not_congr ?_)
    split_ifs with code
    · simp only [UInt16.le_iff_toNat_le, UInt16.lt_iff_toNat_lt, Nat.toUInt16_eq, UInt16.toNat_ofNat']
      rw [Nat.mod_eq_of_lt (by omega)]
      simp only [UInt16.toNat_ofNat]
      omega
    · refine iff_of_false (by decide) (by omega)
  | response res =>
    refine toString_announcesClose res ?_
    have high := UInt16.not_lt.mpr (final res rfl)
    rw [← Bool.not_eq_true, informational_iff]
    exact fun interim => high interim.2
  | stdException what => exact iff_of_true ((bare_announcesClose _ _).mpr (by decide)) trivial
  | errorCode ec => exact iff_of_true ((bare_announcesClose _ _).mpr (by decide)) trivial
  | unknown => exact iff_of_true ((bare_announcesClose _ _).mpr (by decide)) trivial

/-- The responses that `io_loop` writes in front of a shutdown. -/
theorem shutdown_announced_iff (keepAliveTimeout : Int) (buffer : Bytes) (c : Conn) (exc : Exc) (origin : Origin)
    (final : ∀ res, exc = .response res → 200 ≤ res.statusCode) :
    ({ c with control := .raised exc origin, canWriteError := true }.step keepAliveTimeout buffer .run =
        some { c with control := .write [Conn.errorResponse exc] .handler, canWriteError := true } ∧
      (AnnouncesClose (Conn.errorResponse exc) ↔ exc.Closing)) ∧
    { c with control := .createSession }.step keepAliveTimeout buffer (.created .none) =
        some { c with control := .write [{ statusCode := 503 : Response }.toString] .unclaimed } ∧
      AnnouncesClose ({ statusCode := 503 : Response }.toString) := by
  refine ⟨⟨?_, errorResponse_announcesClose final⟩, ?_, (bare_announcesClose 503 []).mpr (by decide)⟩
  · simp [Conn.step, Conn.ioLoopStep, Conn.startWrite, errorResponse_ne_nil]
  · simp [Conn.step, Conn.ioLoopStep, Conn.startWrite, Response.toString]

theorem shutdown_announced_iff_not_found :
    AnnouncesClose (Conn.errorResponse (.response { statusCode := 404, body := bytes "no such page" })) := by
  refine (shutdown_announced_iff 10 [] {} _ .session ?_).1.2.mpr ⟨by decide, nofun⟩
  rintro res ⟨⟩
  decide

/-- A response with a keep alive of its own, and a status code that is an interim one. -/
theorem keep_alive_announced :
    ¬ AnnouncesClose (Conn.errorResponse (.response { statusCode := 404, keepAlive := 5 })) ∧
    ¬ AnnouncesClose (Conn.errorResponse (.int 102)) := by
  constructor
  · rintro ⟨statusLine, fields, body, read, -, silent⟩
    have sent : Client.readHead (Conn.errorResponse (.response { statusCode := 404, keepAlive := 5 })) =
        some ([bytes "HTTP/1.1 404 Not Found", bytes "Content-Length: 0", bytes "Keep-Alive: timeout=5",
          bytes "Connection: keep-alive"], []) := by decide +kernel
    obtain ⟨⟨-, rfl⟩, -⟩ : (_ ∧ _ = fields) ∧ _ := by simpa using sent.symm.trans read
    exact absurd silent (by decide +kernel)
  · rintro ⟨statusLine, fields, body, read, ⟨line, mem, -⟩, -⟩
    have sent : Client.readHead (Conn.errorResponse (.int 102)) =
        some ([bytes "HTTP/1.1 500 Internal Server Error"], []) := by decide +kernel
    obtain ⟨⟨-, rfl⟩, -⟩ : (_ ∧ [] = fields) ∧ _ := by simpa using sent.symm.trans read
    cases mem

end Dracon
