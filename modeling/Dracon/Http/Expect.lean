import Dracon.Http.BodyLimit
import Dracon.Http.HeadMeaning
import Dracon.Shared.Outcomes

set_option autoImplicit false

namespace Dracon

open Shared

def isSpace (c : Byte) : Bool := c == sp || (9 ≤ c && c ≤ 13)

def takeSign : Bytes → Bool × Bytes
  | [] => (false, [])
  | c :: rest =>
    if c = ch '-' then (true, rest)
    else if c = ch '+' then (false, rest)
    else (false, c :: rest)

def strtoull (str : Bytes) : Nat × Bytes :=
  let (negative, text) := takeSign (str.dropWhile isSpace)
  let value := decimalValue (text.takeWhile isDigit)
  -- without a digit nothing is consumed
  if text.takeWhile isDigit = [] then (0, str)
  -- a value out of range becomes the largest one
  else if sizeMod ≤ value then (sizeMod - 1, text.dropWhile isDigit)
  else (if negative then sizeSub 0 value else value, text.dropWhile isDigit)

def Request.contentLength (req : Request) : Nat :=
  match req.fields.find (bytes "Content-Length") with
  | none => chunkedData
  | some value => if (strtoull value).2 = [] then (strtoull value).1 else chunkedData

-- `operator >>` up to its call of `read`: whether it sends the interim response.
def expectation (req : Request) : Except Exc Bool :=
  if req.fields.find (bytes "Expect") = some (bytes "100-continue") then
    if req.contentLength ≠ chunkedData ∧ req.maxBodySize < req.contentLength then .error (.int 417)
    else .ok true
  else .ok false

-- `operator >>`: the body comes in as these pieces
def readRequest (cb : Callback) (t : Reception) (pieces : List Bytes) : Except Exc (Reception × Bytes) := do
  let _ ← expectation t.req
  (readPieces cb t pieces).mapError Thrown.exc

def Request.register (req : Request) : Option Nat → Request
  | none => req
  | some m => req.appendBodyCallback true m

def unexpectedBody : Exc := fail 400 "unexpected body"

def BodyRejected : Except Thrown (Reception × Bytes) → Prop
  | .error thrown => thrown.exc = tooLarge ∨ thrown.exc = unexpectedBody
  | .ok _ => False

instance (result : Except Thrown (Reception × Bytes)) : Decidable (BodyRejected result) :=
  match result with
  | .error thrown => inferInstanceAs (Decidable (thrown.exc = tooLarge ∨ thrown.exc = unexpectedBody))
  | .ok _ => inferInstanceAs (Decidable False)

theorem strtoull_number {value : Bytes} {n : Nat} (number : IsNumber value n) (small : n < sizeMod) :
    strtoull value = (n, []) := by
  obtain ⟨filled, digits, rfl⟩ := number
  obtain ⟨c, rest, rfl⟩ := List.exists_cons_of_ne_nil filled
  have whole : (c :: rest).takeWhile isDigit = c :: rest :=
    List.takeWhile_eq_self_iff.mpr fun d mem => (isDigit_iff d).mpr (digits d mem)
  have nothing : (c :: rest).dropWhile isDigit = [] :=
    List.dropWhile_eq_nil_iff.mpr fun d mem => (isDigit_iff d).mpr (digits d mem)
  have first := digits c (by simp)
  have printed : isSpace c = false ∧ c ≠ ch '-' ∧ c ≠ ch '+' := by
    simp only [DecimalDigit, ch_values, isSpace, show sp = 32 from rfl, show ch '-' = 45 from rfl,
      show ch '+' = 43 from rfl] at first ⊢
    grind
  have skipped : (c :: rest).dropWhile isSpace = c :: rest := by
    rw [List.dropWhile_cons_of_neg (by simp [printed.1])]
  simp only [strtoull, skipped, takeSign, if_neg printed.2.1, if_neg printed.2.2, whole, nothing,
    if_neg (List.cons_ne_nil c rest), if_neg (Nat.not_le.mpr small)]
  simp

section Accepted

variable {p p' : Parser} {req : Request} {data value : Bytes} {k : Nat}

theorem accepted_length (parsed : parseHead p data {} = .ok (k, p', req))
    (complete : req.state = .headersCompleted ∨ req.state = .completed)
    (carries : req.fields.find (bytes "Content-Length") = some value) :
    ∃ q r q', finalizeHead q r = .ok (q', req) ∧ p' = { q' with head := .done, headSeen := p'.headSeen } ∧
      q.chunked = false ∧ IsNumber value q.contentLength ∧ q.contentLength < 2 ^ 64 - 1 ∧
      req.limit = ⟨false, 0⟩ ∧ r.delivered = [] := by
  have fresh : parseHead {} data {} = .ok (k, p', req) := parsed
  obtain ⟨-, fields, isHead⟩ := parseHead_headOf fresh complete
  obtain ⟨digit, lines⟩ := isHead.headLines
  rw [← List.take_append_drop k data] at parsed
  obtain ⟨q, r, q', means, finished, same⟩ := lines.means parsed
  obtain ⟨stored, -⟩ := finalizeHead_request finished
  rw [stored, means.values, combined, if_pos rfl] at carries
  obtain ⟨more, values⟩ := List.head?_eq_some_iff.mp carries
  obtain ⟨field, member, rfl⟩ := List.mem_map.mp (values ▸ List.mem_cons_self : value ∈ valuesOf fields _)
  obtain ⟨member, named⟩ := List.mem_filter.mp member
  have length : field.Is "Content-Length" := Field.is_contentLength.mp (of_decide_eq_true named)
  have known : q.hasContentLength := means.tracks.known.mpr ⟨field, member, length⟩
  refine ⟨q, r, q', finished, same, ?_, means.tracks.lengths field member length, means.tracks.small, ?_,
    means.untouched.2⟩
  · by_contra chunked
    rw [finalizeHead, if_pos ⟨known, by simpa using chunked⟩] at finished
    cases finished
  · rw [(finalizeHead_keeps finished).2.2.1, means.untouched.1]

end Accepted

section Plain

variable {cb : Callback} {t : Reception} {p p' : Parser} {req req' : Request} {pieces : List Bytes}

theorem readPieces_unexpected (cb : Callback) (mode : t.parser.body = .contentLength)
    (owed : t.parser.remaining ≠ 0) (limit : t.req.limit = ⟨false, 0⟩) (running : t.req.state ≠ .completed)
    (filled : pieces.flatten ≠ []) : BodyRejected (readPieces cb t pieces) := by
  have callback : t.req.callback = false := congrArg Limit.callback limit
  have unlimited : t.req.maxBodySize = 0 := congrArg Limit.maxBodySize limit
  induction pieces generalizing t with
  | nil => exact absurd rfl filled
  | cons piece pieces ih =>
    have turn := bodyTurn_length piece mode running (by simp [unlimited])
    by_cases empty : piece = []
    · have nothing : ¬ min t.parser.remaining piece.length ≠ 0 := by simp [empty]
      have kept : lengthDelivered t.parser { t.req with state := .processingBody } 0 =
          (t.parser, { t.req with state := .processingBody }) := by simp [lengthDelivered, owed]
      rw [if_neg nothing, kept] at turn
      have read : readPiece cb t piece = .ok (0, ⟨t.parser, { t.req with state := .processingBody }⟩) := by
        rw [readPiece, parseBody, turn]
        rfl
      have rest := ih (t := ⟨t.parser, { t.req with state := .processingBody }⟩) mode owed limit (by simp)
        (by simpa [empty] using filled) callback unlimited
      rw [empty] at read ⊢
      simpa [readPieces, feedAll, feed, read] using rest
    · have taken : min t.parser.remaining piece.length ≠ 0 := by simp [owed, empty]
      have refused (n : Nat) : deliver t.parser { t.req with state := .processingBody } n =
          .fail unexpectedBody { t.parser with received := t.parser.received + n }
            { t.req with state := .processingBody } := by
        simp [deliver, unlimited, callback, unexpectedBody]
      rw [if_pos taken, refused] at turn
      have read : readPiece cb t piece = .error ⟨unexpectedBody,
          { t.parser with received := t.parser.received + min t.parser.remaining piece.length },
          { t.req with state := .processingBody }⟩ := by
        rw [readPiece, parseBody, turn]
        rfl
      simp [readPieces, feedAll, feed, read, BodyRejected]

theorem readPieces_rejected_iff (finished : finalizeHead p req = .ok (p', req')) (plain : p.chunked = false)
    (limit : req'.limit = ⟨false, 0⟩) (fresh : req.delivered = []) (seen : Nat) (session : Option Nat)
    (size : ∀ m ∈ session, m < sizeMod)
    (own : ∀ before piece, cb before piece ≠ some tooLarge ∧ cb before piece ≠ some unexpectedBody)
    (whole : pieces.flatten.length = p.contentLength) :
    BodyRejected (readPieces cb ⟨{ p' with head := .done, headSeen := seen }, req'.register session⟩ pieces) ↔
      match session with
      | none => 0 < p.contentLength
      | some m => m ≠ 0 ∧ m < p.contentLength := by
  have quiet (thrown : Thrown) (threw : ∃ before piece, cb before piece = some thrown.exc) :
      ¬ (thrown.exc = tooLarge ∨ thrown.exc = unexpectedBody) := by
    obtain ⟨before, piece, threw⟩ := threw
    rintro (same | same)
    · exact (own before piece).1 (same ▸ threw)
    · exact (own before piece).2 (same ▸ threw)
  have completed (t : Reception) (done : t.req.state = .completed) : ¬ BodyRejected (readPieces cb t pieces) := by
    simp [feedAll_completed cb done, BodyRejected]
  cases session with
  | none =>
    unfold finalizeHead at finished
    split_ifs at finished with both chunked length
    · simp [plain] at chunked
    · have filled : pieces.flatten ≠ [] := fun empty => length (by simpa [empty] using whole.symm)
      cases finished
      exact iff_of_true (readPieces_unexpected cb rfl length limit (by simp [Request.register]) filled)
        (Nat.pos_of_ne_zero length)
    · cases finished
      exact iff_of_false (completed _ rfl) (by simpa using length)
  | some m =>
    have size := size m rfl
    change BodyRejected (readPieces cb (registered p' req' seen m) pieces) ↔ m ≠ 0 ∧ m < p.contentLength
    rcases registered_cases m seen finished fresh with
      ⟨chunked, -⟩ | ⟨-, length, owing, unread, untouched, running⟩ | ⟨-, length, done, -⟩
    · simp [plain] at chunked
    · by_cases exceeds : m ≠ 0 ∧ m < p.contentLength
      · cases pieces with
        | nil => exact absurd whole.symm length
        | cons piece more =>
          rw [readPieces_refused cb piece more owing unread running exceeds.1 size exceeds.2]
          exact iff_of_true (.inl rfl) exceeds
      · refine iff_of_false ?_ exceeds
        rcases owing.feedAll size (by omega) cb [] pieces with ⟨t, rest, read, -⟩ | ⟨thrown, read, threw, -⟩
        · simp [readPieces, read, BodyRejected]
        · rw [readPieces, read]
          exact quiet thrown threw
    · exact iff_of_false (completed _ done) (by omega)

end Plain

section Agreement

variable {cb : Callback} {p p' p₀ p₀' : Parser} {req req' req₀ : Request} {data data₀ value : Bytes} {n k k₀ : Nat}
  {pieces : List Bytes}

theorem finalizeHead_length (finished : finalizeHead p req = .ok (p', req')) (plain : p.chunked = false) :
    p'.contentLength = p.contentLength ∧
    (p'.body = .none ∧ p.contentLength = 0 ∨ p'.body = .contentLength ∧ p'.remaining = p.contentLength) := by
  unfold finalizeHead at finished
  split_ifs at finished with both chunked length
  · simp [plain] at chunked
  · cases finished
    exact ⟨rfl, .inr ⟨rfl, rfl⟩⟩
  · cases finished
    exact ⟨rfl, .inl ⟨rfl, not_not.mp length⟩⟩

theorem contentLength_eq (carries : req.fields.find (bytes "Content-Length") = some value)
    (number : IsNumber value n) (small : n < 2 ^ 64 - 1) : req.contentLength = n := by
  have text := strtoull_number number (lt_of_lt_of_le small (Nat.sub_le _ _))
  simp [Request.contentLength, carries, text]

theorem expectation_iff (expects : req.fields.find (bytes "Expect") = some (bytes "100-continue"))
    (small : req.contentLength < 2 ^ 64 - 1) :
    expectation req = .error (.int 417) ↔ req.maxBodySize < req.contentLength := by
  have known : req.contentLength ≠ chunkedData := Nat.ne_of_lt small
  simp only [expectation, expects, if_true]
  split_ifs with large
  · exact iff_of_true rfl large.2
  · exact iff_of_false (by simp) fun less => large ⟨known, less⟩

theorem Request.register_fields (req : Request) (session : Option Nat) :
    (req.register session).fields = req.fields := by
  cases session <;> rfl

/-- The same session reads a request that announces its body with an `Expect` field, and the same request without
that field. -/
theorem expect_agrees_iff (parsed : parseHead p data {} = .ok (k, p', req))
    (complete : req.state = .headersCompleted ∨ req.state = .completed)
    (carries : req.fields.find (bytes "Content-Length") = some value)
    (expects : req.fields.find (bytes "Expect") = some (bytes "100-continue"))
    (parsed₀ : parseHead p₀ data₀ {} = .ok (k₀, p₀', req₀))
    (complete₀ : req₀.state = .headersCompleted ∨ req₀.state = .completed)
    (same : ∀ key, key ≠ bytes "Expect" → req₀.fields.find key = req.fields.find key)
    (session : Option Nat) (size : ∀ m ∈ session, m < sizeMod)
    (own : ∀ before piece, cb before piece ≠ some tooLarge ∧ cb before piece ≠ some unexpectedBody)
    (whole : pieces.flatten.length = decimalValue value) :
    (req.register session).contentLength = decimalValue value ∧ p'.contentLength = decimalValue value ∧
    (p'.body = .none ∧ decimalValue value = 0 ∨
      p'.body = .contentLength ∧ p'.remaining = decimalValue value) ∧
    ((expectation (req.register session) = .error (.int 417) ↔
        BodyRejected (readPieces cb ⟨p₀', req₀.register session⟩ pieces)) ↔
      ¬ (session = some 0 ∧ 0 < decimalValue value)) := by
  obtain ⟨q, r, q', finished, shape, plain, number, small, limit, -⟩ := accepted_length parsed complete carries
  have carries₀ : req₀.fields.find (bytes "Content-Length") = some value := by
    rw [same _ (by decide), carries]
  obtain ⟨q₀, r₀, q₀', finished₀, shape₀, plain₀, number₀, -, limit₀, fresh₀⟩ :=
    accepted_length parsed₀ complete₀ carries₀
  rw [number.2.2] at whole ⊢
  have equal : q₀.contentLength = q.contentLength := number₀.2.2.symm.trans number.2.2
  have length : (req.register session).contentLength = q.contentLength :=
    contentLength_eq (req.register_fields session ▸ carries) number small
  obtain ⟨framing, body⟩ := finalizeHead_length finished plain
  refine ⟨length, ?_, ?_, ?_⟩
  · rw [shape]
    exact framing
  · rw [shape]
    exact body
  · rw [expectation_iff (req.register_fields session ▸ expects) (length ▸ small), length, shape₀,
      readPieces_rejected_iff finished₀ plain₀ limit₀ fresh₀ _ session size own (whole.trans equal.symm), equal]
    cases session with
    | none =>
      have unlimited : req.maxBodySize = 0 := congrArg Limit.maxBodySize limit
      simp [Request.register, unlimited]
    | some m =>
      simp only [Request.register, Request.appendBodyCallback, Option.some.injEq]
      omega

def uploadParser (headers seen : Nat) : Parser :=
  { head := .done, body := .contentLength, headSeen := seen, headers := headers, remaining := 3, contentLength := 3,
    http11 := true, hasContentLength := true }

def upload (more : Fields) : Request :=
  { fields := (bytes "Content-Length", bytes "3") :: more, keepAlive := true, url := bytes "/",
    method := bytes "POST", state := .headersCompleted }

theorem expect_agrees_iff_too_small :
    expectation ((upload [(bytes "Expect", bytes "100-continue")]).register (some 2)) = .error (.int 417) ↔
      BodyRejected (readPieces (fun _ _ => none) ⟨uploadParser 1 38, (upload []).register (some 2)⟩
        [bytes "ab", bytes "c"]) := by
  have parsed : parseHead {} (bytes "POST / HTTP/1.1\r\nContent-Length: 3\r\nExpect: 100-continue\r\n\r\n") {} =
      .ok (60, uploadParser 2 60, upload [(bytes "Expect", bytes "100-continue")]) := by decide +kernel
  have parsed₀ : parseHead {} (bytes "POST / HTTP/1.1\r\nContent-Length: 3\r\n\r\n") {} =
      .ok (38, uploadParser 1 38, upload []) := by decide +kernel
  have same (key : Bytes) (other : key ≠ bytes "Expect") :
      (upload []).fields.find key = (upload [(bytes "Expect", bytes "100-continue")]).fields.find key := by
    simp [upload, Fields.find, List.find?_cons, Ne.symm other]
  have quiet (before : List Bytes) (piece : Bytes) : (fun _ _ => none : Callback) before piece ≠ some tooLarge ∧
      (fun _ _ => none : Callback) before piece ≠ some unexpectedBody := by simp
  have limit : ∀ m ∈ some 2, m < sizeMod := by simp [sizeMod]
  have agrees := expect_agrees_iff parsed (.inl rfl) rfl rfl parsed₀ (.inl rfl) same (some 2) limit quiet
    (show [bytes "ab", bytes "c"].flatten.length = decimalValue (bytes "3") by decide)
  exact agrees.2.2.2.mpr (by simp)

-- a callback without a limit takes the body, and is refused it
theorem unlimited_upload_refused :
    parseHead {} (bytes "POST / HTTP/1.1\r\nContent-Length: 3\r\nExpect: 100-continue\r\n\r\n") {} =
      .ok (60, uploadParser 2 60, upload [(bytes "Expect", bytes "100-continue")]) ∧
    parseHead {} (bytes "POST / HTTP/1.1\r\nContent-Length: 3\r\n\r\n") {} =
      .ok (38, uploadParser 1 38, upload []) ∧
    expectation ((upload [(bytes "Expect", bytes "100-continue")]).register (some 0)) = .error (.int 417) ∧
    ¬ BodyRejected (readPieces (fun _ _ => none) ⟨uploadParser 1 38, (upload []).register (some 0)⟩
      [bytes "abc"]) := by
  decide +kernel

end Agreement

end Dracon
