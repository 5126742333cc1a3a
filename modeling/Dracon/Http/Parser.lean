import Dracon.Http.Message

set_option autoImplicit false

namespace Dracon

open Shared

inductive Head where
  | requestLine
  | headers
  | done
  deriving DecidableEq, Repr

inductive Body where
  | none
  | contentLength
  | chunked
  deriving DecidableEq, Repr

inductive Chunk where
  | size
  | data
  | dataEnd
  | trailers
  deriving DecidableEq, Repr

structure Parser where
  head : Head := .requestLine
  body : Body := .none
  chunk : Chunk := .size
  headSeen : Nat := 0
  headers : Nat := 0
  remaining : Nat := 0
  received : Nat := 0
  contentLength : Nat := 0
  http11 : Bool := false
  hasContentLength : Bool := false
  chunked : Bool := false
  close : Bool := false
  keepAlive : Bool := false
  deriving DecidableEq, Repr

def maxHeadSize : Nat := 8 * 1024
def maxHeadersCount : Nat := 100
def maxChunkLineSize : Nat := 1024

def beginRequest (_ : Parser) (req : Request) : Parser × Request :=
  ({ head := .requestLine, body := .none, chunk := .size
     headSeen := 0, headers := 0, remaining := 0, received := 0, contentLength := 0
     http11 := false, hasContentLength := false, chunked := false, close := false
     keepAlive := false },
   { req with state := .processingUrl })

def validVersion (version : Bytes) : Bool :=
  version.length == 8 && (bytes "HTTP/").isPrefixOf version && version.getD 6 0 == ch '.'
    && charTable (version.getD 5 0) .hexChar && version.getD 5 0 ≤ ch '9'
    && charTable (version.getD 7 0) .hexChar && version.getD 7 0 ≤ ch '9'

def parseRequestLine (p : Parser) (requestLine : Bytes) (req : Request) :
    Except Exc (Parser × Request) :=
  match cut sp requestLine with
  | none => .error (fail 400 "Invalid request line")
  | some (method, afterMethod) =>
    if method = [] then .error (fail 400 "Invalid request line")
    else match cut sp afterMethod with
    | none => .error (fail 400 "Invalid request line")
    | some (target, version) =>
      if target = [] then .error (fail 400 "Invalid request line")
      else if !allChars method .tokenChar then .error (fail 400 "Invalid method")
      else if !allChars target .targetChar then .error (fail 400 "Invalid request target")
      else if !validVersion version then .error (fail 400 "Invalid HTTP version")
      else if version.getD 5 0 ≠ ch '1' then .error (fail 505 "HTTP version not supported")
      else .ok ({ p with http11 := version.getD 7 0 ≠ ch '0' },
        { req with method := method, url := target })

-- The `Content-Length` branch of `parse_header_field`; the flag tells that the field is stored.
def contentLengthField (p : Parser) (value : Bytes) : Except Exc (Parser × Bool) :=
  match fromChars value with
  | none => .error (fail 400 "Invalid Content-Length")
  | some (length, rest) =>
    if value = [] ∨ rest ≠ [] ∨ chunkedData ≤ length then
      .error (fail 400 "Invalid Content-Length")
    else if p.hasContentLength then
      if length ≠ p.contentLength then .error (fail 400 "Conflicting Content-Length")
      else .ok (p, false)
    else .ok ({ p with hasContentLength := true, contentLength := length }, true)

def transferEncodingField (p : Parser) (value : Bytes) : Except Exc Parser :=
  let (codings, last) := forEachToken (fun (acc : Nat × Bytes) coding => (acc.1 + 1, coding))
    (if p.chunked then 1 else 0, []) value
  if !iequals last (bytes "chunked") then .error (fail 400 "Invalid Transfer-Encoding")
  else if codings ≠ 1 then .error (fail 501 "Unsupported transfer coding")
  else .ok { p with chunked := true }

def connectionField (p : Parser) (value : Bytes) : Parser :=
  forEachToken (fun (p : Parser) option =>
    if iequals option (bytes "close") then { p with close := true }
    else if iequals option (bytes "keep-alive") then { p with keepAlive := true }
    else p) p value

def splitField (text : Bytes) : Except Exc (Bytes × Bytes) :=
  if text.head?.any isOws then .error (fail 400 "Obsolete line folding is not supported")
  else match cut (ch ':') text with
  | none => .error (fail 400 "Invalid header field")
  | some (name, afterColon) =>
    if name = [] then .error (fail 400 "Invalid header field")
    else if !allChars name .tokenChar then .error (fail 400 "Invalid header field name")
    else if !allChars (trimOws afterColon) .valueChar then
      .error (fail 400 "Invalid header field value")
    else .ok (name, trimOws afterColon)

def storeField (p : Parser) (key value : Bytes) (req : Request) : Except Exc (Parser × Request) :=
  if key = bytes "Content-Length" then
    match contentLengthField p value with
    | .error e => .error e
    | .ok (p, true) => .ok (p, req.addField key value)
    -- an identical duplicate: keep a single stored value
    | .ok (p, false) => .ok (p, req)
  else if key = bytes "Transfer-Encoding" then
    match transferEncodingField p value with
    | .error e => .error e
    | .ok p => .ok (p, req.addField key value)
  else if key = bytes "Connection" then .ok (connectionField p value, req.addField key value)
  else .ok (p, req.addField key value)

def parseHeaderField (p : Parser) (text : Bytes) (req : Request) :
    Except Exc (Parser × Request) :=
  if p.headers + 1 > maxHeadersCount then .error (fail 431 "Too many header fields")
  else match splitField text with
  | .error e => .error e
  | .ok (name, value) =>
    storeField { p with headers := p.headers + 1 } (canonicalName name) value req

-- Whether the client lets the connection live on after this request.
def Parser.persistent (p : Parser) : Bool :=
  if p.http11 then !p.close else p.keepAlive && !p.close

def finalizeHead (p : Parser) (req : Request) : Except Exc (Parser × Request) :=
  if p.hasContentLength ∧ p.chunked then
    .error (fail 400 "Content-Length and Transfer-Encoding are mutually exclusive")
  else if p.chunked then
    .ok ({ p with received := 0, chunk := .size, body := .chunked, remaining := 0 },
      { req with keepAlive := p.persistent, state := .headersCompleted })
  else if p.contentLength ≠ 0 then
    .ok ({ p with received := 0, chunk := .size, body := .contentLength,
                  remaining := p.contentLength },
      { req with keepAlive := p.persistent, state := .headersCompleted })
  else
    .ok ({ p with received := 0, chunk := .size, body := .none },
      { req with keepAlive := p.persistent, state := .completed })

theorem nextLine_bound {data : Bytes} {line : Line} (found : nextLine data = some line) :
    0 < line.next ∧ line.next ≤ data.length := by
  simp only [nextLine, Option.map_eq_some_iff, Prod.exists] at found
  obtain ⟨before, after, found, rfl⟩ := found
  obtain ⟨rfl, -⟩ := cut_eq_some.mp found
  simp

def skipEmptyLines (pos : Nat) (view : Bytes) : Nat × Option Line :=
  match _found : nextLine view with
  | none => (pos, none)
  | some line =>
    if line.text ≠ [] then (pos, some line)
    else skipEmptyLines (pos + line.next) (view.drop line.next)
termination_by view.length
decreasing_by
  have := nextLine_bound _found
  simp
  omega

def headerLines (size pos : Nat) (p : Parser) (req : Request) (view : Bytes) :
    Except Exc (Nat × Parser × Request) :=
  match _found : nextLine view with
  | none =>
    if p.headSeen + size > maxHeadSize then .error (fail 431 "Request header fields too large")
    else .ok (pos, { p with headSeen := p.headSeen + pos }, req)
  | some line =>
    let pos := pos + line.next
    if p.headSeen + pos > maxHeadSize then .error (fail 431 "Request header fields too large")
    else if line.text = [] then
      match finalizeHead p req with
      | .error e => .error e
      | .ok (p, req) => .ok (pos, { p with head := .done, headSeen := p.headSeen + pos }, req)
    else match parseHeaderField p line.text req with
      | .error e => .error e
      | .ok (p, req) => headerLines size pos p req (view.drop line.next)
termination_by view.length
decreasing_by
  have := nextLine_bound _found
  simp
  omega

def headLines (p : Parser) (data : Bytes) (req : Request) : Except Exc (Nat × Parser × Request) :=
  match p.head with
  | .done => .ok (0, p, req)
  | .requestLine =>
    match skipEmptyLines 0 data with
    | (pos, none) =>
      if p.headSeen + data.length > maxHeadSize then
        .error (fail 431 "Request header fields too large")
      else .ok (pos, { p with headSeen := p.headSeen + pos }, req)
    | (pos, some line) =>
      match parseRequestLine p line.text req with
      | .error e => .error e
      | .ok (p, req) =>
        if p.headSeen + (pos + line.next) > maxHeadSize then
          .error (fail 431 "Request header fields too large")
        else headerLines data.length (pos + line.next) { p with head := .headers }
          { req with state := .processingHeader } (data.drop (pos + line.next))
  | .headers => headerLines data.length 0 p req data

def parseHead (p : Parser) (data : Bytes) (req : Request) : Except Exc (Nat × Parser × Request) :=
  if req.state = .uninitialized then
    headLines (beginRequest p req).1 data (beginRequest p req).2
  else headLines p data req

def sizeSub (a b : Nat) : Nat := (a + sizeMod - b) % sizeMod

-- What `parse_body` does up to its next call of the body callback. Positions are relative to the unread part of the data it was
-- given.
inductive Turn where
  -- it returns, `n` bytes further on
  | ret (p : Parser) (req : Request) (n : Nat)
  -- the loop of `parse_chunked` goes round, `n` bytes further on
  | next (p : Parser) (req : Request) (n : Nat)
  -- the callback is called with the next `n` bytes
  | call (p : Parser) (req : Request) (n : Nat)
  | fail (e : Exc) (p : Parser) (req : Request)
  deriving DecidableEq

-- `deliver`, up to the call of the callback.
def deliver (p : Parser) (req : Request) (size : Nat) : Turn :=
  if req.maxBodySize ≠ 0 ∧ p.received + size > req.maxBodySize then
    .fail (fail 413 "Request entity too large") { p with received := p.received + size } req
  else if !req.callback then
    .fail (fail 400 "unexpected body") { p with received := p.received + size } req
  else .call { p with received := p.received + size } req size

def chunkDigits (digits size : Nat) : Bytes → Except Exc (Nat × Nat)
  | [] => .ok (digits, size)
  | c :: rest =>
    if charTable c .hexChar then
      if digits = 16 then .error (fail 400 "Chunk size too large")
      else chunkDigits (digits + 1) ((size <<< 4 ||| hexValue c) % sizeMod) rest
    else .ok (digits, size)

def chunkSize (text : Bytes) : Except Exc Nat :=
  match chunkDigits 0 0 text with
  | .error e => .error e
  | .ok (digits, size) =>
    if digits = 0 then .error (fail 400 "Invalid chunk size")
    else
      let ext := trimOws (text.drop digits)
      if ext ≠ [] ∧ (ext.head? ≠ some (ch ';') ∨ !allChars ext .valueChar) then
        .error (fail 400 "Invalid chunk extension")
      else .ok size

def sizeLine (p : Parser) (req : Request) (line : Line) : Turn :=
  match chunkSize line.text with
  | .error e => .fail e p req
  | .ok size =>
    .next { p with remaining := size, chunk := if size ≠ 0 then .data else .trailers } req line.next

-- `chunk::data_end`: the CRLF, or the bare LF, after the chunk data.
def dataEndTurn (p : Parser) (req : Request) : Bytes → Turn
  | [] => .ret p req 0
  | first :: rest =>
    if first = lf then .next { p with chunk := .size } req 1
    else if first = cr then
      match rest with
      | [] => .ret p req 0
      | second :: _ =>
        if second ≠ lf then .fail (fail 400 "Invalid chunk") p req
        else .next { p with chunk := .size } req 2
    else .fail (fail 400 "Invalid chunk") p req

def trailerLine (p : Parser) (req : Request) (line : Line) : Turn :=
  if line.text = [] then .ret p { req with state := .completed } line.next
  else if p.headers + 1 > maxHeadersCount then
    .fail (fail 431 "Too many trailer fields") { p with headers := p.headers + 1 } req
  else if !allChars line.text .valueChar then
    .fail (fail 400 "Invalid trailer field") { p with headers := p.headers + 1 } req
  else .next { p with headers := p.headers + 1 } req line.next

def lineTurn (p : Parser) (req : Request) (limit : Nat) (tooLong : Exc) (view : Bytes)
    (complete : Line → Turn) : Turn :=
  match nextLine view with
  | none => if view.length > limit then .fail tooLong p req else .ret p req 0
  | some line => complete line

def chunkTurn (p : Parser) (req : Request) (view : Bytes) : Turn :=
  if view = [] then .ret p req 0
  else match p.chunk with
  | .size =>
    lineTurn p req maxChunkLineSize (fail 400 "Invalid chunk size") view (sizeLine p req)
  | .data => deliver p req (min p.remaining view.length)
  | .dataEnd => dataEndTurn p req view
  | .trailers =>
    lineTurn p req maxHeadSize (fail 431 "Trailer fields too large") view (trailerLine p req)

-- The rest of `chunk::Data` when the callback that was given `n` bytes has returned.
def chunkDelivered (p : Parser) (n : Nat) : Parser :=
  { p with remaining := p.remaining - n, chunk := if p.remaining - n = 0 then .dataEnd else p.chunk }

def lengthDelivered (p : Parser) (req : Request) (n : Nat) : Parser × Request :=
  ({ p with remaining := p.remaining - n },
    if p.remaining - n = 0 then { req with state := .completed } else req)

def delivered (p : Parser) (req : Request) (n : Nat) : Turn :=
  if p.body = .chunked then .next (chunkDelivered p n) req n
  else
    let (p, req) := lengthDelivered p req n
    .ret p req n

def bodyTurn (p : Parser) (req : Request) (data : Bytes) : Turn :=
  if req.state = .completed ∨ p.body = .none then .ret p req 0
  else if p.body = .chunked then .next p { req with state := .processingBody } 0
  else if req.maxBodySize ≠ 0 ∧ p.remaining > sizeSub req.maxBodySize p.received then
    .fail (fail 413 "Request entity too large") p { req with state := .processingBody }
  else if min p.remaining data.length ≠ 0 then
    deliver p { req with state := .processingBody } (min p.remaining data.length)
  else
    let (p, req) := lengthDelivered p { req with state := .processingBody } 0
    .ret p req 0

-- A body callback that does not suspend: what it throws, if anything, when it is handed a piece after the pieces before it.
abbrev Callback := List Bytes → Bytes → Option Exc

structure Thrown where
  exc : Exc
  parser : Parser
  req : Request

def Request.receive (req : Request) (piece : Bytes) : Request :=
  { req with delivered := req.delivered ++ [piece] }

theorem lineTurn_next {p p' : Parser} {req req' : Request} {limit n : Nat} {tooLong : Exc}
    {view : Bytes} {complete : Line → Turn} :
    lineTurn p req limit tooLong view complete = .next p' req' n ↔
      ∃ line, nextLine view = some line ∧ complete line = .next p' req' n := by
  unfold lineTurn
  cases nextLine view with
  | none => simp; split_ifs <;> simp
  | some line => simp

theorem lineTurn_call {p p' : Parser} {req req' : Request} {limit n : Nat} {tooLong : Exc}
    {view : Bytes} {complete : Line → Turn} :
    lineTurn p req limit tooLong view complete = .call p' req' n ↔
      ∃ line, nextLine view = some line ∧ complete line = .call p' req' n := by
  unfold lineTurn
  cases nextLine view with
  | none => simp; split_ifs <;> simp
  | some line => simp

theorem sizeLine_next {p p' : Parser} {req req' : Request} {line : Line} {n : Nat} :
    sizeLine p req line = .next p' req' n ↔
      ∃ size, chunkSize line.text = .ok size ∧ n = line.next ∧ req' = req ∧
        p' = { p with remaining := size, chunk := if size ≠ 0 then .data else .trailers } := by
  unfold sizeLine
  cases chunkSize line.text with
  | error e => simp
  | ok size => simp only [Turn.next.injEq, Except.ok.injEq]; grind

theorem dataEndTurn_next {p p' : Parser} {req req' : Request} {view : Bytes} {n : Nat} :
    dataEndTurn p req view = .next p' req' n ↔
      p' = { p with chunk := .size } ∧ req' = req ∧
        ∃ rest, (view = lf :: rest ∧ n = 1) ∨ (view = cr :: lf :: rest ∧ n = 2) := by
  fun_cases dataEndTurn p req view <;> simp_all <;> grind

theorem trailerLine_next {p p' : Parser} {req req' : Request} {line : Line} {n : Nat} :
    trailerLine p req line = .next p' req' n ↔
      line.text ≠ [] ∧ p.headers + 1 ≤ maxHeadersCount ∧ allChars line.text .valueChar ∧
        n = line.next ∧ req' = req ∧ p' = { p with headers := p.headers + 1 } := by
  unfold trailerLine
  split_ifs <;> simp_all
  grind

theorem deliver_call {p p' : Parser} {req req' : Request} {size n : Nat} :
    deliver p req size = .call p' req' n ↔
      n = size ∧ p' = { p with received := p.received + size } ∧ req' = req ∧ req.callback ∧
        (req.maxBodySize ≠ 0 → p.received + size ≤ req.maxBodySize) := by
  unfold deliver
  split_ifs <;> simp_all
  grind

theorem deliver_ne_next (p p' : Parser) (req req' : Request) (size n : Nat) :
    deliver p req size ≠ .next p' req' n := by
  unfold deliver
  split_ifs <;> simp

theorem chunkTurn_next_bound {p p' : Parser} {req req' : Request} {view : Bytes} {n : Nat}
    (turn : chunkTurn p req view = .next p' req' n) : 0 < n ∧ n ≤ view.length := by
  unfold chunkTurn at turn
  split_ifs at turn
  cases chunk : p.chunk <;> simp only [chunk] at turn
  case size =>
    obtain ⟨line, found, complete⟩ := lineTurn_next.mp turn
    obtain ⟨-, -, rfl, -⟩ := sizeLine_next.mp complete
    exact nextLine_bound found
  case data => exact absurd turn (deliver_ne_next _ _ _ _ _ _)
  case dataEnd =>
    obtain ⟨-, -, rest, ⟨rfl, rfl⟩ | ⟨rfl, rfl⟩⟩ := dataEndTurn_next.mp turn <;> simp
  case trailers =>
    obtain ⟨line, found, complete⟩ := lineTurn_next.mp turn
    obtain ⟨-, -, -, rfl, -⟩ := trailerLine_next.mp complete
    exact nextLine_bound found

theorem chunkTurn_call {p p' : Parser} {req req' : Request} {view : Bytes} {n : Nat} :
    chunkTurn p req view = .call p' req' n ↔
      view ≠ [] ∧ p.chunk = .data ∧
        deliver p req (min p.remaining view.length) = .call p' req' n := by
  unfold chunkTurn
  split_ifs with empty
  · simp [empty]
  cases chunk : p.chunk <;> simp only [empty, reduceCtorEq, ne_eq, not_false_eq_true, true_and,
    false_and, iff_false]
  case size =>
    rw [lineTurn_call]
    rintro ⟨line, -, complete⟩
    unfold sizeLine at complete
    split at complete <;> cases complete
  case dataEnd => fun_cases dataEndTurn p req view <;> simp
  case trailers =>
    rw [lineTurn_call]
    rintro ⟨line, -, complete⟩
    unfold trailerLine at complete
    split_ifs at complete

def Chunk.rank (c : Chunk) : Nat := if c = .data then 1 else 0

def parseChunked (cb : Callback) (pos : Nat) (p : Parser) (req : Request) (view : Bytes) :
    Except Thrown (Nat × Parser × Request) :=
  match _turn : chunkTurn p req view with
  | .ret p req n => .ok (pos + n, p, req)
  | .fail e p req => .error ⟨e, p, req⟩
  | .next p req n => parseChunked cb (pos + n) p req (view.drop n)
  | .call p req n =>
    match cb req.delivered (view.take n) with
    | some e => .error ⟨e, p, req.receive (view.take n)⟩
    | none =>
      parseChunked cb (pos + n) (chunkDelivered p n) (req.receive (view.take n)) (view.drop n)
termination_by 2 * view.length + p.chunk.rank
decreasing_by
  · have := chunkTurn_next_bound _turn
    have rank (c : Chunk) : c.rank ≤ 1 := by unfold Chunk.rank; split <;> omega
    have := rank p.chunk
    simp
    omega
  · obtain ⟨filled, data, delivering⟩ := chunkTurn_call.mp _turn
    obtain ⟨rfl, rfl, -⟩ := deliver_call.mp delivering
    have := List.length_pos_iff.mpr filled
    simp only [chunkDelivered, data, Chunk.rank, List.length_drop]
    split_ifs <;> simp_all
    omega

def parseBody (cb : Callback) (p : Parser) (data : Bytes) (req : Request) :
    Except Thrown (Nat × Parser × Request) :=
  match bodyTurn p req data with
  | .ret p req n => .ok (n, p, req)
  | .fail e p req => .error ⟨e, p, req⟩
  | .next p req n => parseChunked cb n p req (data.drop n)
  | .call p req n =>
    match cb req.delivered (data.take n) with
    | some e => .error ⟨e, p, req.receive (data.take n)⟩
    | none => .ok (n, lengthDelivered p (req.receive (data.take n)) n)

end Dracon
