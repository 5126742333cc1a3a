import Dracon.Http.ChunkedStream
import Dracon.Http.ResponseClient
import Dracon.Utils.OstreamBuffer

set_option autoImplicit false

namespace Dracon

open Shared

namespace Client

def chunks (text : Bytes) : Option (Bytes × Bytes) :=
  match _found : cutAt crlf text with
  | none => none
  | some (line, rest) =>
    match chunkSize line with
    | .error _ => none
    | .ok size =>
      if ¬ crlf.isPrefixOf (rest.drop size) then none
      else if size = 0 then some ([], rest.drop 2)
      else (chunks (rest.drop (size + 2))).map fun parts => (rest.take size ++ parts.1, parts.2)
termination_by text.length
decreasing_by
  have shorter : rest.length < text.length := cutAt_length _found
  rw [List.length_drop]
  omega

def isChunked (fields : List Bytes) : Bool :=
  fields.any fun line => responseHeaderNameEquals (fieldName line) (bytes "Transfer-Encoding") &&
    fieldValue line == bytes "chunked"

def receiveNext (head : Bool) (text : Bytes) : Option Received := do
  let (lines, rest) ← readHead text
  let status ← lines.head?.bind statusCode
  if head || bodiless status then some ⟨status, [], rest⟩
  else if isChunked lines.tail then (chunks rest).map fun parts => ⟨status, parts.1, parts.2⟩
  else
    let length ← contentLength lines.tail
    if length ≤ rest.length then some ⟨status, rest.take length, rest.drop length⟩ else none

end Client

inductive Answer where
  | whole (res : Response)
  -- `set_content_length`, and the body is written behind it in pieces
  | sized (res : Response) (pieces : List Bytes)
  -- the same with `chunked_data`, and a `chunked_stream` in between
  | chunked (res : Response) (calls : List WriteCall)
  -- to HEAD: the response says what it would have
  | head (res : Response)

namespace Answer

def response : Answer → Response
  | .whole res => res
  | .sized res pieces => Setter.apply res (.setContentLength pieces.flatten.length)
  | .chunked res _ => Setter.apply res (.setContentLength chunkedData)
  | .head res => Setter.apply res (.setContentLength res.contentLength)

def isHead : Answer → Bool
  | .head _ => true
  | _ => false

def written : Answer → Bytes
  | .sized _ pieces => pieces.flatten
  | .chunked _ calls => encode calls
  | _ => []

def wire (answer : Answer) (keepAlive : Int) : Bytes := answer.response.toString keepAlive ++ answer.written

def body : Answer → Bytes
  | .whole res => if res.bodyLess then [] else res.body
  | .sized _ pieces => pieces.flatten
  | .chunked _ calls => payload calls
  | .head _ => []

end Answer

-- a status that a body can follow
def Response.TakesBody (res : Response) : Prop :=
  ¬ (100 ≤ res.statusCode ∧ res.statusCode ≤ 199) ∧ res.statusCode ≠ 204 ∧ res.statusCode ≠ 304

def Response.Plain (res : Response) : Prop := ∀ field ∈ res.fields, plainName field.1

def Answer.Sound : Answer → Prop
  | .whole res => res.Plain ∧ res.contentLength = res.body.length ∧ res.body.length < chunkedData ∧
      ¬ (102 ≤ res.statusCode ∧ res.statusCode ≤ 199) ∧ (res.statusCode = 304 → res.body = [])
  | .sized res pieces => res.Plain ∧ res.TakesBody ∧ pieces.flatten.length < chunkedData
  | .chunked res calls => res.Plain ∧ res.TakesBody ∧ ∀ call ∈ calls, call.Fits
  | .head _ => True

def codingName (name : Bytes) : Bool := responseHeaderNameEquals name (bytes "Transfer-Encoding")

section Reading

variable (res : Response) (keepAlive : Int) (rest : Bytes)

theorem readHead_append :
    Client.readHead (res.toString keepAlive ++ rest) =
      some (res.statusLine :: (res.fieldLines ++ res.computedLines keepAlive), res.sentBody ++ rest) := by
  obtain ⟨head, split, found⟩ : ∃ head, head ++ crlf = (res.headLines keepAlive).flatMap (· ++ crlf) ∧
      cutAt (crlf ++ crlf) (res.toString keepAlive ++ rest) = some (head, res.sentBody ++ rest) := by
    rw [res.toString_eq, List.append_assoc, List.append_assoc]
    exact cutAt_emptyLine (by decide : cr ∉ [lf]) (by simp [Response.headLines]) (res.headLines_carriage keepAlive)
      (res.sentBody ++ rest)
  have read : lines cr [lf] (head ++ crlf) = res.headLines keepAlive := by
    rw [split]
    exact lines_flatMap fun line mem => (res.headLines_carriage keepAlive line mem).2
  rw [Client.readHead, found, Option.map_some, read]
  rfl

theorem takesBody_spec {res : Response} (takes : res.TakesBody) :
    Client.bodiless res.sentStatus = false ∧ res.bodyLess = false := by
  obtain ⟨informational, noContent, notModified⟩ := takes
  have unsent : res.bodyLess = false := by
    rw [← Bool.not_eq_true, bodyLess_iff]
    simp only [UInt16.le_iff_toNat_le, ← UInt16.toNat_inj, ne_eq] at informational noContent
    rintro (range | same)
    · exact informational ⟨range.1, Nat.le_of_lt_succ range.2⟩
    · exact noContent same
  rcases sentStatus_cases res with ⟨-, -, -, server⟩ | ⟨code, -⟩ | ⟨-, -, same⟩
  · simp [unsent] at server
  · exact absurd code notModified
  · exact ⟨same.trans unsent, unsent⟩

theorem isChunked_read {res : Response} (plain : res.Plain) :
    Client.isChunked (res.fieldLines ++ res.computedLines keepAlive) =
      decide (res.bodyLess = false ∧ res.contentLength = chunkedData) := by
  have honest := (fieldLines_reserved res).mpr fun field mem => plainName_honest (plain field mem)
  have framing (name : Bytes) (coding : codingName name) : framingName name := by
    unfold codingName at coding
    simp [framingName, coding]
  have chosen := framing_filter res keepAlive framing honest
  have stated : codingName (Client.fieldName (bytes "Content-Length: ")) = false := by decide +kernel
  have shown : Client.fieldName (bytes "Content-Length: " ++ numberText res.contentLength) =
      Client.fieldName (bytes "Content-Length: ") := fieldName_append (by decide) _
  have coding : (codingName (Client.fieldName (bytes "Transfer-Encoding: chunked")) &&
      Client.fieldValue (bytes "Transfer-Encoding: chunked") == bytes "chunked") = true := by
    decide +kernel
  unfold Client.isChunked
  simp only [codingName] at chosen stated coding
  rw [← List.any_filter, chosen, List.any_filter, Response.framingLines]
  by_cases unsent : res.bodyLess
  · simp [unsent]
  · by_cases endless : res.contentLength = chunkedData
    · simpa [unsent, endless] using coding
    · simp [unsent, endless, shown, stated]

end Reading

section Chunks

variable {text line rest : Bytes} {size : Nat}

theorem chunks_of_cutAt (found : cutAt crlf text = some (line, rest)) (sized : chunkSize line = .ok size) :
    Client.chunks text =
      if ¬ crlf.isPrefixOf (rest.drop size) then none
      else if size = 0 then some ([], rest.drop 2)
      else (Client.chunks (rest.drop (size + 2))).map fun parts => (rest.take size ++ parts.1, parts.2) := by
  rw [Client.chunks]
  split
  next missing => simp [found] at missing
  next again =>
    rw [found] at again
    cases again
    rw [sized]

theorem cutAt_chunkHeader (n : Nat) (rest : Bytes) :
    cutAt crlf (chunkHeader n ++ rest) = some ((Nat.toDigits 16 n).map ch, rest) := by
  have digits : cr ∉ (Nat.toDigits 16 n).map ch := by
    intro member
    obtain ⟨c, digit, same⟩ := List.mem_map.mp member
    obtain ⟨d, small, rfl⟩ := mem_toDigits n digit
    have hex := (digitChar_hex d small).1
    rw [same] at hex
    exact absurd hex (by decide +kernel)
  rw [chunkHeader, List.append_assoc]
  change cutAt (cr :: [lf]) _ = _
  rw [cutAt_append digits, cutAt_pattern (cr :: [lf]) rest]
  simp

theorem chunks_write {call : WriteCall} (fits : call.Fits) (rest : Bytes) :
    Client.chunks (call.args.write ++ rest) =
      (Client.chunks rest).map fun parts => (call.payload ++ parts.1, parts.2) := by
  rw [fits.write_eq]
  split_ifs with empty
  · simp [empty]
  · have filled : call.payload.length ≠ 0 := by simpa using empty
    have text : chunkHeader call.payload.length ++ call.payload ++ crlf ++ rest =
        chunkHeader call.payload.length ++ (call.payload ++ (crlf ++ rest)) := by simp
    have sized : chunkSize ((Nat.toDigits 16 call.payload.length).map ch) = .ok call.payload.length :=
      chunkSize_toDigits _ fits.length
    rw [text, chunks_of_cutAt (cutAt_chunkHeader _ _) sized, List.drop_left,
      if_neg (by simp), if_neg filled, List.take_left, ← List.drop_drop, List.drop_left]
    rfl

theorem chunks_encode {calls : List WriteCall} (fit : ∀ call ∈ calls, call.Fits) (rest : Bytes) :
    Client.chunks (encode calls ++ rest) = some (payload calls, rest) := by
  induction calls with
  | nil =>
    have found : cutAt crlf (bytes "0\r\n\r\n" ++ rest) = some ([ch '0'], crlf ++ rest) := cutAt_chunkHeader 0 (crlf ++ rest)
    have last := chunks_of_cutAt found (by decide +kernel : chunkSize [ch '0'] = .ok 0)
    simpa [encode, endOfChunkedStream, payload] using last
  | cons call calls ih =>
    obtain ⟨fits, others⟩ := List.forall_mem_cons.mp fit
    rw [encode_cons, chunks_write fits, ih others]
    simp [payload]

end Chunks

section Answers

variable {res : Response} (keepAlive : Int) (rest : Bytes)

theorem receiveNext_eq (head : Bool) :
    Client.receiveNext head (res.toString keepAlive ++ rest) =
      if head || Client.bodiless res.sentStatus then some ⟨res.sentStatus, [], res.sentBody ++ rest⟩
      else if Client.isChunked (res.fieldLines ++ res.computedLines keepAlive) then
        (Client.chunks (res.sentBody ++ rest)).map fun parts => ⟨res.sentStatus, parts.1, parts.2⟩
      else (Client.contentLength (res.fieldLines ++ res.computedLines keepAlive)).bind fun length =>
        if length ≤ (res.sentBody ++ rest).length then
          some ⟨res.sentStatus, (res.sentBody ++ rest).take length, (res.sentBody ++ rest).drop length⟩
        else none := by
  simp [Client.receiveNext, readHead_append, statusCode_statusLine]

theorem receive_length {more body : Bytes} (plain : res.Plain) (client : Client.bodiless res.sentStatus = false)
    (server : res.bodyLess = false) (finite : res.contentLength ≠ chunkedData) (length : res.contentLength = body.length)
    (sent : res.sentBody ++ rest = body ++ more) :
    Client.receiveNext false (res.toString keepAlive ++ rest) = some ⟨res.sentStatus, body, more⟩ := by
  have honest := (fieldLines_reserved res).mpr fun field mem => plainName_honest (plain field mem)
  have stated := contentLength_read res keepAlive honest
  rw [receiveNext_eq, isChunked_read keepAlive plain, stated, sent, length]
  simp [client, server, length ▸ finite]

theorem answer_received {answer : Answer} (sound : answer.Sound) :
    Client.receiveNext answer.isHead (answer.wire keepAlive ++ rest) =
      some ⟨answer.response.sentStatus, answer.body, rest⟩ := by
  rw [Answer.wire, List.append_assoc]
  cases answer with
  | whole res =>
    obtain ⟨plain, whole, sized, known, empty⟩ := sound
    have finite : res.contentLength ≠ chunkedData := by omega
    change Client.receiveNext false (res.toString keepAlive ++ ([] ++ rest)) = some ⟨res.sentStatus, _, rest⟩
    rw [List.nil_append]
    rcases sentStatus_cases res with ⟨low, high, -⟩ | ⟨code, client, server⟩ | ⟨-, -, same⟩
    · exact absurd ⟨low, high⟩ known
    · rw [receiveNext_eq]
      simp [client, server, Answer.body, Response.sentBody, empty code]
    · cases server : res.bodyLess with
      | true =>
        rw [receiveNext_eq]
        simp [same, server, Answer.body, Response.sentBody]
      | false =>
        refine receive_length keepAlive rest plain (same.trans server) server finite ?_ ?_ <;>
          simp [Answer.body, Response.sentBody, server, whole]
  | sized res pieces =>
    obtain ⟨plain, takes, sized⟩ := sound
    obtain ⟨client, server⟩ := takesBody_spec takes
    exact receive_length keepAlive (pieces.flatten ++ rest) plain client server sized.ne rfl
      (by simp [Response.sentBody, Answer.body, Setter.apply, Answer.response])
  | chunked res calls =>
    obtain ⟨plain, takes, fit⟩ := sound
    obtain ⟨client, server⟩ := takesBody_spec takes
    let sent : Response := Setter.apply res (.setContentLength chunkedData)
    have plain : sent.Plain := plain
    have coded : Client.isChunked (sent.fieldLines ++ sent.computedLines keepAlive) = true := by
      rw [isChunked_read keepAlive plain]
      exact decide_eq_true ⟨server, rfl⟩
    have client : Client.bodiless sent.sentStatus = false := client
    have nothing : sent.sentBody = [] := by simp [Response.sentBody, sent, Setter.apply]
    change Client.receiveNext false (sent.toString keepAlive ++ (encode calls ++ rest)) = some ⟨sent.sentStatus, payload calls, rest⟩
    rw [receiveNext_eq, nothing, List.nil_append, chunks_encode fit]
    simp [client, coded]
  | head res =>
    let sent : Response := Setter.apply res (.setContentLength res.contentLength)
    have nothing : sent.sentBody = [] := by simp [Response.sentBody, sent, Setter.apply]
    change Client.receiveNext true (sent.toString keepAlive ++ ([] ++ rest)) = some ⟨sent.sentStatus, [], rest⟩
    rw [List.nil_append, receiveNext_eq, nothing]
    simp

end Answers

/--
A page that is put into an `ostream_buffer` over a `chunked_stream` comes out of the connection as it was put in, for every
capacity of the buffer and however its flushes cut the page into chunks.
-/
theorem page_received {capacity : Nat} (positive : 1 ≤ capacity) (outputs : List OstreamBuffer.Call) {res : Response}
    (plain : res.Plain) (takes : res.TakesBody) (keepAlive : Int) (calls : List WriteCall)
    (fit : ∀ call ∈ calls, call.Fits)
    (flushed : payload calls = (OstreamBuffer.run positive outputs).destroy.written) (rest : Bytes) :
    Client.receiveNext false ((Answer.chunked res calls).wire keepAlive ++ rest) =
      some ⟨res.sentStatus, outputs.flatMap OstreamBuffer.Call.characters, rest⟩ := by
  have whole : (OstreamBuffer.run positive outputs).destroy.written = outputs.flatMap OstreamBuffer.Call.characters := by
    rw [← OstreamBuffer.stream_run positive, ← OstreamBuffer.stream_sync, OstreamBuffer.stream, OstreamBuffer.buffer_sync,
      List.append_nil]
    rfl
  have body : (Answer.chunked res calls).body = outputs.flatMap OstreamBuffer.Call.characters := flushed.trans whole
  rw [← body]
  exact answer_received keepAlive rest ⟨plain, takes, fit⟩

theorem page_received_small :
    Client.receiveNext false
        ((Answer.chunked { statusCode := 200 } [⟨.buffer (bytes "hel"), by decide⟩, ⟨.buffer (bytes "lo"), by decide⟩]).wire 5) =
      some ⟨200, bytes "hello", []⟩ := by
  have flushed : payload [⟨.buffer (bytes "hel"), by decide⟩, ⟨.buffer (bytes "lo"), by decide⟩] =
      (OstreamBuffer.run (by decide : 1 ≤ 3) [.xsputn (bytes "hell") 4, .overflow 111]).destroy.written := by
    decide +kernel
  have plain : ({ statusCode := 200 } : Response).Plain := by simp [Response.Plain]
  have received := page_received (by decide : 1 ≤ 3) [.xsputn (bytes "hell") 4, .overflow 111] plain
    (by unfold Response.TakesBody; decide) 5 _ (by unfold WriteCall.Fits; decide) flushed []
  rw [List.append_nil] at received
  exact received

end Dracon
