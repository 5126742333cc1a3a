import Dracon.Http.BodyLimit

set_option autoImplicit false

namespace Dracon

section Head

variable {p p' : Parser} {req req' : Request} {data view : Bytes} {size pos n : Nat}

theorem headLines_waiting (req : Request) (waiting : p.Waiting data) : headLines p data req = .ok (0, p, req) := by
  rcases waiting with done | ⟨missing, small⟩
  · rw [headLines, done]
  · have fits : ¬ p.headSeen + data.length > maxHeadSize := by omega
    cases head : p.head with
    | done => rw [headLines, head]
    | requestLine =>
      have nothing : skipEmptyLines 0 data = (0, none) := by
        unfold skipEmptyLines
        split <;> simp_all
      simp only [headLines, head, nothing, fits, if_false]
      rw [← head]
      rfl
    | headers =>
      simp only [headLines, head]
      unfold headerLines
      split
      · rw [if_neg fits]
        rfl
      · simp_all

theorem parseHead_refeed (parsed : parseHead p data req = .ok (n, p', req')) :
    parseHead p' (data.drop n) req' = .ok (0, p', req') := by
  obtain ⟨waiting, begun⟩ := parseHead_stops parsed
  rw [parseHead, if_neg begun]
  exact headLines_waiting req' waiting

end Head

section Body

variable {cb : Callback} {p p' : Parser} {req req' : Request} {data view : Bytes} {pos n : Nat}

theorem parseChunked_rest (mode : p.body = .chunked) (state : req.state = .processingBody)
    (parsed : parseChunked cb pos p req view = .ok (n, p', req')) :
    req'.state = .completed ∨ (p'.body = .chunked ∧ req'.state = .processingBody ∧
      chunkTurn p' req' (view.drop (n - pos)) = .ret p' req' 0) := by
  fun_induction parseChunked cb pos p req view with
  | case1 pos p req view q r m turn =>
    cases parsed
    rcases chunkTurn_ret turn with ⟨rfl, rfl, rfl, -⟩ | ⟨-, rfl, rfl, -⟩
    · exact .inr ⟨mode, state, by simpa using turn⟩
    · exact .inl rfl
  | case2 | case4 => cases parsed
  | case3 pos p req view q r m turn ih =>
    obtain ⟨rfl, -, body⟩ := chunkTurn_next_counts turn
    rw [drop_sub (parseChunked_bound parsed).1]
    exact ih (body.trans mode) state parsed
  | case5 pos p req view q r m turn quiet ih =>
    obtain ⟨rfl, -, rfl, -⟩ := chunkTurn_call_counts turn
    rw [drop_sub (parseChunked_bound parsed).1]
    exact ih mode state parsed

theorem parseBody_completed (cb : Callback) (p : Parser) (data : Bytes) (done : req.state = .completed) :
    parseBody cb p data req = .ok (0, p, req) := by
  simp [parseBody, bodyTurn, done]

def LengthFits (p : Parser) (req : Request) : Prop :=
  req.maxBodySize ≠ 0 → p.remaining ≤ sizeSub req.maxBodySize p.received

theorem parseBody_fits (mode : p.body = .contentLength) (running : req.state ≠ .completed)
    (parsed : parseBody cb p data req = .ok (n, p', req')) : LengthFits p req := by
  intro limited
  by_contra large
  rw [parseBody, bodyTurn, if_neg (by simp [running, mode]), if_neg (by simp [mode]), if_pos ⟨limited, by omega⟩] at parsed
  cases parsed

theorem sizeSub_advance {max received remaining : Nat} (fits : remaining ≤ sizeSub max received) (some : n ≤ remaining)
    (allowed : received + n ≤ max) : remaining - n ≤ sizeSub max (received + n) := by
  simp only [sizeSub, sizeMod] at *
  omega

theorem parseBody_idle (cb : Callback) (mode : p.body = .contentLength) (state : req.state = .processingBody)
    (fits : LengthFits p req) (left : p.remaining ≠ 0) : parseBody cb p [] req = .ok (0, p, req) := by
  have passes : ¬ (req.maxBodySize ≠ 0 ∧ p.remaining > sizeSub req.maxBodySize p.received) := by
    rintro ⟨limited, large⟩
    exact absurd (fits limited) (by omega)
  have same : { req with state := .processingBody } = req := by rw [← state]
  rw [parseBody, bodyTurn_length [] mode (by simp [state]) passes, same]
  simp [lengthDelivered, left]

theorem parseBody_refeed (cb' : Callback) (parsed : parseBody cb p data req = .ok (n, p', req')) :
    parseBody cb' p' (data.drop n) req' = .ok (0, p', req') := by
  obtain ⟨stop, rfl, rfl, rfl⟩ | ⟨running, mode, chunked⟩ | ⟨running, mode, none, rfl, result⟩ |
    ⟨running, mode, size, some, allowed, result⟩ := parseBody_cases parsed
  · rw [parseBody, bodyTurn, if_pos stop]
  · rcases parseChunked_rest mode rfl chunked with done | ⟨mode', state, turn⟩
    · exact parseBody_completed cb' p' _ done
    · have same : { req' with state := .processingBody } = req' := by rw [← state]
      rw [parseBody, bodyTurn, if_neg (by simp [state, mode']), if_pos mode', same]
      exact parseChunked_ret cb' 0 turn
  · have fits := parseBody_fits mode running parsed
    cases result
    by_cases left : p.remaining = 0
    · exact parseBody_completed cb' _ _ (by simp [left])
    · have empty : data = [] := List.length_eq_zero_iff.mp (by omega)
      simp only [Nat.sub_zero, left, if_false, empty, List.drop_nil]
      exact parseBody_idle cb' mode rfl fits left
  · have fits := parseBody_fits mode running parsed
    cases result
    by_cases left : p.remaining - n = 0
    · exact parseBody_completed cb' _ _ (by simp [left])
    · have empty : data.drop n = [] := List.drop_eq_nil_of_le (by omega)
      simp only [left, if_false, empty]
      refine parseBody_idle cb' mode rfl (fun limited => ?_) left
      exact sizeSub_advance (fits limited) (by omega) (allowed.2 limited)

end Body

def Parser.bodyPart (p : Parser) : Body × Chunk × Nat := (p.body, p.chunk, p.remaining)

def Parser.begun (p : Parser) (req : Request) : Parser := if req.state = .uninitialized then (beginRequest p req).1 else p

-- The states of a parser and the request it works on, whatever the order of the calls and whatever they throw.
inductive Reached : Parser → Request → Prop
  | start : Reached {} {}
  -- the parser is given another request, a fresh one or one that was worked on before
  | request {p req p' req'} (reached : Reached p req) (other : Reached p' req') : Reached p req'
  | callback {p req} (reached : Reached p req) (callback : Bool) (maxSize : Nat) :
      Reached p (req.appendBodyCallback callback maxSize)
  | head {p req data n p' req'} (reached : Reached p req) (parsed : parseHead p data req = .ok (n, p', req')) : Reached p' req'
  -- `parse_head` throws before it writes what the body is read with, and has no callback to call
  | headThrew {p req data e p' req'} (reached : Reached p req) (threw : parseHead p data req = .error e)
      (kept : p'.bodyPart = (p.begun req).bodyPart) (pieces : req'.delivered = req.delivered) : Reached p' req'
  | body {p req cb data n p' req'} (reached : Reached p req) (parsed : parseBody cb p data req = .ok (n, p', req')) :
      Reached p' req'
  | bodyThrew {p req cb data thrown} (reached : Reached p req) (threw : parseBody cb p data req = .error thrown) :
      Reached thrown.parser thrown.req

def Parser.Owed (p : Parser) : Prop := p.chunk = .data → p.body = .chunked ∧ p.remaining ≠ 0

def Request.Filled (req : Request) : Prop := ∀ piece ∈ req.delivered, piece ≠ []

section Invariant

variable {cb : Callback} {p p' : Parser} {req req' : Request} {data view : Bytes} {size pos n : Nat}

theorem Parser.Owed.congr (owed : p.Owed) (same : p'.bodyPart = p.bodyPart) : p'.Owed := by
  simp only [Parser.bodyPart, Prod.mk.injEq] at same
  rwa [Parser.Owed, same.1, same.2.1, same.2.2]

theorem Parser.Owed.of_size (chunk : p.chunk = .size) : p.Owed := by simp [Parser.Owed, chunk]

theorem Parser.Owed.begun (owed : p.Owed) (req : Request) : (p.begun req).Owed := by
  unfold Parser.begun
  split_ifs
  · exact .of_size rfl
  · exact owed

theorem Request.Filled.receive {piece : Bytes} (filled : req.Filled) (some : piece ≠ []) : (req.receive piece).Filled := by
  intro other mem
  rcases List.mem_append.mp mem with mem | mem
  · exact filled other mem
  · rwa [List.mem_singleton.mp mem]

theorem parseRequestLine_bodyPart {text : Bytes} (parsed : parseRequestLine p text req = .ok (p', req')) :
    p'.bodyPart = p.bodyPart := by
  unfold parseRequestLine at parsed
  repeat' split at parsed
  all_goals cases parsed
  rfl

theorem storeField_bodyPart {key value : Bytes} (stored : storeField p key value req = .ok (p', req')) :
    p'.bodyPart = p.bodyPart := by
  obtain ⟨close, keepAlive, connection⟩ := connectionField_eq p value
  unfold storeField at stored
  split_ifs at stored
  · unfold contentLengthField at stored
    repeat' split at stored
    all_goals grind [Parser.bodyPart]
  · unfold transferEncodingField at stored
    repeat' split at stored
    all_goals grind [Parser.bodyPart]
  all_goals grind [Parser.bodyPart]

theorem parseHeaderField_bodyPart {text : Bytes} (parsed : parseHeaderField p text req = .ok (p', req')) :
    p'.bodyPart = p.bodyPart := by
  unfold parseHeaderField at parsed
  split_ifs at parsed
  split at parsed
  · cases parsed
  · have stored := storeField_bodyPart parsed
    exact stored

theorem finalizeHead_chunk (finished : finalizeHead p req = .ok (p', req')) : p'.chunk = .size := by
  unfold finalizeHead at finished
  split_ifs at finished <;> cases finished <;> rfl

theorem headerLines_owed (owed : p.Owed) (parsed : headerLines size pos p req view = .ok (n, p', req')) :
    p'.Owed ∧ req'.delivered = req.delivered := by
  fun_induction headerLines size pos p req view with
  | case1 | case3 | case4 | case6 => cases parsed
  | case2 pos p req view =>
    cases parsed
    exact ⟨owed.congr rfl, rfl⟩
  | case5 pos p req view line found next small empty q r finished =>
    obtain ⟨-, rfl, rfl⟩ : next = n ∧ _ = p' ∧ r = req' := by simpa using parsed
    have chunk := finalizeHead_chunk finished
    exact ⟨.of_size chunk, (finalizeHead_keeps finished).2.2.2⟩
  | case7 pos p req view line found next small filled q r field ih =>
    obtain ⟨-, -, -, -, pieces⟩ := parseHeaderField_keeps field
    obtain ⟨owed', pieces'⟩ := ih (owed.congr (parseHeaderField_bodyPart field)) parsed
    exact ⟨owed', pieces'.trans pieces⟩

theorem headLines_owed (owed : p.Owed) (parsed : headLines p data req = .ok (n, p', req')) :
    p'.Owed ∧ req'.delivered = req.delivered := by
  obtain ⟨-, -, rfl, rfl⟩ | ⟨-, lines⟩ | ⟨-, -, rfl, rfl⟩ | ⟨-, pos, line, q, r, -, first, -, lines⟩ := headLines_cases parsed
  · exact ⟨owed, rfl⟩
  · exact headerLines_owed owed lines
  · exact ⟨owed.congr rfl, rfl⟩
  · obtain ⟨-, -, -, -, pieces⟩ := parseRequestLine_keeps first
    have part := parseRequestLine_bodyPart first
    have begun : Parser.Owed { q with head := .headers } := owed.congr part
    obtain ⟨owed', pieces'⟩ := headerLines_owed begun lines
    exact ⟨owed', pieces'.trans pieces⟩

theorem parseHead_owed (owed : p.Owed) (parsed : parseHead p data req = .ok (n, p', req')) :
    p'.Owed ∧ req'.delivered = req.delivered := by
  unfold parseHead at parsed
  split_ifs at parsed
  · have begun : (beginRequest p req).1.Owed := .of_size rfl
    have result := headLines_owed begun parsed
    exact result
  · exact headLines_owed owed parsed

theorem chunkTurn_next_owed (mode : p.body = .chunked) (turn : chunkTurn p req view = .next p' req' n) : p'.Owed := by
  unfold chunkTurn at turn
  split_ifs at turn
  cases chunk : p.chunk <;> simp only [chunk] at turn
  case size =>
    obtain ⟨line, -, complete⟩ := lineTurn_next.mp turn
    obtain ⟨size, -, -, -, rfl⟩ := sizeLine_next.mp complete
    by_cases last : size = 0
    · simp [Parser.Owed, last]
    · simp [Parser.Owed, last, mode]
  case data => exact absurd turn (deliver_ne_next _ _ _ _ _ _)
  case dataEnd =>
    obtain ⟨rfl, -⟩ := dataEndTurn_next.mp turn
    exact .of_size rfl
  case trailers =>
    obtain ⟨line, -, complete⟩ := lineTurn_next.mp turn
    obtain ⟨-, -, -, -, -, rfl⟩ := trailerLine_next.mp complete
    simp [Parser.Owed, chunk]

theorem chunkTurn_fail_bodyPart {e : Exc} (turn : chunkTurn p req view = .fail e p' req') : p'.bodyPart = p.bodyPart := by
  unfold chunkTurn at turn
  split_ifs at turn
  cases chunk : p.chunk <;> simp only [chunk] at turn
  case size =>
    obtain ⟨-, -, -, rfl, -⟩ | ⟨line, -, complete⟩ := lineTurn_fail.mp turn
    · rfl
    · unfold sizeLine at complete
      split at complete <;> cases complete
      rfl
  case data =>
    unfold deliver at turn
    split_ifs at turn <;> cases turn <;> rfl
  case dataEnd =>
    revert turn
    fun_cases dataEndTurn p req view <;> rintro ⟨⟩ <;> rfl
  case trailers =>
    obtain ⟨-, -, -, rfl, -⟩ | ⟨line, -, complete⟩ := lineTurn_fail.mp turn
    · rfl
    · unfold trailerLine at complete
      split_ifs at complete <;> cases complete <;> rfl

theorem Parser.Owed.piece (owed : p.Owed) (turn : chunkTurn p req view = .call p' req' n) : view.take n ≠ [] := by
  obtain ⟨filled, chunk, -⟩ := chunkTurn_call.mp turn
  obtain ⟨-, rfl, -⟩ := chunkTurn_call_counts turn
  have positive := List.length_pos_iff.mpr filled
  have missing := (owed chunk).2
  rw [← List.length_pos_iff, List.length_take]
  omega

theorem chunkDelivered_owed (mode : p.body = .chunked) : (chunkDelivered p n).Owed := by
  by_cases last : p.remaining - n = 0
  · simp [Parser.Owed, chunkDelivered, last]
  · simp [Parser.Owed, chunkDelivered, last, mode]

def Settled : Except Thrown (Nat × Parser × Request) → Prop
  | .ok (_, p, req) => p.Owed ∧ req.Filled
  | .error thrown => thrown.parser.Owed ∧ thrown.req.Filled

theorem parseChunked_settled (cb : Callback) (pos : Nat) (view : Bytes) (mode : p.body = .chunked) (owed : p.Owed)
    (filled : req.Filled) : Settled (parseChunked cb pos p req view) := by
  fun_induction parseChunked cb pos p req view with
  | case1 pos p req view q r m turn =>
    rcases chunkTurn_ret turn with ⟨rfl, rfl, -⟩ | ⟨-, rfl, rfl, -⟩
    · exact ⟨owed, filled⟩
    · exact ⟨owed, filled⟩
  | case2 pos p req view e q r turn =>
    obtain rfl := chunkTurn_fail_req turn
    exact ⟨owed.congr (chunkTurn_fail_bodyPart turn), filled⟩
  | case3 pos p req view q r m turn ih =>
    obtain ⟨rfl, -, body⟩ := chunkTurn_next_counts turn
    exact ih (body.trans mode) (chunkTurn_next_owed mode turn) filled
  | case4 pos p req view q r m turn e threw =>
    have piece := owed.piece turn
    obtain ⟨rfl, -, rfl, -⟩ := chunkTurn_call_counts turn
    exact ⟨owed.congr rfl, filled.receive piece⟩
  | case5 pos p req view q r m turn quiet ih =>
    have piece := owed.piece turn
    obtain ⟨rfl, -, rfl, -⟩ := chunkTurn_call_counts turn
    exact ih mode (chunkDelivered_owed mode) (filled.receive piece)

theorem lengthDelivered_filled (filled : req.Filled) : (lengthDelivered p req n).2.Filled := by
  unfold lengthDelivered
  dsimp only
  split_ifs <;> exact filled

theorem parseBody_settled (cb : Callback) (data : Bytes) (owed : p.Owed) (filled : req.Filled) :
    Settled (parseBody cb p data req) := by
  by_cases stop : req.state = .completed ∨ p.body = .none
  · rw [parseBody, bodyTurn, if_pos stop]
    exact ⟨owed, filled⟩
  by_cases mode : p.body = .chunked
  · rw [parseBody, bodyTurn, if_neg stop, if_pos mode]
    exact parseChunked_settled cb 0 _ mode owed filled
  -- the body of a declared length is not read by chunks
  have other : ∀ q : Parser, q.chunk = p.chunk → q.Owed := by
    intro q same chunk
    exact absurd (owed (same.symm.trans chunk)).1 mode
  have pieces : (Request.Filled { req with state := .processingBody }) := filled
  rw [parseBody, bodyTurn, if_neg stop, if_neg mode]
  split_ifs with large some
  · exact ⟨owed, pieces⟩
  · have piece : data.take (min p.remaining data.length) ≠ [] := by
      rw [← List.length_pos_iff, List.length_take]
      omega
    unfold deliver
    split_ifs
    · exact ⟨owed.congr rfl, pieces⟩
    · exact ⟨owed.congr rfl, pieces⟩
    · dsimp only
      split
      · exact ⟨owed.congr rfl, pieces.receive piece⟩
      · exact ⟨other _ rfl, lengthDelivered_filled (pieces.receive piece)⟩
  · exact ⟨other _ rfl, lengthDelivered_filled pieces⟩

theorem Reached.invariant (reached : Reached p req) : p.Owed ∧ req.Filled := by
  induction reached with
  | start => exact ⟨.of_size rfl, by simp [Request.Filled]⟩
  | request _ _ ih other => exact ⟨ih.1, other.2⟩
  | callback _ _ _ ih => exact ih
  | head _ parsed ih =>
    obtain ⟨owed, pieces⟩ := parseHead_owed ih.1 parsed
    exact ⟨owed, by rw [Request.Filled, pieces]; exact ih.2⟩
  | headThrew _ _ kept pieces ih => exact ⟨(ih.1.begun _).congr kept, by rw [Request.Filled, pieces]; exact ih.2⟩
  | @body _ _ cb data _ _ _ _ parsed ih =>
    have settled := parseBody_settled cb data ih.1 ih.2
    rwa [parsed] at settled
  | @bodyThrew _ _ cb data _ _ threw ih =>
    have settled := parseBody_settled cb data ih.1 ih.2
    rwa [threw] at settled

def handedPieces : Except Thrown (Nat × Parser × Request) → List Bytes
  | .ok (_, _, req) => req.delivered
  | .error thrown => thrown.req.delivered

theorem handedPieces_filled {result : Except Thrown (Nat × Parser × Request)} (settled : Settled result) :
    ∀ piece ∈ handedPieces result, piece ≠ [] := by
  rcases result with thrown | ⟨n, p, req⟩
  · exact settled.2
  · exact settled.2

end Invariant

/-- What a call leaves over is left over again, whatever the callback of the second call would do. -/
theorem refeed_changes_nothing {p : Parser} {req : Request} (reached : Reached p req) (data : Bytes) :
    (∀ n p' req', parseHead p data req = .ok (n, p', req') →
      n ≤ data.length ∧ parseHead p' (data.drop n) req' = .ok (0, p', req')) ∧
    (∀ cb n p' req', parseBody cb p data req = .ok (n, p', req') →
      n ≤ data.length ∧ ∀ cb', parseBody cb' p' (data.drop n) req' = .ok (0, p', req')) ∧
    ∀ cb, ∀ piece ∈ handedPieces (parseBody cb p data req), piece ≠ [] := by
  obtain ⟨owed, filled⟩ := reached.invariant
  refine ⟨fun n p' req' parsed => ?_, fun cb n p' req' parsed => ?_, fun cb => ?_⟩
  · exact ⟨parseHead_bound parsed, parseHead_refeed parsed⟩
  · exact ⟨parseBody_bound parsed, fun cb' => parseBody_refeed cb' parsed⟩
  · exact handedPieces_filled (parseBody_settled cb data owed filled)

theorem refeed_changes_nothing_chunk :
    ∃ p req p' req', Reached p req ∧ parseBody (fun _ _ => none) p (bytes "3\r\nabc\r") req = .ok (6, p', req') ∧
      req'.delivered = [bytes "abc"] ∧ ∀ cb, parseBody cb p' (bytes "\r") req' = .ok (0, p', req') := by
  let p : Parser := { head := .done, body := .chunked, headSeen := 47, headers := 1, http11 := true, chunked := true }
  let req : Request :=
    { fields := [(bytes "Transfer-Encoding", bytes "chunked")], keepAlive := true, url := bytes "/", method := bytes "POST"
      state := .headersCompleted }
  have head : parseHead {} (bytes "POST / HTTP/1.1\r\nTransfer-Encoding: chunked\r\n\r\n") {} = .ok (47, p, req) := by
    decide +kernel
  have reached : Reached p (req.appendBodyCallback true 10) := (Reached.start.head head).callback true 10
  have returned : (parseBody (fun _ _ => none) p (bytes "3\r\nabc\r") (req.appendBodyCallback true 10)).toOption =
      some (6, { p with chunk := .dataEnd, received := 3 },
        { req.appendBodyCallback true 10 with state := .processingBody, delivered := [bytes "abc"] }) := by
    decide +kernel
  cases parsed : parseBody (fun _ _ => none) p (bytes "3\r\nabc\r") (req.appendBodyCallback true 10) with
  | error thrown =>
    rw [parsed] at returned
    cases returned
  | ok result =>
    rw [parsed] at returned
    cases returned
    have again := ((refeed_changes_nothing reached (bytes "3\r\nabc\r")).2.1 _ _ _ _ parsed).2
    exact ⟨p, _, _, _, reached, parsed, rfl, again⟩

end Dracon
