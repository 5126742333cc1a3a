import Dracon.Http.Framing

set_option autoImplicit false

namespace Dracon

open Shared

theorem forEachToken_map {σ τ : Type} {fn : σ → Bytes → σ} {fn' : τ → Bytes → τ} (f : σ → τ)
    (commutes : ∀ s token, fn' (f s) token = f (fn s token)) (s : σ) (value : Bytes) :
    forEachToken fn' (f s) value = f (forEachToken fn s value) := by
  fun_induction forEachToken fn s value with
  | case1 s value missing =>
    unfold forEachToken
    grind
  | case2 s value missing =>
    unfold forEachToken
    grind
  | case3 s value token rest found ih =>
    rw [forEachToken]
    grind

def shift (k : Nat) (r : Parser × Request) : Parser × Request := (r.1.see k, r.2.erase)

theorem parseRequestLine_shift (p : Parser) (text : Bytes) (req : Request) (k : Nat) :
    parseRequestLine (p.see k) text req.erase = (parseRequestLine p text req).map (shift k) := by
  unfold parseRequestLine
  repeat' split
  all_goals simp_all [Except.map, shift, Parser.see, Request.erase]

theorem connectionField_see (p : Parser) (value : Bytes) (k : Nat) :
    connectionField (p.see k) value = (connectionField p value).see k := by
  refine forEachToken_map (Parser.see · k) (fun p token => ?_) p value
  split_ifs <;> rfl

theorem addField_erase (req : Request) (key value : Bytes) :
    req.erase.addField key value = (req.addField key value).erase := by
  unfold Request.addField
  by_cases known : req.fields.any fun kv => kv.1 = key
  · rw [if_pos known, if_pos (by exact known)]
    rfl
  · rw [if_neg known, if_neg (by exact known)]
    rfl

theorem contentLengthField_see (p : Parser) (value : Bytes) (k : Nat) :
    contentLengthField (p.see k) value =
      (contentLengthField p value).map fun r => (r.1.see k, r.2) := by
  unfold contentLengthField
  repeat' split
  all_goals simp_all [Except.map, Parser.see]

theorem transferEncodingField_see (p : Parser) (value : Bytes) (k : Nat) :
    transferEncodingField (p.see k) value = (transferEncodingField p value).map (Parser.see · k) := by
  unfold transferEncodingField
  have same : (p.see k).chunked = p.chunked := rfl
  rw [same]
  cases forEachToken (fun (acc : Nat × Bytes) coding => (acc.1 + 1, coding))
    (if p.chunked then 1 else 0, []) value
  dsimp only
  split_ifs <;> rfl

theorem storeField_shift (p : Parser) (key value : Bytes) (req : Request) (k : Nat) :
    storeField (p.see k) key value req.erase = (storeField p key value req).map (shift k) := by
  unfold storeField
  simp only [contentLengthField_see, transferEncodingField_see, connectionField_see, addField_erase]
  split_ifs
  · cases contentLengthField p value with
    | error e => rfl
    | ok r => obtain ⟨q, stored | stored⟩ := r <;> rfl
  · cases transferEncodingField p value <;> rfl
  · rfl
  · rfl

theorem parseHeaderField_shift (p : Parser) (text : Bytes) (req : Request) (k : Nat) :
    parseHeaderField (p.see k) text req.erase = (parseHeaderField p text req).map (shift k) := by
  unfold parseHeaderField
  change (if p.headers + 1 > maxHeadersCount then _ else _) = _
  split_ifs
  · rfl
  · cases splitField text with
    | error e => rfl
    | ok field => exact storeField_shift { p with headers := p.headers + 1 } _ _ req k

theorem finalizeHead_shift (p : Parser) (req : Request) (k : Nat) :
    finalizeHead (p.see k) req.erase = (finalizeHead p req).map (shift k) := by
  unfold finalizeHead
  change (if p.hasContentLength ∧ p.chunked then _ else if p.chunked then _ else
    if p.contentLength ≠ 0 then _ else _) = _
  split_ifs <;> rfl

theorem parseRequestLine_keeps {p p' : Parser} {text : Bytes} {req req' : Request}
    (parsed : parseRequestLine p text req = .ok (p', req')) :
    p'.head = p.head ∧ p'.headSeen = p.headSeen ∧ req'.state = req.state ∧
      req'.limit = req.limit ∧ req'.delivered = req.delivered := by
  unfold parseRequestLine at parsed
  repeat' split at parsed
  all_goals cases parsed
  simp [Request.limit]

theorem connectionField_eq (p : Parser) (value : Bytes) :
    ∃ close keepAlive, connectionField p value = { p with close := close, keepAlive := keepAlive } := by
  let known (q : Parser) := ∃ close keepAlive, q = { p with close := close, keepAlive := keepAlive }
  refine forEachToken_induction (P := known) (fun q token known => ?_) ⟨p.close, p.keepAlive, rfl⟩ value
  obtain ⟨close, keepAlive, rfl⟩ := known
  split_ifs
  · exact ⟨true, keepAlive, rfl⟩
  · exact ⟨close, true, rfl⟩
  · exact ⟨close, keepAlive, rfl⟩

theorem addField_keeps (req : Request) (key value : Bytes) :
    (req.addField key value).state = req.state ∧ (req.addField key value).limit = req.limit ∧
      (req.addField key value).delivered = req.delivered := by
  unfold Request.addField
  split_ifs <;> simp [Request.limit]

theorem storeField_keeps {p p' : Parser} {key value : Bytes} {req req' : Request}
    (stored : storeField p key value req = .ok (p', req')) :
    p'.head = p.head ∧ p'.headSeen = p.headSeen ∧ req'.state = req.state ∧
      req'.limit = req.limit ∧ req'.delivered = req.delivered := by
  have added := addField_keeps req key value
  obtain ⟨close, keepAlive, connection⟩ := connectionField_eq p value
  unfold storeField at stored
  split_ifs at stored
  · unfold contentLengthField at stored
    repeat' split at stored
    all_goals grind
  · unfold transferEncodingField at stored
    repeat' split at stored
    all_goals grind
  all_goals grind

theorem parseHeaderField_keeps {p p' : Parser} {text : Bytes} {req req' : Request}
    (parsed : parseHeaderField p text req = .ok (p', req')) :
    p'.head = p.head ∧ p'.headSeen = p.headSeen ∧ req'.state = req.state ∧
      req'.limit = req.limit ∧ req'.delivered = req.delivered := by
  unfold parseHeaderField at parsed
  split_ifs at parsed
  split at parsed
  · cases parsed
  · simpa using storeField_keeps parsed

theorem finalizeHead_keeps {p p' : Parser} {req req' : Request}
    (finished : finalizeHead p req = .ok (p', req')) :
    p'.headSeen = p.headSeen ∧ (req'.state = .headersCompleted ∨ req'.state = .completed) ∧ req'.limit = req.limit ∧
      req'.delivered = req.delivered := by
  unfold finalizeHead at finished
  split_ifs at finished <;> cases finished <;> simp [Request.limit]

section HeadLine

variable {p q : Parser} {req r : Request} {line : Line} (pos : Nat)

theorem headLine_field (headers : p.head = .headers)
    (small : p.headSeen + (pos + line.next) ≤ maxHeadSize) (filled : line.text ≠ [])
    (field : parseHeaderField p line.text req = .ok (q, r)) :
    headLine (framing (p.see pos) req) line = .ok (framing (q.see (pos + line.next)) r) := by
  have kept := parseHeaderField_keeps field
  have fits : ¬ p.headSeen + pos + line.next > maxHeadSize := by omega
  simp [headLine, headers, fits, filled, parseHeaderField_shift, field, Except.map, shift, framing, kept]

theorem headLine_finalize (headers : p.head = .headers)
    (small : p.headSeen + (pos + line.next) ≤ maxHeadSize) (empty : line.text = [])
    (finished : finalizeHead p req = .ok (q, r)) :
    headLine (framing (p.see pos) req) line =
      .ok (framing (Parser.see { q with head := .done } (pos + line.next)) r) := by
  have kept := finalizeHead_keeps finished
  have fits : ¬ p.headSeen + pos + line.next > maxHeadSize := by omega
  simp [headLine, headers, fits, empty, finalizeHead_shift, finished, Except.map, shift, framing, kept]
  simp [Parser.see, Nat.add_assoc]

theorem headLine_requestLine (start : p.head = .requestLine)
    (small : p.headSeen + (pos + line.next) ≤ maxHeadSize) (filled : line.text ≠ [])
    (parsed : parseRequestLine p line.text req = .ok (q, r)) :
    headLine (framing (p.see pos) req) line =
      .ok (framing (Parser.see { q with head := .headers } (pos + line.next))
        { r with state := .processingHeader }) := by
  have kept := parseRequestLine_keeps parsed
  have fits : ¬ p.headSeen + pos + line.next > maxHeadSize := by omega
  simp [headLine, start, fits, filled, parseRequestLine_shift, parsed, Except.map, shift, framing, kept]
  simp [Parser.see, Nat.add_assoc, Request.erase]

theorem headLine_empty (req : Request) (start : p.head = .requestLine) (empty : line.text = []) :
    headLine (framing (p.see pos) req) line = .ok (framing (p.see (pos + line.next)) req) := by
  simp [headLine, start, empty, framing]

theorem headMachine_line {view : Bytes} {s' : Framing} (found : nextLine view = some line)
    (state : req.state = .processingUrl ∨ req.state = .processingHeader) (running : p.head ≠ .done)
    (result : headLine (framing (p.see pos) req) line = .ok s') :
    headMachine.step (framing (p.see pos) req) view = .next s' (view.drop line.next) := by
  change headStep _ _ = _
  rw [headStep_line _ state running]
  exact lineStep_next.mpr ⟨line, found, result, rfl⟩

theorem headMachine_waits {view : Bytes} (missing : nextLine view = none)
    (state : req.state = .processingUrl ∨ req.state = .processingHeader) (running : p.head ≠ .done) :
    headMachine.step (framing p req) view = .wait := by
  change headStep _ _ = _
  rw [headStep_line _ state running]
  exact lineStep_wait.mpr missing

end HeadLine

theorem headerLines_bound {size pos n : Nat} {p p' : Parser} {req req' : Request} {view : Bytes}
    (parsed : headerLines size pos p req view = .ok (n, p', req')) :
    pos ≤ n ∧ n ≤ pos + view.length := by
  fun_induction headerLines size pos p req view with
  | case1 | case3 | case4 | case6 => cases parsed
  | case2 =>
    cases parsed
    omega
  | case5 pos p req view line found next =>
    obtain ⟨rfl, -⟩ : next = n ∧ _ := by simpa using parsed
    have := nextLine_bound found
    omega
  | case7 pos p req view line found next small filled q r field ih =>
    have := nextLine_bound found
    have := ih parsed
    rw [List.length_drop] at this
    omega

theorem headerLines_halts {size pos n : Nat} {p p' : Parser} {req req' : Request} {view : Bytes}
    (headers : p.head = .headers)
    (state : req.state = .processingUrl ∨ req.state = .processingHeader)
    (parsed : headerLines size pos p req view = .ok (n, p', req')) :
    req'.limit = req.limit ∧
      headMachine.Halts (framing (p.see pos) req) view (framing p' req') (view.drop (n - pos)) := by
  fun_induction headerLines size pos p req view with
  | case1 | case3 | case4 | case6 => cases parsed
  | case2 pos p req view missing =>
    cases parsed
    refine ⟨rfl, by simpa [Parser.see] using Machine.Steps.refl _ _, ?_⟩
    exact headMachine_waits (by simpa using missing) state (by simp [headers])
  | case5 pos p req view line found next small empty q r finished =>
    obtain ⟨rfl, rfl, rfl⟩ : next = n ∧ _ = p' ∧ r = req' := by simpa using parsed
    obtain ⟨-, done, limit, -⟩ := finalizeHead_keeps finished
    have inBody : r.inBody := by rcases done with done | done <;> simp [Request.inBody, done]
    have result := headLine_finalize pos headers (by omega) empty finished
    have step := headMachine_line pos found state (by simp [headers]) result
    refine ⟨limit, ?_, headStep_inBody _ inBody⟩
    simpa [next, Parser.see] using Machine.Steps.single step
  | case7 pos p req view line found next small filled q r field ih =>
    obtain ⟨head, -, state', limit, -⟩ := parseHeaderField_keeps field
    obtain ⟨limit', halted⟩ := ih (head.trans headers) (by rwa [state']) parsed
    have result := headLine_field pos headers (by omega) filled field
    have step := headMachine_line pos found state (by simp [headers]) result
    rw [drop_sub (headerLines_bound parsed).1]
    exact ⟨limit'.trans limit, .head step halted.steps, halted.waits⟩

theorem skipEmptyLines_bound {pos stop : Nat} {view : Bytes} {found : Option Line}
    (skipped : skipEmptyLines pos view = (stop, found)) :
    pos ≤ stop ∧ stop ≤ pos + view.length ∧ nextLine (view.drop (stop - pos)) = found ∧
      ∀ line ∈ found, line.text ≠ [] := by
  fun_induction skipEmptyLines pos view with
  | case1 pos view missing =>
    cases skipped
    exact ⟨le_rfl, by omega, by simpa using missing, by simp⟩
  | case2 pos view line found filled =>
    cases skipped
    exact ⟨le_rfl, by omega, by simpa using found, by simpa using filled⟩
  | case3 pos view line found' filled ih =>
    obtain ⟨after, bound, atStop, nonempty⟩ := ih skipped
    have := nextLine_bound found'
    rw [List.length_drop] at bound
    rw [List.drop_drop, show line.next + (stop - (pos + line.next)) = stop - pos by omega] at atStop
    exact ⟨by omega, by omega, atStop, nonempty⟩

theorem skipEmptyLines_steps {pos stop : Nat} {view : Bytes} {found : Option Line} {p : Parser}
    {req : Request} (start : p.head = .requestLine)
    (state : req.state = .processingUrl ∨ req.state = .processingHeader)
    (skipped : skipEmptyLines pos view = (stop, found)) :
    headMachine.Steps (framing (p.see pos) req) view (framing (p.see stop) req)
      (view.drop (stop - pos)) := by
  fun_induction skipEmptyLines pos view with
  | case1 | case2 =>
    cases skipped
    simpa using .refl _ _
  | case3 pos view line found' filled ih =>
    have result := headLine_empty pos req start (not_not.mp filled)
    have step := headMachine_line pos found' state (by simp [start]) result
    rw [drop_sub (skipEmptyLines_bound skipped).1]
    exact .head step (ih skipped)

theorem headLines_cases {p p' : Parser} {data : Bytes} {req req' : Request} {n : Nat}
    (parsed : headLines p data req = .ok (n, p', req')) :
    (p.head = .done ∧ n = 0 ∧ p' = p ∧ req' = req) ∨
    (p.head = .headers ∧ headerLines data.length 0 p req data = .ok (n, p', req')) ∨
    (p.head = .requestLine ∧ skipEmptyLines 0 data = (n, none) ∧ p' = p.see n ∧ req' = req) ∨
    (p.head = .requestLine ∧ ∃ pos line q r, skipEmptyLines 0 data = (pos, some line) ∧
      parseRequestLine p line.text req = .ok (q, r) ∧
      q.headSeen + (pos + line.next) ≤ maxHeadSize ∧
      headerLines data.length (pos + line.next) { q with head := .headers }
        { r with state := .processingHeader } (data.drop (pos + line.next)) = .ok (n, p', req')) := by
  unfold headLines at parsed
  split at parsed
  · cases parsed
    exact .inl ⟨‹_›, rfl, rfl, rfl⟩
  · split at parsed
    · split_ifs at parsed
      cases parsed
      exact .inr (.inr (.inl ⟨‹_›, ‹_›, rfl, rfl⟩))
    · split at parsed
      · cases parsed
      · split_ifs at parsed
        exact .inr (.inr (.inr ⟨‹_›, _, _, _, _, ‹_›, ‹_›, by omega, parsed⟩))
  · exact .inr (.inl ⟨‹_›, parsed⟩)

theorem headLines_bound {p p' : Parser} {data : Bytes} {req req' : Request} {n : Nat}
    (parsed : headLines p data req = .ok (n, p', req')) : n ≤ data.length := by
  obtain ⟨-, rfl, -⟩ | ⟨-, lines⟩ | ⟨-, skipped, -⟩ |
    ⟨-, pos, line, q, r, skipped, -, -, lines⟩ := headLines_cases parsed
  · omega
  · have := headerLines_bound lines
    omega
  · have := skipEmptyLines_bound skipped
    omega
  · obtain ⟨-, stop, found, -⟩ := skipEmptyLines_bound skipped
    have start := nextLine_bound found
    have := headerLines_bound lines
    simp only [List.length_drop] at *
    omega

theorem headLines_halts {p p' : Parser} {data : Bytes} {req req' : Request} {n : Nat}
    (state : req.state = .processingUrl ∨ req.state = .processingHeader)
    (parsed : headLines p data req = .ok (n, p', req')) :
    req'.limit = req.limit ∧
      headMachine.Halts (framing p req) data (framing p' req') (data.drop n) := by
  obtain ⟨done, rfl, rfl, rfl⟩ | ⟨headers, lines⟩ | ⟨start, skipped, rfl, rfl⟩ |
    ⟨start, pos, line, q, r, skipped, first, small, lines⟩ := headLines_cases parsed
  · refine ⟨rfl, .refl _ _, ?_⟩
    rcases state with state | state <;>
      simp [headMachine, headStep, done, state, Request.inBody]
  · simpa using headerLines_halts headers state lines
  · have steps := skipEmptyLines_steps start state skipped
    have missing := (skipEmptyLines_bound skipped).2.2.1
    exact ⟨rfl, by simpa using steps,
      headMachine_waits (by simpa using missing) state (by simp [start])⟩
  · have steps := skipEmptyLines_steps start state skipped
    obtain ⟨-, -, found, filled⟩ := skipEmptyLines_bound skipped
    obtain ⟨-, seen, -, limit, -⟩ := parseRequestLine_keeps first
    have result := headLine_requestLine pos start (by omega) (filled line rfl) first
    have step := headMachine_line pos found state (by simp [start]) result
    obtain ⟨limit', halted⟩ := headerLines_halts rfl (.inr rfl) lines
    have bound := headerLines_bound lines
    have split : (data.drop (pos + line.next)).drop (n - (pos + line.next)) = data.drop n := by
      rw [List.drop_drop]
      congr 1
      omega
    rw [split] at halted
    refine ⟨limit'.trans limit, ?_, halted.waits⟩
    refine (by simpa using steps : headMachine.Steps _ _ _ _).trans (.head step ?_)
    simpa [List.drop_drop] using halted.steps

theorem headLine_state {s s' : Framing} {line : Line} (result : headLine s line = .ok s') :
    s'.req.state = s.req.state ∨ s'.req.state = .processingHeader ∨
      s'.req.state = .headersCompleted ∨ s'.req.state = .completed := by
  unfold headLine at result
  cases head : s.parser.head <;> simp only [head] at result
  case requestLine =>
    split_ifs at result
    · cases result
      exact .inl rfl
    · split at result
      · cases result
      · split_ifs at result
        cases result
        exact .inr (.inl rfl)
  case headers =>
    split_ifs at result
    · split at result
      · cases result
      · rename_i finished
        cases result
        exact .inr (.inr (finalizeHead_keeps finished).2.1)
    · split at result
      · cases result
      · rename_i field
        cases result
        exact .inl (parseHeaderField_keeps field).2.2.1
  case done =>
    cases result
    exact .inl rfl

theorem parseHead_bound {p p' : Parser} {data : Bytes} {req req' : Request} {n : Nat}
    (parsed : parseHead p data req = .ok (n, p', req')) : n ≤ data.length := by
  unfold parseHead at parsed
  split_ifs at parsed <;> exact headLines_bound parsed

def Parser.Waiting (p : Parser) (tail : Bytes) : Prop :=
  p.head = .done ∨ (nextLine tail = none ∧ p.headSeen + tail.length ≤ maxHeadSize)

section Stops

variable {p p' : Parser} {req req' : Request} {data view : Bytes} {size pos n : Nat}

theorem headerLines_stops (whole : size = pos + view.length) (parsed : headerLines size pos p req view = .ok (n, p', req')) :
    p'.Waiting (view.drop (n - pos)) ∧ (req.state ≠ .uninitialized → req'.state ≠ .uninitialized) := by
  fun_induction headerLines size pos p req view with
  | case1 | case3 | case4 | case6 => cases parsed
  | case2 pos p req view missing fits =>
    cases parsed
    refine ⟨.inr ⟨by simpa using missing, ?_⟩, id⟩
    simp only [Nat.sub_self, List.drop_zero]
    omega
  | case5 pos p req view line found next small empty q r finished =>
    obtain ⟨rfl, rfl, rfl⟩ : next = n ∧ _ = p' ∧ r = req' := by simpa using parsed
    obtain ⟨-, done, -⟩ := finalizeHead_keeps finished
    exact ⟨.inl rfl, fun _ => by rcases done with done | done <;> simp [done]⟩
  | case7 pos p req view line found next small filled q r field ih =>
    obtain ⟨-, -, same, -⟩ := parseHeaderField_keeps field
    have bound := nextLine_bound found
    rw [drop_sub (headerLines_bound parsed).1, ← same]
    refine ih ?_ parsed
    rw [List.length_drop]
    omega

theorem headLines_stops (parsed : headLines p data req = .ok (n, p', req')) :
    p'.Waiting (data.drop n) ∧ (req.state ≠ .uninitialized → req'.state ≠ .uninitialized) := by
  obtain ⟨done, rfl, rfl, rfl⟩ | ⟨headers, lines⟩ | ⟨start, skipped, rfl, rfl⟩ |
    ⟨start, pos, line, q, r, skipped, first, small, lines⟩ := headLines_cases parsed
  · exact ⟨.inl done, id⟩
  · exact headerLines_stops (Nat.zero_add _).symm lines
  · obtain ⟨-, bound, missing, -⟩ := skipEmptyLines_bound skipped
    refine ⟨.inr ⟨missing, ?_⟩, id⟩
    simp only [headLines, start, skipped] at parsed
    split_ifs at parsed
    rw [Parser.see_headSeen, List.length_drop]
    omega
  · obtain ⟨-, bound, found, -⟩ := skipEmptyLines_bound skipped
    have inside := nextLine_bound found
    have after := headerLines_bound lines
    rw [List.length_drop] at inside
    obtain ⟨waiting, begun⟩ := headerLines_stops (by rw [List.length_drop]; omega) lines
    rw [List.drop_drop, Nat.add_sub_cancel' after.1] at waiting
    exact ⟨waiting, fun _ => begun (by simp)⟩

theorem parseHead_stops (parsed : parseHead p data req = .ok (n, p', req')) :
    p'.Waiting (data.drop n) ∧ req'.state ≠ .uninitialized := by
  unfold parseHead at parsed
  split_ifs at parsed with fresh
  · obtain ⟨waiting, begun⟩ := headLines_stops parsed
    exact ⟨waiting, begun (by simp [beginRequest])⟩
  · obtain ⟨waiting, begun⟩ := headLines_stops parsed
    exact ⟨waiting, begun fresh⟩

end Stops

theorem parseHead_halts {p p' : Parser} {data : Bytes} {req req' : Request} {n : Nat}
    (head : req.inBody = false) (filled : data ≠ [])
    (parsed : parseHead p data req = .ok (n, p', req')) :
    req'.limit = req.limit ∧
      headMachine.Halts (framing p req) data (framing p' req') (data.drop n) := by
  unfold parseHead at parsed
  split_ifs at parsed with fresh
  · obtain ⟨limit, halted⟩ := headLines_halts (.inl rfl) parsed
    refine ⟨limit, .head ?_ halted.steps, halted.waits⟩
    simp only [headMachine, headStep, filled, framing_req, Request.erase_inBody, head,
      Request.erase_state, fresh, false_or, Bool.false_eq_true, if_false, if_true]
    rfl
  · refine headLines_halts ?_ parsed
    cases state : req.state <;> simp_all [Request.inBody]

end Dracon
