import Dracon.Http.HeadGrammar
import Dracon.Http.Segmentation

set_option autoImplicit false

namespace Dracon

open Shared

def IsChunkedCoding (value : Bytes) : Prop :=
  ∃ coding, elements value = [coding] ∧ iequals coding (bytes "chunked")

structure Tracks (p : Parser) (fields : List Field) : Prop where
  count : p.headers = fields.length
  few : p.headers ≤ 100
  small : p.contentLength < 2 ^ 64 - 1
  lengths : ∀ field ∈ fields, field.Is "Content-Length" → IsNumber field.value p.contentLength
  known : p.hasContentLength ↔ ∃ field ∈ fields, field.Is "Content-Length"
  unknown : p.hasContentLength = false → p.contentLength = 0
  chunked : p.chunked ↔ ∃ field ∈ fields, field.Is "Transfer-Encoding"
  codings : ∀ field ∈ fields, field.Is "Transfer-Encoding" → IsChunkedCoding field.value
  single : (fields.filter (·.Is "Transfer-Encoding")).length ≤ 1

theorem Tracks.nil (n : Nat) (http11 : Bool) :
    Tracks { head := .headers, headSeen := n, http11 := http11 } [] := by
  constructor <;> simp

inductive Field.Stored (field : Field) (p : Parser) : Parser → Prop
  | length {n : Nat} : field.Is "Content-Length" → n < 2 ^ 64 - 1 → IsNumber field.value n →
      (p.hasContentLength → p.contentLength = n) →
      Stored field p { p with hasContentLength := true, contentLength := n }
  | coding : field.Is "Transfer-Encoding" → p.chunked = false → IsChunkedCoding field.value →
      Stored field p { p with chunked := true }
  | other {close keepAlive : Bool} : ¬ field.Is "Content-Length" → ¬ field.Is "Transfer-Encoding" →
      Stored field p { p with close := close, keepAlive := keepAlive }

variable {p p' : Parser} {req req' : Request} {field : Field} {fields done : List Field}

theorem storeField_stored (field : Field)
    (stored : storeField p (canonicalName field.name) field.value req = .ok (p', req')) :
    field.Stored p p' := by
  simp only [storeField, Field.is_contentLength, Field.is_transferEncoding] at stored
  split_ifs at stored with length coding
  · cases result : contentLengthField p field.value with
    | error e => simp [result] at stored
    | ok r =>
      obtain ⟨n, small, number, agree, rfl⟩ := contentLengthField_ok.mp result
      rw [result] at stored
      cases known : p.hasContentLength <;> simp only [known, Bool.not_false, Bool.not_true] at stored
      all_goals
        cases stored
        exact .length length small number agree
  · cases result : transferEncodingField p field.value with
    | error e => simp [result] at stored
    | ok q =>
      obtain ⟨first, chunked, rfl⟩ := transferEncodingField_ok.mp result
      rw [result] at stored
      cases stored
      exact .coding coding first chunked
  · obtain ⟨close, keepAlive, connection⟩ := connectionField_eq p field.value
    cases stored
    rw [connection]
    exact .other length coding
  · cases stored
    exact .other length coding

theorem Field.Stored.accepted (stored : field.Stored p p') (req : Request) :
    ∃ q req', storeField p (canonicalName field.name) field.value req = .ok (q, req') := by
  simp only [storeField, Field.is_contentLength, Field.is_transferEncoding]
  cases stored with
  | length length small number agree =>
    have result := contentLengthField_ok.mpr ⟨_, small, number, agree, rfl⟩
    cases known : p.hasContentLength <;> simp [length, result, known]
  | coding coding first chunked =>
    have length : ¬ field.Is "Content-Length" := fun length => length.exclusive coding
    have result := transferEncodingField_ok.mpr ⟨first, chunked, rfl⟩
    simp [length, coding, result]
  | other length coding =>
    rw [if_neg length, if_neg coding]
    split_ifs <;> simp

theorem Tracks.unchunked (tracks : Tracks p done) :
    p.chunked = false ↔ done.filter (·.Is "Transfer-Encoding") = [] := by
  rw [← Bool.not_eq_true, tracks.chunked]
  simp

theorem Tracks.snoc (tracks : Tracks p done) (more : p.headers + 1 ≤ 100)
    (stored : field.Stored { p with headers := p.headers + 1 } p') : Tracks p' (done ++ [field]) := by
  have ⟨count, few, small, lengths, known, unknown, chunked, codings, single⟩ := tracks
  cases stored with
  | @length n length small' number agree =>
    have other := length.exclusive
    have same (f : Field) (member : f ∈ done) (is : f.Is "Content-Length") : p.contentLength = n :=
      agree (known.mpr ⟨f, member, is⟩)
    constructor <;> simp_all [or_imp, or_and_right, exists_or]
    exact fun f member is => same f member is ▸ lengths f member is
  | coding coding first value =>
    have other : ¬ field.Is "Content-Length" := fun length => length.exclusive coding
    have none := tracks.unchunked.mp first
    constructor <;> simp_all [or_imp, or_and_right, exists_or]
  | other other coding =>
    constructor <;> simp_all [or_imp, or_and_right, exists_or]

theorem Tracks.framed (tracks : Tracks p fields) (agree : ¬ (p.hasContentLength ∧ p.chunked)) :
    Framed fields where
  lengths := ⟨p.contentLength, tracks.small, tracks.lengths⟩
  codings := tracks.codings
  single := tracks.single
  exclusive := by rwa [← tracks.known, ← tracks.chunked]

theorem Tracks.takes (tracks : Tracks p done) (framed : Framed (done ++ field :: fields)) :
    ∃ q, field.Stored { p with headers := p.headers + 1 } q := by
  obtain ⟨⟨n, small, lengths⟩, codings, single, -⟩ := framed
  by_cases length : field.Is "Content-Length"
  · refine ⟨_, .length length small (lengths field (by simp) length) fun known => ?_⟩
    obtain ⟨f, member, is⟩ := tracks.known.mp known
    exact (tracks.lengths f member is).2.2.symm.trans (lengths f (by simp [member]) is).2.2
  by_cases coding : field.Is "Transfer-Encoding"
  · refine ⟨_, .coding coding ?_ (codings field (by simp) coding)⟩
    rw [List.filter_append, List.filter_cons_of_pos (by simpa using coding), List.length_append,
      List.length_cons] at single
    exact tracks.unchunked.mpr (List.length_eq_zero_iff.mp (by omega))
  · exact ⟨{ p with headers := p.headers + 1 }, .other length coding⟩

theorem parseHeaderField_stored {text : Bytes}
    (parsed : parseHeaderField p text req = .ok (p', req')) :
    ∃ field : Field, field.IsLine text ∧ p.headers + 1 ≤ 100 ∧
      field.Stored { p with headers := p.headers + 1 } p' := by
  unfold parseHeaderField at parsed
  split_ifs at parsed with many
  split at parsed
  · cases parsed
  rename_i name value split
  exact ⟨⟨name, value⟩, splitField_iff.mp split, not_lt.mp many, storeField_stored ⟨name, value⟩ parsed⟩

theorem Field.IsLine.accepted {text : Bytes} (line : field.IsLine text) (few : p.headers + 1 ≤ 100)
    (takes : ∃ q, field.Stored { p with headers := p.headers + 1 } q) (req : Request) :
    ∃ p' req', parseHeaderField p text req = .ok (p', req') ∧
      field.Stored { p with headers := p.headers + 1 } p' := by
  obtain ⟨_, stored⟩ := takes
  obtain ⟨p', req', result⟩ := stored.accepted req
  refine ⟨p', req', ?_, storeField_stored field result⟩
  simp only [parseHeaderField, splitField_iff.mpr line, result]
  exact if_neg (not_lt.mpr few)

theorem parseRequestLine_eq {text : Bytes}
    (parsed : parseRequestLine p text req = .ok (p', req')) :
    ∃ http11, p' = { p with http11 := http11 } := by
  unfold parseRequestLine at parsed
  repeat' split at parsed
  all_goals cases parsed
  exact ⟨_, rfl⟩

theorem Tracks.see (tracks : Tracks p fields) (n : Nat) : Tracks (p.see n) fields := by
  cases tracks
  constructor <;> assumption

inductive Delimited (fields : List Field) (p : Parser) (req : Request) : Prop
  | chunked : (∃ field ∈ fields, field.Is "Transfer-Encoding") → p.headers = fields.length →
      p.body = .chunked → p.chunk = .size → req.state = .headersCompleted → Delimited fields p req
  | length : (∃ field ∈ fields, field.Is "Content-Length" ∧ decimalValue field.value = p.remaining) →
      0 < p.remaining → p.body = .contentLength → req.state = .headersCompleted →
      Delimited fields p req
  | none : (∀ field ∈ fields, field.Is "Content-Length" → decimalValue field.value = 0) →
      (∀ field ∈ fields, ¬ field.Is "Transfer-Encoding") → req.state = .completed →
      Delimited fields p req

theorem Delimited.of_eq (delimited : Delimited fields p req) (headers : p'.headers = p.headers)
    (body : p'.body = p.body) (chunk : p'.chunk = p.chunk) (remaining : p'.remaining = p.remaining) :
    Delimited fields p' req := by
  cases delimited with
  | chunked => exact .chunked ‹_› (by simp [*]) (by simp [*]) (by simp [*]) ‹_›
  | length => exact .length (by simp [*]) (by simp [*]) (by simp [*]) ‹_›
  | none => exact .none ‹_› ‹_› ‹_›

theorem finalizeHead_delimits (tracks : Tracks p fields)
    (finished : finalizeHead p req = .ok (p', req')) :
    Framed fields ∧ Delimited fields p' req' := by
  unfold finalizeHead at finished
  split_ifs at finished with clash coded sized
  all_goals
    refine ⟨tracks.framed clash, ?_⟩
    cases finished
  · exact .chunked (tracks.chunked.mp coded) tracks.count rfl rfl rfl
  · have known : p.hasContentLength = true := by
      by_contra unknown
      exact sized (tracks.unknown (by simpa using unknown))
    obtain ⟨field, member, length⟩ := tracks.known.mp known
    exact .length ⟨field, member, length, (tracks.lengths field member length).2.2⟩ (Nat.pos_of_ne_zero sized) rfl rfl
  · refine .none (fun field member length => ?_) (fun field member coding => ?_) rfl
    · exact (tracks.lengths field member length).2.2.trans (not_not.mp sized)
    · exact coded (tracks.chunked.mpr ⟨field, member, coding⟩)

theorem finalizeHead_accepts (tracks : Tracks p fields) (framed : Framed fields) (req : Request) :
    ∃ p' req', finalizeHead p req = .ok (p', req') := by
  have agree : ¬ (p.hasContentLength ∧ p.chunked) := by
    rw [tracks.known, tracks.chunked]
    exact framed.exclusive
  unfold finalizeHead
  rw [if_neg agree]
  split_ifs <;> exact ⟨_, _, rfl⟩

def OpenHead (fields : List Field) (text : Bytes) : Prop :=
  ∃ blanks request eol lines, text = List.flatten blanks ++ (request ++ eol ++ lines) ∧
    (∀ blank ∈ blanks, IsEol blank) ∧ IsRequestLine request ∧ IsEol eol ∧ FieldLines fields lines

theorem FieldLines.snoc {lines text eol : Bytes} (before : FieldLines fields lines)
    (line : field.IsLine text) (ended : IsEol eol) :
    FieldLines (fields ++ [field]) (lines ++ (text ++ eol)) := by
  induction before with
  | nil => simpa using FieldLines.cons line ended .nil
  | cons first ended' _ ih =>
    rw [List.append_assoc]
    exact .cons first ended' ih

theorem OpenHead.snoc {head text eol : Bytes} (before : OpenHead fields head)
    (line : field.IsLine text) (ended : IsEol eol) :
    OpenHead (fields ++ [field]) (head ++ (text ++ eol)) := by
  obtain ⟨blanks, request, eol', lines, rfl, empty, isRequest, ended', isLines⟩ := before
  exact ⟨blanks, request, eol', _, by simp, empty, isRequest, ended', isLines.snoc line ended⟩

inductive HeadRead : Framing → Bytes → Prop
  | start {s : Framing} : s.req.state = .uninitialized → HeadRead s []
  | blank {s : Framing} (blanks : List Bytes) : s.parser = Parser.see {} blanks.flatten.length →
      s.req.state = .processingUrl → (∀ blank ∈ blanks, IsEol blank) → HeadRead s blanks.flatten
  | lines {s : Framing} {text : Bytes} (fields : List Field) : s.parser.head = .headers →
      s.req.state = .processingHeader → s.parser.headSeen = text.length → OpenHead fields text →
      Tracks s.parser fields → HeadRead s text
  | done {s : Framing} {text : Bytes} (fields : List Field) : HeadOf fields text →
      Delimited fields s.parser s.req → HeadRead s text

theorem nextLine_eaten {eaten d : Bytes} {line : Line} (found : nextLine (eaten ++ d) = some line)
    (rest : d = (eaten ++ d).drop line.next) :
    ∃ eol, IsEol eol ∧ eaten = line.text ++ eol ∧ line.next = eaten.length := by
  obtain ⟨eol, after, ended, split, size⟩ := eol_of_nextLine found
  obtain rfl : d = after := by rw [rest, split, size, List.drop_left]
  obtain rfl := List.append_cancel_right split
  exact ⟨eol, ended, rfl, size⟩

theorem lineStep_eaten {σ : Type} {complete : Line → Except Exc σ} {s : σ} {eaten d : Bytes}
    (step : lineStep complete (eaten ++ d) = .next s d) :
    ∃ line eol, IsEol eol ∧ eaten = line.text ++ eol ∧ line.next = eaten.length ∧
      complete line = .ok s := by
  obtain ⟨line, found, result, rest⟩ := lineStep_next.mp step
  obtain ⟨eol, ended, split, size⟩ := nextLine_eaten found rest
  exact ⟨line, eol, ended, split, size, result⟩

section Lines

variable {s s' : Framing} {before eol : Bytes} {line : Line}

theorem HeadRead.first {blanks : List Bytes} (parser : s.parser = Parser.see {} blanks.flatten.length)
    (state : s.req.state = .processingUrl) (empty : ∀ blank ∈ blanks, IsEol blank)
    (ended : IsEol eol) (size : line.next = (line.text ++ eol).length)
    (result : headLine s line = .ok s') : HeadRead s' (blanks.flatten ++ (line.text ++ eol)) := by
  simp only [headLine, parser, Parser.see_head] at result
  split_ifs at result with blank
  · cases result
    have join : blanks.flatten ++ (line.text ++ eol) = (blanks ++ [eol]).flatten := by simp [blank]
    rw [join]
    refine .blank _ ?_ state (by simpa [or_imp, forall_and] using ⟨empty, ended⟩)
    simp [size, blank]
  · split at result
    · cases result
    rename_i p req parsed
    split_ifs at result with small
    cases result
    have request := parseRequestLine_iff.mp ⟨_, parsed⟩
    obtain ⟨http11, rfl⟩ := parseRequestLine_eq parsed
    refine .lines [] rfl rfl ?_ ⟨blanks, _, eol, [], by simp, empty, request, ended, .nil⟩ (.nil _ _)
    simp [Parser.see, size]

theorem HeadRead.next (head : s.parser.head = .headers) (state : s.req.state = .processingHeader)
    (seen : s.parser.headSeen = before.length) (isOpen : OpenHead fields before)
    (tracks : Tracks s.parser fields) (ended : IsEol eol)
    (size : line.next = (line.text ++ eol).length) (result : headLine s line = .ok s') :
    HeadRead s' (before ++ (line.text ++ eol)) := by
  simp only [headLine, head] at result
  split_ifs at result with large last
  · split at result
    · cases result
    rename_i p req finished
    cases result
    obtain ⟨framed, delimited⟩ := finalizeHead_delimits tracks finished
    refine .done fields ?_ (delimited.of_eq rfl rfl rfl rfl)
    obtain ⟨blanks, request, eol', lines, rfl, empty, isRequest, ended', isLines⟩ := isOpen
    refine ⟨blanks, request, eol', lines, eol, by simp [last], empty, isRequest, ended', isLines, ended,
      ?_, framed, ?_⟩
    · exact tracks.count ▸ tracks.few
    · rw [List.length_append, ← size, ← seen]
      exact not_lt.mp large
  · split at result
    · cases result
    rename_i p req parsed
    cases result
    obtain ⟨field, isLine, few, stored⟩ := parseHeaderField_stored parsed
    obtain ⟨head', seen', state', -⟩ := parseHeaderField_keeps parsed
    refine .lines (fields ++ [field]) (head'.trans head) (state'.trans state) ?_
      (isOpen.snoc isLine ended) ((tracks.snoc few stored).see _)
    simp [seen', seen, size]

end Lines

theorem headRead_step {s s' : Framing} {before eaten d : Bytes} (read : HeadRead s before)
    (step : headMachine.step s (eaten ++ d) = .next s' d) : HeadRead s' (before ++ eaten) := by
  obtain ⟨-, running, ⟨fresh, same, rfl⟩ | ⟨begun, -, step⟩⟩ := headStep_next.mp step
  · obtain rfl : eaten = [] := by simpa using same
    cases read with
    | start => exact .blank [] rfl rfl (by simp)
    | blank _ _ state => simp [state] at fresh
    | lines _ _ state => simp [state] at fresh
    | done _ _ delimited => cases delimited <;> simp_all
  obtain ⟨line, eol, ended, rfl, size, result⟩ := lineStep_eaten step
  cases read with
  | start fresh => exact absurd fresh begun
  | blank _ parser state empty => exact .first parser state empty ended size result
  | lines _ head state seen isOpen tracks =>
    exact .next head state seen isOpen tracks ended size result
  | done _ _ delimited => cases delimited <;> simp_all [Request.inBody]

theorem HeadRead.headOf {s : Framing} {text : Bytes} (read : HeadRead s text)
    (parsed : s.req.headParsed) :
    ∃ fields, HeadOf fields text ∧ Delimited fields s.parser s.req := by
  cases read with
  | done fields head delimited => exact ⟨fields, head, delimited⟩
  | _ => simp_all [Request.headParsed]

section Accepts

theorem skipEmptyLines_line {pos : Nat} {view : Bytes} {line : Line}
    (found : nextLine view = some line) :
    skipEmptyLines pos view = if line.text ≠ [] then (pos, some line)
      else skipEmptyLines (pos + line.next) (view.drop line.next) := by
  rw [skipEmptyLines]
  split <;> simp_all

section

variable {size pos : Nat} {view : Bytes} {line : Line} (found : nextLine view = some line)
  (small : p.headSeen + (pos + line.next) ≤ maxHeadSize)

include found small

theorem headerLines_last (last : line.text = []) (finished : finalizeHead p req = .ok (p', req')) :
    headerLines size pos p req view = .ok (pos + line.next,
      { p' with head := .done, headSeen := p'.headSeen + (pos + line.next) }, req') := by
  rw [headerLines]
  split <;> simp_all [not_lt.mpr small]

theorem headerLines_field (filled : line.text ≠ [])
    (parsed : parseHeaderField p line.text req = .ok (p', req')) :
    headerLines size pos p req view =
      headerLines size (pos + line.next) p' req' (view.drop line.next) := by
  rw [headerLines]
  split <;> simp_all [not_lt.mpr small]

end

theorem skipEmptyLines_blanks {blanks : List Bytes} {view : Bytes} {line : Line} (pos : Nat)
    (empty : ∀ blank ∈ blanks, IsEol blank) (found : nextLine view = some line)
    (filled : line.text ≠ []) :
    skipEmptyLines pos (blanks.flatten ++ view) = (pos + blanks.flatten.length, some line) := by
  induction blanks generalizing pos with
  | nil => simp [skipEmptyLines_line found, filled]
  | cons blank blanks ih =>
    have first : nextLine ([] ++ blank ++ (blanks.flatten ++ view)) = some ⟨[], _⟩ :=
      nextLine_of_eol _ (empty blank (by simp)) (by simp)
    rw [List.nil_append, ← List.append_assoc] at first
    rw [List.flatten_cons, skipEmptyLines_line first]
    simp [ih _ fun blank member => empty blank (by simp [member]), Nat.add_assoc]

theorem headerLines_fields {lines last : Bytes} (isLines : FieldLines fields lines)
    (ended : IsEol last) (size : Nat) (rest : Bytes) (req : Request) {pos : Nat} (tracks : Tracks p done)
    (framed : Framed (done ++ fields)) (few : (done ++ fields).length ≤ 100)
    (small : p.headSeen + (pos + (lines ++ last).length) ≤ maxHeadSize) :
    ∃ p' req', headerLines size pos p req (lines ++ last ++ rest) =
      .ok (pos + (lines ++ last).length, p', req') ∧ req'.headParsed := by
  induction isLines generalizing pos p req done with
  | nil =>
    have found : nextLine ([] ++ last ++ rest) = some ⟨[], _⟩ := nextLine_of_eol rest ended (by simp)
    obtain ⟨p', req', finished⟩ := finalizeHead_accepts tracks (by simpa using framed) req
    refine ⟨_, _, headerLines_last found small rfl finished, ?_⟩
    simpa [Request.headParsed] using (finalizeHead_keeps finished).2.1
  | @cons field fields text eol lines line ended' isLines ih =>
    obtain ⟨filled, plain⟩ := line.plain
    have found := nextLine_of_eol (lines ++ last ++ rest) ended' plain
    have taken : p.headers + 1 ≤ 100 := by
      rw [tracks.count]
      rw [List.length_append, List.length_cons] at few
      omega
    obtain ⟨q, r, parsed, stored⟩ := line.accepted taken (tracks.takes framed) req
    have seen := (parseHeaderField_keeps parsed).2.1
    have total : (text ++ eol ++ lines ++ last).length = (text ++ eol).length + (lines ++ last).length := by
      simp [Nat.add_assoc]
    have room : q.headSeen + (pos + (text ++ eol).length + (lines ++ last).length) ≤ maxHeadSize := by
      rw [seen]
      omega
    obtain ⟨p', req', result, complete⟩ := ih r (tracks.snoc taken stored)
      (by simpa using framed) (by simpa using few) room
    have split : text ++ eol ++ lines ++ last ++ rest = text ++ eol ++ (lines ++ last ++ rest) := by simp
    rw [split, headerLines_field found (by dsimp only; omega) filled parsed, List.drop_left, result, total,
      Nat.add_assoc]
    exact ⟨p', req', rfl, complete⟩

theorem HeadOf.accepted {head : Bytes} (isHead : HeadOf fields head) (rest : Bytes) :
    ∃ p req, parseHead {} (head ++ rest) {} = .ok (head.length, p, req) ∧ req.headParsed := by
  obtain ⟨blanks, request, eol, lines, last, rfl, empty, isRequest, ended, isLines, ended', few,
    framed, small⟩ := isHead
  obtain ⟨filled, plain⟩ := isRequest.plain
  have found := nextLine_of_eol (lines ++ last ++ rest) ended plain
  have skipped := skipEmptyLines_blanks 0 empty found filled
  obtain ⟨⟨q, r⟩, parsed⟩ : ∃ r, parseRequestLine {} request { state := .processingUrl } = .ok r :=
    parseRequestLine_iff.mpr isRequest
  obtain ⟨http11, rfl⟩ := parseRequestLine_eq parsed
  have join : blanks.flatten ++ (request ++ eol ++ (lines ++ last)) ++ rest =
      blanks.flatten ++ (request ++ eol ++ (lines ++ last ++ rest)) := by simp
  have total : (blanks.flatten ++ (request ++ eol ++ (lines ++ last))).length =
      blanks.flatten.length + (request ++ eol).length + (lines ++ last).length := by
    simp [Nat.add_assoc]
  have unread : (blanks.flatten ++ (request ++ eol ++ (lines ++ last ++ rest))).drop
      (blanks.flatten.length + (request ++ eol).length) = lines ++ last ++ rest := by
    rw [← List.append_assoc, ← List.length_append, List.drop_left]
  have fits : 0 + (blanks.flatten.length + (request ++ eol).length + (lines ++ last).length) ≤
      maxHeadSize := by
    rw [Nat.zero_add, ← total]
    exact small
  obtain ⟨p', req', result, complete⟩ := headerLines_fields isLines ended'
    (blanks.flatten ++ (request ++ eol ++ (lines ++ last ++ rest))).length rest
    { r with state := .processingHeader } (.nil 0 http11) framed few fits
  refine ⟨p', req', ?_, complete⟩
  rw [join, total, ← result]
  simp only [parseHead, beginRequest, headLines, skipped, parsed, Nat.zero_add, unread, if_true]
  exact if_neg (not_lt.mpr (by omega))

end Accepts

theorem parseHead_headOf {data : Bytes} {n : Nat} (parsed : parseHead {} data {} = .ok (n, p, req))
    (complete : req.state = .headersCompleted ∨ req.state = .completed) :
    n ≤ data.length ∧ ∃ fields, HeadOf fields (data.take n) := by
  have bound := parseHead_bound parsed
  have parsed' : req.headParsed := by simpa [Request.headParsed] using complete
  have filled : data ≠ [] := by
    rintro rfl
    have waits : parseHead {} [] {} = .ok (0, {}, { state := .processingUrl }) := by decide +kernel
    rw [waits] at parsed
    cases parsed
    simp at complete
  obtain ⟨-, halted⟩ := parseHead_halts rfl filled parsed
  obtain ⟨head, split, read⟩ := halted.steps.history (P := HeadRead) headRead_step (.start rfl)
  obtain ⟨fields, isHead, -⟩ := read.headOf parsed'
  obtain rfl : data.take n = head :=
    List.append_cancel_right ((List.take_append_drop n data).trans split)
  exact ⟨bound, fields, isHead⟩

/-- `parse_head` accepts exactly the heads of the grammar, and consumes exactly the head. -/
theorem parseHead_accepts_iff (data : Bytes) (n : Nat) :
    (∃ p req, parseHead {} data {} = .ok (n, p, req) ∧
        (req.state = .headersCompleted ∨ req.state = .completed)) ↔
      n ≤ data.length ∧ ∃ fields, HeadOf fields (data.take n) := by
  constructor
  · rintro ⟨p, req, parsed, complete⟩
    exact parseHead_headOf parsed complete
  · rintro ⟨bound, fields, isHead⟩
    obtain ⟨p, req, parsed, complete⟩ := isHead.accepted (data.drop n)
    rw [List.take_append_drop, List.length_take_of_le bound] at parsed
    exact ⟨p, req, parsed, by simpa [Request.headParsed] using complete⟩

end Dracon
