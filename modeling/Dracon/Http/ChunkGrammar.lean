import Dracon.Http.BodyGrammar
import Dracon.Http.ChunkLimits

set_option autoImplicit false

namespace Dracon

open Shared

inductive IsChunked (headers : Nat) : (payload body : Bytes) → Prop
  | chunk {line eol data eol' payload body : Bytes} : IsChunkSize line data.length → data ≠ [] → IsEol eol → IsEol eol' →
      IsChunked headers payload body →
      IsChunked headers (data ++ payload) (line ++ eol ++ (data ++ (eol' ++ body)))
  | last {line eol eol' : Bytes} {trailers : List Bytes} : IsChunkSize line 0 → IsEol eol →
      (∀ trailer ∈ trailers, IsTrailer trailer) → headers + trailers.length ≤ 100 → IsEol eol' →
      IsChunked headers [] (line ++ eol ++ (trailers.flatten ++ eol'))

section Size

theorem HexDigit.ne {c : Byte} (hex : HexDigit c) : c ≠ lf ∧ c ≠ cr ∧ isOws c = false ∧ c ≠ ch ';' := by
  simp only [HexDigit, DecimalDigit, isOws, ch_values, show ch ';' = 59 from rfl] at *
  grind

theorem chunkDigits_append (before : Bytes) {digits ext : Bytes} (hex : ∀ c ∈ before ++ digits, HexDigit c)
    (few : (before ++ digits).length ≤ 16) (ends : ∀ c ∈ ext.head?, ¬ HexDigit c) :
    chunkDigits before.length (hexNumber before) (digits ++ ext) =
      .ok ((before ++ digits).length, hexNumber (before ++ digits)) := by
  induction digits generalizing before with
  | nil =>
    cases ext with
    | nil => simp [chunkDigits]
    | cons c ext =>
      have other : ¬ charTable c .hexChar := fun digit => ends c rfl ((hexChar_iff c).mp digit)
      simp [chunkDigits, other]
  | cons c digits ih =>
    have isHex := hex c (by simp)
    have front : ∀ c ∈ before, HexDigit c := fun c mem => hex c (by simp [mem])
    simp only [List.length_append, List.length_cons] at few
    have rest := ih (before ++ [c]) (by simpa using hex) (by simp; omega)
    rw [List.cons_append, chunkDigits, if_pos ((hexChar_iff c).mpr isHex), if_neg (by omega),
      hexNumber_shift front isHex (by omega)]
    simpa using rest

theorem chunkSize_iff {text : Bytes} {size : Nat} : chunkSize text = .ok size ↔ IsChunkSize text size := by
  refine ⟨chunkSize_ok, ?_⟩
  rintro ⟨digits, ext, rfl, filled, few, hex, rfl, extension⟩
  have ends : ∀ c ∈ ext.head?, ¬ HexDigit c := by
    obtain ⟨blanks, rest, rfl, ows, tail⟩ := extension
    intro c first digit
    cases blanks with
    | cons b blanks =>
      obtain rfl : b = c := by simpa using first
      exact absurd (ows b (by simp)) (by simp [digit.ne.2.2.1])
    | nil =>
      rcases tail with rfl | ⟨chars, rfl, _⟩
      · cases first
      · obtain rfl : ch ';' = c := by simpa using first
        exact digit.ne.2.2.2 rfl
  have read : chunkDigits 0 0 (digits ++ ext) = .ok (digits.length, hexNumber digits) :=
    chunkDigits_append [] (by simpa using hex) (by simpa using few) ends
  have legal : ¬ (trimOws ext ≠ [] ∧ ((trimOws ext).head? ≠ some (ch ';') ∨ !allChars (trimOws ext) .valueChar)) := by
    rcases (IsExtension.iff_trim ext).mp extension with ows | ⟨first, fields⟩
    · have none : trimOws ext = [] := by
        rw [trimOws, List.dropWhile_eq_nil_iff.mpr ows, List.rdropWhile_nil]
      simp [none]
    · simp [first, allChars_value.mpr fields]
  simp only [chunkSize, read, List.drop_left, if_neg (show digits.length ≠ 0 by simpa using filled), if_neg legal]

theorem IsChunkSize.lt {text : Bytes} {size : Nat} (isSize : IsChunkSize text size) : size < 2 ^ 64 := by
  obtain ⟨digits, ext, -, -, few, hex, rfl, -⟩ := isSize
  calc hexNumber digits < 16 ^ digits.length := hexNumber_lt hex
    _ ≤ 16 ^ 16 := Nat.pow_le_pow_right (by omega) few
    _ = 2 ^ 64 := by norm_num

theorem IsChunkSize.plain {text : Bytes} {size : Nat} (isSize : IsChunkSize text size) : ∀ c ∈ text, c ≠ lf ∧ c ≠ cr := by
  obtain ⟨digits, ext, rfl, -, -, hex, -, blanks, rest, rfl, ows, tail⟩ := isSize
  intro c mem
  rcases List.mem_append.mp mem with mem | mem
  · exact ⟨(hex c mem).ne.1, (hex c mem).ne.2.1⟩
  rcases List.mem_append.mp mem with mem | mem
  · exact isOws_ne (ows c mem)
  rcases tail with rfl | ⟨chars, rfl, fields⟩
  · cases mem
  rcases List.mem_cons.mp mem with rfl | mem
  · decide
  · exact (fields c mem).ne

end Size

structure Framing.Chunking (s : Framing) : Prop where
  state : s.req.state = .processingBody
  mode : s.parser.body = .chunked
  few : s.parser.headers ≤ 100

def Framing.Closes (s : Framing) (payload text : Bytes) : Prop :=
  match s.parser.chunk with
  | .size => IsChunked s.parser.headers payload text
  | .data => ∃ data eol more rest, data.length = s.parser.remaining ∧ IsEol eol ∧
      IsChunked s.parser.headers more rest ∧ payload = data ++ more ∧ text = data ++ (eol ++ rest)
  | .dataEnd => ∃ eol rest, IsEol eol ∧ IsChunked s.parser.headers payload rest ∧ text = eol ++ rest
  | .trailers => payload = [] ∧ ∃ trailers eol, (∀ trailer ∈ trailers, IsTrailer trailer) ∧
      s.parser.headers + trailers.length ≤ 100 ∧ IsEol eol ∧ text = List.flatten trailers ++ eol

section Sound

variable {lim : Limit} {s s' : Framing} {eaten d : Bytes}

theorem Framing.Chunking.step_eq (chunking : s.Chunking) (filled : d ≠ []) :
    (bodyMachine lim).step s d = chunkStep lim s d := by
  simp [bodyMachine, bodyStep, filled, chunking.state, chunking.mode]

theorem Framing.advance_chunked (mode : s.parser.body = .chunked) (piece : Bytes) :
    s.advance piece = ⟨chunkDelivered { s.parser with received := s.parser.received + piece.length } piece.length,
      s.req, s.body ++ piece⟩ := if_pos mode

theorem Framing.Closes.data_step (chunking : s.Chunking) (chunk : s.parser.chunk = .data)
    (step : dataStep lim s (eaten ++ d) = .next s' d) :
    s'.Chunking ∧ s'.body = s.body ++ eaten ∧
      ∀ payload text, s'.Closes payload text → s.Closes (eaten ++ payload) (eaten ++ text) := by
  obtain ⟨-, rfl, rest⟩ := dataStep_next.mp step
  have taken : eaten = (eaten ++ d).take (min s.parser.remaining 1) := take_eq_of_append_drop (by rw [← rest])
  have short : eaten.length ≤ s.parser.remaining := by
    rw [taken, List.length_take]
    omega
  rw [← taken, Framing.advance_chunked chunking.mode]
  refine ⟨⟨chunking.state, chunking.mode, chunking.few⟩, rfl, fun payload text closes => ?_⟩
  unfold Framing.Closes at closes ⊢
  rw [chunk]
  by_cases last : s.parser.remaining - eaten.length = 0
  · simp only [chunkDelivered, last, if_true] at closes
    obtain ⟨eol, rest, ended, isChunked, rfl⟩ := closes
    exact ⟨eaten, eol, payload, rest, by omega, ended, isChunked, rfl, rfl⟩
  · simp only [chunkDelivered, last, if_false, chunk] at closes
    obtain ⟨data, eol, more, rest, length, ended, isChunked, rfl, rfl⟩ := closes
    exact ⟨eaten ++ data, eol, more, rest, by simp; omega, ended, isChunked, by simp, by simp⟩

theorem Framing.Chunking.step (chunking : s.Chunking)
    (step : (bodyMachine lim).step s (eaten ++ d) = .next s' d) :
    (s'.req.state = .completed ∧ s'.body = s.body ∧ s.Closes [] eaten) ∨
      (s'.Chunking ∧ ∃ piece, s'.body = s.body ++ piece ∧
        ∀ payload text, s'.Closes payload text → s.Closes (piece ++ payload) (eaten ++ text)) := by
  have filled : eaten ++ d ≠ [] := by
    rintro empty
    simp [empty, (bodyMachine lim).idle] at step
  rw [chunking.step_eq filled] at step
  rcases chunkStep_next.mp step with ⟨chunk, line, size, found, decoded, rest, rfl⟩ | ⟨chunk, data⟩ |
    ⟨chunk, split, rfl⟩ | ⟨chunk, line, found, rest, ⟨blank, rfl⟩ | ⟨text, few, chars, rfl⟩⟩
  · -- a chunk-size line
    obtain ⟨eol, ended, rfl, -⟩ := nextLine_eaten found rest
    have isSize := chunkSize_iff.mp decoded
    refine .inr ⟨⟨chunking.state, chunking.mode, chunking.few⟩, [], by simp, fun payload text closes => ?_⟩
    unfold Framing.Closes at closes ⊢
    rw [chunk]
    by_cases zero : size = 0
    · simp only [zero, ne_eq, not_true_eq_false, if_false] at closes
      obtain ⟨rfl, trailers, eol', isTrailers, few, ended', rfl⟩ := closes
      exact .last (zero ▸ isSize) ended isTrailers few ended'
    · simp only [ne_eq, zero, not_false_eq_true, if_true] at closes
      obtain ⟨data, eol', more, after, length, ended', isChunked, rfl, rfl⟩ := closes
      rw [List.nil_append]
      exact .chunk (by rwa [length]) (by rintro rfl; exact zero length.symm) ended ended' isChunked
  · obtain ⟨chunking', body, closes⟩ := Framing.Closes.data_step chunking chunk data
    exact .inr ⟨chunking', eaten, body, closes⟩
  · have ended : IsEol eaten := by
      rcases split with split | split
      · exact .inl (List.append_cancel_right (split.trans rfl : eaten ++ d = [lf] ++ d))
      · exact .inr (List.append_cancel_right (split.trans rfl : eaten ++ d = [cr, lf] ++ d))
    refine .inr ⟨⟨chunking.state, chunking.mode, chunking.few⟩, [], by simp, fun payload text closes => ?_⟩
    unfold Framing.Closes
    rw [chunk]
    exact ⟨eaten, text, ended, closes, rfl⟩
  · obtain ⟨eol, ended, rfl, -⟩ := nextLine_eaten found rest
    refine .inl ⟨rfl, rfl, ?_⟩
    unfold Framing.Closes
    rw [chunk, blank]
    exact ⟨rfl, [], eol, nofun, chunking.few, ended, rfl⟩
  · obtain ⟨eol, ended, rfl, -⟩ := nextLine_eaten found rest
    refine .inr ⟨⟨chunking.state, chunking.mode, few⟩, [], by simp, fun payload rest closes => ?_⟩
    unfold Framing.Closes at closes ⊢
    simp only [chunk] at closes ⊢
    obtain ⟨rfl, trailers, eol', isTrailers, few', ended', rfl⟩ := closes
    refine ⟨rfl, (line.text ++ eol) :: trailers, eol', ?_, by simp; omega, ended', by simp⟩
    simpa using ⟨⟨line.text, eol, rfl, text, allChars_value.mp chars, ended⟩, isTrailers⟩

theorem Framing.Chunking.steps {d' : Bytes} (chunking : s.Chunking) (steps : (bodyMachine lim).Steps s d s' d')
    (completed : s'.req.state = .completed) :
    ∃ payload text, d = text ++ d' ∧ s'.body = s.body ++ payload ∧ s.Closes payload text := by
  induction steps with
  | refl => simp [chunking.state] at completed
  | @head s d s₁ d₁ s₂ d₂ step more ih =>
    obtain ⟨eaten, rfl, -⟩ := (bodyMachine lim).next_local step
    rcases chunking.step step with ⟨done, body, closes⟩ | ⟨chunking', piece, body, closes⟩
    · obtain ⟨rfl, rfl⟩ := more.of_not_next fun t r next => by
        simp [bodyMachine, bodyStep_stops (.inr (.inl done))] at next
      exact ⟨[], eaten, rfl, by simp [body], closes⟩
    · obtain ⟨payload, text, rfl, body', closes'⟩ := ih chunking' completed
      exact ⟨piece ++ payload, eaten ++ text, by simp, by simp [body', body], closes payload text closes'⟩

end Sound

section Complete

variable {lim : Limit} {s : Framing}

theorem Framing.Chunking.line {text eol : Bytes} (ended : IsEol eol) (plain : ∀ c ∈ text, c ≠ lf ∧ c ≠ cr) (d : Bytes) :
    text ++ eol ++ d ≠ [] ∧ nextLine (text ++ eol ++ d) = some ⟨text, (text ++ eol).length⟩ ∧
      d = (text ++ eol ++ d).drop (text ++ eol).length := by
  refine ⟨?_, nextLine_of_eol d ended plain, by simp⟩
  rcases ended with rfl | rfl <;> simp

theorem trailers_steps (lim : Limit) (chunking : s.Chunking) (chunk : s.parser.chunk = .trailers) {trailers : List Bytes} {eol : Bytes}
    (isTrailers : ∀ trailer ∈ trailers, IsTrailer trailer) (few : s.parser.headers + trailers.length ≤ 100)
    (ended : IsEol eol) (d : Bytes) :
    ∃ s', (bodyMachine lim).Steps s (trailers.flatten ++ eol ++ d) s' d ∧ s'.req.state = .completed ∧ s'.body = s.body := by
  induction trailers generalizing s with
  | nil =>
    obtain ⟨filled, found, rest⟩ := Framing.Chunking.line ended (List.forall_mem_nil _) d
    refine ⟨{ s with req := { s.req with state := .completed } }, .single ?_, rfl, rfl⟩
    rw [List.flatten_nil, chunking.step_eq filled]
    exact chunkStep_next.mpr (.inr (.inr (.inr ⟨chunk, _, found, rest, .inl ⟨rfl, rfl⟩⟩)))
  | cons trailer trailers ih =>
    obtain ⟨text, eol', rfl, some, fields, ended'⟩ := isTrailers trailer (by simp)
    obtain ⟨filled, found, rest⟩ := Framing.Chunking.line ended' (fun c mem => (fields c mem).ne)
      (trailers.flatten ++ eol ++ d)
    simp only [List.length_cons] at few
    have step : (bodyMachine lim).step s (text ++ eol' ++ (trailers.flatten ++ eol ++ d)) =
        .next { s with parser := { s.parser with headers := s.parser.headers + 1 } } (trailers.flatten ++ eol ++ d) := by
      rw [chunking.step_eq filled]
      exact chunkStep_next.mpr (.inr (.inr (.inr ⟨chunk, _, found, rest,
        .inr ⟨some, by simp only [maxHeadersCount]; omega, allChars_value.mpr fields, rfl⟩⟩)))
    obtain ⟨s', steps, completed, body⟩ := ih (s := { s with parser := { s.parser with headers := s.parser.headers + 1 } })
      ⟨chunking.state, chunking.mode, by simp; omega⟩ chunk (fun trailer mem => isTrailers trailer (by simp [mem]))
      (by simp; omega)
    exact ⟨s', .head (by simpa using step) steps, completed, body⟩

theorem size_line_step (lim : Limit) (chunking : s.Chunking) (chunk : s.parser.chunk = .size) {line eol : Bytes}
    {size : Nat} (isSize : IsChunkSize line size) (ended : IsEol eol) (d : Bytes) :
    ∃ s', (bodyMachine lim).step s (line ++ eol ++ d) = .next s' d ∧ s'.Chunking ∧ s'.parser.remaining = size ∧
      s'.parser.chunk = (if size ≠ 0 then .data else .trailers) ∧ s'.parser.headers = s.parser.headers ∧
      s'.body = s.body := by
  obtain ⟨filled, found, rest⟩ := Framing.Chunking.line ended isSize.plain d
  have step : chunkStep lim s (line ++ eol ++ d) = .next _ d :=
    chunkStep_next.mpr (.inl ⟨chunk, _, size, found, chunkSize_iff.mpr isSize, rest, rfl⟩)
  exact ⟨_, (chunking.step_eq filled).trans step, ⟨chunking.state, chunking.mode, chunking.few⟩, rfl, rfl, rfl, rfl⟩

theorem chunk_data_steps (callback : lim.callback) (unlimited : lim.maxBodySize = 0) (chunking : s.Chunking)
    (chunk : s.parser.chunk = .data) {data eol : Bytes} (filled : data ≠ []) (size : s.parser.remaining = data.length)
    (ended : IsEol eol) (d : Bytes) :
    ∃ s', (bodyMachine lim).Steps s (data ++ (eol ++ d)) s' d ∧ s'.Chunking ∧ s'.parser.chunk = .size ∧
      s'.parser.headers = s.parser.headers ∧ s'.body = s.body ++ data := by
  have more := List.length_pos_of_ne_nil filled
  have steps : (bodyMachine lim).Steps s (data ++ (eol ++ d)) (s.advance data) (eol ++ d) :=
    data_steps ⟨chunking.state, by omega, .inr ⟨chunking.mode, chunk⟩⟩ filled size.ge
      ⟨callback, fun limited => absurd unlimited limited⟩ _
  rw [Framing.advance_chunked chunking.mode] at steps
  have finished : s.parser.remaining - data.length = 0 := by omega
  simp only [chunkDelivered, finished, if_true] at steps
  set finish : Framing := ⟨_, _, _⟩ with finish_eq
  have chunking' : finish.Chunking := ⟨chunking.state, chunking.mode, chunking.few⟩
  have line : eol ++ d ≠ [] ∧ (eol ++ d = lf :: d ∨ eol ++ d = cr :: lf :: d) := by
    rcases ended with rfl | rfl <;> simp
  have last : chunkStep lim finish (eol ++ d) = .next _ d := chunkStep_next.mpr (.inr (.inr (.inl ⟨rfl, line.2, rfl⟩)))
  exact ⟨_, steps.trans (.single ((chunking'.step_eq line.1).trans last)),
    ⟨chunking.state, chunking.mode, chunking.few⟩, rfl, rfl, rfl⟩

theorem chunked_steps (lim : Limit) {headers : Nat} {payload text : Bytes} (isChunked : IsChunked headers payload text)
    (callback : lim.callback) (unlimited : lim.maxBodySize = 0) (chunking : s.Chunking)
    (chunk : s.parser.chunk = .size) (same : s.parser.headers = headers) (d : Bytes) :
    ∃ s', (bodyMachine lim).Steps s (text ++ d) s' d ∧ s'.req.state = .completed ∧ s'.body = s.body ++ payload := by
  induction isChunked generalizing s with
  | @chunk line eol data eol' payload body isSize filled ended ended' _ ih =>
    obtain ⟨s₁, first, chunking₁, size, chunk₁, headers₁, body₁⟩ :=
      size_line_step lim chunking chunk isSize ended (data ++ (eol' ++ (body ++ d)))
    rw [if_pos (List.length_pos_of_ne_nil filled).ne'] at chunk₁
    obtain ⟨s₂, second, chunking₂, chunk₂, headers₂, body₂⟩ :=
      chunk_data_steps callback unlimited chunking₁ chunk₁ filled size ended' (body ++ d)
    obtain ⟨s₃, third, completed, body₃⟩ := ih chunking₂ chunk₂ (by rw [headers₂, headers₁, same])
    have steps := (Machine.Steps.single first).trans (second.trans third)
    exact ⟨s₃, by simpa using steps, completed, by simp [body₃, body₂, body₁]⟩
  | @last line eol eol' trailers isSize ended isTrailers few ended' =>
    obtain ⟨s₁, first, chunking₁, -, chunk₁, headers₁, body₁⟩ :=
      size_line_step lim chunking chunk isSize ended (trailers.flatten ++ eol' ++ d)
    obtain ⟨s₂, second, completed, body₂⟩ :=
      trailers_steps lim chunking₁ chunk₁ isTrailers (by rwa [headers₁, same]) ended' d
    have steps := (Machine.Steps.single first).trans second
    exact ⟨s₂, by simpa using steps, completed, by simp [body₂, body₁]⟩

end Complete

structure Reception.FreshChunked (t : Reception) : Prop where
  mode : t.parser.body = .chunked
  chunk : t.parser.chunk = .size
  few : t.parser.headers ≤ 100
  running : t.req.state ≠ .completed
  callback : t.req.callback
  unlimited : t.req.maxBodySize = 0

theorem Reception.FreshChunked.chunking {t : Reception} (fresh : t.FreshChunked) : t.framing.Chunking := by
  rw [Reception.framing_eq fresh.running]
  exact ⟨rfl, fresh.mode, fresh.few⟩

theorem parse_chunked_decodes_grammar {t : Reception} (fresh : t.FreshChunked) (data : Bytes) :
    ((∃ n t', decode t data = .ok (n, t') ∧ t'.req.state = .completed) ↔
        ∃ payload body, body <+: data ∧ IsChunked t.parser.headers payload body) ∧
      (∀ payload body, body <+: data → IsChunked t.parser.headers payload body →
        ∃ t', decode t data = .ok (body.length, t') ∧ t'.req.state = .completed ∧
          t'.req.delivered.flatten = t.req.delivered.flatten ++ payload) ∧
      ∀ text size, chunkSize text = .ok size ↔ IsChunkSize text size ∧ size < 2 ^ 64 := by
  have complete : ∀ payload body, body <+: data → IsChunked t.parser.headers payload body →
      ∃ t', decode t data = .ok (body.length, t') ∧ t'.req.state = .completed ∧
        t'.req.delivered.flatten = t.req.delivered.flatten ++ payload := by
    rintro payload body ⟨rest, rfl⟩ isChunked
    have chunk : t.framing.parser.chunk = .size := fresh.chunk
    obtain ⟨s', steps, completed, payload_eq⟩ :=
      chunked_steps t.req.limit isChunked fresh.callback fresh.unlimited fresh.chunking chunk rfl rest
    have halted : (bodyMachine t.req.limit).Halts t.framing (body ++ rest) s' rest :=
      ⟨steps, bodyStep_stops (.inr (.inl completed))⟩
    have patient : ¬ s'.Overdue rest := by simp [Framing.Overdue, Framing.lineLimit, completed]
    obtain ⟨⟨n, t'⟩, called⟩ := ((decoder t.req.limit).call_ok_iff (decoder_sim fresh.mode) _).mpr ⟨s', rest, halted, patient⟩
    obtain ⟨bound, -, -, halted', -⟩ := decode_halts fresh.mode called
    obtain ⟨rfl, unread⟩ := halted.unique halted'
    obtain rfl : n = body.length := by
      have := congrArg List.length unread
      simp only [List.length_append, List.length_drop] at this bound
      omega
    refine ⟨t', called, Reception.framing_completed.mp completed, ?_⟩
    rw [← Reception.framing_body, payload_eq, Reception.framing_body]
  refine ⟨⟨?_, ?_⟩, complete, fun text size => ?_⟩
  · rintro ⟨n, t', called, completed⟩
    obtain ⟨-, -, -, halted, -⟩ := decode_halts fresh.mode called
    obtain ⟨payload, text, split, -, closes⟩ :=
      fresh.chunking.steps halted.steps (Reception.framing_completed.mpr completed)
    unfold Framing.Closes at closes
    rw [show t.framing.parser.chunk = .size from fresh.chunk] at closes
    exact ⟨payload, text, ⟨_, split.symm⟩, closes⟩
  · rintro ⟨payload, body, inside, isChunked⟩
    obtain ⟨t', called, completed, -⟩ := complete payload body inside isChunked
    exact ⟨_, t', called, completed⟩
  · rw [chunkSize_iff]
    exact ⟨fun isSize => ⟨isSize, isSize.lt⟩, fun both => both.1⟩

theorem parse_chunked_decodes_grammar_trailer :
    ∃ payload body, body <+: bytes "3;x\r\nabc\n00\r\nA: b\r\n\r\nGET /" ∧ IsChunked 99 payload body := by
  have ran : decode ⟨{ body := .chunked, headers := 99 }, { state := .headersCompleted, callback := true }⟩
      (bytes "3;x\r\nabc\n00\r\nA: b\r\n\r\nGET /") =
      .ok (21, ⟨{ body := .chunked, chunk := .trailers, headers := 100, received := 3 },
        { state := .completed, callback := true, delivered := [bytes "abc"] }⟩) := by decide +kernel
  have fresh : Reception.FreshChunked ⟨{ body := .chunked, headers := 99 }, { state := .headersCompleted, callback := true }⟩ :=
    ⟨rfl, rfl, by decide, by decide, rfl, rfl⟩
  exact (parse_chunked_decodes_grammar fresh _).1.mp ⟨_, _, ran, rfl⟩

end Dracon
