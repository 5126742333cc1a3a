import Dracon.Http.HeadAcceptance

set_option autoImplicit false

namespace Dracon

open Shared

section ChunkSize

theorem hexChar_iff (c : Byte) : charTable c .hexChar ↔ HexDigit c := by
  simp only [charTable, HexDigit, isDigit, DecimalDigit, ch_values]
  grind

theorem hexValue_lt {c : Byte} (hex : HexDigit c) : hexValue c < 16 := by
  simp only [HexDigit, DecimalDigit, ch_values, UInt8.le_iff_toNat_le] at hex
  simp only [hexValue, toLowerAscii, ch_values, UInt8.le_iff_toNat_le]
  split_ifs <;> simp [UInt8.toNat_sub, UInt8.toNat_add] at * <;> omega

theorem hexNumber_snoc (digits : Bytes) (c : Byte) :
    hexNumber (digits ++ [c]) = 16 * hexNumber digits + hexValue c := by
  simp [hexNumber]

theorem hexNumber_lt {digits : Bytes} (hex : ∀ c ∈ digits, HexDigit c) :
    hexNumber digits < 16 ^ digits.length := by
  induction digits using List.reverseRecOn with
  | nil => simp [hexNumber]
  | append_singleton digits c ih =>
    have front := ih fun c member => hex c (by simp [member])
    have last := hexValue_lt (hex c (by simp))
    rw [hexNumber_snoc, List.length_append, List.length_singleton, Nat.pow_succ]
    omega

theorem hexNumber_shift {digits : Bytes} {c : Byte} (hex : ∀ c ∈ digits, HexDigit c) (isHex : HexDigit c)
    (few : digits.length < 16) :
    (hexNumber digits <<< 4 ||| hexValue c) % sizeMod = hexNumber (digits ++ [c]) := by
  have small := hexValue_lt isHex
  have room : 16 ^ digits.length ≤ 16 ^ 15 := Nat.pow_le_pow_right (by omega) (by omega)
  have bound := hexNumber_lt hex
  rw [← Nat.shiftLeft_add_eq_or_of_lt (by omega), Nat.shiftLeft_eq, hexNumber_snoc,
    Nat.mod_eq_of_lt (by simp only [sizeMod]; omega)]
  omega

theorem chunkDigits_ok {before text : Bytes} {digits size : Nat} (hex : ∀ c ∈ before, HexDigit c)
    (few : before.length ≤ 16)
    (parsed : chunkDigits before.length (hexNumber before) text = .ok (digits, size)) :
    ∃ more rest, text = more ++ rest ∧ digits = (before ++ more).length ∧ size = hexNumber (before ++ more) ∧
      (∀ c ∈ before ++ more, HexDigit c) ∧ digits ≤ 16 := by
  induction text generalizing before with
  | nil =>
    cases parsed
    exact ⟨[], [], rfl, by simp, by simp, by simpa using hex, few⟩
  | cons c rest ih =>
    rw [chunkDigits] at parsed
    split_ifs at parsed with digit full
    · have isHex := (hexChar_iff c).mp digit
      rw [hexNumber_shift hex isHex (by omega), show before.length + 1 = (before ++ [c]).length by simp] at parsed
      obtain ⟨more, rest, rfl, count, value, all, le⟩ := ih (by simpa [or_imp, forall_and] using ⟨hex, isHex⟩)
        (by simp; omega) parsed
      exact ⟨c :: more, rest, rfl, by simpa using count, by simpa using value, by simpa using all, le⟩
    · cases parsed
      exact ⟨[], c :: rest, rfl, by simp, by simp, by simpa using hex, few⟩

theorem allOws_of_trim {str : Bytes} (empty : trimOws str = []) : AllOws str := by
  have all := List.rdropWhile_eq_nil_iff.mp empty
  have none : str.dropWhile isOws = [] := by
    by_contra filled
    have first := List.head_dropWhile_not isOws filled
    simp [all _ (List.head_mem filled)] at first
  exact List.dropWhile_eq_nil_iff.mp none

theorem isOws_iff (c : Byte) : isOws c ↔ c = sp ∨ c = htab := by simp [isOws]

theorem FieldChar.of_ows {c : Byte} (ows : isOws c) : FieldChar c := by
  rcases (isOws_iff c).mp ows with rfl | rfl
  · exact .inr (.inl rfl)
  · exact .inl rfl

theorem IsExtension.iff_trim (ext : Bytes) :
    IsExtension ext ↔ AllOws ext ∨ (trimOws ext).head? = some (ch ';') ∧ ∀ c ∈ trimOws ext, FieldChar c := by
  have mark : isOws (ch ';') = false := by decide
  constructor
  · rintro ⟨blanks, rest, rfl, ows, rfl | ⟨chars, rfl, fields⟩⟩
    · exact .inl (by simpa using ows)
    · right
      -- trimming stops at the mark from the left, and takes a part of the text from the right
      have front : trimOws (blanks ++ ch ';' :: chars) = (ch ';' :: chars).rdropWhile isOws := by
        rw [trimOws, List.dropWhile_append_of_pos ows, List.dropWhile_cons_of_neg (by simp [mark])]
      obtain ⟨more, split⟩ := List.rdropWhile_prefix isOws (ch ';' :: chars)
      rw [front]
      cases kept : (ch ';' :: chars).rdropWhile isOws with
      | nil => simpa [mark] using List.rdropWhile_eq_nil_iff.mp kept (ch ';') (by simp)
      | cons c text =>
        rw [kept, List.cons_append, List.cons.injEq] at split
        obtain ⟨rfl, rfl⟩ := split
        refine ⟨rfl, fun d mem => ?_⟩
        rcases List.mem_cons.mp mem with rfl | mem
        · exact (valueChar_iff _).mp (by decide)
        · exact fields d (by simp [mem])
  · rintro (ows | ⟨first, fields⟩)
    · exact ⟨ext, [], by simp, ows, .inl rfl⟩
    · refine ⟨ext.takeWhile isOws, ext.dropWhile isOws, by simp, fun c mem => List.mem_takeWhile_imp mem, .inr ?_⟩
      have split : trimOws ext ++ (ext.dropWhile isOws).rtakeWhile isOws = ext.dropWhile isOws :=
        List.rdropWhile_append_rtakeWhile
      obtain ⟨chars, trimmed⟩ := List.head?_eq_some_iff.mp first
      refine ⟨chars ++ (ext.dropWhile isOws).rtakeWhile isOws, by rw [← List.cons_append, ← trimmed, split], fun c mem => ?_⟩
      rcases List.mem_append.mp mem with mem | mem
      · exact fields c (by simp [trimmed, mem])
      · exact .of_ows (List.mem_rtakeWhile_imp mem)

theorem chunkSize_ok {text : Bytes} {size : Nat} (parsed : chunkSize text = .ok size) :
    IsChunkSize text size := by
  unfold chunkSize at parsed
  split at parsed
  · cases parsed
  rename_i count value digits
  obtain ⟨run, ext, rfl, rfl, rfl, hex, few⟩ := chunkDigits_ok (List.forall_mem_nil _) (by simp) digits
  simp only [List.nil_append, List.drop_left] at parsed hex few
  split_ifs at parsed with none wrong
  cases parsed
  refine ⟨run, ext, rfl, by simpa using none, few, hex, rfl, (IsExtension.iff_trim ext).mpr ?_⟩
  by_cases empty : trimOws ext = []
  · exact .inl (allOws_of_trim empty)
  · refine .inr ?_
    simpa [empty, allChars_value] using wrong

end ChunkSize

inductive OpenBody : Chunk → Nat → Bytes → Prop
  | size {chunks : List Bytes} {remaining : Nat} : (∀ chunk ∈ chunks, IsChunk chunk) →
      OpenBody .size remaining chunks.flatten
  | data {chunks : List Bytes} {line eol data : Bytes} {remaining : Nat} :
      (∀ chunk ∈ chunks, IsChunk chunk) → IsChunkSize line (data.length + remaining) → IsEol eol →
      0 < remaining → OpenBody .data remaining (chunks.flatten ++ (line ++ eol ++ data))
  | dataEnd {chunks : List Bytes} {line eol data : Bytes} {remaining : Nat} :
      (∀ chunk ∈ chunks, IsChunk chunk) → IsChunkSize line data.length → IsEol eol → data ≠ [] →
      OpenBody .dataEnd remaining (chunks.flatten ++ (line ++ eol ++ data))
  | trailers {chunks trailers : List Bytes} {last eol : Bytes} {remaining : Nat} :
      (∀ chunk ∈ chunks, IsChunk chunk) → IsChunkSize last 0 → IsEol eol →
      (∀ trailer ∈ trailers, IsTrailer trailer) →
      OpenBody .trailers remaining (chunks.flatten ++ (last ++ eol) ++ trailers.flatten)

inductive BodyRead (fields : List Field) : Framing → Bytes → Prop
  | start {s : Framing} : Delimited fields s.parser s.req → BodyRead fields s []
  | length {s : Framing} {text : Bytes} : s.req.state = .processingBody →
      s.parser.body = .contentLength → (∃ field ∈ fields, field.Is "Content-Length" ∧
        decimalValue field.value = text.length + s.parser.remaining) → BodyRead fields s text
  | chunked {s : Framing} {text : Bytes} : s.req.state = .processingBody → s.parser.body = .chunked →
      (∃ field ∈ fields, field.Is "Transfer-Encoding") →
      OpenBody s.parser.chunk s.parser.remaining text → BodyRead fields s text
  | done {s : Framing} {text : Bytes} : s.req.state = .completed → BodyOf fields text →
      BodyRead fields s text

theorem BodyRead.advance_length {fields : List Field} {s : Framing} {text : Bytes} {c : Byte}
    (state : s.req.state = .processingBody) (mode : s.parser.body = .contentLength)
    (announced : ∃ field ∈ fields, field.Is "Content-Length" ∧
      decimalValue field.value = text.length + s.parser.remaining)
    (more : 0 < s.parser.remaining) : BodyRead fields (s.advance [c]) (text ++ [c]) := by
  by_cases last : s.parser.remaining = 1
  · refine .done (Framing.advance_completed mode (by simp [last])) (.length ?_)
    simpa [last] using announced
  · have left : s.parser.remaining - 1 ≠ 0 := by omega
    refine .length ?_ ?_ ?_
    · simp [Framing.advance, mode, lengthDelivered, left, state]
    · simp [Framing.advance, mode, lengthDelivered]
    · obtain ⟨field, member, is, value⟩ := announced
      refine ⟨field, member, is, ?_⟩
      simp [Framing.advance, mode, lengthDelivered, value]
      omega

theorem BodyRead.advance_chunk {fields : List Field} {s : Framing} {text : Bytes} {c : Byte}
    (state : s.req.state = .processingBody) (mode : s.parser.body = .chunked)
    (coded : ∃ field ∈ fields, field.Is "Transfer-Encoding") (data : s.parser.chunk = .data)
    (before : OpenBody s.parser.chunk s.parser.remaining text) :
    BodyRead fields (s.advance [c]) (text ++ [c]) := by
  rw [data] at before
  generalize count : s.parser.remaining = remaining at before
  cases before with
  | @data chunks line eol piece _ isChunks size ended more =>
    refine .chunked ?_ ?_ coded ?_
    · simp [Framing.advance, mode, state]
    · simp [Framing.advance, mode, chunkDelivered]
    · have join : chunks.flatten ++ (line ++ eol ++ piece) ++ [c] =
          chunks.flatten ++ (line ++ eol ++ (piece ++ [c])) := by simp
      rw [join]
      by_cases last : remaining = 1
      · have finished : (s.advance [c]).parser.chunk = .dataEnd := by
          simp [Framing.advance, mode, chunkDelivered, count, last]
        rw [finished]
        exact .dataEnd isChunks (by simpa [last] using size) ended (by simp)
      · have left : remaining - 1 ≠ 0 := by omega
        have within : (s.advance [c]).parser.chunk = .data := by
          simp [Framing.advance, mode, chunkDelivered, count, left, data]
        have rest : (s.advance [c]).parser.remaining = remaining - 1 := by
          simp [Framing.advance, mode, chunkDelivered, count]
        rw [within, rest]
        refine .data isChunks ?_ ended (by omega)
        have total : (piece ++ [c]).length + (remaining - 1) = piece.length + remaining := by
          simp; omega
        rwa [total]

theorem dataStep_eaten {lim : Limit} {s s' : Framing} {eaten d : Bytes} (more : 0 < s.parser.remaining)
    (filled : eaten ++ d ≠ []) (step : dataStep lim s (eaten ++ d) = .next s' d) :
    ∃ c, eaten = [c] ∧ s' = s.advance [c] := by
  obtain ⟨-, rfl, rest⟩ := dataStep_next.mp step
  have one : min s.parser.remaining 1 = 1 := by omega
  rw [one] at rest ⊢
  have size : eaten.length = 1 := by
    have := congrArg List.length rest
    have := List.length_pos_iff.mpr filled
    simp at *
    omega
  obtain ⟨c, rfl⟩ := List.length_eq_one_iff.mp size
  exact ⟨c, rfl, rfl⟩

section Steps

variable {fields : List Field} {lim : Limit} {s s' : Framing} {before eaten d : Bytes}

theorem OpenBody.chunkStep (state : s.req.state = .processingBody) (mode : s.parser.body = .chunked)
    (coded : ∃ field ∈ fields, field.Is "Transfer-Encoding")
    (isOpen : OpenBody s.parser.chunk s.parser.remaining before) (filled : eaten ++ d ≠ [])
    (step : chunkStep lim s (eaten ++ d) = .next s' d) : BodyRead fields s' (before ++ eaten) := by
  rcases chunkStep_next.mp step with ⟨chunk, line, size, found, decoded, rest, rfl⟩ | ⟨chunk, data⟩ |
    ⟨chunk, split, rfl⟩ | ⟨chunk, line, found, rest, ⟨blank, rfl⟩ | ⟨text, few, chars, rfl⟩⟩
  · -- a chunk-size line
    obtain ⟨eol, ended, rfl, -⟩ := nextLine_eaten found rest
    have isSize := chunkSize_ok decoded
    rw [chunk] at isOpen
    obtain ⟨isChunks⟩ := isOpen
    refine .chunked state mode coded ?_
    by_cases zero : size = 0
    · subst zero
      simpa using OpenBody.trailers isChunks isSize ended (List.forall_mem_nil _)
    · have none : IsChunkSize line.text (([] : Bytes).length + size) := by simpa using isSize
      simpa [zero] using OpenBody.data isChunks none ended (Nat.pos_of_ne_zero zero)
  · have more : 0 < s.parser.remaining := by
      rw [chunk] at isOpen
      generalize s.parser.remaining = remaining at isOpen
      cases isOpen
      assumption
    obtain ⟨c, rfl, rfl⟩ := dataStep_eaten more filled data
    exact .advance_chunk state mode coded chunk isOpen
  · have ended : IsEol eaten := by
      rcases split with split | split
      · exact .inl (List.append_cancel_right (split.trans rfl : eaten ++ d = [lf] ++ d))
      · exact .inr (List.append_cancel_right (split.trans rfl : eaten ++ d = [cr, lf] ++ d))
    rw [chunk] at isOpen
    generalize s.parser.remaining = remaining at isOpen
    cases isOpen with
    | @dataEnd chunks line eol data _ isChunks size ended' some =>
      refine .chunked state mode coded ?_
      have join : chunks.flatten ++ (line ++ eol ++ data) ++ eaten =
          (chunks ++ [line ++ eol ++ data ++ eaten]).flatten := by simp
      rw [join]
      refine .size ?_
      simpa [or_imp, forall_and] using ⟨isChunks, line, eol, data, eaten, by simp, size, some, ended', ended⟩
  · obtain ⟨eol, ended, rfl, -⟩ := nextLine_eaten found rest
    rw [chunk] at isOpen
    generalize s.parser.remaining = remaining at isOpen
    cases isOpen with
    | trailers isChunks last ended' isTrailers =>
      refine .done rfl (.chunked coded ⟨_, _, _, _, eol, by simp [blank], isChunks, last, ended', isTrailers, ended⟩)
  · obtain ⟨eol, ended, rfl, -⟩ := nextLine_eaten found rest
    rw [chunk] at isOpen
    generalize s.parser.remaining = remaining at isOpen
    cases isOpen with
    | @trailers chunks trailers last eol' _ isChunks isLast ended' isTrailers =>
      refine .chunked state mode coded ?_
      have join : chunks.flatten ++ (last ++ eol') ++ trailers.flatten ++ (line.text ++ eol) =
          chunks.flatten ++ (last ++ eol') ++ (trailers ++ [line.text ++ eol]).flatten := by simp
      rw [join]
      simp only [chunk]
      refine .trailers isChunks isLast ended' ?_
      simpa [or_imp, forall_and] using ⟨isTrailers, line.text, eol, rfl, text, allChars_value.mp chars, ended⟩

theorem bodyRead_step (read : BodyRead fields s before)
    (step : (bodyMachine lim).step s (eaten ++ d) = .next s' d) : BodyRead fields s' (before ++ eaten) := by
  obtain ⟨filled, running, -, ⟨waiting, same, rfl⟩ | ⟨reading, mode, chunk⟩ |
    ⟨reading, mode, length⟩⟩ := bodyStep_next.mp step
  · -- the body is entered
    obtain rfl : eaten = [] := by simpa using same
    cases read with
    | start delimited =>
      cases delimited with
      | chunked coded _ body chunk =>
        refine .chunked rfl body coded ?_
        simp only [chunk]
        exact .size (List.forall_mem_nil _)
      | length announced _ body => exact .length rfl body (by simpa using announced)
      | none _ _ state => exact absurd state running
    | length state | chunked state => exact absurd state waiting
    | done state => exact absurd state running
  · cases read with
    | start delimited => cases delimited <;> simp_all
    | length _ body => simp [body] at mode
    | chunked state _ coded isOpen => exact isOpen.chunkStep state mode coded filled chunk
    | done state => exact absurd state running
  · cases read with
    | start delimited => cases delimited <;> simp_all
    | chunked _ body => simp [body] at mode
    | done state => exact absurd state running
    | length state _ announced =>
      obtain ⟨last, same, rfl⟩ | ⟨more, data⟩ := length
      · obtain rfl : eaten = [] := by simpa using same
        exact .done rfl (.length (by simpa [last] using announced))
      · obtain ⟨c, rfl, rfl⟩ := dataStep_eaten more filled data
        exact .advance_length state mode announced more

end Steps

inductive MessageRead (s : Framing) : Bytes → Prop
  | head {text : Bytes} : HeadRead s text → s.req.inBody = false → MessageRead s text
  | body {fields : List Field} {head body : Bytes} : HeadOf fields head → BodyRead fields s body →
      MessageRead s (head ++ body)

theorem BodyRead.inBody {fields : List Field} {s : Framing} {text : Bytes} (read : BodyRead fields s text) :
    s.req.inBody := by
  cases read with
  | start delimited => cases delimited <;> simp_all [Request.inBody]
  | length state | chunked state | done state => simp [Request.inBody, state]

theorem MessageRead.isMessage {s : Framing} {text : Bytes} (read : MessageRead s text)
    (completed : s.req.state = .completed) : IsMessage text := by
  cases read with
  | head _ running => simp [Request.inBody, completed] at running
  | @body fields head body isHead read =>
    refine ⟨fields, head, body, rfl, isHead, ?_⟩
    cases read with
    | done _ isBody => exact isBody
    | length state | chunked state => simp [state] at completed
    | start delimited =>
      cases delimited with
      | none lengths codings _ =>
        by_cases some : ∃ field ∈ fields, field.Is "Content-Length"
        · obtain ⟨field, member, length⟩ := some
          exact .length ⟨field, member, length, lengths field member length⟩
        · exact .none fun field member => ⟨fun length => some ⟨field, member, length⟩, codings field member⟩
      | _ => simp_all

theorem HeadRead.message {s : Framing} {text : Bytes} (read : HeadRead s text) : MessageRead s text := by
  cases read with
  | done fields isHead delimited => simpa using MessageRead.body isHead (.start delimited)
  | start state => exact .head (.start state) (by simp [Request.inBody, state])
  | blank blanks parser state empty =>
    exact .head (.blank blanks parser state empty) (by simp [Request.inBody, state])
  | lines fields head state seen isOpen tracks =>
    exact .head (.lines fields head state seen isOpen tracks) (by simp [Request.inBody, state])

section Calls

variable {p p' : Parser} {req req' : Request} {before data view : Bytes} {n : Nat}

theorem take_eq_of_append_drop {eaten : Bytes} (split : data = eaten ++ data.drop n) : eaten = data.take n :=
  List.append_cancel_right (split.symm.trans (List.take_append_drop n data).symm)

theorem HeadRead.inBody_eq {s : Framing} {text : Bytes} (read : HeadRead s text) :
    s.req.inBody = s.req.headParsed := by
  cases read with
  | done _ _ delimited => cases delimited <;> simp_all [Request.inBody, Request.headParsed]
  | start state | blank _ _ state | lines _ _ state => simp [Request.inBody, Request.headParsed, state]

theorem MessageRead.parseHead (read : MessageRead (framing p req) before) (running : req.inBody = false)
    (filled : data ≠ []) (parsed : parseHead p data req = .ok (n, p', req')) :
    MessageRead (framing p' req') (before ++ data.take n) ∧ req'.inBody = req'.headParsed := by
  obtain ⟨-, halted⟩ := parseHead_halts running filled parsed
  cases read with
  | head read =>
    obtain ⟨eaten, split, after⟩ := halted.steps.history (P := HeadRead) headRead_step read
    rw [take_eq_of_append_drop split] at after
    exact ⟨after.message, after.inBody_eq⟩
  | body _ read => simpa [running] using read.inBody

theorem MessageRead.steps {lim : Limit} (read : MessageRead (framing p req) before) (inBody : req.inBody)
    (steps : (bodyMachine lim).Steps (framing p req) view (framing p' req') (view.drop n)) :
    MessageRead (framing p' req') (before ++ view.take n) ∧ req'.inBody := by
  cases read with
  | head _ running => simp [inBody] at running
  | body isHead read =>
    obtain ⟨eaten, split, after⟩ := steps.history (P := BodyRead _) bodyRead_step read
    rw [take_eq_of_append_drop split] at after
    exact ⟨by simpa using MessageRead.body isHead after, after.inBody⟩

def ReadOn (before view : Bytes) : Turn → Prop
  | .ret p req n => MessageRead (framing p req) (before ++ view.take n) ∧ req.inBody
  | .next p req n => MessageRead (framing p req) (before ++ view.take n) ∧ p.body = .chunked ∧
      req.state = .processingBody
  | .call .. => False
  | .fail _ _ req => req.state ≠ .completed

def TurnRead (before view : Bytes) : Turn → Prop
  | .call p req n => req.state = .processingBody ∧
      ReadOn before view (delivered p (req.receive (view.take n)) n)
  | turn => ReadOn before view turn

theorem chunkTurn_fail_req {e : Exc} (turn : chunkTurn p req view = .fail e p' req') : req' = req := by
  unfold chunkTurn at turn
  split_ifs at turn
  cases chunk : p.chunk <;> simp only [chunk] at turn
  case size =>
    obtain ⟨-, -, -, -, rfl⟩ | ⟨line, -, complete⟩ := lineTurn_fail.mp turn
    · rfl
    · unfold sizeLine at complete
      split at complete <;> cases complete
      rfl
  case data =>
    unfold deliver at turn
    split_ifs at turn <;> cases turn <;> rfl
  case dataEnd =>
    unfold dataEndTurn at turn
    repeat' split at turn
    all_goals cases turn
    all_goals rfl
  case trailers =>
    obtain ⟨-, -, -, -, rfl⟩ | ⟨line, -, complete⟩ := lineTurn_fail.mp turn
    · rfl
    · unfold trailerLine at complete
      split_ifs at complete <;> cases complete <;> rfl

theorem chunkTurn_read (read : MessageRead (framing p req) before) (mode : p.body = .chunked)
    (state : req.state = .processingBody) : TurnRead before view (chunkTurn p req view) := by
  have inBody : req.inBody := by simp [Request.inBody, state]
  cases turn : chunkTurn p req view with
  | ret p' req' n => exact read.steps inBody (chunkTurn_ret_halts req.limit mode state turn).1.steps
  | next p' req' n =>
    obtain ⟨step, mode', rfl⟩ := chunkTurn_next_step req.limit mode state turn
    exact ⟨(read.steps inBody (.single step)).1, mode', state⟩
  | call p' req' n =>
    obtain ⟨steps, rfl, rfl, -⟩ := chunkTurn_call_steps mode state turn
    have mode' : ({ p with received := p.received + n } : Parser).body = .chunked := mode
    refine ⟨state, ?_⟩
    rw [delivered, if_pos mode']
    exact ⟨(read.steps inBody steps).1, mode', state⟩
  | fail e p' req' =>
    rw [chunkTurn_fail_req turn]
    simp [TurnRead, ReadOn, state]

theorem bodyTurn_next (turn : bodyTurn p req view = .next p' req' n) :
    p.body = .chunked ∧ p' = p ∧ req' = { req with state := .processingBody } ∧ n = 0 := by
  unfold bodyTurn at turn
  split_ifs at turn with stop chunked
  · cases turn
    exact ⟨chunked, rfl, rfl, rfl⟩
  · exact absurd turn (deliver_ne_next _ _ _ _ _ _)

theorem bodyTurn_call (turn : bodyTurn p req view = .call p' req' n) :
    p'.body ≠ .chunked ∧ req' = { req with state := .processingBody } := by
  unfold bodyTurn at turn
  split_ifs at turn with stop chunked
  obtain ⟨-, rfl, rfl, -⟩ := deliver_call.mp turn
  exact ⟨chunked, rfl⟩

theorem bodyTurn_fail {e : Exc} (turn : bodyTurn p req view = .fail e p' req') :
    req' = { req with state := .processingBody } := by
  unfold bodyTurn deliver at turn
  split_ifs at turn <;> cases turn <;> rfl

theorem bodyTurn_read (read : MessageRead (framing p req) before) (inBody : req.inBody)
    (running : req.state ≠ .completed) (filled : view ≠ []) :
    TurnRead before view (bodyTurn p req view) := by
  cases turn : bodyTurn p req view with
  | ret p' req' n =>
    have parsed : parseBody (fun _ _ => none) p view req = .ok (n, p', req') := by simp [parseBody, turn]
    exact read.steps inBody (parseBody_halts filled parsed).2.steps
  | next p' req' n =>
    obtain ⟨mode, rfl, rfl, rfl⟩ := bodyTurn_next turn
    have some : p'.body ≠ .none := by simp [mode]
    have enter := body_enter req.limit filled running some
    exact ⟨(read.steps inBody (by simpa using enter)).1, mode, rfl⟩
  | call p' req' n =>
    obtain ⟨mode, rfl⟩ := bodyTurn_call turn
    have parsed : parseBody (fun _ _ => none) p view req =
        .ok (n, lengthDelivered p' (Request.receive { req with state := .processingBody } (view.take n)) n) := by
      simp [parseBody, turn]
    refine ⟨rfl, ?_⟩
    rw [delivered, if_neg mode]
    exact read.steps inBody (parseBody_halts filled parsed).2.steps
  | fail e p' req' =>
    rw [bodyTurn_fail turn]
    simp [TurnRead, ReadOn]

end Calls

end Dracon
