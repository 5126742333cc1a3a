import Dracon.Http.ChunkLimits

set_option autoImplicit false

namespace Dracon

open Shared

inductive WriteArgs where
  | buffer (buff : Bytes)
  | span (buffers : List Bytes)
  deriving DecidableEq, Repr

def WriteArgs.buffers : WriteArgs → List Bytes
  | .buffer buff => [buff]
  | .span buffers => buffers

-- the length of a `const_buffer` is a `size_t`
structure WriteCall where
  args : WriteArgs
  sized : ∀ buff ∈ args.buffers, buff.length < sizeMod

namespace WriteCall

variable (call : WriteCall)

def payload : Bytes := call.args.buffers.flatten

def lengths : List Nat := call.args.buffers.map List.length

-- the lengths of the buffers add up to a `size_t`
def Fits : Prop := call.lengths.sum < sizeMod

end WriteCall

def chunkHeader (size : Nat) : Bytes := (Nat.toDigits 16 size).map ch ++ crlf

def spanSize (buffers : List Bytes) : Nat :=
  buffers.foldl (fun size buffer => (size + buffer.length) % sizeMod) 0

def WriteArgs.write : WriteArgs → Bytes
  | .buffer buff => if buff.length = 0 then [] else chunkHeader buff.length ++ buff ++ crlf
  | .span buffers =>
    if spanSize buffers = 0 then []
    else chunkHeader (spanSize buffers) ++ buffers.flatten ++ crlf

def endOfChunkedStream : Bytes := bytes "0\r\n\r\n"

-- All the calls of `write`, and then the destructor.
def encode (calls : List WriteCall) : Bytes :=
  (calls.map fun call => call.args.write).flatten ++ endOfChunkedStream

def payload (calls : List WriteCall) : Bytes := (calls.map WriteCall.payload).flatten

theorem spanSize_eq (buffers : List Bytes) :
    spanSize buffers = buffers.flatten.length % sizeMod := by
  have general (size : Nat) : buffers.foldl (fun size buffer => (size + buffer.length) % sizeMod)
      (size % sizeMod) = (size + buffers.flatten.length) % sizeMod := by
    induction buffers generalizing size with
    | nil => simp
    | cons buffer buffers ih =>
      rw [List.foldl_cons, Nat.mod_add_mod, ih]
      simp [Nat.add_assoc]
  simpa [spanSize] using general 0

theorem WriteCall.sum_lengths (call : WriteCall) : call.lengths.sum = call.payload.length := by
  rw [payload, List.length_flatten, lengths]

theorem WriteCall.write_eq_mod (call : WriteCall) :
    call.args.write = if call.payload.length % sizeMod = 0 then []
      else chunkHeader (call.payload.length % sizeMod) ++ call.payload ++ crlf := by
  obtain ⟨args, sized⟩ := call
  cases args with
  | buffer buff =>
    have small : buff.length % sizeMod = buff.length := Nat.mod_eq_of_lt (sized buff List.mem_cons_self)
    simp [WriteArgs.write, payload, WriteArgs.buffers, small]
  | span buffers => simp [WriteArgs.write, payload, WriteArgs.buffers, spanSize_eq]

theorem WriteCall.Fits.length {call : WriteCall} (fits : call.Fits) : call.payload.length < sizeMod :=
  call.sum_lengths ▸ fits

theorem WriteCall.Fits.write_eq {call : WriteCall} (fits : call.Fits) :
    call.args.write = if call.payload = [] then []
      else chunkHeader call.payload.length ++ call.payload ++ crlf := by
  rw [call.write_eq_mod, Nat.mod_eq_of_lt fits.length]
  exact if_congr List.length_eq_zero_iff rfl rfl

section Digits

theorem digitChar_hex : ∀ d < 16, charTable (ch (Nat.digitChar d)) .hexChar ∧
    hexValue (ch (Nat.digitChar d)) = d ∧ ch (Nat.digitChar d) ≠ cr ∧ ch (Nat.digitChar d) ≠ lf := by
  decide

theorem chunkDigits_cons (digits size : Nat) {d : Nat} (rest : Bytes) (digit : d < 16) (room : digits ≠ 16)
    (fits : size * 16 + d < sizeMod) :
    chunkDigits digits size (ch (Nat.digitChar d) :: rest) =
      chunkDigits (digits + 1) (size * 16 + d) rest := by
  obtain ⟨hex, value, -⟩ := digitChar_hex d digit
  have shifted : size <<< 4 ||| d = size * 16 + d := by
    rw [← Nat.shiftLeft_add_eq_or_of_lt (by omega), Nat.shiftLeft_eq]
  rw [chunkDigits, if_pos hex, if_neg room, value, shifted, Nat.mod_eq_of_lt fits]

theorem chunkDigits_toDigits (n : Nat) (fits : n < sizeMod) (rest : Bytes) :
    chunkDigits 0 0 ((Nat.toDigits 16 n).map ch ++ rest) =
      chunkDigits (Nat.toDigits 16 n).length n rest := by
  induction n using Nat.strongRecOn generalizing rest with
  | _ n ih =>
    by_cases small : n < 16
    · rw [Nat.toDigits_of_lt_base small]
      simpa using chunkDigits_cons 0 0 rest small (by omega) (by omega)
    · have split := Nat.toDigits_of_base_le (b := 16) (n := n) (by omega) (by omega)
      have few : (Nat.toDigits 16 (n / 16)).length < 16 := by
        have bound : n / 16 < 16 ^ 15 := by simp only [sizeMod] at fits; omega
        have := (Nat.length_toDigits_le_iff (by omega) (by omega)).mpr bound
        omega
      rw [split, List.map_append, List.append_assoc, ih (n / 16) (by omega) (by omega)]
      rw [List.map_cons, List.map_nil, List.singleton_append,
        chunkDigits_cons _ _ rest (by omega) (by omega) (by omega)]
      congr 1
      · simp
      · omega

theorem chunkSize_toDigits (n : Nat) (fits : n < sizeMod) :
    chunkSize ((Nat.toDigits 16 n).map ch) = .ok n := by
  have digits := chunkDigits_toDigits n fits []
  rw [List.append_nil, chunkDigits] at digits
  have some : (Nat.toDigits 16 n).length ≠ 0 := Nat.length_toDigits_pos.ne'
  have ext : ((Nat.toDigits 16 n).map ch).drop (Nat.toDigits 16 n).length = [] := by simp
  simp [chunkSize, digits, some, ext, trimOws]

theorem mem_toDigits (n : Nat) {c : Char} (member : c ∈ Nat.toDigits 16 n) :
    ∃ d < 16, c = Nat.digitChar d := by
  induction n using Nat.strongRecOn with
  | _ n ih =>
    by_cases small : n < 16
    · rw [Nat.toDigits_of_lt_base small] at member
      exact ⟨n, small, by simpa using member⟩
    · rw [Nat.toDigits_of_base_le (by omega) (by omega)] at member
      rcases List.mem_append.mp member with inside | last
      · exact ih (n / 16) (by omega) inside
      · exact ⟨n % 16, by omega, by simpa using last⟩

theorem nextLine_chunkHeader (n : Nat) (rest : Bytes) :
    nextLine (chunkHeader n ++ rest) =
      some ⟨(Nat.toDigits 16 n).map ch, (Nat.toDigits 16 n).length + 2⟩ := by
  refine nextLine_eq_some.mpr ⟨(Nat.toDigits 16 n).map ch ++ [cr], rest, by simp [chunkHeader], ?_, ?_⟩
  · intro member
    rcases List.mem_append.mp member with inside | last
    · obtain ⟨c, digit, same⟩ := List.mem_map.mp inside
      obtain ⟨d, small, rfl⟩ := mem_toDigits n digit
      exact (digitChar_hex d small).2.2.2 same
    · exact absurd (List.mem_singleton.mp last) (by decide)
  · simp [stripCr]

end Digits

section Decoding

variable {lim : Limit} {s : Framing}

structure Framing.AtChunk (s : Framing) : Prop where
  state : s.req.state = .processingBody
  mode : s.parser.body = .chunked
  chunk : s.parser.chunk = .size

theorem LinesFit.head {s' : Framing} {d d' : Bytes} (step : (bodyMachine lim).step s d = .next s' d')
    (here : ∀ limit line, s.lineLimit = some limit → nextLine d = some line → line.next ≤ limit + 1)
    (rest : LinesFit lim s' d') : LinesFit lim s d := by
  intro s₁ rest₁ limit line steps reading found
  cases steps with
  | refl => exact here limit line reading found
  | head first more =>
    rw [step] at first
    injection first with sameState sameRest
    subst sameState sameRest
    exact rest s₁ rest₁ limit line more reading found

def Framing.inChunk (s : Framing) (n : Nat) : Framing :=
  { s with parser := { s.parser with remaining := n, chunk := if n ≠ 0 then .data else .trailers } }

def Framing.behindChunk (s : Framing) (piece : Bytes) : Framing :=
  { s with
    parser := { s.parser with
      remaining := 0, received := s.parser.received + piece.length, chunk := .dataEnd }
    body := s.body ++ piece }

theorem header_step (lim : Limit) (start : s.AtChunk) {n : Nat} (fits : n < sizeMod) (rest : Bytes) :
    (bodyMachine lim).step s (chunkHeader n ++ rest) = .next (s.inChunk n) rest := by
  have filled : chunkHeader n ++ rest ≠ [] := by simp [chunkHeader]
  refine bodyStep_next.mpr ⟨filled, by simp [start.state], by simp [start.mode], .inr (.inl
    ⟨start.state, start.mode, chunkStep_next.mpr (.inl ⟨start.chunk, _, n, nextLine_chunkHeader n rest,
      chunkSize_toDigits n fits, ?_, rfl⟩)⟩)⟩
  have size : (chunkHeader n).length = (Nat.toDigits 16 n).length + 2 := by simp [chunkHeader]
  rw [← size, List.drop_left]

theorem header_fits {n limit : Nat} {line : Line} (fits : n < sizeMod) (rest : Bytes)
    (reading : s.lineLimit = some limit) (found : nextLine (chunkHeader n ++ rest) = some line) :
    line.next ≤ limit + 1 := by
  have room := lineLimit_room reading
  have few := (Nat.length_toDigits_le_iff (b := 16) (n := n) (k := 16) (by omega) (by omega)).mpr fits
  rw [nextLine_chunkHeader] at found
  cases found
  simp only [maxChunkLineSize] at room ⊢
  omega

theorem lineLimit_data (data : s.parser.chunk = .data ∨ s.parser.chunk = .dataEnd) :
    s.lineLimit = none := by
  rcases data with data | data <;> simp [Framing.lineLimit, data]

theorem LinesFit.data (reading : s.Reading) (mode : s.parser.body = .chunked) {piece : Bytes}
    (filled : piece ≠ []) (short : piece.length ≤ s.parser.remaining)
    (allowed : lim.Allows s piece.length) {d : Bytes} (rest : LinesFit lim (s.advance piece) d) :
    LinesFit lim s (piece ++ d) := by
  induction piece generalizing s with
  | nil => exact absurd rfl filled
  | cons c piece ih =>
    have inside : s.lineLimit = none :=
      lineLimit_data (.inl (by simpa [mode] using reading.mode))
    refine .head (reading.step_next (allowed.mono (by simp))) (by simp [inside]) ?_
    by_cases last : piece = []
    · subst last
      exact rest
    have := List.length_pos_iff.mpr last
    simp only [List.length_cons] at short allowed
    have single : [c].length < s.parser.remaining := by simp; omega
    rw [← List.singleton_append, ← Framing.advance_append single] at rest
    exact ih (reading.advance single) (by simp [mode]) last (by simp; omega) allowed.advance rest

theorem dataEnd_step (lim : Limit) (state : s.req.state = .processingBody) (mode : s.parser.body = .chunked)
    (chunk : s.parser.chunk = .dataEnd) (rest : Bytes) :
    (bodyMachine lim).step s (crlf ++ rest) =
      .next { s with parser := { s.parser with chunk := .size } } rest :=
  bodyStep_next.mpr ⟨by simp, by simp [state], by simp [mode], .inr (.inl ⟨state, mode,
    chunkStep_next.mpr (.inr (.inr (.inl ⟨chunk, .inr rfl, rfl⟩)))⟩)⟩

theorem write_decodes {call : WriteCall} (fits : call.Fits) (start : s.AtChunk)
    (allowed : lim.Allows s call.payload.length) (rest : Bytes) :
    ∃ s', s'.AtChunk ∧ s'.body = s.body ++ call.payload ∧
      s'.parser.received = s.parser.received + call.payload.length ∧
      (bodyMachine lim).Steps s (call.args.write ++ rest) s' rest ∧
      (LinesFit lim s' rest → LinesFit lim s (call.args.write ++ rest)) := by
  rw [fits.write_eq]
  by_cases empty : call.payload = []
  · simp only [empty, if_true, List.nil_append]
    exact ⟨s, start, by simp, by simp, .refl _ _, id⟩
  simp only [empty, if_false, List.append_assoc]
  have size : 0 < call.payload.length := List.length_pos_iff.mpr empty
  have header := header_step lim start fits.length (call.payload ++ (crlf ++ rest))
  have reading : (s.inChunk call.payload.length).Reading :=
    ⟨start.state, size, .inr ⟨start.mode, by simp [Framing.inChunk, empty]⟩⟩
  have landed : (s.inChunk call.payload.length).advance call.payload = s.behindChunk call.payload := by
    simp [Framing.inChunk, Framing.behindChunk, Framing.advance, start.mode, chunkDelivered]
  have data := data_steps reading empty le_rfl allowed (crlf ++ rest)
  rw [landed] at data
  have close : (bodyMachine lim).step (s.behindChunk call.payload) (crlf ++ rest) = _ :=
    dataEnd_step lim (s := s.behindChunk call.payload) start.state start.mode rfl rest
  have steps := Machine.Steps.head header (data.trans (.single close))
  refine ⟨_, ?_, ?_, ?_, steps, fun fit => ?_⟩
  · exact ⟨start.state, start.mode, rfl⟩
  · rfl
  · rfl
  refine .head header (fun limit line => header_fits fits.length _) ?_
  refine .data reading start.mode empty le_rfl allowed ?_
  rw [landed]
  exact .head close (by simp [lineLimit_data (s := s.behindChunk call.payload) (.inr rfl)]) fit

theorem completed_waits (done : s.req.state = .completed) (d : Bytes) :
    (bodyMachine lim).step s d = .wait := bodyStep_stops (.inr (.inl done))

theorem LinesFit.completed (done : s.req.state = .completed) (d : Bytes) : LinesFit lim s d := by
  intro s' rest limit line steps reading
  obtain ⟨rfl, -⟩ := steps.of_not_next (by simp [completed_waits done])
  simp [Framing.lineLimit, done] at reading

theorem nextLine_crlf (rest : Bytes) : nextLine (crlf ++ rest) = some ⟨[], 2⟩ :=
  nextLine_eq_some.mpr ⟨[cr], rest, rfl, by decide, rfl⟩

theorem end_decodes (lim : Limit) (start : s.AtChunk) (rest : Bytes) :
    ∃ s', s'.req.state = .completed ∧ s'.body = s.body ∧
      (bodyMachine lim).Steps s (endOfChunkedStream ++ rest) s' rest ∧
      LinesFit lim s (endOfChunkedStream ++ rest) := by
  have split : endOfChunkedStream ++ rest = chunkHeader 0 ++ (crlf ++ rest) := rfl
  have header := header_step lim start (n := 0) (by decide) (crlf ++ rest)
  have close : (bodyMachine lim).step (s.inChunk 0) (crlf ++ rest) =
      .next { s.inChunk 0 with req := { s.req with state := .completed } } rest := by
    refine bodyStep_next.mpr ⟨by simp, ?_, ?_, .inr (.inl ⟨start.state, start.mode,
      chunkStep_next.mpr (.inr (.inr (.inr ⟨rfl, _, nextLine_crlf rest, rfl, .inl ⟨rfl, rfl⟩⟩)))⟩)⟩
    · simp [Framing.inChunk, start.state]
    · simp [Framing.inChunk, start.mode]
  rw [split]
  have steps := Machine.Steps.head header (.single close)
  refine ⟨_, ?_, ?_, steps, ?_⟩
  · rfl
  · rfl
  refine .head header (fun limit line => header_fits (by decide) _) (.head close ?_ (.completed rfl _))
  intro limit line reading found
  have room := lineLimit_room reading
  rw [nextLine_crlf] at found
  cases found
  simp only [maxChunkLineSize] at room ⊢
  omega

theorem encode_cons (call : WriteCall) (calls : List WriteCall) (rest : Bytes) :
    encode (call :: calls) ++ rest = call.args.write ++ (encode calls ++ rest) := by
  simp [encode]

theorem encode_decodes {calls : List WriteCall} (fit : ∀ call ∈ calls, call.Fits) (start : s.AtChunk)
    (allowed : lim.Allows s (payload calls).length) (rest : Bytes) :
    ∃ s', s'.req.state = .completed ∧ s'.body = s.body ++ payload calls ∧
      (bodyMachine lim).Steps s (encode calls ++ rest) s' rest ∧
      LinesFit lim s (encode calls ++ rest) := by
  induction calls generalizing s with
  | nil => simpa [payload, encode] using end_decodes lim start rest
  | cons call calls ih =>
    obtain ⟨fits, others⟩ := List.forall_mem_cons.mp fit
    have split := encode_cons call calls rest
    have total : payload (call :: calls) = call.payload ++ payload calls := by simp [payload]
    rw [total, List.length_append] at allowed
    obtain ⟨s₁, start₁, body₁, received₁, steps₁, fit₁⟩ :=
      write_decodes fits start (allowed.mono (by omega)) (encode calls ++ rest)
    have later : lim.Allows s₁ (payload calls).length :=
      ⟨allowed.1, fun limited => by have := allowed.2 limited; omega⟩
    obtain ⟨s₂, done, body₂, steps₂, fit₂⟩ := ih others start₁ later
    rw [split, total]
    exact ⟨s₂, done, by simp [body₂, body₁], steps₁.trans steps₂, fit₁ fit₂⟩

end Decoding

-- what the decoder makes of the encoded bytes, wherever they are cut and whatever follows them
def Decodes (calls : List WriteCall) : Prop :=
  ∀ (t : Bytes) (pieces : List Bytes), pieces.flatten = encode calls ++ t →
    ∀ start : Reception, start.parser.body = .chunked → start.parser.chunk = .size →
      start.req.state ≠ .completed → start.req.callback →
      (start.req.maxBodySize ≠ 0 →
        start.parser.received + (payload calls).length ≤ start.req.maxBodySize) →
      ∃ finish, feedAll decode start [] pieces = .ok (finish, t) ∧
        finish.req.delivered.flatten = start.req.delivered.flatten ++ payload calls ∧
        finish.req.state = .completed

theorem decodes_of_fits {calls : List WriteCall} (fit : ∀ call ∈ calls, call.Fits) : Decodes calls := by
  intro t pieces cut start mode chunk unread callback room
  have entered := Reception.framing_eq unread
  have front : start.framing.AtChunk := by rw [entered]; exact ⟨rfl, mode, chunk⟩
  have allowed : start.req.limit.Allows start.framing (payload calls).length := ⟨callback, room⟩
  obtain ⟨s, done, body, steps, fit⟩ := encode_decodes fit front allowed t
  have halted : (bodyMachine start.req.limit).Halts start.framing (encode calls ++ t) s t :=
    ⟨steps, completed_waits done t⟩
  have good : (decoder start.req.limit).Good start.framing (encode calls ++ t) :=
    ⟨s, t, halted, by simp [decoder, Framing.Overdue, Framing.lineLimit, done]⟩
  obtain ⟨⟨finish, pending⟩, fed⟩ := (decoder start.req.limit).feedAll_ok_of_prefixes
    (decoder_sim mode) (fun u v split => good_prefix fit good split) cut
  obtain ⟨s', ⟨-, -, rfl⟩, halted'⟩ := (decoder start.req.limit).toDriver.feedAll_halts
    (decoder_sim mode) ((bodyMachine _).idle _) fed
  rw [List.nil_append, cut] at halted'
  obtain ⟨rfl, rfl⟩ := halted.unique halted'
  rw [Reception.framing_body, Reception.framing_body] at body
  exact ⟨finish, fed, body, Reception.framing_completed.mp done⟩

section Zeros

def WriteArgs.zeros : WriteArgs → WriteArgs
  | .buffer buff => .buffer (.replicate buff.length 0)
  | .span buffers => .span (buffers.map fun buff => .replicate buff.length 0)

theorem WriteArgs.zeros_buffers (args : WriteArgs) :
    args.zeros.buffers = args.buffers.map fun buff => .replicate buff.length 0 := by
  cases args <;> rfl

-- the same call with nothing but zeros in its buffers
def WriteCall.zeros (call : WriteCall) : WriteCall where
  args := call.args.zeros
  sized := by simpa [WriteArgs.zeros_buffers] using call.sized

theorem WriteCall.zeros_lengths (call : WriteCall) : call.zeros.lengths = call.lengths := by
  simp [lengths, zeros, WriteArgs.zeros_buffers]

theorem WriteCall.zeros_payload (call : WriteCall) : call.zeros.payload = .replicate call.payload.length 0 := by
  have zero : ∀ byte ∈ call.zeros.payload, byte = 0 := by
    simp +contextual [payload, zeros, WriteArgs.zeros_buffers]
  rw [← call.sum_lengths, ← call.zeros_lengths, call.zeros.sum_lengths]
  exact List.eq_replicate_of_mem zero

variable {lim : Limit} {s f : Framing} {rest t : Bytes}

theorem dataEnd_zero (lim : Limit) (state : s.req.state = .processingBody) (mode : s.parser.body = .chunked)
    (chunk : s.parser.chunk = .dataEnd) (d : Bytes) : ∃ e, (bodyMachine lim).step s (0 :: d) = .fail e := by
  have other : (0 : Byte) ≠ lf ∧ (0 : Byte) ≠ cr := by decide
  simp [bodyMachine, bodyStep, chunkStep, dataEndStep, dataEndTurn, state, mode, chunk, other]

-- A span whose lengths wrap to a size that is not zero: the chunk ends before its data does.
theorem overrun_fails {n size : Nat} (start : s.AtChunk) (positive : 0 < size) (short : size < n)
    (fits : size < sizeMod) (allowed : lim.Allows s size) (rest : Bytes) :
    ∃ e, (bodyMachine lim).Fails s (chunkHeader size ++ (.replicate n 0 ++ rest)) e := by
  obtain ⟨k, rfl⟩ : ∃ k, n = size + (k + 1) := ⟨n - size - 1, by omega⟩
  have filled : List.replicate size (0 : Byte) ≠ [] := by simp [positive.ne']
  have reading : (s.inChunk size).Reading :=
    ⟨start.state, positive, .inr ⟨start.mode, by simp [Framing.inChunk, positive.ne']⟩⟩
  have room : lim.Allows (s.inChunk size) (List.replicate size (0 : Byte)).length := by
    rw [List.length_replicate]
    exact allowed
  have data := data_steps reading filled (by simp [Framing.inChunk]) room (.replicate (k + 1) 0 ++ rest)
  have landed : (s.inChunk size).advance (.replicate size 0) = s.behindChunk (.replicate size 0) := by
    simp [Framing.inChunk, Framing.behindChunk, Framing.advance, start.mode, chunkDelivered]
  rw [landed] at data
  obtain ⟨e, failed⟩ := dataEnd_zero lim (s := s.behindChunk (.replicate size 0)) start.state start.mode rfl
    (.replicate k 0 ++ rest)
  have header := header_step lim start fits (.replicate size 0 ++ (.replicate (k + 1) 0 ++ rest))
  refine ⟨e, ?_⟩
  rw [← List.replicate_append_replicate, List.append_assoc]
  exact ⟨_, _, .head header data, by simpa [List.replicate_succ] using failed⟩

-- Of the zeros in the calls at most those of the calls that fit are decoded.
theorem zeros_decoded (calls : List WriteCall) (start : s.AtChunk) (callback : lim.callback)
    (unlimited : lim.maxBodySize = 0)
    (halted : (bodyMachine lim).Halts s (encode (calls.map WriteCall.zeros) ++ rest) f t) :
    f.body.length ≤ s.body.length + (payload (calls.map WriteCall.zeros)).length ∧
      (f.body.length = s.body.length + (payload (calls.map WriteCall.zeros)).length → ∀ call ∈ calls, call.Fits) := by
  have allowed (s : Framing) (n : Nat) : lim.Allows s n := ⟨callback, by simp [unlimited]⟩
  induction calls generalizing s with
  | nil =>
    obtain ⟨s', completed, body, steps, -⟩ := end_decodes lim start rest
    obtain ⟨rfl, -⟩ := halted.unique ⟨steps, completed_waits completed rest⟩
    simp [body, payload]
  | cons call calls ih =>
    rw [List.map_cons, encode_cons] at halted
    have total : payload (call.zeros :: calls.map WriteCall.zeros) =
        call.zeros.payload ++ payload (calls.map WriteCall.zeros) := by simp [payload]
    rw [List.map_cons, total, List.length_append]
    by_cases fits : call.zeros.Fits
    · obtain ⟨s₁, start₁, body₁, -, steps₁, -⟩ :=
        write_decodes fits start (allowed s _) (encode (calls.map WriteCall.zeros) ++ rest)
      obtain ⟨most, exact⟩ := ih start₁ ⟨halted.continues steps₁, halted.waits⟩
      rw [body₁, List.length_append] at most exact
      refine ⟨by omega, fun same => List.forall_mem_cons.mpr ⟨?_, exact (by omega)⟩⟩
      rwa [WriteCall.Fits, call.zeros_lengths] at fits
    · rw [WriteCall.Fits, call.zeros.sum_lengths, not_lt] at fits
      have positive : 0 < sizeMod := by decide
      rw [call.zeros.write_eq_mod] at halted
      split_ifs at halted with nothing
      -- the size wraps to zero: the call is dropped
      · obtain ⟨most, -⟩ := ih start halted
        exact ⟨by omega, fun same => absurd same (by omega)⟩
      · obtain ⟨e, failed⟩ := overrun_fails (n := call.payload.length) start (Nat.pos_of_ne_zero nothing)
          (lt_of_lt_of_le (Nat.mod_lt _ positive) (by simpa [call.zeros_payload] using fits)) (Nat.mod_lt _ positive)
          (allowed s _) (crlf ++ (encode (calls.map WriteCall.zeros) ++ rest))
        rw [← call.zeros_payload] at failed
        simp only [List.append_assoc] at halted
        exact absurd failed halted.not_fails

theorem fits_of_zeros_decode {calls : List WriteCall} (decodes : Decodes (calls.map WriteCall.zeros)) :
    ∀ call ∈ calls, call.Fits := by
  obtain ⟨finish, fed, body, -⟩ := decodes [] [encode (calls.map WriteCall.zeros)] (by simp) chunkedStart rfl rfl
    (by decide) rfl (fun limited => absurd rfl limited)
  obtain ⟨s, ⟨-, -, rfl⟩, halted⟩ := (decoder chunkedStart.req.limit).toDriver.feedAll_halts
    (decoder_sim rfl) ((bodyMachine _).idle _) fed
  have front : chunkedStart.framing.AtChunk := ⟨rfl, rfl, rfl⟩
  rw [List.nil_append, List.flatten_singleton, ← List.append_nil (encode _)] at halted
  refine (zeros_decoded calls front rfl rfl halted).2 ?_
  rw [Reception.framing_body, Reception.framing_body, body, List.length_append]

end Zeros

/--
The decoder undoes the encoder, wherever the encoded bytes are cut, for all calls with these lengths, exactly
when the lengths of each call add up to a `size_t`.
-/
theorem decode_encode (calls : List WriteCall) :
    (∀ others, others.map WriteCall.lengths = calls.map WriteCall.lengths → Decodes others) ↔
      ∀ call ∈ calls, call.Fits := by
  constructor
  · intro decodes
    refine fits_of_zeros_decode (decodes _ ?_)
    simp [WriteCall.zeros_lengths]
  · intro fit others same
    refine decodes_of_fits fun call mem => ?_
    obtain ⟨call', mem', lengths⟩ := List.mem_map.mp (same ▸ List.mem_map_of_mem mem)
    rw [WriteCall.Fits, ← lengths]
    exact fit call' mem'

def threeCalls : List WriteCall :=
  [⟨.buffer (bytes "a\n"), by decide⟩, ⟨.buffer [], by decide⟩, ⟨.span [[], bytes "c"], by decide⟩]

theorem decode_encode_three :
    (∀ call ∈ threeCalls, call.Fits) ∧ ∃ finish, feedAll decode chunkedStart []
        [bytes "2\r\na\n\r", bytes "\n1\r\nc\r\n0\r\n\r", bytes "\nX"] = .ok (finish, bytes "X") ∧
      finish.req.delivered.flatten = bytes "a\nc" ∧ finish.req.state = .completed := by
  have fit : ∀ call ∈ threeCalls, call.Fits := by
    unfold WriteCall.Fits
    decide
  exact ⟨fit, (decode_encode threeCalls).mpr fit threeCalls rfl (bytes "X") _ (by decide) chunkedStart rfl rfl
    (by decide) rfl (by decide)⟩

def equalViews (count size : Nat) (sized : size < sizeMod) : WriteCall where
  args := .span (.replicate count (.replicate size 0))
  sized := by
    intro buff mem
    rwa [List.eq_of_mem_replicate mem, List.length_replicate]

section EqualViews

variable {count size : Nat} (sized : size < sizeMod)

theorem equalViews_length : (equalViews count size sized).payload.length = count * size := by
  rw [← WriteCall.sum_lengths, WriteCall.lengths]
  simp [equalViews, WriteArgs.buffers]

theorem equalViews_dropped (wraps : count * size % sizeMod = 0) :
    encode [equalViews count size sized] = endOfChunkedStream := by
  have dropped : (equalViews count size sized).args.write = [] := by
    rw [WriteCall.write_eq_mod, equalViews_length, if_pos wraps]
  simp [encode, dropped]

theorem equalViews_not_decoded (long : sizeMod ≤ count * size) : ¬ Decodes [equalViews count size sized] := by
  intro decodes
  have zeros : [equalViews count size sized].map WriteCall.zeros = [equalViews count size sized] := by
    simp [WriteCall.zeros, equalViews, WriteArgs.zeros]
  have fits := fits_of_zeros_decode (zeros.symm ▸ decodes) _ List.mem_cons_self
  rw [WriteCall.Fits, WriteCall.sum_lengths, equalViews_length] at fits
  omega

end EqualViews

-- Views of 2^40 bytes each, 2^24 of them: their lengths wrap to 0, and nothing is written of them.
theorem terabytes_not_decoded :
    ∃ call : WriteCall, call.lengths.sum = 2 ^ 64 ∧ encode [call] = endOfChunkedStream ∧ ¬ Decodes [call] := by
  refine ⟨equalViews (2 ^ 24) (2 ^ 40) (by decide), ?_, equalViews_dropped _ (by decide), equalViews_not_decoded _ (by decide)⟩
  rw [WriteCall.sum_lengths, equalViews_length]
  decide

end Dracon
