import Dracon.Http.ChunkDecoder

set_option autoImplicit false

namespace Dracon

open Shared

def Accepted (t : Reception) (pieces : List Bytes) : Prop :=
  ∃ r, feedAll decode t [] pieces = .ok r

instance (t : Reception) (pieces : List Bytes) : Decidable (Accepted t pieces) :=
  decidable_of_iff ((feedAll decode t [] pieces).isOk = true) (by
    unfold Accepted
    cases feedAll decode t [] pieces <;> simp [Except.isOk, Except.toBool])

def firstLine (rest : Bytes) : Bytes := ((nextLine rest).map Line.text).getD rest

-- The stream gets to a chunk-size line or a trailer line that is longer than its limit.
def Overlong (t : Reception) (stream : Bytes) : Prop :=
  ∃ s rest limit, (bodyMachine t.req.limit).Steps t.framing stream s rest ∧
    s.lineLimit = some limit ∧ limit < (firstLine rest).length

structure HonoursLimits (t : Reception) (stream : Bytes) : Prop where
  rejects : Overlong t stream → ∀ pieces, pieces.flatten = stream → ¬ Accepted t pieces
  agrees : ∀ pieces₁ pieces₂, pieces₁.flatten = stream → pieces₂.flatten = stream →
    (Accepted t pieces₁ ↔ Accepted t pieces₂)

-- Every finished line that the stream gets to has its LF within the limit.
def LinesFit (lim : Limit) (s : Framing) (stream : Bytes) : Prop :=
  ∀ s' rest limit line, (bodyMachine lim).Steps s stream s' rest →
    s'.lineLimit = some limit → nextLine rest = some line → line.next ≤ limit + 1

theorem lineLimit_some {s : Framing} {limit : Nat} (reading : s.lineLimit = some limit) :
    s.req.state = .processingBody ∧ s.parser.body = .chunked ∧
      (s.parser.chunk = .size ∨ s.parser.chunk = .trailers) := by
  unfold Framing.lineLimit at reading
  split_ifs at reading with mode
  refine ⟨mode.1, mode.2, ?_⟩
  cases chunk : s.parser.chunk <;> simp_all

theorem lineLimit_room {s : Framing} {limit : Nat} (reading : s.lineLimit = some limit) :
    maxChunkLineSize ≤ limit := by
  unfold Framing.lineLimit at reading
  split_ifs at reading
  split at reading <;> simp_all [maxChunkLineSize, maxHeadSize]
  all_goals omega

theorem line_waits {lim : Limit} {s : Framing} {d : Bytes} {limit : Nat}
    (reading : s.lineLimit = some limit) :
    (bodyMachine lim).step s d = .wait ↔ nextLine d = none := by
  obtain ⟨state, mode, chunk⟩ := lineLimit_some reading
  by_cases empty : d = []
  · simp [bodyMachine, bodyStep, empty, nextLine_eq_none]
  · rcases chunk with chunk | chunk <;>
      simp [bodyMachine, bodyStep, empty, state, mode, chunkStep, chunk, lineStep_wait]

theorem stripCr_length (text : Bytes) : (stripCr text).length ≤ text.length := by
  unfold stripCr
  split <;> simp

variable {t : Reception} {stream : Bytes}

theorem decoder_sim (mode : t.parser.body = .chunked) : (decoder t.req.limit).sim t t.framing :=
  ⟨mode, rfl, rfl⟩

theorem good_nil : (decoder t.req.limit).Good t.framing [] :=
  ⟨_, _, ⟨.refl _ _, (bodyMachine _).idle _⟩, by simp [decoder, Framing.Overdue]⟩

theorem accepted_whole (mode : t.parser.body = .chunked) :
    Accepted t [stream] ↔ (decoder t.req.limit).Good t.framing stream := by
  refine ((decoder t.req.limit).feedAll_ok_iff (decoder_sim mode) [] [stream]).trans ?_
  simp

theorem good_of_accepted (mode : t.parser.body = .chunked) {pieces : List Bytes}
    (cut : pieces.flatten = stream) (accepted : Accepted t pieces) :
    (decoder t.req.limit).Good t.framing stream := by
  by_cases none : pieces = []
  · subst none cut
    exact good_nil
  · exact cut ▸ (decoder t.req.limit).good_of_feedAll_ok (decoder_sim mode) none accepted

theorem linesFit_of_agrees (mode : t.parser.body = .chunked) (whole : Accepted t [stream])
    (agrees : ∀ u v, stream = u ++ v → Accepted t [u, v]) : LinesFit t.req.limit t.framing stream := by
  intro s rest limit line steps reading found
  by_contra long
  obtain ⟨text, after, rfl, absent, rfl⟩ := nextLine_eq_some.mp found
  have large : limit < text.length := by simpa using long
  have filled : text ≠ [] := by rintro rfl; simp at large
  obtain ⟨eaten, rfl⟩ := steps.suffix
  have early := steps.strip (u := eaten ++ text) (v := lf :: after) (by simp) rfl filled
  have halted : (bodyMachine t.req.limit).Halts t.framing (eaten ++ text) s text :=
    ⟨early, (line_waits reading).mpr (nextLine_eq_none.mpr absent)⟩
  have accepted := agrees (eaten ++ text) (lf :: after) (by simp)
  have good := ((decoder t.req.limit).feedAll_ok_iff (decoder_sim mode) [] _).mp accepted 0 (by simp)
  obtain ⟨s', d', halted', patient⟩ := good
  simp only [List.take_succ_cons, List.take_zero, List.flatten_cons, List.flatten_nil,
    List.append_nil, List.nil_append] at halted'
  obtain ⟨rfl, rfl⟩ := halted.unique halted'
  exact patient ⟨limit, reading, large⟩

theorem good_prefix (fit : LinesFit t.req.limit t.framing stream)
    (good : (decoder t.req.limit).Good t.framing stream) {u v : Bytes}
    (split : stream = u ++ v) : (decoder t.req.limit).Good t.framing u := by
  obtain ⟨s, d, halted, patient⟩ := good
  rcases halted.steps.cut split with ⟨r, steps, rfl⟩ | ⟨s₁, u₁, s₂, d₂, halted₁, steps, step⟩
  · refine ⟨s, r, ⟨steps, (bodyMachine _).wait_of_append halted.waits⟩, ?_⟩
    rintro ⟨limit, reading, long⟩
    exact patient ⟨limit, reading, by simp; omega⟩
  · refine ⟨s₁, u₁, halted₁, ?_⟩
    rintro ⟨limit, reading, long⟩
    have unfinished := (line_waits reading).mp halted₁.waits
    have finished : nextLine (u₁ ++ v) ≠ none := fun missing => by
      simp [(line_waits reading).mpr missing] at step
    obtain ⟨line, found⟩ := Option.ne_none_iff_exists'.mp finished
    have short := fit s₁ (u₁ ++ v) limit line steps reading found
    have := nextLine_beyond unfinished found
    omega

theorem not_overlong (fit : LinesFit t.req.limit t.framing stream)
    (good : (decoder t.req.limit).Good t.framing stream) : ¬ Overlong t stream := by
  rintro ⟨s, rest, limit, steps, reading, long⟩
  cases found : nextLine rest with
  | none =>
    obtain ⟨s', d', halted, patient⟩ := good
    obtain ⟨rfl, rfl⟩ := halted.unique ⟨steps, (line_waits reading).mpr found⟩
    exact patient ⟨limit, reading, by simpa [firstLine, found] using long⟩
  | some line =>
    have short := fit s rest limit line steps reading found
    obtain ⟨text, after, rfl, -, rfl⟩ := nextLine_eq_some.mp found
    have := stripCr_length text
    simp only [firstLine, found, Option.map_some, Option.getD_some] at long short
    omega

theorem linesFit_of_short (lim : Limit) (s : Framing)
    (short : stream.length ≤ maxChunkLineSize + 1) : LinesFit lim s stream := by
  intro s' rest limit line steps reading found
  have room := lineLimit_room reading
  have := (nextLine_bound found).2
  have := steps.suffix.length_le
  omega

def chunkedStart : Reception :=
  { parser := { head := .done, body := .chunked, chunked := true }
    req := { state := .headersCompleted, callback := true } }

/-- The limits hold for all ways of cutting a stream iff they are not needed for any. -/
theorem honoursLimits_iff (t : Reception) (mode : t.parser.body = .chunked) (stream : Bytes) :
    HonoursLimits t stream ↔ ¬ Accepted t [stream] ∨ LinesFit t.req.limit t.framing stream := by
  constructor
  · intro honours
    by_cases whole : Accepted t [stream]
    · refine .inr (linesFit_of_agrees mode whole fun u v split => ?_)
      exact (honours.agrees [stream] [u, v] (by simp) (by simp [split])).mp whole
    · exact .inl whole
  · intro condition
    by_cases whole : Accepted t [stream]
    · have fit := condition.resolve_left (not_not.mpr whole)
      have good := (accepted_whole mode).mp whole
      have always (pieces : List Bytes) (cut : pieces.flatten = stream) : Accepted t pieces :=
        (decoder t.req.limit).feedAll_ok_of_prefixes (decoder_sim mode)
          (fun u v split => good_prefix fit good split) cut
      exact ⟨fun overlong => absurd overlong (not_overlong fit good),
        fun pieces₁ pieces₂ cut₁ cut₂ => by simp [always _ cut₁, always _ cut₂]⟩
    · have never (pieces : List Bytes) (cut : pieces.flatten = stream) : ¬ Accepted t pieces :=
        fun accepted => whole ((accepted_whole mode).mpr (good_of_accepted mode cut accepted))
      exact ⟨fun _ => never, fun pieces₁ pieces₂ cut₁ cut₂ => by simp [never _ cut₁, never _ cut₂]⟩

theorem honoursLimits_iff_chunk :
    Accepted chunkedStart [bytes "1\r\nx\r\n0\r\n\r\n"] ∧
      HonoursLimits chunkedStart (bytes "1\r\nx\r\n0\r\n\r\n") :=
  ⟨by decide +kernel,
    (honoursLimits_iff chunkedStart rfl _).mpr (.inr (linesFit_of_short _ _ (by decide)))⟩

def longSizeLine : Bytes := bytes "1;" ++ List.replicate 1100 (ch 'a') ++ [cr]

theorem longSizeLine_not_honoured :
    ∃ stream, Overlong chunkedStart stream ∧ Accepted chunkedStart [stream] ∧
      ¬ HonoursLimits chunkedStart stream := by
  refine ⟨longSizeLine ++ bytes "\nx\r\n0\r\n\r\n", ⟨_, _, 1024, .refl _ _, rfl, ?_⟩, ?_, ?_⟩
  · decide +kernel
  · decide +kernel
  · intro honours
    have agree := honours.agrees [longSizeLine ++ bytes "\nx\r\n0\r\n\r\n"]
      [longSizeLine, bytes "\nx\r\n0\r\n\r\n"] (by simp) (by simp)
    exact absurd (agree.mp (by decide +kernel)) (by decide +kernel)

end Dracon
