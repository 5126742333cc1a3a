import Dracon.Http.Segmentation

set_option autoImplicit false

namespace Dracon

open Shared

def headTooLarge : Exc := fail 431 "Request header fields too large"

-- The head is still being read, and what has arrived of it is beyond the limit.
def Framing.HeadOverdue (s : Framing) (d : Bytes) : Prop :=
  (s.req.state = .processingUrl ∨ s.req.state = .processingHeader) ∧ s.parser.head ≠ .done ∧
    maxHeadSize < s.parser.headSeen + d.length

section Calls

variable {p p' q : Parser} {req req' r : Request} {line : Line} {data view : Bytes} {e : Exc} {size pos n : Nat}

theorem headMachine_fails (found : nextLine view = some line)
    (state : req.state = .processingUrl ∨ req.state = .processingHeader) (running : p.head ≠ .done)
    (result : headLine (framing (p.see pos) req) line = .error e) :
    headMachine.Fails (framing (p.see pos) req) view e := by
  refine ⟨_, _, .refl _ _, ?_⟩
  change headStep _ _ = _
  rw [headStep_line _ state running]
  exact lineStep_fail.mpr ⟨line, found, result⟩

theorem headLine_large (headers : p.head = .headers) (large : maxHeadSize < p.headSeen + (pos + line.next)) :
    headLine (framing (p.see pos) req) line = .error headTooLarge := by
  have beyond : p.headSeen + pos + line.next > maxHeadSize := by omega
  simp [headLine, headers, beyond, headTooLarge]

def HeadThrows (s : Framing) (d : Bytes) (e : Exc) : Prop :=
  headMachine.Fails s d e ∨ ∃ s' d', headMachine.Halts s d s' d' ∧ s'.HeadOverdue d' ∧ e = headTooLarge

theorem HeadThrows.of_steps {s s' : Framing} {d d' : Bytes} (steps : headMachine.Steps s d s' d')
    (throws : HeadThrows s' d' e) : HeadThrows s d e := by
  rcases throws with failed | ⟨t, r, halted, overdue⟩
  · exact .inl (failed.of_steps steps)
  · exact .inr ⟨t, r, ⟨steps.trans halted.steps, halted.waits⟩, overdue⟩

theorem headerLines_throws (headers : p.head = .headers)
    (state : req.state = .processingUrl ∨ req.state = .processingHeader) (whole : size = pos + view.length)
    (thrown : headerLines size pos p req view = .error e) :
    HeadThrows (framing (p.see pos) req) view e := by
  -- one case for each way through the loop; the lines in front of the failing one are steps
  fun_induction headerLines size pos p req view with
  | case2 | case5 => cases thrown
  | case1 pos p req view missing large =>
    cases thrown
    have waits : headMachine.step (framing (p.see pos) req) view = .wait :=
      headMachine_waits missing state (by simp [headers])
    refine .inr ⟨_, _, ⟨.refl _ _, waits⟩, ⟨state, by simp [headers], ?_⟩, rfl⟩
    simp only [framing_withParser, Parser.see_headSeen]
    omega
  | case3 pos p req view line found next large =>
    cases thrown
    exact .inl (headMachine_fails found state (by simp [headers]) (headLine_large headers large))
  | case4 pos p req view line found next small empty e' failed =>
    cases thrown
    refine .inl (headMachine_fails found state (by simp [headers]) ?_)
    have fits : ¬ p.headSeen + pos + line.next > maxHeadSize := by omega
    simp [headLine, headers, fits, empty, finalizeHead_shift, failed, Except.map]
  | case6 pos p req view line found next small filled e' failed =>
    cases thrown
    refine .inl (headMachine_fails found state (by simp [headers]) ?_)
    have fits : ¬ p.headSeen + pos + line.next > maxHeadSize := by omega
    simp [headLine, headers, fits, filled, parseHeaderField_shift, failed, Except.map]
  | case7 pos p req view line found next small filled q r field ih =>
    obtain ⟨head, -, state', -⟩ := parseHeaderField_keeps field
    have bound := nextLine_bound found
    have later := ih (head.trans headers) (by rwa [state']) (by rw [List.length_drop]; omega) thrown
    have result := headLine_field pos headers (by omega) filled field
    exact later.of_steps (.single (headMachine_line pos found state (by simp [headers]) result))

theorem headLines_throws (state : req.state = .processingUrl ∨ req.state = .processingHeader)
    (thrown : headLines p data req = .error e) : HeadThrows (framing p req) data e := by
  unfold headLines at thrown
  split at thrown
  · cases thrown
  · rename_i start
    split at thrown
    · rename_i stop skipped
      split_ifs at thrown with large
      cases thrown
      have steps := skipEmptyLines_steps start state skipped
      obtain ⟨-, bound, missing, -⟩ := skipEmptyLines_bound skipped
      simp only [Parser.see_zero, Nat.sub_zero, Nat.zero_add] at steps bound missing
      have waits : headMachine.step (framing (p.see stop) req) (data.drop stop) = .wait :=
        headMachine_waits missing state (by simp [start])
      refine .inr ⟨_, _, ⟨steps, waits⟩, ⟨state, by simp [start], ?_⟩, rfl⟩
      simp only [framing_withParser, Parser.see_headSeen, List.length_drop]
      omega
    · rename_i stop line skipped
      have steps := skipEmptyLines_steps start state skipped
      obtain ⟨-, bound, found, filled⟩ := skipEmptyLines_bound skipped
      simp only [Parser.see_zero, Nat.sub_zero, Nat.zero_add] at steps bound found
      refine HeadThrows.of_steps steps ?_
      split at thrown
      · rename_i failed
        cases thrown
        refine .inl (headMachine_fails found state (by simp [start]) ?_)
        simp [headLine, start, filled line rfl, parseRequestLine_shift, failed, Except.map]
      · rename_i q r parsed
        have kept := parseRequestLine_keeps parsed
        split_ifs at thrown with large
        · cases thrown
          refine .inl (headMachine_fails found state (by simp [start]) ?_)
          have beyond : p.headSeen + stop + line.next > maxHeadSize := by omega
          simp [headLine, start, filled line rfl, parseRequestLine_shift, parsed, Except.map, shift, kept, beyond]
        · have result := headLine_requestLine stop start (by omega) (filled line rfl) parsed
          have step := headMachine_line stop found state (by simp [start]) result
          have within := nextLine_bound found
          rw [List.length_drop] at within
          have later : HeadThrows (framing (Parser.see { q with head := .headers } (stop + line.next))
              { r with state := .processingHeader }) (data.drop (stop + line.next)) e :=
            headerLines_throws rfl (.inr rfl) (by rw [List.length_drop]; omega) thrown
          refine later.of_steps ?_
          simpa [List.drop_drop] using Machine.Steps.single step
  · rename_i headers
    have lines : HeadThrows (framing (p.see 0) req) data e := headerLines_throws headers state (by simp) thrown
    simpa using lines

theorem parseHead_throws (head : req.inBody = false) (filled : data ≠ [])
    (thrown : parseHead p data req = .error e) : HeadThrows (framing p req) data e := by
  unfold parseHead at thrown
  split_ifs at thrown with fresh
  · refine (headLines_throws (.inl rfl) thrown).of_steps (.single ?_)
    simp only [headMachine, headStep, filled, framing_req, Request.erase_inBody, head,
      Request.erase_state, fresh, false_or, Bool.false_eq_true, if_false, if_true]
    rfl
  · refine headLines_throws ?_ thrown
    cases state : req.state <;> simp_all [Request.inBody]

theorem parseHead_patient (parsed : parseHead p data req = .ok (n, p', req')) :
    ¬ (framing p' req').HeadOverdue (data.drop n) := by
  rintro ⟨-, running, large⟩
  rcases (parseHead_stops parsed).1 with done | ⟨-, small⟩
  · exact running done
  · exact absurd small (by simpa using large)

end Calls

def takeHead (t : Reception) (data : Bytes) : Except Exc (Nat × Reception) :=
  -- `read_headers` calls `parse_head` only on a filled buffer, and not again once the head is parsed
  if data = [] ∨ t.req.headParsed then .ok (0, t)
  else match parseHead t.parser data t.req with
    | .error e => .error e
    | .ok (n, p, req) => .ok (n, ⟨p, req⟩)

theorem Framing.HeadOverdue.mono {s : Framing} {d d' : Bytes} (longer : d.length ≤ d'.length) (overdue : s.HeadOverdue d) :
    s.HeadOverdue d' :=
  ⟨overdue.1, overdue.2.1, by have := overdue.2.2; omega⟩

theorem inBody_of_headParsed {req : Request} (parsed : req.headParsed) : req.inBody := by
  unfold Request.headParsed at parsed
  unfold Request.inBody
  grind

section Taking

variable {t t' : Reception} {data : Bytes} {n : Nat} {e : Exc}

theorem takeHead_ok (between : t.req.state ≠ .processingBody) (calm : ¬ (framing t.parser t.req).HeadOverdue [])
    (taken : takeHead t data = .ok (n, t')) :
    n ≤ data.length ∧ t'.req.state ≠ .processingBody ∧
      headMachine.Halts (framing t.parser t.req) data (framing t'.parser t'.req) (data.drop n) ∧
      ¬ (framing t'.parser t'.req).HeadOverdue (data.drop n) := by
  unfold takeHead at taken
  split_ifs at taken with stop
  · cases taken
    rw [List.drop_zero]
    rcases stop with rfl | parsed
    · exact ⟨le_rfl, between, ⟨.refl _ _, headMachine.idle _⟩, calm⟩
    · have inBody := inBody_of_headParsed parsed
      refine ⟨by omega, between, ⟨.refl _ _, headStep_inBody _ inBody⟩, fun overdue => ?_⟩
      rcases overdue.1 with state | state <;> simp [Request.inBody, Request.erase] at state inBody <;> grind
  · obtain ⟨filled, running⟩ := not_or.mp stop
    split at taken
    · cases taken
    · rename_i parsed
      cases taken
      have head : t.req.inBody = false := by simp_all [Request.inBody, Request.headParsed]
      obtain ⟨-, halted⟩ := parseHead_halts head filled parsed
      have after := halted.steps.invariant (P := fun s => s.req.state ≠ .processingBody) headStep_headParsed between
      exact ⟨parseHead_bound parsed, after, halted, parseHead_patient parsed⟩

theorem takeHead_throws (between : t.req.state ≠ .processingBody) (thrown : takeHead t data = .error e) :
    HeadThrows (framing t.parser t.req) data e := by
  unfold takeHead at thrown
  split_ifs at thrown with stop
  obtain ⟨filled, running⟩ := not_or.mp stop
  split at thrown
  · rename_i failed
    cases thrown
    have head : t.req.inBody = false := by simp_all [Request.inBody, Request.headParsed]
    exact parseHead_throws head filled failed
  · cases thrown

end Taking

def headTaker : StrictDriver headMachine Reception Exc where
  call := takeHead
  sim t s := s = framing t.parser t.req ∧ t.req.state ≠ .processingBody ∧ ¬ s.HeadOverdue []
  overdue := Framing.HeadOverdue
  halts := by
    rintro t s d n t' ⟨rfl, between, calm⟩ taken
    obtain ⟨bound, between', halted, calm'⟩ := takeHead_ok between calm taken
    exact ⟨bound, _, ⟨rfl, between', fun overdue => calm' (overdue.mono (by simp))⟩, halted⟩
  patient := by
    rintro t s d n t' ⟨rfl, between, calm⟩ taken s' halted
    obtain ⟨-, -, halted', calm'⟩ := takeHead_ok between calm taken
    obtain ⟨rfl, -⟩ := halted.unique halted'
    exact calm'
  throws := by
    rintro t s d e ⟨rfl, between, -⟩ thrown
    rcases takeHead_throws between thrown with failed | ⟨s', d', halted, overdue, -⟩
    · exact .inl ⟨e, failed⟩
    · exact .inr ⟨s', d', halted, overdue⟩

section Overdue

variable {s s' : Framing} {u v d' : Bytes}

theorem headOverdue_unfinished (overdue : s.HeadOverdue u) (waits : headMachine.step s u = .wait) :
    nextLine u = none := by
  change headStep s u = .wait at waits
  rw [headStep_line _ overdue.1 overdue.2.1] at waits
  exact lineStep_wait.mp waits

-- Beyond the limit only empty lines in front of the request line are still taken, and they do not
-- lead back below it.
theorem headOverdue_step (overdue : s.HeadOverdue u) (unfinished : nextLine u = none)
    (step : headMachine.step s (u ++ v) = .next s' d') : s'.HeadOverdue [] := by
  obtain ⟨state, running, large⟩ := overdue
  change headStep s _ = _ at step
  rw [headStep_line _ state running] at step
  obtain ⟨line, found, result, -⟩ := lineStep_next.mp step
  have beyond := nextLine_beyond unfinished found
  have late : s.parser.headSeen + line.next > maxHeadSize := by omega
  unfold headLine at result
  cases head : s.parser.head <;> simp only [head] at result
  case requestLine =>
    split_ifs at result
    · cases result
      exact ⟨state, by simp [head], by simpa using late⟩
    · split at result
      · cases result
      · rename_i parsed
        rw [(parseRequestLine_keeps parsed).2.1, if_pos late] at result
        cases result
  case headers =>
    rw [if_pos late] at result
    cases result
  case done => exact absurd head running

theorem headOverdue_steps {d : Bytes} (steps : headMachine.Steps s d s' d') (overdue : s.HeadOverdue []) :
    s'.HeadOverdue [] :=
  steps.invariant (P := fun s => s.HeadOverdue [])
    (fun overdue step => headOverdue_step overdue (by simp [nextLine_eq_none]) step) overdue

end Overdue

theorem good_head_prefix {s : Framing} {u v : Bytes} (good : headTaker.Good s (u ++ v)) : headTaker.Good s u := by
  obtain ⟨s', d, halted, calm⟩ := good
  rcases halted.steps.cut rfl with ⟨r, steps, rfl⟩ | ⟨s₁, u₁, s₂, d₂, halted₁, steps, step⟩
  · exact ⟨s', r, ⟨steps, headMachine.wait_of_append halted.waits⟩, fun overdue => calm (overdue.mono (by simp))⟩
  · refine ⟨s₁, u₁, halted₁, fun overdue => calm ?_⟩
    have stranded := headOverdue_step overdue (headOverdue_unfinished overdue halted₁.waits) step
    have rest := halted.continues (steps.trans (.single step))
    exact (headOverdue_steps rest stranded).mono (by simp)

def takesRequestLine (stream : Bytes) : Bool :=
  match skipEmptyLines 0 stream with
  | (_, none) => false
  | (pos, some line) =>
    let (p, req) := beginRequest {} {}
    (parseRequestLine p line.text req).isOk && pos + line.next ≤ maxHeadSize

theorem takesRequestLine_iff {stream : Bytes} :
    takesRequestLine stream ↔ ∃ pos line r, skipEmptyLines 0 stream = (pos, some line) ∧
      parseRequestLine (beginRequest {} {}).1 line.text (beginRequest {} {}).2 = .ok r ∧
      pos + line.next ≤ maxHeadSize := by
  unfold takesRequestLine
  split
  next pos skipped => simp [skipped]
  next pos line skipped =>
    rcases parsed : parseRequestLine (beginRequest {} {}).1 line.text (beginRequest {} {}).2 with e | ⟨q, r⟩ <;>
      simp [skipped, parsed, Except.isOk, Except.toBool]

theorem takesRequestLine_steps {stream : Bytes} (p : Parser) (takes : takesRequestLine stream) :
    ∃ s d, headMachine.Steps (framing p {}) stream s d ∧ s.parser.head = .headers ∧
      s.req.state = .processingHeader ∧ s.parser.headSeen ≤ maxHeadSize := by
  obtain ⟨pos, line, ⟨q, r⟩, skipped, parsed, small⟩ := takesRequestLine_iff.mp takes
  obtain ⟨-, -, found, filled⟩ := skipEmptyLines_bound skipped
  simp only [Nat.sub_zero] at found
  have some : stream ≠ [] := by
    rintro rfl
    simp [nextLine_eq_none.mpr] at found
  have begun : headMachine.step (framing p {}) stream =
      .next (framing (beginRequest {} {}).1 (beginRequest {} {}).2) stream := by
    simp [headMachine, headStep, some, Request.inBody, Framing.begin, beginRequest, framing, Request.erase]
  have state : (beginRequest {} {}).2.state = .processingUrl ∨ (beginRequest {} {}).2.state = .processingHeader :=
    .inl rfl
  have blank := skipEmptyLines_steps (p := (beginRequest {} {}).1) rfl state skipped
  have kept := parseRequestLine_keeps parsed
  have seen : q.headSeen = 0 := kept.2.1
  have result := headLine_requestLine pos rfl (by simpa [beginRequest] using small) (filled line rfl) parsed
  have step := headMachine_line pos found state (by simp [beginRequest]) result
  refine ⟨_, _, .head begun ((by simpa using blank : headMachine.Steps _ _ _ _).trans (.single step)), rfl, rfl, ?_⟩
  simpa [Parser.see, seen] using small

theorem headLine_counts {s s' : Framing} {line : Line} (running : s.parser.head ≠ .done)
    (result : headLine s line = .ok s') :
    s'.parser.headSeen = s.parser.headSeen + line.next ∧
      ((s.parser.head = .requestLine ∧ s'.parser.head = .requestLine ∧ s'.req.state = s.req.state) ∨
        (s'.parser.head ≠ .requestLine ∧ s'.parser.headSeen ≤ maxHeadSize)) := by
  unfold headLine at result
  cases head : s.parser.head <;> simp only [head] at result
  case requestLine =>
    split_ifs at result
    · cases result
      exact ⟨rfl, .inl ⟨rfl, by simp [head], rfl⟩⟩
    · split at result
      · cases result
      · rename_i parsed
        have seen := (parseRequestLine_keeps parsed).2.1
        split_ifs at result with large
        cases result
        rw [seen] at large
        exact ⟨by simp [Parser.see, seen], .inr ⟨by simp, by simpa [Parser.see, seen] using large⟩⟩
  case headers =>
    split_ifs at result with large empty
    · split at result
      · cases result
      · rename_i finished
        have seen := (finalizeHead_keeps finished).1
        cases result
        exact ⟨by simp [Parser.see, seen], .inr ⟨by simp, by simpa [Parser.see, seen] using large⟩⟩
    · split at result
      · cases result
      · rename_i field
        obtain ⟨same, seen, -⟩ := parseHeaderField_keeps field
        cases result
        exact ⟨by simp [seen], .inr ⟨by simp [same, head], by simpa [seen] using large⟩⟩
  case done => exact absurd head running

theorem headStep_after_requestLine {s s' : Framing} {d d' : Bytes}
    (after : s.parser.head ≠ .requestLine ∧ s.req.state ≠ .uninitialized)
    (step : headMachine.step s d = .next s' d') :
    s'.parser.head ≠ .requestLine ∧ s'.req.state ≠ .uninitialized := by
  obtain ⟨-, -, ⟨fresh, -⟩ | ⟨-, running, line⟩⟩ := headStep_next.mp step
  · exact absurd fresh after.2
  · obtain ⟨line, -, result, -⟩ := lineStep_next.mp line
    have states := headLine_state result
    have heads := (headLine_counts running result).2
    grind

theorem overdue_after_requestLine {p : Parser} {stream d : Bytes} {s : Framing} (takes : takesRequestLine stream)
    (steps : headMachine.Steps (framing p {}) stream s d) (waited : ∃ u v, d = u ++ v ∧ s.HeadOverdue u ∧ nextLine u = none) :
    s.parser.head = .headers := by
  obtain ⟨u, v, rfl, overdue, unfinished⟩ := waited
  obtain ⟨begun, rest, lines, headers, state, small⟩ := takesRequestLine_steps p takes
  have known : s.parser.head ≠ .requestLine := by
    rcases steps.comparable lines with behind | ahead
    · cases behind with
      | refl => simp [headers]
      | head step behind =>
        -- it would have to get back below the limit to reach the header lines
        have stranded := headOverdue_steps behind (headOverdue_step overdue unfinished step)
        have := stranded.2.2
        simp at this
        omega
    · exact (ahead.invariant (P := fun s => s.parser.head ≠ .requestLine ∧ s.req.state ≠ .uninitialized)
        headStep_after_requestLine (by simp [headers, state])).1
  cases head : s.parser.head <;> simp_all [Framing.HeadOverdue]

theorem headThrows_agree {p : Parser} {u v : Bytes} {e e' : Exc} (takes : takesRequestLine (u ++ v))
    (early : HeadThrows (framing p {}) u e) (whole : HeadThrows (framing p {}) (u ++ v) e') : e = e' := by
  rcases early with failed | ⟨s, d, halted, overdue, rfl⟩
  · rcases whole with failed' | ⟨s', d', halted', -⟩
    · exact (failed.append v).unique failed'
    · exact absurd (failed.append v) halted'.not_fails
  · rcases whole with failed' | ⟨s', d', -, -, rfl⟩
    · have steps := halted.steps.append v
      have unfinished := headOverdue_unfinished overdue halted.waits
      have headers := overdue_after_requestLine takes steps ⟨d, v, rfl, overdue, unfinished⟩
      have step : headMachine.step s (d ++ v) = lineStep (headLine s) (d ++ v) := headStep_line _ overdue.1 overdue.2.1
      have failed := failed'.after_steps steps
      cases found : nextLine (d ++ v) with
      | none =>
        have waits := step.trans (lineStep_wait.mpr found)
        exact absurd failed (Machine.Halts.not_fails ⟨.refl _ _, waits⟩)
      | some line =>
        -- the line that is beyond the limit is refused as soon as it is complete
        have beyond := nextLine_beyond unfinished found
        have late : s.parser.headSeen + line.next > maxHeadSize := by
          have := overdue.2.2
          omega
        have refused : headLine s line = .error headTooLarge := by simp [headLine, headers, late, headTooLarge]
        exact Machine.Fails.unique ⟨_, _, .refl _ _, step.trans (lineStep_fail.mpr ⟨line, found, refused⟩)⟩ failed
    · rfl

def Framing.Counts (s : Framing) (before : Bytes) : Prop :=
  (s.req.state = .uninitialized ∧ before = []) ∨
    (s.req.state ≠ .uninitialized ∧ s.parser.headSeen = before.length ∧
      ((s.parser.head = .requestLine ∧ s.req.state = .processingUrl) ∨
        (s.parser.head ≠ .requestLine ∧ s.parser.headSeen ≤ maxHeadSize)))

theorem headStep_counts {s s' : Framing} {before eaten d' : Bytes} (counted : s.Counts before)
    (step : headMachine.step s (eaten ++ d') = .next s' d') : s'.Counts (before ++ eaten) := by
  obtain ⟨-, -, ⟨fresh, same, rfl⟩ | ⟨begun, running, line⟩⟩ := headStep_next.mp step
  · obtain rfl : eaten = [] := by simpa using same
    rcases counted with ⟨-, rfl⟩ | ⟨started, -⟩
    · simp [Framing.Counts, Framing.begin, beginRequest]
    · exact absurd fresh started
  · obtain ⟨line, found, result, rest⟩ := lineStep_next.mp line
    have states := headLine_state result
    obtain ⟨seen, heads⟩ := headLine_counts running result
    have size : line.next = eaten.length := by
      have bound := nextLine_bound found
      have left := congrArg List.length rest
      simp only [List.length_append, List.length_drop] at left bound
      omega
    obtain ⟨fresh, -⟩ | ⟨-, count, place⟩ := counted
    · exact absurd fresh begun
    · refine .inr ⟨by grind, by rw [seen, count, size, List.length_append], by grind⟩

theorem takeHead_fresh (p : Parser) (stream : Bytes) (e : Exc) :
    takeHead ⟨p, {}⟩ stream = .error e ↔ parseHead p stream {} = .error e := by
  by_cases empty : stream = []
  · have blank : skipEmptyLines 0 [] = (0, none) := by
      unfold skipEmptyLines
      rfl
    simp [empty, takeHead, parseHead, beginRequest, headLines, blank, maxHeadSize]
  · simp only [takeHead, empty, Request.headParsed, reduceCtorEq, or_self, decide_false, Bool.false_eq_true, if_false]
    cases parseHead p stream {} <;> simp

theorem headTaker_fresh (p : Parser) : headTaker.sim ⟨p, {}⟩ (framing p {}) :=
  ⟨rfl, by simp, by simp [Framing.HeadOverdue, Request.erase]⟩

/-- What `parse_head` accepts, and the status it rejects with, does not depend on how the bytes arrive. -/
theorem head_cut_independent (p : Parser) (pieces : List Bytes) :
    ((∃ e, feedAll takeHead ⟨p, {}⟩ [] pieces = .error e) ↔ ∃ e, parseHead p pieces.flatten {} = .error e) ∧
    (∀ e e', feedAll takeHead ⟨p, {}⟩ [] pieces = .error e → parseHead p pieces.flatten {} = .error e' →
      takesRequestLine pieces.flatten → e = e') ∧
    (∀ t rest, feedAll takeHead ⟨p, {}⟩ [] pieces = .ok (t, rest) → t.req.headParsed →
      ∃ head, pieces.flatten = head ++ rest ∧ head.length ≤ maxHeadSize) := by
  have fresh := headTaker_fresh p
  refine ⟨⟨?_, ?_⟩, ?_, ?_⟩
  · rintro ⟨e, thrown⟩
    by_contra whole
    have good : headTaker.Good (framing p {}) pieces.flatten := by
      refine (headTaker.call_ok_iff fresh _).mp ?_
      cases called : takeHead ⟨p, {}⟩ pieces.flatten with
      | ok r => exact ⟨r, called⟩
      | error e => exact absurd ⟨e, (takeHead_fresh p _ e).mp called⟩ whole
    obtain ⟨r, accepted⟩ := headTaker.feedAll_ok_of_prefixes fresh
      (fun u v split => good_head_prefix (split ▸ good)) rfl
    simp [show headTaker.call = takeHead from rfl, thrown] at accepted
  · rintro ⟨e, thrown⟩
    cases fed : feedAll takeHead ⟨p, {}⟩ [] pieces with
    | error e => exact ⟨e, rfl⟩
    | ok r =>
      have called := (takeHead_fresh p _ e).mpr thrown
      have some : pieces ≠ [] := by
        rintro rfl
        simp [takeHead] at called
      obtain ⟨r, accepted⟩ := (headTaker.call_ok_iff fresh _).mpr (headTaker.good_of_feedAll_ok fresh some ⟨r, fed⟩)
      simp [show headTaker.call = takeHead from rfl, called] at accepted
  · intro e e' thrown thrown' takes
    obtain ⟨k, t, s, d, ⟨rfl, between, -⟩, steps, failed⟩ := headTaker.toDriver.feedAll_throws fresh thrown
    have split : pieces.flatten = (pieces.take k).flatten ++ (pieces.drop k).flatten := by
      rw [← List.flatten_append, List.take_append_drop]
    have whole := takeHead_throws (t := ⟨p, {}⟩) (by simp) ((takeHead_fresh p _ e').mpr thrown')
    rw [split] at takes whole
    exact headThrows_agree takes ((takeHead_throws between failed).of_steps steps) whole
  · intro t rest fed parsed
    obtain ⟨s, ⟨rfl, -⟩, halted⟩ := headTaker.toDriver.feedAll_halts fresh (headMachine.idle _) fed
    obtain ⟨head, split, counted⟩ := halted.steps.history (P := Framing.Counts) headStep_counts
      (.inl ⟨rfl, rfl⟩ : Framing.Counts _ [])
    refine ⟨head, split, ?_⟩
    unfold Request.headParsed at parsed
    obtain ⟨state, -⟩ | ⟨-, count, ⟨-, state⟩ | ⟨-, small⟩⟩ := counted
    · simp_all
    · simp_all
    · rw [count] at small
      simpa using small

theorem head_cut_independent_field :
    let pieces := [bytes "\r\nGET / HT", bytes "TP/1.1\r\nA: b\r", bytes "\nB\r\n"]
    feedAll takeHead {} [] pieces = .error (fail 400 "Invalid header field") ∧
      parseHead {} pieces.flatten {} = .error (fail 400 "Invalid header field") := by
  have fed : feedAll takeHead {} [] [bytes "\r\nGET / HT", bytes "TP/1.1\r\nA: b\r", bytes "\nB\r\n"] =
      .error (fail 400 "Invalid header field") := by decide +kernel
  have takes : takesRequestLine (bytes "\r\nGET / HTTP/1.1\r\nA: b\r\nB\r\n") := by decide +kernel
  obtain ⟨throws, agree, -⟩ := head_cut_independent {} _
  obtain ⟨e, thrown⟩ := throws.mp ⟨_, fed⟩
  obtain rfl := agree _ e fed thrown takes
  exact ⟨fed, thrown⟩

end Dracon
