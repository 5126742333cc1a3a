import Dracon.Http.Framing

set_option autoImplicit false

namespace Dracon

open Shared

section Data

variable {lim : Limit} {s : Framing}

structure Framing.Reading (s : Framing) : Prop where
  state : s.req.state = .processingBody
  expects : 0 < s.parser.remaining
  mode : s.parser.body = .contentLength ∨ (s.parser.body = .chunked ∧ s.parser.chunk = .data)

theorem Framing.Reading.step (reading : s.Reading) {d : Bytes} (filled : d ≠ []) :
    (bodyMachine lim).step s d = dataStep lim s d := by
  have more := reading.expects.ne'
  obtain mode | ⟨mode, data⟩ := reading.mode
  · simp [bodyMachine, bodyStep, filled, reading.state, mode, lengthStep, more]
  · simp [bodyMachine, bodyStep, filled, reading.state, mode, chunkStep, data]

@[simp] theorem Framing.advance_received (s : Framing) (piece : Bytes) :
    (s.advance piece).parser.received = s.parser.received + piece.length := by
  unfold Framing.advance
  split_ifs <;> rfl

@[simp] theorem Framing.advance_remaining (s : Framing) (piece : Bytes) :
    (s.advance piece).parser.remaining = s.parser.remaining - piece.length := by
  unfold Framing.advance
  split_ifs <;> rfl

@[simp] theorem Framing.advance_mode (s : Framing) (piece : Bytes) :
    (s.advance piece).parser.body = s.parser.body := by
  unfold Framing.advance
  split_ifs <;> rfl

theorem Framing.Reading.advance (reading : s.Reading) {piece : Bytes}
    (short : piece.length < s.parser.remaining) : (s.advance piece).Reading := by
  have more : s.parser.remaining - piece.length ≠ 0 := by omega
  obtain mode | ⟨mode, data⟩ := reading.mode
  · refine ⟨?_, by simp; omega, .inl ?_⟩ <;>
      simp [Framing.advance, mode, lengthDelivered, more, reading.state]
  · refine ⟨?_, by simp; omega, .inr ?_⟩ <;>
      simp [Framing.advance, mode, chunkDelivered, more, reading.state, data]

theorem Framing.advance_completed (mode : s.parser.body = .contentLength) {piece : Bytes}
    (last : s.parser.remaining ≤ piece.length) : (s.advance piece).req.state = .completed := by
  have none : s.parser.remaining - piece.length = 0 := by omega
  simp [Framing.advance, mode, lengthDelivered, none]

theorem Framing.advance_append {a b : Bytes} (short : a.length < s.parser.remaining) :
    (s.advance a).advance b = s.advance (a ++ b) := by
  have more : s.parser.remaining - a.length ≠ 0 := by omega
  by_cases mode : s.parser.body = .chunked
  · simp [Framing.advance, chunkDelivered, mode, more, Nat.add_assoc, Nat.sub_sub]
  · simp [Framing.advance, lengthDelivered, mode, more, Nat.add_assoc, Nat.sub_sub]

theorem Limit.Allows.mono {m n : Nat} (allowed : lim.Allows s n) (le : m ≤ n) : lim.Allows s m :=
  ⟨allowed.1, fun limited => by have := allowed.2 limited; omega⟩

theorem Limit.Allows.advance {c : Byte} {n : Nat} (allowed : lim.Allows s (n + 1)) :
    lim.Allows (s.advance [c]) n :=
  ⟨allowed.1, fun limited => by have := allowed.2 limited; simp; omega⟩

theorem Framing.Reading.step_next (reading : s.Reading) {c : Byte} {d : Bytes}
    (allowed : lim.Allows s 1) :
    (bodyMachine lim).step s (c :: d) = .next (s.advance [c]) d := by
  have one : min s.parser.remaining 1 = 1 := by have := reading.expects; omega
  rw [reading.step (by simp)]
  exact dataStep_next.mpr ⟨by rwa [one], by simp [one], by simp [one]⟩

theorem data_steps (reading : s.Reading) {piece : Bytes} (filled : piece ≠ [])
    (short : piece.length ≤ s.parser.remaining) (allowed : lim.Allows s piece.length) (d : Bytes) :
    (bodyMachine lim).Steps s (piece ++ d) (s.advance piece) d := by
  induction piece generalizing s with
  | nil => exact absurd rfl filled
  | cons c piece ih =>
    have step := reading.step_next (c := c) (d := piece ++ d) (allowed.mono (by simp))
    by_cases last : piece = []
    · subst last
      exact .single step
    have := List.length_pos_iff.mpr last
    simp only [List.length_cons] at short allowed
    have single : [c].length < s.parser.remaining := by simp; omega
    have rest := ih (reading.advance single) last (by simp; omega) allowed.advance
    rw [Framing.advance_append single] at rest
    exact .head step rest

theorem data_fails (reading : s.Reading) {piece : Bytes}
    (short : piece.length ≤ s.parser.remaining) (refused : ¬ lim.Allows s piece.length) (d : Bytes)
    (filled : piece ≠ []) : ∃ e, (bodyMachine lim).Fails s (piece ++ d) e := by
  induction piece generalizing s with
  | nil => exact absurd rfl filled
  | cons c piece ih =>
    by_cases first : lim.Allows s 1
    · have step := reading.step_next (c := c) (d := piece ++ d) first
      by_cases last : piece = []
      · subst last
        exact absurd first refused
      have := List.length_pos_iff.mpr last
      simp only [List.length_cons] at short refused
      have later : ¬ lim.Allows (s.advance [c]) piece.length := by
        intro allowed
        refine refused ⟨allowed.1, fun limited => ?_⟩
        have := allowed.2 limited
        simp at this
        omega
      have single : [c].length < s.parser.remaining := by simp; omega
      obtain ⟨e, failed⟩ := ih (reading.advance single) (by simp; omega) later last
      exact ⟨e, .of_steps (.single step) failed⟩
    · have one : min s.parser.remaining 1 = 1 := by have := reading.expects; omega
      obtain ⟨e, failed⟩ := (dataStep_fail (d := c :: (piece ++ d))).mpr (one.symm ▸ first)
      exact ⟨e, s, _, .refl _ _, by rw [List.cons_append, reading.step (by simp), failed]⟩

theorem Framing.advance_state (s : Framing) (piece : Bytes) :
    (s.advance piece).req.state = s.req.state ∨ (s.advance piece).req.state = .completed := by
  unfold Framing.advance
  split_ifs
  · exact .inl rfl
  · simp only [lengthDelivered]
    split_ifs
    · exact .inr rfl
    · exact .inl rfl

theorem bodyStep_state {s' : Framing} {d d' : Bytes} (step : bodyStep lim s d = .next s' d') :
    s'.req.state = .processingBody ∨ s'.req.state = .completed := by
  obtain ⟨-, -, -, ⟨-, -, rfl⟩ | ⟨state, -, chunk⟩ | ⟨state, -, ⟨-, -, rfl⟩ | ⟨-, data⟩⟩⟩ :=
    bodyStep_next.mp step
  · exact .inl rfl
  · rcases chunkStep_next.mp chunk with ⟨-, line, size, -, -, -, rfl⟩ | ⟨-, data⟩ | ⟨-, -, rfl⟩ |
      ⟨-, line, -, -, ⟨-, rfl⟩ | ⟨-, -, -, rfl⟩⟩
    · exact .inl state
    · obtain ⟨-, rfl, -⟩ := dataStep_next.mp data
      simpa [state] using s.advance_state (d.take (min s.parser.remaining 1))
    · exact .inl state
    · exact .inr rfl
    · exact .inl state
  · exact .inr rfl
  · obtain ⟨-, rfl, -⟩ := dataStep_next.mp data
    simpa [state] using s.advance_state (d.take (min s.parser.remaining 1))

end Data

section Chunked

def Turn.erase : Turn → Turn
  | .ret p req n => .ret p req.erase n
  | .next p req n => .next p req.erase n
  | .call p req n => .call p req.erase n
  | .fail e p req => .fail e p req.erase

theorem sizeLine_erase (p : Parser) (req : Request) (line : Line) :
    sizeLine p req.erase line = (sizeLine p req line).erase := by
  unfold sizeLine
  cases chunkSize line.text <;> rfl

theorem dataEndTurn_erase (p : Parser) (req : Request) (view : Bytes) :
    dataEndTurn p req.erase view = (dataEndTurn p req view).erase := by
  fun_cases dataEndTurn p req view <;> simp_all [dataEndTurn, Turn.erase]

theorem trailerLine_erase (p : Parser) (req : Request) (line : Line) :
    trailerLine p req.erase line = (trailerLine p req line).erase := by
  unfold trailerLine
  split_ifs <;> rfl

theorem lineTurn_ret {p p' : Parser} {req req' : Request} {limit n : Nat} {tooLong : Exc}
    {view : Bytes} {complete : Line → Turn} :
    lineTurn p req limit tooLong view complete = .ret p' req' n ↔
      (nextLine view = none ∧ view.length ≤ limit ∧ p' = p ∧ req' = req ∧ n = 0) ∨
        ∃ line, nextLine view = some line ∧ complete line = .ret p' req' n := by
  unfold lineTurn
  cases nextLine view with
  | none => simp; grind
  | some line => simp

theorem lineTurn_fail {p p' : Parser} {req req' : Request} {limit : Nat} {tooLong e : Exc}
    {view : Bytes} {complete : Line → Turn} :
    lineTurn p req limit tooLong view complete = .fail e p' req' ↔
      (nextLine view = none ∧ limit < view.length ∧ e = tooLong ∧ p' = p ∧ req' = req) ∨
        ∃ line, nextLine view = some line ∧ complete line = .fail e p' req' := by
  unfold lineTurn
  cases nextLine view with
  | none => simp; grind
  | some line => simp

def Framing.lineLimit (s : Framing) : Option Nat :=
  if s.req.state = .processingBody ∧ s.parser.body = .chunked then
    match s.parser.chunk with
    | .size => some maxChunkLineSize
    | .trailers => some maxHeadSize
    | .data | .dataEnd => none
  else none

def Framing.Overdue (s : Framing) (d : Bytes) : Prop := ∃ limit ∈ s.lineLimit, limit < d.length

variable {lim : Limit} {p p' : Parser} {req req' : Request} {view : Bytes} {n : Nat}

theorem chunk_step (mode : p.body = .chunked) (state : req.state = .processingBody) :
    (bodyMachine lim).step (framing p req) view =
      if view = [] then .wait else chunkStep lim (framing p req) view := by
  simp [bodyMachine, bodyStep, mode, state]

theorem chunkTurn_next_step (lim : Limit) (mode : p.body = .chunked) (state : req.state = .processingBody)
    (turn : chunkTurn p req view = .next p' req' n) :
    (bodyMachine lim).step (framing p req) view = .next (framing p' req') (view.drop n) ∧
      p'.body = .chunked ∧ req' = req := by
  have filled : view ≠ [] := by rintro rfl; simp [chunkTurn] at turn
  rw [chunk_step mode state, if_neg filled]
  unfold chunkTurn at turn
  rw [if_neg filled] at turn
  cases chunk : p.chunk <;> simp only [chunk] at turn
  case size =>
    obtain ⟨line, found, complete⟩ := lineTurn_next.mp turn
    have erased := sizeLine_erase p req line
    rw [complete] at erased
    obtain ⟨size, -, rfl, rfl, rfl⟩ := sizeLine_next.mp complete
    refine ⟨?_, mode, rfl⟩
    simp only [chunkStep, framing_withParser, chunk]
    exact lineStep_next.mpr ⟨line, found, by simp [erased, Turn.erase, Turn.outcome, framing], rfl⟩
  case data => exact absurd turn (deliver_ne_next _ _ _ _ _ _)
  case dataEnd =>
    obtain ⟨rfl, rfl, rest, ⟨rfl, rfl⟩ | ⟨rfl, rfl⟩⟩ := dataEndTurn_next.mp turn <;>
      exact ⟨by simp only [chunkStep, framing_withParser, chunk]
                exact dataEndStep_next.mpr ⟨rfl, by simp⟩, mode, rfl⟩
  case trailers =>
    obtain ⟨line, found, complete⟩ := lineTurn_next.mp turn
    have erased := trailerLine_erase p req line
    rw [complete] at erased
    obtain ⟨-, -, -, rfl, rfl, rfl⟩ := trailerLine_next.mp complete
    refine ⟨?_, mode, rfl⟩
    simp only [chunkStep, framing_withParser, chunk]
    exact lineStep_next.mpr
      ⟨line, found, by simp [erased, Turn.erase, Turn.outcome, framing, chunk], rfl⟩

theorem trailerLine_ret {line : Line} :
    trailerLine p req line = .ret p' req' n ↔
      line.text = [] ∧ p' = p ∧ req' = { req with state := .completed } ∧ n = line.next := by
  unfold trailerLine
  split_ifs <;> simp_all
  grind

theorem sizeLine_ne_ret (line : Line) : sizeLine p req line ≠ .ret p' req' n := by
  unfold sizeLine
  cases chunkSize line.text <;> simp

theorem deliver_ne_ret (size : Nat) : deliver p req size ≠ .ret p' req' n := by
  unfold deliver
  split_ifs <;> simp

theorem dataEndTurn_ret :
    dataEndTurn p req view = .ret p' req' n ↔
      (view = [] ∨ view = [cr]) ∧ p' = p ∧ req' = req ∧ n = 0 := by
  fun_cases dataEndTurn p req view <;> simp_all <;> grind

theorem chunkTurn_ret (turn : chunkTurn p req view = .ret p' req' n) :
    (p' = p ∧ req' = req ∧ n = 0 ∧
      (view = [] ∨ (p.chunk = .size ∧ nextLine view = none ∧ view.length ≤ maxChunkLineSize) ∨
        (p.chunk = .dataEnd ∧ view = [cr]) ∨
        (p.chunk = .trailers ∧ nextLine view = none ∧ view.length ≤ maxHeadSize))) ∨
    (p.chunk = .trailers ∧ p' = p ∧ req' = { req with state := .completed } ∧
      ∃ line, nextLine view = some line ∧ line.text = [] ∧ n = line.next) := by
  unfold chunkTurn at turn
  split_ifs at turn with empty
  · cases turn
    exact .inl ⟨rfl, rfl, rfl, .inl empty⟩
  cases chunk : p.chunk <;> simp only [chunk] at turn
  case size =>
    rcases lineTurn_ret.mp turn with ⟨missing, short, rfl, rfl, rfl⟩ | ⟨line, -, complete⟩
    · exact .inl ⟨rfl, rfl, rfl, .inr (.inl ⟨rfl, missing, short⟩)⟩
    · exact absurd complete (sizeLine_ne_ret line)
  case data => exact absurd turn (deliver_ne_ret _)
  case dataEnd =>
    obtain ⟨waiting, rfl, rfl, rfl⟩ := dataEndTurn_ret.mp turn
    exact .inl ⟨rfl, rfl, rfl, .inr (.inr (.inl ⟨rfl, waiting.resolve_left empty⟩))⟩
  case trailers =>
    rcases lineTurn_ret.mp turn with ⟨missing, short, rfl, rfl, rfl⟩ | ⟨line, found, complete⟩
    · exact .inl ⟨rfl, rfl, rfl, .inr (.inr (.inr ⟨rfl, missing, short⟩))⟩
    · obtain ⟨blank, rfl, rfl, rfl⟩ := trailerLine_ret.mp complete
      exact .inr ⟨rfl, rfl, rfl, line, found, blank, rfl⟩

theorem chunkTurn_ret_halts (lim : Limit) (mode : p.body = .chunked) (state : req.state = .processingBody)
    (turn : chunkTurn p req view = .ret p' req' n) :
    (bodyMachine lim).Halts (framing p req) view (framing p' req') (view.drop n) ∧
      ¬ (framing p' req').Overdue (view.drop n) := by
  rcases chunkTurn_ret turn with ⟨rfl, rfl, rfl, waiting⟩ | ⟨chunk, rfl, rfl, line, found, blank, rfl⟩
  · refine ⟨⟨by simpa using .refl _ _, ?_⟩, ?_⟩
    · rw [List.drop_zero, chunk_step mode state]
      split_ifs with empty
      · rfl
      rcases waiting with rfl | ⟨chunk, missing, -⟩ | ⟨chunk, rfl⟩ | ⟨chunk, missing, -⟩
      · exact absurd rfl empty
      · simpa only [chunkStep, framing_withParser, chunk] using lineStep_wait.mpr missing
      · simp [chunkStep, chunk, dataEndStep, dataEndTurn, show cr ≠ lf by decide]
      · simpa only [chunkStep, framing_withParser, chunk] using lineStep_wait.mpr missing
    · rw [List.drop_zero]
      rcases waiting with rfl | ⟨chunk, -, short⟩ | ⟨chunk, rfl⟩ | ⟨chunk, -, short⟩
      · simp [Framing.Overdue]
      all_goals simp [Framing.Overdue, Framing.lineLimit, mode, state, chunk]
      all_goals omega
  · have filled : view ≠ [] := by
      rintro rfl
      simp [nextLine_eq_some] at found
    refine ⟨⟨.single ?_, ?_⟩, ?_⟩
    · rw [chunk_step mode state, if_neg filled]
      simp only [chunkStep, framing_withParser, chunk]
      refine lineStep_next.mpr ⟨line, found, ?_, rfl⟩
      simp [trailerLine, blank, Turn.outcome, framing, Request.erase]
    · simp [bodyMachine, bodyStep]
    · simp [Framing.Overdue, Framing.lineLimit]

theorem deliver_fail {e : Exc} {size : Nat} (failed : deliver p req size = .fail e p' req') :
    ¬ req.limit.Allows (framing p req) size := by
  unfold deliver at failed
  split_ifs at failed <;> simp_all [Limit.Allows, Request.limit]

theorem deliver_allows {size : Nat} (called : deliver p req size = .call p' req' n) :
    req.limit.Allows (framing p req) size := by
  obtain ⟨-, -, -, callback, limit⟩ := deliver_call.mp called
  exact ⟨callback, limit⟩

theorem dataEndTurn_fail {e : Exc} (failed : dataEndTurn p req view = .fail e p' req') :
    ∃ e, dataEndStep (framing p req) view = .fail e := by
  have erased := dataEndTurn_erase p req view
  rw [failed] at erased
  exact ⟨e, by simp [dataEndStep, erased, Turn.erase]⟩

theorem data_step (mode : p.body = .chunked) (state : req.state = .processingBody)
    (filled : view ≠ []) (data : p.chunk = .data) :
    (bodyMachine lim).step (framing p req) view = dataStep lim (framing p req) view := by
  rw [chunk_step mode state, if_neg filled]
  simp only [chunkStep, framing_withParser, data]

theorem chunkTurn_call_steps (mode : p.body = .chunked) (state : req.state = .processingBody)
    (turn : chunkTurn p req view = .call p' req' n) :
    (bodyMachine req.limit).Steps (framing p req) view
      (framing (chunkDelivered p' n) (req'.receive (view.take n))) (view.drop n) ∧ req' = req ∧
      p' = { p with received := p.received + n } ∧ n ≤ view.length := by
  obtain ⟨filled, data, called⟩ := chunkTurn_call.mp turn
  have allowed := deliver_allows called
  obtain ⟨rfl, rfl, rfl, -⟩ := deliver_call.mp called
  refine ⟨?_, rfl, rfl, by omega⟩
  generalize size : min p.remaining view.length = n at allowed
  have long : (view.take n).length = n := by simp; omega
  have result : framing (chunkDelivered { p with received := p.received + n } n)
      (req'.receive (view.take n)) = (framing p req').advance (view.take n) := by
    simp [Framing.advance, mode, framing, Request.receive, Request.erase, long]
  rw [result]
  by_cases expects : 0 < p.remaining
  · have reading : (framing p req').Reading := ⟨state, expects, .inr ⟨mode, data⟩⟩
    have := List.length_pos_iff.mpr filled
    have nonempty : view.take n ≠ [] := by rw [← List.length_pos_iff]; omega
    have steps := data_steps reading nonempty (by rw [long, framing_withParser]; omega)
      (by rwa [long]) (view.drop n)
    rwa [List.take_append_drop] at steps
  · have none : min p.remaining 1 = 0 := by omega
    obtain rfl : n = 0 := by omega
    refine .single ?_
    rw [data_step mode state filled data]
    exact dataStep_next.mpr ⟨by simpa [none] using allowed, by simp [none], by simp [none]⟩

theorem chunkTurn_fail_step {e : Exc} (mode : p.body = .chunked)
    (state : req.state = .processingBody) (turn : chunkTurn p req view = .fail e p' req') :
    (∃ e, (bodyMachine req.limit).Fails (framing p req) view e) ∨
      ((bodyMachine req.limit).Halts (framing p req) view (framing p req) view ∧
        (framing p req).Overdue view) := by
  have filled : view ≠ [] := by rintro rfl; simp [chunkTurn] at turn
  have step : (bodyMachine req.limit).step (framing p req) view =
      chunkStep req.limit (framing p req) view := by rw [chunk_step mode state, if_neg filled]
  unfold chunkTurn at turn
  rw [if_neg filled] at turn
  cases chunk : p.chunk <;> simp only [chunk] at turn
  case size =>
    simp only [chunkStep, framing_withParser, chunk] at step
    rcases lineTurn_fail.mp turn with ⟨missing, long, -⟩ | ⟨line, found, complete⟩
    · refine .inr ⟨⟨.refl _ _, ?_⟩, _, by simp [Framing.lineLimit, state, mode, chunk], long⟩
      rw [step, lineStep_wait.mpr missing]
    · have erased := sizeLine_erase p req line
      rw [complete] at erased
      refine .inl ⟨e, _, _, .refl _ _, ?_⟩
      rw [step, lineStep_fail]
      exact ⟨line, found, by simp [erased, Turn.erase, Turn.outcome]⟩
  case data =>
    have refused := deliver_fail turn
    left
    by_cases expects : 0 < p.remaining
    · have reading : (framing p req).Reading := ⟨state, expects, .inr ⟨mode, chunk⟩⟩
      have := List.length_pos_iff.mpr filled
      have long : (view.take (min p.remaining view.length)).length = min p.remaining view.length := by
        simp
      have failed := data_fails reading (by rw [long, framing_withParser]; omega) (by rwa [long])
        (view.drop (min p.remaining view.length)) (by rw [← List.length_pos_iff]; omega)
      rwa [List.take_append_drop] at failed
    · have none : min p.remaining 1 = 0 := by omega
      have none' : min p.remaining view.length = 0 := by omega
      obtain ⟨e, failed⟩ : ∃ e, dataStep req.limit (framing p req) view = .fail e :=
        dataStep_fail.mpr (by simpa [none, none'] using refused)
      exact ⟨e, _, _, .refl _ _, by rw [data_step mode state filled chunk, failed]⟩
  case dataEnd =>
    simp only [chunkStep, framing_withParser, chunk] at step
    obtain ⟨e, failed⟩ := dataEndTurn_fail turn
    exact .inl ⟨e, _, _, .refl _ _, by rw [step, failed]⟩
  case trailers =>
    simp only [chunkStep, framing_withParser, chunk] at step
    rcases lineTurn_fail.mp turn with ⟨missing, long, -⟩ | ⟨line, found, complete⟩
    · refine .inr ⟨⟨.refl _ _, ?_⟩, _, by simp [Framing.lineLimit, state, mode, chunk], long⟩
      rw [step, lineStep_wait.mpr missing]
    · have erased := trailerLine_erase p req line
      rw [complete] at erased
      refine .inl ⟨e, _, _, .refl _ _, ?_⟩
      rw [step, lineStep_fail]
      exact ⟨line, found, by simp [erased, Turn.erase, Turn.outcome]⟩

theorem chunkTurn_bound (turn : chunkTurn p req view = .ret p' req' n) : n ≤ view.length := by
  rcases chunkTurn_ret turn with ⟨-, -, rfl, -⟩ | ⟨-, -, -, line, found, -, rfl⟩
  · omega
  · exact (nextLine_bound found).2

theorem parseChunked_bound {cb : Callback} {pos : Nat}
    (parsed : parseChunked cb pos p req view = .ok (n, p', req')) :
    pos ≤ n ∧ n ≤ pos + view.length := by
  fun_induction parseChunked cb pos p req view with
  | case1 pos p req view q r m turn =>
    cases parsed
    have := chunkTurn_bound turn
    omega
  | case2 | case4 => cases parsed
  | case3 pos p req view q r m turn ih =>
    have := chunkTurn_next_bound turn
    have := ih parsed
    rw [List.length_drop] at this
    omega
  | case5 pos p req view q r m turn quiet ih =>
    obtain ⟨-, -, called⟩ := chunkTurn_call.mp turn
    obtain ⟨rfl, -⟩ := deliver_call.mp called
    have := ih parsed
    rw [List.length_drop] at this
    omega

theorem parseChunked_halts {cb : Callback} {pos : Nat} (mode : p.body = .chunked)
    (state : req.state = .processingBody)
    (parsed : parseChunked cb pos p req view = .ok (n, p', req')) :
    p'.body = .chunked ∧ req'.limit = req.limit ∧
    (bodyMachine req.limit).Halts (framing p req) view (framing p' req') (view.drop (n - pos)) ∧
      ¬ (framing p' req').Overdue (view.drop (n - pos)) := by
  fun_induction parseChunked cb pos p req view with
  | case1 pos p req view q r m turn =>
    cases parsed
    obtain ⟨halted, patient⟩ := chunkTurn_ret_halts req.limit mode state turn
    rw [Nat.add_sub_cancel_left]
    refine ⟨?_, ?_, halted, patient⟩
    all_goals
      rcases chunkTurn_ret turn with ⟨rfl, rfl, -⟩ | ⟨-, rfl, rfl, -⟩
      · first | exact mode | rfl
      · first | exact mode | rfl
  | case2 | case4 => cases parsed
  | case3 pos p req view q r m turn ih =>
    obtain ⟨step, mode', rfl⟩ := chunkTurn_next_step req.limit mode state turn
    obtain ⟨mode'', limit, halted, patient⟩ := ih mode' state parsed
    rw [drop_sub (parseChunked_bound parsed).1]
    exact ⟨mode'', limit, ⟨.head step halted.steps, halted.waits⟩, patient⟩
  | case5 pos p req view q r m turn quiet ih =>
    obtain ⟨steps, rfl, rfl, -⟩ := chunkTurn_call_steps mode state turn
    obtain ⟨mode', limit, halted, patient⟩ := ih mode state parsed
    rw [drop_sub (parseChunked_bound parsed).1]
    exact ⟨mode', limit, ⟨steps.trans halted.steps, halted.waits⟩, patient⟩

theorem parseChunked_throws {cb : Callback} {pos : Nat} {thrown : Thrown}
    (quiet : ∀ before piece, cb before piece = none) (mode : p.body = .chunked)
    (state : req.state = .processingBody) (parsed : parseChunked cb pos p req view = .error thrown) :
    (∃ e, (bodyMachine req.limit).Fails (framing p req) view e) ∨
      ∃ s' d', (bodyMachine req.limit).Halts (framing p req) view s' d' ∧ s'.Overdue d' := by
  fun_induction parseChunked cb pos p req view with
  | case1 => cases parsed
  | case2 pos p req view e q r turn =>
    rcases chunkTurn_fail_step mode state turn with failed | ⟨halted, overdue⟩
    · exact .inl failed
    · exact .inr ⟨_, _, halted, overdue⟩
  | case3 pos p req view q r m turn ih =>
    obtain ⟨step, mode', rfl⟩ := chunkTurn_next_step req.limit mode state turn
    rcases ih mode' state parsed with ⟨e, failed⟩ | ⟨s', d', halted, overdue⟩
    · exact .inl ⟨e, .of_steps (.single step) failed⟩
    · exact .inr ⟨s', d', ⟨.head step halted.steps, halted.waits⟩, overdue⟩
  | case4 pos p req view q r m turn e threw => simp [quiet] at threw
  | case5 pos p req view q r m turn _ ih =>
    obtain ⟨steps, rfl, rfl, -⟩ := chunkTurn_call_steps mode state turn
    rcases ih mode state parsed with ⟨e, failed⟩ | ⟨s', d', halted, overdue⟩
    · exact .inl ⟨e, .of_steps steps failed⟩
    · exact .inr ⟨s', d', ⟨steps.trans halted.steps, halted.waits⟩, overdue⟩

end Chunked

section Body

variable {cb : Callback} {p p' : Parser} {req req' : Request} {data : Bytes} {n : Nat}

theorem parseBody_cases (parsed : parseBody cb p data req = .ok (n, p', req')) :
    ((req.state = .completed ∨ p.body = .none) ∧ n = 0 ∧ p' = p ∧ req' = req) ∨
    (req.state ≠ .completed ∧ p.body = .chunked ∧
      parseChunked cb 0 p { req with state := .processingBody } data = .ok (n, p', req')) ∨
    (req.state ≠ .completed ∧ p.body = .contentLength ∧ min p.remaining data.length = 0 ∧ n = 0 ∧
      (p', req') = lengthDelivered p { req with state := .processingBody } 0) ∨
    (req.state ≠ .completed ∧ p.body = .contentLength ∧ n = min p.remaining data.length ∧ 0 < n ∧
      req.limit.Allows (framing p req) n ∧
      (p', req') = lengthDelivered { p with received := p.received + n }
        (Request.receive { req with state := .processingBody } (data.take n)) n) := by
  unfold parseBody bodyTurn at parsed
  by_cases stop : req.state = .completed ∨ p.body = .none
  · simp only [stop, if_true] at parsed
    cases parsed
    exact .inl ⟨stop, rfl, rfl, rfl⟩
  obtain ⟨running, mode⟩ := not_or.mp stop
  simp only [stop, if_false] at parsed
  by_cases chunked : p.body = .chunked
  · simp only [chunked, if_true, List.drop_zero] at parsed
    exact .inr (.inl ⟨running, chunked, parsed⟩)
  have length : p.body = .contentLength := by cases body : p.body <;> simp_all
  simp only [chunked, if_false] at parsed
  split_ifs at parsed with big filled
  · split at parsed
    · exact absurd ‹_› (deliver_ne_ret _)
    · cases parsed
    · exact absurd ‹_› (deliver_ne_next _ _ _ _ _ _)
    · rename_i called
      have allowed := deliver_allows called
      obtain ⟨rfl, rfl, rfl, -⟩ := deliver_call.mp called
      split at parsed
      · cases parsed
      · injection parsed with returned
        injection returned with count result
        subst count
        exact .inr (.inr (.inr ⟨running, length, rfl, by omega, allowed, result.symm⟩))
  · injection parsed with returned
    injection returned with count result
    exact .inr (.inr (.inl ⟨running, length, not_not.mp filled, count.symm, result.symm⟩))

theorem parseBody_bound (parsed : parseBody cb p data req = .ok (n, p', req')) :
    n ≤ data.length := by
  obtain ⟨-, rfl, -⟩ | ⟨-, -, chunked⟩ | ⟨-, -, -, rfl, -⟩ | ⟨-, -, rfl, -⟩ := parseBody_cases parsed
  · omega
  · have := parseChunked_bound chunked
    omega
  · omega
  · omega

theorem body_enter (lim : Limit) (filled : data ≠ []) (running : req.state ≠ .completed)
    (mode : p.body ≠ .none) :
    (bodyMachine lim).Steps (framing p req) data
      (framing p { req with state := .processingBody }) data := by
  by_cases state : req.state = .processingBody
  · have same : { req with state := .processingBody } = req := by rw [← state]
    rw [same]
    exact .refl _ _
  · refine .single ?_
    simp [bodyMachine, bodyStep, filled, running, mode, state, framing, Request.erase]

theorem lengthDelivered_limit : (lengthDelivered p req n).2.limit = req.limit := by
  unfold lengthDelivered
  dsimp only
  split_ifs <;> rfl

theorem framing_lengthDelivered (mode : p.body = .contentLength) {piece : Bytes}
    (size : piece.length = n) :
    framing (lengthDelivered { p with received := p.received + n } (req.receive piece) n).1
        (lengthDelivered { p with received := p.received + n } (req.receive piece) n).2 =
      (framing p req).advance piece := by
  by_cases last : p.remaining - n = 0 <;>
    simp [lengthDelivered, framing, Framing.advance, mode, size, last, Request.receive, Request.erase]

theorem parseBody_halts (filled : data ≠ []) (parsed : parseBody cb p data req = .ok (n, p', req')) :
    req'.limit = req.limit ∧
      (bodyMachine req.limit).Halts (framing p req) data (framing p' req') (data.drop n) := by
  obtain ⟨stop, rfl, rfl, rfl⟩ | ⟨running, mode, chunked⟩ | ⟨running, mode, none, rfl, result⟩ |
    ⟨running, mode, size, some, allowed, result⟩ := parseBody_cases parsed
  · refine ⟨rfl, .refl _ _, ?_⟩
    simp only [bodyMachine, bodyStep, List.drop_zero]
    rw [if_pos (.inr stop)]
  · obtain ⟨-, limit, halted, -⟩ := parseChunked_halts mode rfl chunked
    have enter := body_enter (p := p) req.limit filled running (by simp [mode])
    exact ⟨limit, enter.trans halted.steps, halted.waits⟩
  · have enter := body_enter (p := p) req.limit filled running (by simp [mode])
    have := List.length_pos_iff.mpr filled
    have nothing : p.remaining = 0 := by omega
    have reached : framing p' req' = framing p { req with state := .completed } := by
      rw [show p' = _ from congrArg Prod.fst result, show req' = _ from congrArg Prod.snd result]
      simp [lengthDelivered, nothing]
      simp [← nothing]
    refine ⟨?_, ?_⟩
    · rw [show req' = _ from congrArg Prod.snd result, lengthDelivered_limit]
      rfl
    rw [reached]
    refine ⟨enter.trans (.single ?_), by simp [bodyMachine, bodyStep]⟩
    simp [bodyMachine, bodyStep, filled, mode, lengthStep, nothing, framing, Request.erase]
  · have enter := body_enter (p := p) req.limit filled running (by simp [mode])
    have long : (data.take n).length = n := by simp; omega
    have reached : framing p' req' =
        (framing p { req with state := .processingBody }).advance (data.take n) := by
      rw [show p' = _ from congrArg Prod.fst result, show req' = _ from congrArg Prod.snd result]
      exact framing_lengthDelivered mode long
    have reading : (framing p { req with state := .processingBody }).Reading :=
      ⟨rfl, by simp; omega, .inl mode⟩
    have nonempty : data.take n ≠ [] := by rw [← List.length_pos_iff]; omega
    have steps := data_steps reading nonempty (by rw [long, framing_withParser]; omega)
      (by rw [long]; exact allowed) (data.drop n)
    rw [List.take_append_drop] at steps
    refine ⟨?_, ?_⟩
    · rw [show req' = _ from congrArg Prod.snd result, lengthDelivered_limit]
      rfl
    rw [reached]
    refine ⟨enter.trans steps, ?_⟩
    by_cases last : data.length ≤ p.remaining
    · have rest : data.drop n = [] := by simp; omega
      simp [rest, bodyMachine, bodyStep]
    · have done := Framing.advance_completed (s := framing p { req with state := .processingBody })
        mode (show p.remaining ≤ (data.take n).length by omega)
      simp [bodyMachine, bodyStep, done]

theorem parseBody_throws {thrown : Thrown} (mode : p.body = .chunked)
    (parsed : parseBody cb p data req = .error thrown) :
    req.state ≠ .completed ∧
      parseChunked cb 0 p { req with state := .processingBody } data = .error thrown := by
  unfold parseBody bodyTurn at parsed
  by_cases done : req.state = .completed
  · simp [done] at parsed
  · exact ⟨done, by simpa [done, mode] using parsed⟩

end Body

end Dracon
