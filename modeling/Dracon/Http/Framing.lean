import Dracon.Http.Parser
import Dracon.Shared.StreamMachine

set_option autoImplicit false

namespace Dracon

open Shared

-- The pieces the callback saw are kept as their concatenation, and `m_head_seen` grows line by line.
structure Framing where
  parser : Parser
  req : Request
  body : Bytes
  deriving DecidableEq

structure Limit where
  callback : Bool
  maxBodySize : Nat
  deriving DecidableEq

def Request.limit (req : Request) : Limit := ⟨req.callback, req.maxBodySize⟩

def Request.erase (req : Request) : Request :=
  { req with callback := false, maxBodySize := 0, delivered := [] }

@[simp] theorem Request.erase_state (req : Request) : req.erase.state = req.state := rfl

def framing (p : Parser) (req : Request) : Framing := ⟨p, req.erase, req.delivered.flatten⟩

@[simp] theorem framing_withParser (p : Parser) (req : Request) : (framing p req).parser = p := rfl
@[simp] theorem framing_req (p : Parser) (req : Request) : (framing p req).req = req.erase := rfl
@[simp] theorem framing_body (p : Parser) (req : Request) :
    (framing p req).body = req.delivered.flatten := rfl

def Request.inBody (req : Request) : Bool :=
  req.state = .headersCompleted ∨ req.state = .processingBody ∨ req.state = .completed

@[simp] theorem Request.erase_inBody (req : Request) : req.erase.inBody = req.inBody := rfl

def Parser.see (p : Parser) (n : Nat) : Parser := { p with headSeen := p.headSeen + n }

@[simp] theorem Parser.see_head (p : Parser) (n : Nat) : (p.see n).head = p.head := rfl
@[simp] theorem Parser.see_headSeen (p : Parser) (n : Nat) :
    (p.see n).headSeen = p.headSeen + n := rfl
@[simp] theorem Parser.see_zero (p : Parser) : p.see 0 = p := rfl
@[simp] theorem Parser.see_see (p : Parser) (m n : Nat) : (p.see m).see n = p.see (m + n) := by
  simp [Parser.see, Nat.add_assoc]

def headLine (s : Framing) (line : Line) : Except Exc Framing :=
  match s.parser.head with
  | .requestLine =>
    if line.text = [] then .ok { s with parser := s.parser.see line.next }
    else match parseRequestLine s.parser line.text s.req with
      | .error e => .error e
      | .ok (p, req) =>
        if p.headSeen + line.next > maxHeadSize then
          .error (fail 431 "Request header fields too large")
        else .ok ⟨Parser.see { p with head := .headers } line.next,
          { req with state := .processingHeader }, s.body⟩
  | .headers =>
    if s.parser.headSeen + line.next > maxHeadSize then
      .error (fail 431 "Request header fields too large")
    else if line.text = [] then
      match finalizeHead s.parser s.req with
      | .error e => .error e
      | .ok (p, req) => .ok ⟨Parser.see { p with head := .done } line.next, req, s.body⟩
    else match parseHeaderField s.parser line.text s.req with
      | .error e => .error e
      | .ok (p, req) => .ok ⟨p.see line.next, req, s.body⟩
  | .done => .ok s

def lineStep {σ : Type} (complete : Line → Except Exc σ) (d : Bytes) : Verdict σ Byte Exc :=
  match nextLine d with
  | none => .wait
  | some line =>
    match complete line with
    | .error e => .fail e
    | .ok s => .next s (d.drop line.next)

def Framing.begin (s : Framing) : Framing :=
  let (p, req) := beginRequest s.parser s.req
  ⟨p, req, s.body⟩

def headStep (s : Framing) (d : Bytes) : Verdict Framing Byte Exc :=
  if d = [] ∨ s.req.inBody then .wait
  else if s.req.state = .uninitialized then .next s.begin d
  else if s.parser.head = .done then .wait
  else lineStep (headLine s) d

def Turn.outcome (body : Bytes) : Turn → Except Exc Framing
  | .ret p req _ | .next p req _ | .call p req _ => .ok ⟨p, req, body⟩
  | .fail e _ _ => .error e

def Framing.advance (s : Framing) (piece : Bytes) : Framing :=
  if s.parser.body = .chunked then
    ⟨chunkDelivered { s.parser with received := s.parser.received + piece.length } piece.length,
      s.req, s.body ++ piece⟩
  else
    let (p, req) := lengthDelivered { s.parser with received := s.parser.received + piece.length }
      s.req piece.length
    ⟨p, req, s.body ++ piece⟩

def dataStep (lim : Limit) (s : Framing) (d : Bytes) : Verdict Framing Byte Exc :=
  match deliver s.parser (s.req.appendBodyCallback lim.callback lim.maxBodySize)
      (min s.parser.remaining 1) with
  | .call _ _ n => .next (s.advance (d.take n)) (d.drop n)
  | .fail e _ _ => .fail e
  | _ => .wait

def dataEndStep (s : Framing) (d : Bytes) : Verdict Framing Byte Exc :=
  match dataEndTurn s.parser s.req d with
  | .next p req n => .next ⟨p, req, s.body⟩ (d.drop n)
  | .fail e _ _ => .fail e
  | _ => .wait

def chunkStep (lim : Limit) (s : Framing) (d : Bytes) : Verdict Framing Byte Exc :=
  match s.parser.chunk with
  | .size => lineStep (fun line => (sizeLine s.parser s.req line).outcome s.body) d
  | .data => dataStep lim s d
  | .dataEnd => dataEndStep s d
  | .trailers => lineStep (fun line => (trailerLine s.parser s.req line).outcome s.body) d

def lengthStep (lim : Limit) (s : Framing) (d : Bytes) : Verdict Framing Byte Exc :=
  if s.parser.remaining = 0 then .next { s with req := { s.req with state := .completed } } d
  else dataStep lim s d

def bodyStep (lim : Limit) (s : Framing) (d : Bytes) : Verdict Framing Byte Exc :=
  if d = [] ∨ s.req.state = .completed ∨ s.parser.body = .none then .wait
  else if s.req.state ≠ .processingBody then
    .next { s with req := { s.req with state := .processingBody } } d
  else if s.parser.body = .chunked then chunkStep lim s d
  else lengthStep lim s d

theorem nextLine_eq_some {d : Bytes} {line : Line} :
    nextLine d = some line ↔
      ∃ text rest, d = text ++ lf :: rest ∧ lf ∉ text ∧ line = ⟨stripCr text, text.length + 1⟩ := by
  simp only [nextLine, Option.map_eq_some_iff, Prod.exists, cut_eq_some]
  grind

theorem nextLine_eq_none {d : Bytes} : nextLine d = none ↔ lf ∉ d := by
  simp [nextLine, cut_eq_none]

theorem drop_sub {view : Bytes} {pos m n : Nat} (first : pos + m ≤ n) :
    view.drop (n - pos) = (view.drop m).drop (n - (pos + m)) := by
  rw [List.drop_drop]
  congr 1
  omega

theorem nextLine_append {d : Bytes} {line : Line} (more : Bytes) (found : nextLine d = some line) :
    nextLine (d ++ more) = some line := by
  obtain ⟨text, rest, rfl, absent, rfl⟩ := nextLine_eq_some.mp found
  exact nextLine_eq_some.mpr ⟨text, rest ++ more, by simp, absent, rfl⟩

theorem nextLine_beyond {u v : Bytes} {line : Line} (unfinished : nextLine u = none)
    (found : nextLine (u ++ v) = some line) : u.length < line.next := by
  obtain ⟨text, rest, split, -, rfl⟩ := nextLine_eq_some.mp found
  by_contra inside
  have bound : text.length + 1 ≤ u.length := by simpa using inside
  have same := congrArg (List.take (text.length + 1)) split
  rw [List.take_append_of_le_length bound] at same
  have member : lf ∈ u.take (text.length + 1) := by simp [same, List.take_append]
  exact nextLine_eq_none.mp unfinished (List.mem_of_mem_take member)

theorem lineStep_next {σ : Type} {complete : Line → Except Exc σ} {d d' : Bytes} {s : σ} :
    lineStep complete d = .next s d' ↔
      ∃ line, nextLine d = some line ∧ complete line = .ok s ∧ d' = d.drop line.next := by
  unfold lineStep
  cases nextLine d with
  | none => simp
  | some line => cases result : complete line <;> simp [result, eq_comm]

theorem lineStep_fail {σ : Type} {complete : Line → Except Exc σ} {d : Bytes} {e : Exc} :
    lineStep complete d = .fail e ↔ ∃ line, nextLine d = some line ∧ complete line = .error e := by
  unfold lineStep
  cases nextLine d with
  | none => simp
  | some line => cases result : complete line <;> simp [result]

theorem lineStep_wait {σ : Type} {complete : Line → Except Exc σ} {d : Bytes} :
    lineStep complete d = .wait ↔ nextLine d = none := by
  unfold lineStep
  cases nextLine d with
  | none => simp
  | some line => cases result : complete line <;> simp [result]

theorem lineStep_stable {σ : Type} (complete : Line → Except Exc σ) : Stable (lineStep complete) where
  next_local _ h := by
    obtain ⟨line, found, done, rfl⟩ := lineStep_next.mp h
    obtain ⟨text, rest, rfl, absent, rfl⟩ := nextLine_eq_some.mp found
    refine ⟨text ++ [lf], by simp, fun r _ => ?_⟩
    refine lineStep_next.mpr ⟨_, nextLine_eq_some.mpr ⟨text, r, by simp, absent, rfl⟩, done, ?_⟩
    simp
  fail_append more _ h := by
    obtain ⟨line, found, done⟩ := lineStep_fail.mp h
    exact lineStep_fail.mpr ⟨line, nextLine_append more found, done⟩

theorem headStep_stable (s : Framing) : Stable (headStep s) := by
  have body := Stable.ite (s.req.inBody = true) (fun _ => Stable.wait) fun _ =>
    Stable.ite (s.req.state = .uninitialized)
      (fun _ => Stable.move s.begin)
      fun _ => Stable.ite (s.parser.head = .done) (fun _ => Stable.wait)
        fun _ => lineStep_stable (headLine s)
  exact body.congr fun d filled => by simp [headStep, filled]

def headMachine : Machine Framing Byte Exc where
  step := headStep
  idle s := by simp [headStep]
  stable := headStep_stable

def Limit.Allows (lim : Limit) (s : Framing) (n : Nat) : Prop :=
  lim.callback ∧ (lim.maxBodySize ≠ 0 → s.parser.received + n ≤ lim.maxBodySize)

theorem dataStep_next {lim : Limit} {s s' : Framing} {d d' : Bytes} :
    dataStep lim s d = .next s' d' ↔ lim.Allows s (min s.parser.remaining 1) ∧
      s' = s.advance (d.take (min s.parser.remaining 1)) ∧
      d' = d.drop (min s.parser.remaining 1) := by
  unfold dataStep deliver Limit.Allows
  split_ifs <;> grind [Request.appendBodyCallback]

theorem dataStep_fail {lim : Limit} {s : Framing} {d : Bytes} :
    (∃ e, dataStep lim s d = .fail e) ↔ ¬ lim.Allows s (min s.parser.remaining 1) := by
  unfold dataStep deliver Limit.Allows
  split_ifs <;> grind [Request.appendBodyCallback]

theorem dataStep_stable (lim : Limit) (s : Framing) : Stable (dataStep lim s) where
  next_local {d _ _} filled h := by
    obtain ⟨allowed, rfl, rfl⟩ := dataStep_next.mp h
    have bound : min s.parser.remaining 1 ≤ d.length := by
      have := List.length_pos_iff.mpr filled
      omega
    have size : (d.take (min s.parser.remaining 1)).length = min s.parser.remaining 1 := by simp; omega
    refine ⟨d.take (min s.parser.remaining 1), by simp, fun r _ => dataStep_next.mpr ⟨allowed, ?_, ?_⟩⟩
    · rw [List.take_append_of_le_length size.ge, List.take_of_length_le size.le]
    · rw [List.drop_append_of_le_length size.ge, List.drop_of_length_le size.le, List.nil_append]
  fail_append more _ h := by
    unfold dataStep deliver at *
    split_ifs at * <;> simp_all

theorem dataEndStep_next {s s' : Framing} {d d' : Bytes} :
    dataEndStep s d = .next s' d' ↔ s' = { s with parser := { s.parser with chunk := .size } } ∧
      (d = lf :: d' ∨ d = cr :: lf :: d') := by
  unfold dataEndStep
  fun_cases dataEndTurn s.parser s.req d <;> simp_all <;> grind

theorem dataEndStep_fail {s : Framing} {d : Bytes} {e : Exc} :
    dataEndStep s d = .fail e ↔ e = fail 400 "Invalid chunk" ∧
      ∃ c rest, (d = c :: rest ∧ c ≠ lf ∧ c ≠ cr) ∨ (d = cr :: c :: rest ∧ c ≠ lf) := by
  unfold dataEndStep
  fun_cases dataEndTurn s.parser s.req d <;> simp_all <;> grind

theorem dataEndStep_stable (s : Framing) : Stable (dataEndStep s) where
  next_local _ h := by
    obtain ⟨rfl, rfl | rfl⟩ := dataEndStep_next.mp h
    · exact ⟨[lf], rfl, fun r _ => dataEndStep_next.mpr ⟨rfl, .inl rfl⟩⟩
    · exact ⟨[cr, lf], rfl, fun r _ => dataEndStep_next.mpr ⟨rfl, .inr rfl⟩⟩
  fail_append more _ h := by
    obtain ⟨rfl, c, rest, ⟨rfl, other⟩ | ⟨rfl, other⟩⟩ := dataEndStep_fail.mp h
    · exact dataEndStep_fail.mpr ⟨rfl, c, rest ++ more, .inl ⟨rfl, other⟩⟩
    · exact dataEndStep_fail.mpr ⟨rfl, c, rest ++ more, .inr ⟨rfl, other⟩⟩

theorem chunkStep_stable (lim : Limit) (s : Framing) : Stable (chunkStep lim s) := by
  unfold chunkStep
  cases s.parser.chunk with
  | size => exact lineStep_stable _
  | data => exact dataStep_stable lim s
  | dataEnd => exact dataEndStep_stable s
  | trailers => exact lineStep_stable _

theorem bodyStep_stable (lim : Limit) (s : Framing) : Stable (bodyStep lim s) := by
  have length : Stable (lengthStep lim s) :=
    .ite _ (fun _ => .move _) fun _ => dataStep_stable lim s
  have body := Stable.ite (s.req.state = .completed ∨ s.parser.body = .none) (fun _ => Stable.wait)
    fun _ => Stable.ite (s.req.state ≠ .processingBody)
      (fun _ => Stable.move { s with req := { s.req with state := .processingBody } })
      fun _ => Stable.ite (s.parser.body = .chunked) (fun _ => chunkStep_stable lim s) fun _ => length
  exact body.congr fun d filled => by simp [bodyStep, filled]

theorem chunkStep_next {lim : Limit} {s s' : Framing} {d d' : Bytes} :
    chunkStep lim s d = .next s' d' ↔
      (s.parser.chunk = .size ∧ ∃ line size, nextLine d = some line ∧ chunkSize line.text = .ok size ∧
        d' = d.drop line.next ∧ s' = { s with parser := { s.parser with
          remaining := size, chunk := if size ≠ 0 then .data else .trailers } }) ∨
      (s.parser.chunk = .data ∧ dataStep lim s d = .next s' d') ∨
      (s.parser.chunk = .dataEnd ∧ (d = lf :: d' ∨ d = cr :: lf :: d') ∧
        s' = { s with parser := { s.parser with chunk := .size } }) ∨
      (s.parser.chunk = .trailers ∧ ∃ line, nextLine d = some line ∧ d' = d.drop line.next ∧
        ((line.text = [] ∧ s' = { s with req := { s.req with state := .completed } }) ∨
          (line.text ≠ [] ∧ s.parser.headers + 1 ≤ maxHeadersCount ∧ allChars line.text .valueChar ∧
            s' = { s with parser := { s.parser with headers := s.parser.headers + 1 } }))) := by
  unfold chunkStep
  cases chunk : s.parser.chunk <;> simp only [reduceCtorEq, false_and, true_and, false_or, or_false]
  case size =>
    simp only [lineStep_next, sizeLine]
    constructor
    · rintro ⟨line, found, result, rfl⟩
      cases size : chunkSize line.text <;> simp [size, Turn.outcome] at result
      exact ⟨line, _, found, size, rfl, by simp [← result]⟩
    · rintro ⟨line, size, found, decoded, rfl, rfl⟩
      exact ⟨line, found, by simp [decoded, Turn.outcome], rfl⟩
  case dataEnd => rw [dataEndStep_next, and_comm]
  case trailers =>
    simp only [lineStep_next, trailerLine]
    constructor
    · rintro ⟨line, found, result, rfl⟩
      refine ⟨line, found, rfl, ?_⟩
      split_ifs at result with blank many text <;> simp [Turn.outcome] at result
      · exact .inl ⟨blank, by simp [← result]⟩
      · exact .inr ⟨blank, by omega, by simpa using text, by simp [← result, chunk]⟩
    · rintro ⟨line, found, rfl, ⟨blank, rfl⟩ | ⟨filled, few, text, rfl⟩⟩
      · exact ⟨line, found, by simp [blank, Turn.outcome], rfl⟩
      · exact ⟨line, found, by simp [filled, not_lt.mpr few, text, Turn.outcome, chunk], rfl⟩

theorem bodyStep_next {lim : Limit} {s s' : Framing} {d d' : Bytes} :
    bodyStep lim s d = .next s' d' ↔
      d ≠ [] ∧ s.req.state ≠ .completed ∧ s.parser.body ≠ .none ∧
      ((s.req.state ≠ .processingBody ∧ d' = d ∧
          s' = { s with req := { s.req with state := .processingBody } }) ∨
        (s.req.state = .processingBody ∧ s.parser.body = .chunked ∧
          chunkStep lim s d = .next s' d') ∨
        (s.req.state = .processingBody ∧ s.parser.body = .contentLength ∧
          ((s.parser.remaining = 0 ∧ d' = d ∧
              s' = { s with req := { s.req with state := .completed } }) ∨
            (0 < s.parser.remaining ∧ dataStep lim s d = .next s' d')))) := by
  unfold bodyStep lengthStep
  cases mode : s.parser.body <;> split_ifs <;> grind

def bodyMachine (lim : Limit) : Machine Framing Byte Exc where
  step := bodyStep lim
  idle s := by simp [bodyStep]
  stable := bodyStep_stable lim

def messageMachine (lim : Limit) : Machine Framing Byte Exc :=
  headMachine.andThen (bodyMachine lim) fun s => s.req.inBody

theorem headStep_line {s : Framing} (d : Bytes)
    (state : s.req.state = .processingUrl ∨ s.req.state = .processingHeader)
    (head : s.parser.head ≠ .done) : headStep s d = lineStep (headLine s) d := by
  by_cases empty : d = []
  · have missing : nextLine d = none := by simp [empty, nextLine_eq_none]
    rw [lineStep_wait.mpr missing]
    simp [headStep, empty]
  · rcases state with state | state <;> simp [headStep, empty, state, head, Request.inBody]

theorem messageMachine_body {lim : Limit} {s : Framing} (d : Bytes) (done : s.req.inBody) :
    (messageMachine lim).step s d = bodyStep lim s d := if_pos done

theorem bodyStep_stops {lim : Limit} {s : Framing} {d : Bytes}
    (stop : d = [] ∨ s.req.state = .completed ∨ s.parser.body = .none) : bodyStep lim s d = .wait :=
  if_pos stop

theorem headStep_next {s s' : Framing} {d d' : Bytes} :
    headStep s d = .next s' d' ↔ d ≠ [] ∧ s.req.inBody = false ∧
      ((s.req.state = .uninitialized ∧ d' = d ∧ s' = s.begin) ∨
        (s.req.state ≠ .uninitialized ∧ s.parser.head ≠ .done ∧
          lineStep (headLine s) d = .next s' d')) := by
  unfold headStep
  split_ifs <;> grind

theorem headStep_inBody {s : Framing} (d : Bytes) (done : s.req.inBody) : headStep s d = .wait := by
  simp [headStep, done]

end Dracon
