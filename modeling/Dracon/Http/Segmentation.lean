import Dracon.Http.HeadRefinement
import Dracon.Http.BodyRefinement

set_option autoImplicit false

namespace Dracon

open Shared

structure Reception where
  parser : Parser := {}
  req : Request := {}
  deriving DecidableEq

def Request.headParsed (req : Request) : Bool :=
  req.state = .headersCompleted ∨ req.state = .completed

def readBody (cb : Callback) (t : Reception) (data : Bytes) : Except Exc (Nat × Reception) :=
  if data = [] ∨ t.req.state = .completed then .ok (0, t)
  else match parseBody cb t.parser data t.req with
    | .error thrown => .error thrown.exc
    | .ok (n, p, req) => .ok (n, ⟨p, req⟩)

-- How `read_headers` uses `parse_head`. Once the head is parsed the session registers its callback and reads the body out of
-- what is left.
def readHead (cb : Callback) (lim : Limit) (t : Reception) (data : Bytes) :
    Except Exc (Nat × Reception) :=
  if data = [] then .ok (0, t)
  else match parseHead t.parser data t.req with
    | .error e => .error e
    | .ok (n, p, req) =>
      if req.headParsed then
        match readBody cb ⟨p, req.appendBodyCallback lim.callback lim.maxBodySize⟩ (data.drop n) with
        | .error e => .error e
        | .ok (k, t) => .ok (n + k, t)
      else .ok (n, ⟨p, req⟩)

def receive (cb : Callback) (lim : Limit) (t : Reception) (data : Bytes) :
    Except Exc (Nat × Reception) :=
  if t.req.inBody then readBody cb t data else readHead cb lim t data

theorem bodyStep_inBody {lim : Limit} {s s' : Framing} {d d' : Bytes} (_ : s.req.inBody)
    (step : bodyStep lim s d = .next s' d') : s'.req.inBody := by
  rcases bodyStep_state step with state | state <;> simp [Request.inBody, state]

variable {cb : Callback} {lim : Limit} {t t' : Reception} {data : Bytes} {n : Nat}

theorem readBody_halts (inBody : t.req.inBody) (limit : t.req.limit = lim)
    (called : readBody cb t data = .ok (n, t')) :
    n ≤ data.length ∧ t'.req.inBody ∧ t'.req.limit = lim ∧
      (messageMachine lim).Halts (framing t.parser t.req) data (framing t'.parser t'.req)
        (data.drop n) := by
  unfold readBody at called
  split_ifs at called with stop
  · cases called
    refine ⟨by simp, inBody, limit, .refl _ _, ?_⟩
    rw [messageMachine_body _ inBody, List.drop_zero]
    exact bodyStep_stops (stop.imp_right .inl)
  · obtain ⟨filled, -⟩ := not_or.mp stop
    split at called
    · cases called
    · rename_i parsed
      cases called
      obtain ⟨limit', halted⟩ := parseBody_halts filled parsed
      rw [limit] at limit' halted
      have done := halted.steps.invariant (P := fun s => s.req.inBody) bodyStep_inBody inBody
      exact ⟨parseBody_bound parsed, done, limit', halted.andThen_right bodyStep_inBody inBody⟩

theorem headStep_headParsed {s s' : Framing} {d d' : Bytes} (state : s.req.state ≠ .processingBody)
    (step : headStep s d = .next s' d') : s'.req.state ≠ .processingBody := by
  obtain ⟨-, -, ⟨-, -, rfl⟩ | ⟨-, -, line⟩⟩ := headStep_next.mp step
  · simp [Framing.begin, beginRequest]
  · obtain ⟨line, -, result, -⟩ := lineStep_next.mp line
    rcases headLine_state result with same | same | same | same <;> simp_all

theorem readHead_halts (head : t.req.inBody = false) (called : readHead cb lim t data = .ok (n, t')) :
    n ≤ data.length ∧ (t'.req.inBody → t'.req.limit = lim) ∧
      (messageMachine lim).Halts (framing t.parser t.req) data (framing t'.parser t'.req)
        (data.drop n) := by
  have stops (s : Framing) (d : Bytes) (done : s.req.inBody) : headMachine.step s d = .wait :=
    headStep_inBody d done
  unfold readHead at called
  split_ifs at called with empty
  · cases called
    refine ⟨by simp, by simp [head], .refl _ _, ?_⟩
    rw [List.drop_zero, empty, (messageMachine lim).idle]
  split at called
  · cases called
  rename_i m p req parsed
  have bound := parseHead_bound parsed
  obtain ⟨-, halted⟩ := parseHead_halts head empty parsed
  have between : req.state ≠ .processingBody :=
    halted.steps.invariant (P := fun s => s.req.state ≠ .processingBody) headStep_headParsed
      (fun state => by simp_all [Request.inBody])
  split_ifs at called with done
  · -- the head is complete: the body is read out of the rest
    split at called
    · cases called
    rename_i k body read
    cases called
    have inBody : (req.appendBodyCallback lim.callback lim.maxBodySize).inBody := by
      simp_all [Request.inBody, Request.headParsed, Request.appendBodyCallback]
    obtain ⟨rest, -, limit, halted'⟩ := readBody_halts inBody rfl read
    rw [List.length_drop] at rest
    rw [List.drop_drop] at halted'
    exact ⟨by omega, fun _ => limit, (halted.steps.andThen_left stops).trans halted'.steps, halted'.waits⟩
  · cases called
    have running : req.inBody = false := by
      simp_all [Request.inBody, Request.headParsed]
    exact ⟨bound, by simp [running], halted.andThen_left stops running⟩

def receiver (cb : Callback) (lim : Limit) : Driver (messageMachine lim) Reception Exc where
  call := receive cb lim
  sim t s := s = framing t.parser t.req ∧ (t.req.inBody → t.req.limit = lim)
  halts := by
    rintro t s d n t' ⟨rfl, limit⟩ called
    unfold receive at called
    split_ifs at called with inBody
    · obtain ⟨bound, inBody', limit', halted⟩ := readBody_halts inBody (limit inBody) called
      exact ⟨bound, _, ⟨rfl, fun _ => limit'⟩, halted⟩
    · obtain ⟨bound, limit', halted⟩ := readHead_halts (by simpa using inBody) called
      exact ⟨bound, _, ⟨rfl, limit'⟩, halted⟩

/-- Where the cuts between the received pieces fall makes no difference to a message. -/
theorem message_cut_independent :
    (∀ (cb : Callback) (lim : Limit) (p : Parser) (pieces₁ pieces₂ : List Bytes),
      pieces₁.flatten = pieces₂.flatten → ∀ t₁ t₂ rest₁ rest₂,
      feedAll (receive cb lim) ⟨p, {}⟩ [] pieces₁ = .ok (t₁, rest₁) →
      feedAll (receive cb lim) ⟨p, {}⟩ [] pieces₂ = .ok (t₂, rest₂) →
      t₁.req.method = t₂.req.method ∧ t₁.req.url = t₂.req.url ∧ t₁.req.fields = t₂.req.fields ∧
        t₁.req.keepAlive = t₂.req.keepAlive ∧ t₁.req.state = t₂.req.state ∧
        t₁.req.delivered.flatten = t₂.req.delivered.flatten ∧ rest₁ = rest₂) ∧
    (∀ p data req n p' req', parseHead p data req = .ok (n, p', req') → n ≤ data.length) ∧
    (∀ cb p data req n p' req', parseBody cb p data req = .ok (n, p', req') → n ≤ data.length) := by
  refine ⟨?_, fun _ _ _ _ _ _ => parseHead_bound, fun _ _ _ _ _ _ _ => parseBody_bound⟩
  intro cb lim p pieces₁ pieces₂ same t₁ t₂ rest₁ rest₂ fed₁ fed₂
  have fresh : (receiver cb lim).sim ⟨p, {}⟩ (framing p {}) := ⟨rfl, by simp [Request.inBody]⟩
  obtain ⟨⟨s, ⟨related₁, -⟩, ⟨related₂, -⟩⟩, rest⟩ :=
    (receiver cb lim).feedAll_unique fresh ((messageMachine lim).idle _) same fed₁ fed₂
  have agree : framing t₁.parser t₁.req = framing t₂.parser t₂.req := related₁ ▸ related₂
  simp only [framing, Request.erase, Framing.mk.injEq, Request.mk.injEq] at agree
  grind

theorem message_cut_independent_post :
    let stream₁ := [bytes "POST / HTTP/1.1\r\nContent-Length: 3\r\n\r\nabcG"]
    let stream₂ := [bytes "POST / HTTP/1.1\r", bytes "\nContent-Length: 3\r\n\r\na", bytes "bcG"]
    ∃ t₁ t₂, feedAll (receive (fun _ _ => none) ⟨true, 0⟩) {} [] stream₁ = .ok (t₁, bytes "G") ∧
      feedAll (receive (fun _ _ => none) ⟨true, 0⟩) {} [] stream₂ = .ok (t₂, bytes "G") ∧
      t₁.req.delivered = [bytes "abc"] ∧ t₂.req.delivered = [bytes "a", bytes "bc"] ∧
      t₁.req.delivered.flatten = t₂.req.delivered.flatten := by
  let t (pieces : List Bytes) : Reception :=
    { parser := { head := .done, body := .contentLength, headSeen := 38, headers := 1,
                  received := 3, contentLength := 3, http11 := true, hasContentLength := true }
      req := { fields := [(bytes "Content-Length", bytes "3")], keepAlive := true, url := bytes "/",
               method := bytes "POST", callback := true, state := .completed, delivered := pieces } }
  have fed₁ : feedAll (receive (fun _ _ => none) ⟨true, 0⟩) {} []
      [bytes "POST / HTTP/1.1\r\nContent-Length: 3\r\n\r\nabcG"] =
        .ok (t [bytes "abc"], bytes "G") := by decide +kernel
  have fed₂ : feedAll (receive (fun _ _ => none) ⟨true, 0⟩) {} []
      [bytes "POST / HTTP/1.1\r", bytes "\nContent-Length: 3\r\n\r\na", bytes "bcG"] =
        .ok (t [bytes "a", bytes "bc"], bytes "G") := by decide +kernel
  have agree := message_cut_independent.1 _ _ _ _ _ (by decide) _ _ _ _ fed₁ fed₂
  exact ⟨_, _, fed₁, fed₂, rfl, rfl, agree.2.2.2.2.2.1⟩

end Dracon
