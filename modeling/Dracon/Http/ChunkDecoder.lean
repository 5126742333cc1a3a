import Dracon.Http.Segmentation

set_option autoImplicit false

namespace Dracon

open Shared

def decode (t : Reception) (data : Bytes) : Except Exc (Nat × Reception) :=
  match parseBody (fun _ _ => none) t.parser data t.req with
  | .error thrown => .error thrown.exc
  | .ok (n, p, req) => .ok (n, ⟨p, req⟩)

-- `parse_body` marks the request as being read even when there is nothing to read.
def Request.reading (req : Request) : Request :=
  if req.state = .completed then req else { req with state := .processingBody }

theorem Request.reading_eq {req : Request}
    (state : req.state = .processingBody ∨ req.state = .completed) : req.reading = req := by
  unfold Request.reading
  split_ifs with done
  · rfl
  · rw [← state.resolve_right done]

def Reception.framing (t : Reception) : Framing := Dracon.framing t.parser t.req.reading

theorem Reception.framing_eq {t : Reception} (running : t.req.state ≠ .completed) :
    t.framing = Dracon.framing t.parser { t.req with state := .processingBody } := by
  simp [Reception.framing, Request.reading, running]

theorem Reception.framing_body (t : Reception) : t.framing.body = t.req.delivered.flatten := by
  unfold Reception.framing Request.reading
  split_ifs <;> rfl

theorem Reception.framing_completed {t : Reception} :
    t.framing.req.state = .completed ↔ t.req.state = .completed := by
  unfold Reception.framing Request.reading
  split_ifs with done <;> simp [done]

theorem decode_halts {t t' : Reception} {d : Bytes} {n : Nat} (mode : t.parser.body = .chunked)
    (called : decode t d = .ok (n, t')) :
    n ≤ d.length ∧ t'.parser.body = .chunked ∧ t'.req.limit = t.req.limit ∧
      (bodyMachine t.req.limit).Halts t.framing d t'.framing (d.drop n) ∧
      ¬ t'.framing.Overdue (d.drop n) := by
  unfold decode at called
  split at called
  · cases called
  rename_i p req parsed
  cases called
  obtain ⟨stop, rfl, rfl, rfl⟩ | ⟨running, -, chunked⟩ | ⟨-, other, -⟩ | ⟨-, other, -⟩ :=
    parseBody_cases parsed
  · have done : t.req.state = .completed := by simpa [mode] using stop
    have same : t.framing = framing t.parser t.req := by simp [Reception.framing, Request.reading, done]
    refine ⟨by simp, mode, rfl, ⟨.refl _ _, ?_⟩, ?_⟩
    · rw [same]
      exact bodyStep_stops (.inr (.inl done))
    · simp [Framing.Overdue, Framing.lineLimit, Reception.framing, Request.reading, done]
  · obtain ⟨mode', limit, halted, patient⟩ := parseChunked_halts mode rfl chunked
    have state : req.state = .processingBody ∨ req.state = .completed :=
      halted.steps.invariant
        (P := fun s => s.req.state = .processingBody ∨ s.req.state = .completed)
        (fun _ => bodyStep_state) (.inl rfl)
    rw [Reception.framing_eq running, Reception.framing, Request.reading_eq state]
    exact ⟨parseBody_bound parsed, mode', limit, halted, patient⟩
  all_goals simp [mode] at other

theorem decode_throws {t : Reception} {d : Bytes} {e : Exc} (mode : t.parser.body = .chunked)
    (called : decode t d = .error e) :
    (∃ e, (bodyMachine t.req.limit).Fails t.framing d e) ∨
      ∃ s' d', (bodyMachine t.req.limit).Halts t.framing d s' d' ∧ s'.Overdue d' := by
  unfold decode at called
  split at called
  · rename_i parsed
    obtain ⟨running, chunked⟩ := parseBody_throws mode parsed
    rw [Reception.framing_eq running]
    exact parseChunked_throws (fun _ _ => rfl) mode rfl chunked
  · cases called

def decoder (lim : Limit) : StrictDriver (bodyMachine lim) Reception Exc where
  call := decode
  sim t s := t.parser.body = .chunked ∧ t.req.limit = lim ∧ s = t.framing
  halts := by
    rintro t s d n t' ⟨mode, rfl, rfl⟩ called
    obtain ⟨bound, mode', limit, halted, -⟩ := decode_halts mode called
    exact ⟨bound, _, ⟨mode', limit, rfl⟩, halted⟩
  overdue := Framing.Overdue
  patient := by
    rintro t s d n t' ⟨mode, rfl, rfl⟩ called s' halted
    obtain ⟨-, -, -, halted', patient⟩ := decode_halts mode called
    rwa [(halted.unique halted').1]
  throws := by
    rintro t s d e ⟨mode, rfl, rfl⟩ called
    exact decode_throws mode called

end Dracon
