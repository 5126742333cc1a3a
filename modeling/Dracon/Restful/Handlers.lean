import Dracon.Restful.Router

set_option autoImplicit false

namespace Dracon.Restful

inductive Capture where
  | string
  | optional
  deriving DecidableEq

-- A handler in the form of a session: the last of its parameters may have defaults.
structure CaptureHandler where
  withRequest : Bool
  params : List Capture
  required : Nat
  bounded : required ≤ params.length

inductive Handler where
  | route (withRequest : Bool)
  | captures (handler : CaptureHandler)

inductive Argument where
  | string (text : Bytes)
  | optional (text : Option Bytes)
  deriving DecidableEq

def capturedResource (captures : List Bytes) (index : Nat) : Bytes := (captures[index]?).getD []

def Capture.get (captures : List Bytes) (index : Nat) : Capture → Argument
  | .string => .string (capturedResource captures index)
  | .optional => .optional captures[index]?

-- An optional parameter also takes a string; a string does not take an optional.
def Capture.accepts (param arg : Capture) : Bool := param = .optional || arg = .string

namespace CaptureHandler

variable (handler : CaptureHandler)

def isCaptureInvocable (arg : Capture) (withRequest : Bool) (n : Nat) : Bool :=
  handler.withRequest = withRequest && handler.required ≤ n && n ≤ handler.params.length &&
    (handler.params.take n).all (Capture.accepts · arg)

def captureArity (arg : Capture) (withRequest : Bool) (least : Nat) : Nat → Option Nat
  | 0 => if handler.isCaptureInvocable arg withRequest 0 then some 0 else none
  | n + 1 =>
    if handler.isCaptureInvocable arg withRequest (n + 1) then some (n + 1)
    else if least < n + 1 then captureArity arg withRequest least n
    else none

end CaptureHandler

def maxHandlerCaptures : Nat := 8

inductive Invocation where
  | route (withRequest : Bool) (route : ParsedRoute)
  | captures (withRequest : Bool) (arguments : List Argument)
  deriving DecidableEq

def bindCaptures (arg : Capture) (withRequest : Bool) (route : ParsedRoute) (count : Nat) : Invocation :=
  .captures withRequest ((List.range count).map (arg.get route.captures))

-- `make_session`; a handler of another shape does not compile.
def makeSession (handler : Handler) (route : ParsedRoute) : Option Invocation :=
  match handler with
  | .route withRequest => some (.route withRequest route)
  | .captures handler =>
    if let some count := handler.captureArity .optional true 1 maxHandlerCaptures then
      some (bindCaptures .optional true route count)
    else if let some count := handler.captureArity .optional false 1 maxHandlerCaptures then
      some (bindCaptures .optional false route count)
    else if let some count := handler.captureArity .string true 0 maxHandlerCaptures then
      some (bindCaptures .string true route count)
    else if let some count := handler.captureArity .string false 0 maxHandlerCaptures then
      some (bindCaptures .string false route count)
    else none

namespace CaptureHandler

variable {handler : CaptureHandler} {arg : Capture} {withRequest : Bool} {least n m : Nat}

theorem captureArity_eq_some : handler.captureArity arg withRequest least n = some m →
    m ≤ n ∧ handler.isCaptureInvocable arg withRequest m ∧ ∀ k, m < k → k ≤ n → ¬ handler.isCaptureInvocable arg withRequest k := by
  induction n with
  | zero =>
    intro found
    rw [captureArity] at found
    split_ifs at found with fits
    cases found
    exact ⟨le_rfl, fits, fun k above below => by omega⟩
  | succ n ih =>
    intro found
    rw [captureArity] at found
    split_ifs at found with fits more
    · cases found
      exact ⟨le_rfl, fits, fun k above below => by omega⟩
    · obtain ⟨within, invocable, widest⟩ := ih found
      refine ⟨by omega, invocable, fun k above below => ?_⟩
      rcases Nat.lt_or_ge n k with last | inside
      · obtain rfl : k = n + 1 := by omega
        exact fits
      · exact widest k above inside

theorem captureArity_least (start : least ≤ n) (found : handler.captureArity arg withRequest least n = some m) : least ≤ m := by
  induction n with
  | zero =>
    rw [captureArity] at found
    split_ifs at found
    cases found
    exact start
  | succ n ih =>
    rw [captureArity] at found
    split_ifs at found with fits more
    · cases found
      exact start
    · exact ih (by omega) found

theorem captureArity_eq_none (missing : handler.captureArity arg withRequest least n = none) :
    ∀ k, least ≤ k → k ≤ n → ¬ handler.isCaptureInvocable arg withRequest k := by
  induction n with
  | zero =>
    rw [captureArity] at missing
    split_ifs at missing with fits
    intro k _ below
    obtain rfl : k = 0 := by omega
    exact fits
  | succ n ih =>
    rw [captureArity] at missing
    split_ifs at missing with fits more
    · intro k above below
      rcases Nat.lt_or_ge n k with last | inside
      · obtain rfl : k = n + 1 := by omega
        exact fits
      · exact ih missing k above inside
    · intro k above below
      obtain rfl : k = n + 1 := by omega
      exact fits

theorem captureArity_of_widest (start : least ≤ m) (within : m ≤ n) (invocable : handler.isCaptureInvocable arg withRequest m)
    (widest : ∀ k, m < k → ¬ handler.isCaptureInvocable arg withRequest k) :
    handler.captureArity arg withRequest least n = some m := by
  cases result : handler.captureArity arg withRequest least n with
  | none => exact absurd invocable (captureArity_eq_none result m start within)
  | some other =>
    obtain ⟨-, fits, above⟩ := captureArity_eq_some result
    rcases Nat.lt_trichotomy m other with less | same | more
    · exact absurd fits (widest other less)
    · rw [same]
    · exact absurd invocable (above m more within)

theorem captureArity_of_none (start : least ≤ n) (never : ∀ k, least ≤ k → ¬ handler.isCaptureInvocable arg withRequest k) :
    handler.captureArity arg withRequest least n = none := by
  cases result : handler.captureArity arg withRequest least n with
  | none => rfl
  | some count =>
    exact absurd (captureArity_eq_some result).2.1 (never count (captureArity_least start result))

variable (handler)

def leading : Nat := (handler.params.takeWhile (· = .optional)).length

-- Whether the captures are asked for as optional ones: the parameters in front have to do for a call.
def asksOptional : Bool := 0 < handler.leading ∧ handler.required ≤ handler.leading

theorem leading_le : handler.leading ≤ handler.params.length := (List.takeWhile_sublist _).length_le

theorem le_takeWhile_length {α : Type} {p : α → Bool} {l : List α} {n : Nat} :
    n ≤ (l.takeWhile p).length ↔ n ≤ l.length ∧ (l.take n).all p := by
  induction l generalizing n with
  | nil => simp
  | cons a l ih =>
    cases n with
    | zero => simp
    | succ n =>
      by_cases here : p a
      · simp [here, ih]
      · simp [here]

theorem invocable_optional (n : Nat) :
    handler.isCaptureInvocable .optional withRequest n ↔
      handler.withRequest = withRequest ∧ handler.required ≤ n ∧ n ≤ handler.leading := by
  have accepted : (Capture.accepts · .optional) = fun param : Capture => decide (param = .optional) := by
    funext param
    cases param <;> rfl
  simp only [isCaptureInvocable, accepted, leading, le_takeWhile_length, Bool.and_eq_true, decide_eq_true_eq, and_assoc]

theorem invocable_string (n : Nat) :
    handler.isCaptureInvocable .string withRequest n ↔
      handler.withRequest = withRequest ∧ handler.required ≤ n ∧ n ≤ handler.params.length := by
  simp [isCaptureInvocable, Capture.accepts, and_assoc]

theorem captureArity_optional (few : handler.params.length ≤ maxHandlerCaptures) :
    handler.captureArity .optional withRequest 1 maxHandlerCaptures =
      if handler.withRequest = withRequest ∧ handler.asksOptional then some handler.leading else none := by
  have bound := handler.leading_le
  split_ifs with asks
  · obtain ⟨same, asks⟩ := asks
    obtain ⟨some, enough⟩ : 0 < handler.leading ∧ handler.required ≤ handler.leading := by simpa [asksOptional] using asks
    refine captureArity_of_widest some (bound.trans few) ((handler.invocable_optional _).mpr ⟨same, enough, le_rfl⟩) ?_
    intro k above invocable
    have := ((handler.invocable_optional k).mp invocable).2.2
    omega
  · refine captureArity_of_none (by decide) fun k above invocable => asks ?_
    obtain ⟨same, enough, within⟩ := (handler.invocable_optional k).mp invocable
    exact ⟨same, by simp only [asksOptional, decide_eq_true_eq]; omega⟩

theorem captureArity_string (few : handler.params.length ≤ maxHandlerCaptures) :
    handler.captureArity .string withRequest 0 maxHandlerCaptures =
      if handler.withRequest = withRequest then some handler.params.length else none := by
  split_ifs with same
  · refine captureArity_of_widest (Nat.zero_le _) few ((handler.invocable_string _).mpr ⟨same, handler.bounded, le_rfl⟩) ?_
    intro k above invocable
    have := ((handler.invocable_string k).mp invocable).2.2
    omega
  · refine captureArity_of_none (Nat.zero_le _) fun k _ invocable => same ?_
    exact ((handler.invocable_string k).mp invocable).1

end CaptureHandler

theorem makeSession_captures (handler : CaptureHandler) (few : handler.params.length ≤ maxHandlerCaptures) (route : ParsedRoute) :
    makeSession (.captures handler) route =
      if handler.asksOptional then some (bindCaptures .optional handler.withRequest route handler.leading)
      else some (bindCaptures .string handler.withRequest route handler.params.length) := by
  simp only [makeSession, handler.captureArity_optional few, handler.captureArity_string few]
  cases handler.withRequest <;> cases handler.asksOptional <;> simp

/--
A handler that is recognised is called with its captures in the order of the route, where a capture the route does not have is
empty, or absent if the handler asks for optional ones. It is handed all it declares, unless plain strings follow optional
parameters that would do for a call on their own.
-/
theorem handler_arguments (handler : CaptureHandler) (few : handler.params.length ≤ maxHandlerCaptures) (route : ParsedRoute) :
    ∃ arguments, makeSession (.captures handler) route = some (.captures handler.withRequest arguments) ∧
      (∀ index < arguments.length, arguments[index]? =
        some ((if handler.asksOptional then Capture.optional else .string).get route.captures index)) ∧
      (arguments.length = handler.params.length ↔ ¬ (handler.asksOptional ∧ handler.leading < handler.params.length)) := by
  have bound := handler.leading_le
  rw [makeSession_captures handler few]
  cases asks : handler.asksOptional with
  | true =>
    refine ⟨_, rfl, fun index within => ?_, ?_⟩
    · simp only [List.length_map, List.length_range] at within
      simp [within]
    · simp only [List.length_map, List.length_range, true_and]
      omega
  | false =>
    refine ⟨_, rfl, fun index within => ?_, by simp⟩
    simp only [List.length_map, List.length_range] at within
    simp [within]

theorem handler_arguments_customer :
    let handler : CaptureHandler := ⟨true, [.string, .string], 0, by decide⟩
    let route : ParsedRoute := ⟨[bytes "7"], [], bytes "GET"⟩
    ∃ arguments, makeSession (.captures handler) route = some (.captures true arguments) ∧
      arguments[1]? = some (.string []) ∧ arguments.length = 2 := by
  intro handler route
  obtain ⟨arguments, called, each, all⟩ := handler_arguments handler (by decide) route
  have whole : arguments.length = 2 := all.mpr (by decide)
  exact ⟨arguments, called, each 1 (by omega), whole⟩

theorem trailing_string_not_handed :
    makeSession (.captures ⟨true, [.optional, .string], 0, by decide⟩) ⟨[bytes "7", bytes "42"], [], bytes "GET"⟩ =
      some (.captures true [.optional (some (bytes "7"))]) := by
  decide

end Dracon.Restful
