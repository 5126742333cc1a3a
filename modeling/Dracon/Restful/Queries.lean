import Mathlib
import Dracon.Http.Grammar
import Dracon.Restful.Dispatch

set_option autoImplicit false

namespace Dracon.Restful

open Shared

inductive WellEscaped : Bytes → Prop
  | nil : WellEscaped []
  | plain {c : Byte} {rest : Bytes} : c ≠ ch '%' → WellEscaped rest → WellEscaped (c :: rest)
  | escape {high low : Byte} {rest : Bytes} : HexDigit high → HexDigit low → WellEscaped rest →
      WellEscaped (ch '%' :: high :: low :: rest)

theorem wellEscaped_escape (high low : Byte) (rest : Bytes) :
    WellEscaped (ch '%' :: high :: low :: rest) ↔ HexDigit high ∧ HexDigit low ∧ WellEscaped rest := by
  constructor
  · rintro (_ | ⟨differs, _⟩ | ⟨first, second, more⟩)
    · exact absurd rfl differs
    · exact ⟨first, second, more⟩
  · rintro ⟨first, second, more⟩
    exact .escape first second more

theorem wellEscaped_cons {c : Byte} (differs : c ≠ ch '%') (rest : Bytes) : WellEscaped (c :: rest) ↔ WellEscaped rest := by
  constructor
  · rintro (_ | ⟨_, more⟩ | _)
    · exact more
    · exact absurd rfl differs
  · exact .plain differs

theorem not_wellEscaped_short {rest : Bytes} (short : rest.length < 2) : ¬ WellEscaped (ch '%' :: rest) := by
  rintro (_ | ⟨differs, _⟩ | _)
  · exact differs rfl
  · simp only [List.length_cons] at short
    omega

theorem fromHex_ok_iff (c : Byte) : (∃ value, fromHex c = .ok value) ↔ HexDigit c := by
  unfold fromHex HexDigit DecimalDigit
  split_ifs <;> simp_all

theorem unescapeUrl_ok_iff (text : Bytes) : (∃ out, unescapeUrl text = .ok out) ↔ WellEscaped text := by
  fun_induction unescapeUrl text with
  | case1 => exact iff_of_true ⟨[], rfl⟩ .nil
  | case2 high low rest ih =>
    rw [wellEscaped_escape, ← fromHex_ok_iff, ← fromHex_ok_iff, ← ih]
    simp only [exists_bind_eq_ok, pure, Except.pure, Except.ok.injEq, exists_eq', and_true]
    grind
  | case3 rest short =>
    refine iff_of_false ?_ (not_wellEscaped_short (length_of_not_pair short))
    rintro ⟨_, ⟨⟩⟩
  | case4 c rest differs ih =>
    rw [wellEscaped_cons differs, ← ih]
    simp only [exists_bind_eq_ok, pure, Except.pure, Except.ok.injEq, exists_eq', and_true]

theorem wellEscaped_append {sep : Byte} (sign : sep ≠ ch '%') (digit : ¬ HexDigit sep) (before after : Bytes) :
    WellEscaped (before ++ sep :: after) ↔ WellEscaped before ∧ WellEscaped after := by
  fun_induction unescapeUrl before with
  | case1 =>
    rw [List.nil_append, wellEscaped_cons sign]
    simp [WellEscaped.nil]
  | case2 high low rest ih =>
    simp only [List.cons_append, wellEscaped_escape, ih]
    tauto
  | case3 rest short =>
    have bad : ¬ WellEscaped (ch '%' :: rest ++ sep :: after) := by
      rcases rest with _ | ⟨high, _ | ⟨low, rest⟩⟩
      · cases after with
        | nil => exact not_wellEscaped_short (by simp)
        | cons c after => exact fun escaped => digit ((wellEscaped_escape ..).mp escaped).1
      · exact fun escaped => digit ((wellEscaped_escape ..).mp escaped).2.1
      · exact absurd rfl (short high low rest)
    have cut : ¬ WellEscaped (ch '%' :: rest) := not_wellEscaped_short (length_of_not_pair short)
    exact iff_of_false bad fun both => cut both.1
  | case4 c rest differs ih => rw [List.cons_append, wellEscaped_cons differs, wellEscaped_cons differs, ih]

theorem wellEscaped_pieces {sep : Byte} (sign : sep ≠ ch '%') (digit : ¬ HexDigit sep) (text : Bytes) :
    WellEscaped text ↔ ∀ piece ∈ pieces sep text, WellEscaped piece := by
  induction text using separated_induction sep with
  | last text absent =>
    rw [pieces_of_notMem absent]
    by_cases filled : text = [] <;> simp [filled, WellEscaped.nil]
  | more before after absent ih =>
    replace ih : WellEscaped after ↔ ∀ piece ∈ pieces sep after, WellEscaped piece := ih
    rw [wellEscaped_append sign digit, pieces_cut absent, ih]
    by_cases filled : before = [] <;> simp [filled, WellEscaped.nil]

def queryKey (piece : Bytes) : Bytes := ((cut (ch '=') piece).map Prod.fst).getD piece

def queryValue (piece : Bytes) : Bytes := ((cut (ch '=') piece).map Prod.snd).getD []

def unescapePair (first second : Bytes) : Except Exc (Bytes × Bytes) := do
  let key ← unescapeUrl first
  let value ← unescapeUrl second
  return (key, value)

theorem unescapePair_ok {first second : Bytes} {pair : Bytes × Bytes} :
    unescapePair first second = .ok pair ↔ unescapeUrl first = .ok pair.1 ∧ unescapeUrl second = .ok pair.2 := by
  unfold unescapePair
  cases unescapeUrl first <;> cases unescapeUrl second <;>
    simp [Bind.bind, Except.bind, pure, Except.pure, Prod.ext_iff]

theorem unescapePair_ok_iff (first second : Bytes) :
    (∃ pair, unescapePair first second = .ok pair) ↔ WellEscaped first ∧ WellEscaped second := by
  simp only [unescapePair_ok, ← unescapeUrl_ok_iff, Prod.exists, exists_and_left, exists_and_right]

theorem unescapePair_error {first second : Bytes} {exc : Exc} (thrown : unescapePair first second = .error exc) :
    ∃ what, exc = .stdException what := by
  rcases bind_eq_error thrown with bad | ⟨_, thrown⟩
  · exact unescapeUrl_error bad
  rcases bind_eq_error thrown with bad | ⟨_, thrown⟩
  · exact unescapeUrl_error bad
  · cases thrown

theorem parseQuery_keyed {piece : Bytes} (keyed : queryKey piece ≠ []) :
    parseQuery piece = unescapePair (queryKey piece) (queryValue piece) := by
  unfold queryKey queryValue at *
  cases found : cut (ch '=') piece with
  | none =>
    simp only [found, Option.map_none, Option.getD_none] at keyed ⊢
    rw [parseQuery, split_once_none (cut_eq_none.mp found), if_neg keyed]
    rfl
  | some parts =>
    obtain ⟨whole, absent⟩ := cut_eq_some.mp found
    simp only [found, Option.map_some, Option.getD_some] at keyed ⊢
    rw [whole, parseQuery, split_once absent, if_neg keyed]
    by_cases empty : parts.2 = []
    · simp only [empty, if_true]
      rfl
    · simp only [empty, if_false]
      rfl

theorem parseQuery_keyless {value : Bytes} (filled : value ≠ []) : parseQuery (ch '=' :: value) = unescapePair value [] := by
  have cut : split ([] ++ ch '=' :: value) (ch '=') (some 1) = _ := split_once (by simp)
  rw [List.nil_append] at cut
  simp only [parseQuery, cut, filled, if_true, if_false, List.nil_append]
  rfl

theorem parseQuery_equals : parseQuery [ch '='] = .error (fail 400 "Invalid query strings") := by
  have cut : split ([] ++ ch '=' :: []) (ch '=') (some 1) = _ := split_once (by simp)
  rw [List.nil_append] at cut
  simp only [parseQuery, cut]
  rfl

theorem equals_no_escape : ch '=' ≠ ch '%' ∧ ¬ HexDigit (ch '=') := by
  unfold HexDigit DecimalDigit
  decide

theorem ampersand_no_escape : ch '&' ≠ ch '%' ∧ ¬ HexDigit (ch '&') := by
  unfold HexDigit DecimalDigit
  decide

theorem parseQuery_unescapes {piece : Bytes} (filled : piece ≠ []) (more : piece ≠ [ch '=']) :
    ∃ first second, parseQuery piece = unescapePair first second ∧
      (WellEscaped piece ↔ WellEscaped first ∧ WellEscaped second) := by
  by_cases keyed : queryKey piece = []
  · cases found : cut (ch '=') piece with
    | none => simp [queryKey, found, filled] at keyed
    | some parts =>
      obtain ⟨whole, _⟩ := cut_eq_some.mp found
      simp only [queryKey, found, Option.map_some, Option.getD_some] at keyed
      rw [keyed, List.nil_append] at whole
      subst whole
      refine ⟨parts.2, [], parseQuery_keyless (by simpa using more), ?_⟩
      rw [wellEscaped_cons equals_no_escape.1, and_iff_left WellEscaped.nil]
  · refine ⟨_, _, parseQuery_keyed keyed, ?_⟩
    unfold queryKey queryValue
    cases found : cut (ch '=') piece with
    | none => simp [WellEscaped.nil]
    | some parts =>
      obtain ⟨whole, _⟩ := cut_eq_some.mp found
      simp only [Option.map_some, Option.getD_some]
      rw [whole, wellEscaped_append equals_no_escape.1 equals_no_escape.2]

-- what stands behind a piece without any text but the '=' is not looked at
def EscapedInFront (texts : List Bytes) : Prop := ∀ piece ∈ texts.takeWhile (· ≠ [ch '=']), WellEscaped piece

theorem parseQuery_mapM {texts : List Bytes} (filled : ∀ piece ∈ texts, piece ≠ []) :
    (EscapedInFront texts → [ch '='] ∈ texts → texts.mapM parseQuery = .error (fail 400 "Invalid query strings")) ∧
      (EscapedInFront texts → [ch '='] ∉ texts → ∃ queries, texts.mapM parseQuery = .ok queries) ∧
      (¬ EscapedInFront texts → ∃ what, texts.mapM parseQuery = .error (.stdException what)) := by
  induction texts with
  | nil => exact ⟨fun _ => nofun, fun _ _ => ⟨[], rfl⟩, fun bad => absurd nofun bad⟩
  | cons piece texts ih =>
    obtain ⟨equals, ok, bad⟩ := ih fun piece mem => filled piece (List.mem_cons_of_mem _ mem)
    rw [List.mapM_cons]
    by_cases same : piece = [ch '=']
    · have front : EscapedInFront (piece :: texts) := by simp [EscapedInFront, same]
      rw [same, parseQuery_equals]
      exact ⟨fun _ _ => rfl, fun _ absent => absurd (by simp) absent, fun unescaped => absurd (same ▸ front) unescaped⟩
    · obtain ⟨first, second, parsed, escaped⟩ := parseQuery_unescapes (filled piece (by simp)) same
      have front : EscapedInFront (piece :: texts) ↔ WellEscaped piece ∧ EscapedInFront texts := by
        simp [EscapedInFront, same]
      have mem : [ch '='] ∈ piece :: texts ↔ [ch '='] ∈ texts := by simp [eq_comm, same]
      rw [front, mem, parsed]
      by_cases escapes : WellEscaped piece
      · obtain ⟨pair, decoded⟩ := (unescapePair_ok_iff first second).mpr (escaped.mp escapes)
        rw [decoded]
        refine ⟨fun ⟨_, more⟩ there => ?_, fun ⟨_, more⟩ absent => ?_, fun unescaped => ?_⟩
        · rw [equals more there]
          rfl
        · obtain ⟨queries, decoded⟩ := ok more absent
          exact ⟨pair :: queries, by rw [decoded]; rfl⟩
        · obtain ⟨what, thrown⟩ := bad fun more => unescaped ⟨escapes, more⟩
          exact ⟨what, by rw [thrown]; rfl⟩
      · refine ⟨fun both => absurd both.1 escapes, fun both => absurd both.1 escapes, fun _ => ?_⟩
        cases result : unescapePair first second with
        | ok pair => exact absurd (escaped.mpr ((unescapePair_ok_iff first second).mp ⟨pair, result⟩)) escapes
        | error exc =>
          obtain ⟨what, rfl⟩ := unescapePair_error result
          exact ⟨what, rfl⟩

section Router

variable {H : Type} {router : Router H} {url method : Bytes}

def Router.queryPieces (url : Bytes) : List Bytes := pieces (ch '&') ((urlQuery url).getD [])

theorem Router.parseQueries_eq (url : Bytes) : parseQueries (urlQuery url) = (queryPieces url).mapM parseQuery := by
  unfold queryPieces
  cases urlQuery url with
  | none => simp [parseQueries, pure, Except.pure]
  | some query => simp [parseQueries, split_eq_pieces]

theorem Router.createHandler_of_path {handler : H} {route : ParsedRoute}
    (found : router.createHandler (urlPath url) method = .ok (some (handler, route))) :
    router.createHandler url method = (do
      let queries ← (queryPieces url).mapM parseQuery
      return some (handler, { route with queries })) := by
  obtain ⟨path, query⟩ := urlPath_urlPath url
  rw [← parseQueries_eq]
  rcases router.createHandler_cases (urlPath url) method with ⟨_, captures, methods, served⟩ | empty | ⟨allowed, refused⟩
  · rw [served _ path, query] at found
    cases found
    exact served url rfl
  · cases (empty _ path).symm.trans found
  · cases (refused _ path).symm.trans found

theorem Router.createHandler_of_not_finds (missing : ¬ router.Finds url method) :
    router.createHandler url method = .ok none ∨ ∃ allowed, router.createHandler url method = .error (notAllowed allowed) := by
  obtain ⟨path, query⟩ := urlPath_urlPath url
  rcases router.createHandler_cases (urlPath url) method with ⟨_, captures, methods, served⟩ | empty | ⟨allowed, refused⟩
  · have found := served _ path
    rw [query] at found
    exact absurd ⟨_, found⟩ missing
  · exact .inl (empty url rfl)
  · exact .inr ⟨allowed, refused url rfl⟩

theorem query_decoded_iff (router : Router H) {url method : Bytes} {handler : H} {route : ParsedRoute}
    (found : router.createHandler (Router.urlPath url) method = .ok (some (handler, route)))
    (escaped : WellEscaped ((Router.urlQuery url).getD [])) :
    ((∀ piece ∈ Router.queryPieces url, queryKey piece ≠ []) →
        ∃ queries, router.createHandler url method = .ok (some (handler, { route with queries })) ∧
          List.Forall₂ (fun piece pair =>
            unescapeUrl (queryKey piece) = .ok pair.1 ∧ unescapeUrl (queryValue piece) = .ok pair.2)
            (Router.queryPieces url) queries) ∧
      ((∃ piece ∈ Router.queryPieces url, queryKey piece = []) →
        ∃ res, router.createHandler url method = .error (.response res) ∧ res.statusCode = 400) ↔
    (∀ piece ∈ Router.queryPieces url, queryKey piece ≠ []) ∨ [ch '='] ∈ Router.queryPieces url := by
  have front : EscapedInFront (Router.queryPieces url) := fun piece mem =>
    (wellEscaped_pieces ampersand_no_escape.1 ampersand_no_escape.2 _).mp escaped piece (List.takeWhile_subset _ mem)
  obtain ⟨equals, ok, -⟩ := parseQuery_mapM fun piece (mem : piece ∈ Router.queryPieces url) => mem_of_mem_pieces mem
  have created := Router.createHandler_of_path found
  by_cases there : [ch '='] ∈ Router.queryPieces url
  · rw [equals front there] at created
    have keyless : queryKey [ch '='] = [] := rfl
    exact iff_of_true ⟨fun keyed => absurd keyless (keyed _ there), fun _ => ⟨_, created, rfl⟩⟩ (.inr there)
  · obtain ⟨queries, decoded⟩ := ok front there
    rw [decoded] at created
    refine ⟨fun ⟨_, refused⟩ => .inl fun piece mem keyless => ?_, fun either => ⟨fun keyed => ⟨queries, created, ?_⟩, ?_⟩⟩
    · obtain ⟨res, thrown, _⟩ := refused ⟨piece, mem, keyless⟩
      cases created.symm.trans thrown
    · refine ((List.forall₂_and_left _ _).mpr ⟨keyed, mapM_ok_iff.mp decoded⟩).imp ?_
      rintro piece pair ⟨keyed, parsed⟩
      rw [parseQuery_keyed keyed] at parsed
      exact unescapePair_ok.mp parsed
    · rintro ⟨piece, mem, keyless⟩
      exact absurd keyless ((either.resolve_right there) piece mem)

theorem query_decoded_iff_signed :
    let router : Router Nat := ⟨[], [⟨[(false, bytes "items")], AList.insert (bytes "GET") 1 ∅, bytes "GET"⟩]⟩
    ∃ queries, router.createHandler (bytes "/items?token=a%3D=&&flag") (bytes "GET") =
        .ok (some (1, ⟨[], queries, bytes "GET"⟩)) ∧
      List.Forall₂ (fun piece pair =>
        unescapeUrl (queryKey piece) = .ok pair.1 ∧ unescapeUrl (queryValue piece) = .ok pair.2)
        [bytes "token=a%3D=", bytes "flag"] queries := by
  intro router
  have found : router.createHandler (Router.urlPath (bytes "/items?token=a%3D=&&flag")) (bytes "GET") =
      .ok (some (1, ⟨[], [], bytes "GET"⟩)) := by decide +kernel
  have escaped : WellEscaped ((Router.urlQuery (bytes "/items?token=a%3D=&&flag")).getD []) := by
    rw [← unescapeUrl_ok_iff]
    exact ⟨bytes "token=a==&&flag", by decide +kernel⟩
  have keyed : ∀ piece ∈ Router.queryPieces (bytes "/items?token=a%3D=&&flag"), queryKey piece ≠ [] := by decide +kernel
  have texts : Router.queryPieces (bytes "/items?token=a%3D=&&flag") = [bytes "token=a%3D=", bytes "flag"] := by
    decide +kernel
  obtain ⟨queries, created, decoded⟩ := ((query_decoded_iff router found escaped).mpr (.inl keyed)).1 keyed
  rw [texts] at decoded
  exact ⟨queries, created, decoded⟩

/-- What follows the '=' of a piece without a key is taken for the key. -/
theorem keyless_value_becomes_key :
    let router : Router Nat := ⟨[], [⟨[(false, bytes "items")], AList.insert (bytes "GET") 1 ∅, bytes "GET"⟩]⟩
    WellEscaped ((Router.urlQuery (bytes "/items?=v")).getD []) ∧
      Router.queryPieces (bytes "/items?=v") = [bytes "=v"] ∧ queryKey (bytes "=v") = [] ∧
      router.createHandler (bytes "/items?=v") (bytes "GET") =
        .ok (some (1, ⟨[], [(bytes "v", [])], bytes "GET"⟩)) := by
  rw [← unescapeUrl_ok_iff]
  exact ⟨⟨bytes "=v", by decide +kernel⟩, by decide +kernel⟩

theorem malformed_query_is_400_iff (router : Router H) (url method : Bytes) :
    (∀ (R : Type) (call : H → ParsedRoute → Except Exc R) (empty : R),
        (∀ handler route, ∃ result, call handler route = .ok result) →
        (∃ result, router.answer call empty url method = .ok result) ∨
          ∃ res, router.answer call empty url method = .error (.response res)) ∧
      (router.Finds url method → ¬ WellEscaped ((Router.urlQuery url).getD []) →
        ∃ res, router.createHandler url method = .error (.response res) ∧ res.statusCode = 400) ↔
    ¬ router.Finds url method ∨ EscapedInFront (Router.queryPieces url) := by
  by_cases finds : router.Finds url method
  · obtain ⟨⟨handler, route⟩, found⟩ := finds
    have created := Router.createHandler_of_path found
    obtain ⟨equals, ok, bad⟩ := parseQuery_mapM fun piece (mem : piece ∈ Router.queryPieces url) => mem_of_mem_pieces mem
    by_cases front : EscapedInFront (Router.queryPieces url)
    · refine iff_of_true ?_ (.inr front)
      by_cases there : [ch '='] ∈ Router.queryPieces url
      · rw [equals front there] at created
        exact ⟨fun R call empty _ => .inr ⟨_, by rw [Router.answer, created]; rfl⟩, fun _ _ => ⟨_, created, rfl⟩⟩
      · obtain ⟨queries, decoded⟩ := ok front there
        rw [decoded] at created
        refine ⟨fun R call empty returns => .inl ?_, fun _ malformed => absurd ?_ malformed⟩
        · rw [Router.answer, created]
          exact returns handler _
        · rw [wellEscaped_pieces ampersand_no_escape.1 ampersand_no_escape.2]
          have whole : (Router.queryPieces url).takeWhile (· ≠ [ch '=']) = Router.queryPieces url :=
            List.takeWhile_eq_self_iff.mpr fun piece mem => decide_eq_true fun same : piece = _ => there (same ▸ mem)
          exact fun piece mem => front piece (whole.symm ▸ mem)
    · obtain ⟨what, thrown⟩ := bad front
      rw [thrown] at created
      refine iff_of_false (fun ⟨answers, _⟩ => ?_) (by simpa [front] using ⟨_, found⟩)
      rcases answers Unit (fun _ _ => .ok ()) () (fun _ _ => ⟨(), rfl⟩) with ⟨_, answered⟩ | ⟨_, answered⟩
      all_goals
        rw [Router.answer, created] at answered
        cases answered
  · refine iff_of_true ⟨fun R call empty _ => ?_, fun there => absurd there finds⟩ (.inl finds)
    rcases Router.createHandler_of_not_finds finds with nothing | ⟨allowed, refused⟩
    · exact .inl ⟨empty, by rw [Router.answer, nothing]; rfl⟩
    · exact .inr ⟨_, by rw [Router.answer, refused]; rfl⟩

/-- A percent sign at the end of a value comes out as a standard exception. -/
theorem truncated_escape_not_response :
    let router : Router Nat := ⟨[], [⟨[(false, bytes "items")], AList.insert (bytes "GET") 1 ∅, bytes "GET"⟩]⟩
    router.createHandler (bytes "/items") (bytes "GET") = .ok (some (1, ⟨[], [], bytes "GET"⟩)) ∧
      router.createHandler (bytes "/items?a=%4") (bytes "GET") = .error (.stdException (bytes "Malformed URL")) := by
  decide +kernel

end Router

end Dracon.Restful
