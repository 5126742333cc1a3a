import Mathlib
import Dracon.Restful.Registration

set_option autoImplicit false

namespace Dracon.Restful

open Shared

variable {H : Type}

def Matches (parts : List RoutePart) (segments : List Bytes) : Prop :=
  List.Forall₂ (fun part segment => part.1 = false → part.2 = segment) parts segments

instance (parts : List RoutePart) (segments : List Bytes) : Decidable (Matches parts segments) :=
  inferInstanceAs (Decidable (List.Forall₂ _ _ _))

def captured (parts : List RoutePart) (segments : List Bytes) : List Bytes :=
  ((parts.zip segments).filter (·.1.1)).map Prod.snd

theorem capture_eq {parts : List RoutePart} {segments : List Bytes} (lengths : segments.length = parts.length) :
    Route.capture parts segments = if Matches parts segments then some (captured parts segments) else none := by
  induction parts generalizing segments with
  | nil =>
    obtain rfl := List.length_eq_zero_iff.mp lengths
    rfl
  | cons part parts ih =>
    obtain ⟨segment, segments, rfl⟩ := List.exists_cons_of_length_eq_add_one lengths
    have rest := ih (Nat.succ.inj lengths)
    obtain ⟨capture, text⟩ := part
    have cons : Matches ((capture, text) :: parts) (segment :: segments) ↔
        (capture = false → text = segment) ∧ Matches parts segments := List.forall₂_cons
    cases capture with
    | true =>
      by_cases fits : Matches parts segments
      · simp [Route.capture, rest, cons, fits, captured]
      · simp [Route.capture, rest, cons, fits]
    | false =>
      by_cases same : text = segment
      · subst same
        simp [Route.capture, rest, cons, captured]
      · simp [Route.capture, cons, same]

namespace Route

theorem createHandler_of_matches {rt : Route H} {segments : List Bytes} (fits : Matches rt.routeParts segments)
    (method : Bytes) :
    rt.createHandler segments method =
      (true, (rt.methods.lookup method).map fun handler => (captured rt.routeParts segments, handler)) := by
  have lengths := fits.length_eq
  rw [createHandler, if_neg (by simp [lengths]), capture_eq lengths.symm, if_pos fits]

theorem createHandler_of_not_matches {rt : Route H} {segments : List Bytes} (differs : ¬ Matches rt.routeParts segments)
    (method : Bytes) : rt.createHandler segments method = (false, none) := by
  unfold createHandler
  split
  · rfl
  · rename_i lengths
    rw [capture_eq (not_not.mp lengths), if_neg differs]

def Serves (rt : Route H) (segments : List Bytes) (method : Bytes) : Prop :=
  Matches rt.routeParts segments ∧ (rt.methods.lookup method).isSome

instance (rt : Route H) (segments : List Bytes) (method : Bytes) : Decidable (rt.Serves segments method) :=
  inferInstanceAs (Decidable (_ ∧ _))

end Route

namespace Router

def notAllowed (allowed : Bytes) : Exc := .response { statusCode := 405, fields := [(bytes "Allow", allowed)] }

theorem tryRoutes_none {segments : List Bytes} {method : Bytes} {query : Option Bytes} {routes : List (Route H)}
    (none_serves : ∀ rt ∈ routes, ¬ rt.Serves segments method) (allowed : Option Bytes) :
    tryRoutes segments method query routes allowed =
      match allowed.or ((routes.find? fun rt => Matches rt.routeParts segments).map (·.allMethods)) with
      | none => .ok none
      | some allowed => .error (notAllowed allowed) := by
  induction routes generalizing allowed with
  | nil => cases allowed <;> rfl
  | cons rt routes ih =>
    have rest := ih fun rt mem => none_serves rt (List.mem_cons_of_mem _ mem)
    by_cases fits : Matches rt.routeParts segments
    · have missing : rt.methods.lookup method = none := by
        simpa [Route.Serves, fits] using none_serves rt (by simp)
      rw [tryRoutes, Route.createHandler_of_matches fits, missing]
      simp only [Option.map_none, rest]
      cases allowed <;> simp [fits]
    · rw [tryRoutes, Route.createHandler_of_not_matches fits]
      simp [rest, fits]

theorem tryRoutes_some {segments : List Bytes} {method : Bytes} {query : Option Bytes} {routes : List (Route H)}
    {rt : Route H} {handler : H} (found : routes.find? (fun rt => rt.Serves segments method) = some rt)
    (serves : rt.methods.lookup method = some handler) (allowed : Option Bytes) :
    tryRoutes segments method query routes allowed = (do
      let queries ← parseQueries query
      return some (handler, { captures := captured rt.routeParts segments, queries, allButOptionsNodeMethods := rt.allMethods })) := by
  induction routes generalizing allowed with
  | nil => cases found
  | cons first routes ih =>
    by_cases here : first.Serves segments method
    · obtain rfl : first = rt := by simpa [here] using found
      rw [tryRoutes, Route.createHandler_of_matches here.1, serves]
      rfl
    · have rest := ih (by simpa [here] using found)
      by_cases fits : Matches first.routeParts segments
      · have missing : first.methods.lookup method = none := by simpa [Route.Serves, fits] using here
        rw [tryRoutes, Route.createHandler_of_matches fits, missing]
        exact rest _
      · rw [tryRoutes, Route.createHandler_of_not_matches fits]
        exact rest _

theorem find_serving {routes : List (Route H)} {segments : List Bytes} {method : Bytes}
    (served : ¬ ∀ rt ∈ routes, ¬ rt.Serves segments method) :
    ∃ rt handler, routes.find? (fun rt => rt.Serves segments method) = some rt ∧ rt.methods.lookup method = some handler := by
  cases found : routes.find? fun rt => rt.Serves segments method with
  | none => exact absurd (fun rt mem => by simpa using List.find?_eq_none.mp found rt mem) served
  | some rt =>
    have serves : rt.Serves segments method := by simpa using List.find?_some found
    obtain ⟨handler, lookup⟩ := Option.isSome_iff_exists.mp serves.2
    exact ⟨rt, handler, rfl, lookup⟩

variable {router : Router H} {url method : Bytes} {segments : List Bytes}

def Remaining (base : List Bytes) (url : Bytes) (segments : List Bytes) : Prop :=
  segments ≠ [] ∧ pieces (ch '/') (urlPath url) = base ++ segments

theorem createHandler_of_remaining (remaining : Remaining router.baseUrl url segments) (method : Bytes) :
    router.createHandler url method = tryRoutes segments method (urlQuery url) router.routes none := by
  obtain ⟨filled, whole⟩ := remaining
  have longer := List.length_pos_of_ne_nil filled
  simp only [createHandler, split_eq_pieces, whole, List.length_append, List.prefix_append, not_true_eq_false,
    List.drop_left, if_false]
  rw [if_neg (by omega)]

theorem createHandler_of_not_remaining (outside : ¬ ∃ segments, Remaining router.baseUrl url segments) :
    router.createHandler url method = .ok none := by
  unfold createHandler
  simp only [split_eq_pieces]
  split
  · rfl
  · rename_i longer
    split
    · rfl
    · rename_i base
      obtain ⟨segments, whole⟩ := not_not.mp base
      refine absurd ⟨segments, ?_, whole.symm⟩ outside
      rintro rfl
      simp [← whole] at longer

theorem createHandler_cases (router : Router H) (path method : Bytes) :
    (∃ handler captures methods, ∀ url, urlPath url = path → router.createHandler url method = (do
      let queries ← parseQueries (urlQuery url)
      return some (handler, { captures, queries, allButOptionsNodeMethods := methods }))) ∨
    (∀ url, urlPath url = path → router.createHandler url method = .ok none) ∨
    ∃ allowed, ∀ url, urlPath url = path → router.createHandler url method = .error (notAllowed allowed) := by
  by_cases inside : ∃ segments, segments ≠ [] ∧ pieces (ch '/') path = router.baseUrl ++ segments
  · obtain ⟨segments, remaining⟩ := inside
    have tried : ∀ url, urlPath url = path → router.createHandler url method =
        tryRoutes segments method (urlQuery url) router.routes none := by
      rintro url rfl
      exact createHandler_of_remaining remaining method
    by_cases none_serves : ∀ rt ∈ router.routes, ¬ rt.Serves segments method
    · right
      cases found : router.routes.find? fun rt => Matches rt.routeParts segments with
      | none => exact .inl fun url same => by rw [tried url same, tryRoutes_none none_serves, found]; rfl
      | some rt => exact .inr ⟨rt.allMethods, fun url same => by rw [tried url same, tryRoutes_none none_serves, found]; rfl⟩
    · obtain ⟨rt, handler, found, lookup⟩ := find_serving none_serves
      exact .inl ⟨handler, captured rt.routeParts segments, rt.allMethods, fun url same => by
        rw [tried url same, tryRoutes_some found lookup]⟩
  · refine .inr (.inl ?_)
    rintro url rfl
    exact createHandler_of_not_remaining inside

end Router

section History

variable {baseUrl : Bytes} {history : List (Registration H)} {router : Router H} {segments : List Bytes} {method : Bytes}

def MatchedBy (history : List (Registration H)) (segments : List Bytes) (index : Nat) : Prop :=
  ∃ parts, (declared history)[index]? = some parts ∧ Matches parts segments

def ServedBy (history : List (Registration H)) (segments : List Bytes) (method : Bytes) (index : Nat) : Prop :=
  MatchedBy history segments index ∧ (handlerFor (registered history index) method).isSome

instance (history : List (Registration H)) (segments : List Bytes) (index : Nat) :
    Decidable (MatchedBy history segments index) :=
  inferInstanceAs (Decidable (∃ parts, parts ∈ (declared history)[index]? ∧ _))

instance (history : List (Registration H)) (segments : List Bytes) (method : Bytes) (index : Nat) :
    Decidable (ServedBy history segments method index) :=
  inferInstanceAs (Decidable (_ ∧ _))

namespace Router.Records

theorem declared_eq (records : router.Records baseUrl history) (index : Nat) :
    (declared history)[index]? = router.routes[index]?.map (·.routeParts) := by
  rw [← records.parts, List.getElem?_map]

theorem matchedBy_iff (records : router.Records baseUrl history) {index : Nat} :
    MatchedBy history segments index ↔ ∃ rt, router.routes[index]? = some rt ∧ Matches rt.routeParts segments := by
  simp only [MatchedBy, records.declared_eq, Option.map_eq_some_iff]
  constructor
  · rintro ⟨_, ⟨rt, there, rfl⟩, fits⟩
    exact ⟨rt, there, fits⟩
  · rintro ⟨rt, there, fits⟩
    exact ⟨_, ⟨rt, there, rfl⟩, fits⟩

theorem servedBy_iff (records : router.Records baseUrl history) {index : Nat} :
    ServedBy history segments method index ↔ ∃ rt, router.routes[index]? = some rt ∧ rt.Serves segments method := by
  rw [ServedBy, records.matchedBy_iff]
  constructor
  · rintro ⟨⟨rt, there, fits⟩, handled⟩
    exact ⟨rt, there, fits, by rwa [(records.registers index rt there).methods]⟩
  · rintro ⟨rt, there, fits, handled⟩
    exact ⟨⟨rt, there, fits⟩, by rwa [← (records.registers index rt there).methods]⟩

theorem find?_eq_some {p : Route H → Bool} {index : Nat} {rt : Route H} (there : router.routes[index]? = some rt)
    (holds : p rt) (first : ∀ earlier < index, ∀ rt, router.routes[earlier]? = some rt → p rt = false) :
    router.routes.find? p = some rt := by
  obtain ⟨inside, rfl⟩ := List.getElem?_eq_some_iff.mp there
  refine List.find?_eq_some_iff_getElem.mpr ⟨holds, index, inside, rfl, fun earlier before => ?_⟩
  simpa using first earlier before _ (List.getElem?_eq_getElem (by omega))

theorem none_serves (records : router.Records baseUrl history) :
    (∀ rt ∈ router.routes, ¬ rt.Serves segments method) ↔ ∀ index, ¬ ServedBy history segments method index := by
  simp only [records.servedBy_iff, List.mem_iff_getElem?]
  grind

theorem none_matches (records : router.Records baseUrl history) :
    (∀ rt ∈ router.routes, ¬ Matches rt.routeParts segments) ↔ ∀ index, ¬ MatchedBy history segments index := by
  simp only [records.matchedBy_iff, List.mem_iff_getElem?]
  grind

end Router.Records

theorem create_handler_dispatches
    (reached : (registrations H).Reaches (fun _ _ => True) (.create baseUrl) history router) (url method : Bytes)
    {queries : List (Bytes × Bytes)} (decodes : parseQueries (Router.urlQuery url) = .ok queries) :
    ((¬ ∃ segments, Router.Remaining (pieces (ch '/') baseUrl) url segments) →
        router.createHandler url method = .ok none) ∧
      (∀ segments, Router.Remaining (pieces (ch '/') baseUrl) url segments →
        (∀ index parts handler, (declared history)[index]? = some parts → Matches parts segments →
          handlerFor (registered history index) method = some handler →
          (∀ earlier < index, ¬ ServedBy history segments method earlier) →
          router.createHandler url method = .ok (some (handler,
            { captures := captured parts segments
              queries
              allButOptionsNodeMethods := methodsText (listed (methodNames (registered history index))) }))) ∧
        ((∃ allowed, router.createHandler url method = .error (Router.notAllowed allowed)) ↔
          (∀ index, ¬ ServedBy history segments method index) ∧ ∃ index, MatchedBy history segments index) ∧
        ((∀ index, ¬ MatchedBy history segments index) → router.createHandler url method = .ok none)) ∧
      ∀ url' first second, Router.urlPath url = first ++ second → Router.urlPath url' = first ++ ch '/' :: second →
        Router.urlQuery url' = Router.urlQuery url →
        first = [] ∨ first.getLast? = some (ch '/') ∨ second.head? = some (ch '/') ∨ second = [] →
        router.createHandler url' method = router.createHandler url method := by
  have records := Router.records_of_reaches reached
  refine ⟨fun outside => Router.createHandler_of_not_remaining (records.base ▸ outside), ?_, ?_⟩
  · intro segments remaining
    rw [Router.createHandler_of_remaining (records.base.symm ▸ remaining)]
    refine ⟨?_, ?_, ?_⟩
    · intro index parts handler there fits handled first
      obtain ⟨rt, place, rfl⟩ := Option.map_eq_some_iff.mp ((records.declared_eq index).symm.trans there)
      have registers := records.registers index rt place
      have lookup : rt.methods.lookup method = some handler := (registers.methods method).trans handled
      have found : router.routes.find? (fun rt => rt.Serves segments method) = some rt := by
        refine Router.Records.find?_eq_some place (by simp [Route.Serves, fits, lookup]) ?_
        intro earlier before other there
        simpa using fun serves => first earlier before (records.servedBy_iff.mpr ⟨other, there, serves⟩)
      rw [Router.tryRoutes_some found lookup, decodes, registers.allMethods]
      rfl
    · rw [← records.none_serves]
      by_cases none_serves : ∀ rt ∈ router.routes, ¬ rt.Serves segments method
      · rw [Router.tryRoutes_none none_serves, Option.none_or]
        cases found : router.routes.find? fun rt => Matches rt.routeParts segments with
        | none =>
          have none_matches := records.none_matches.mp fun rt mem => by simpa using List.find?_eq_none.mp found rt mem
          simpa using fun _ => none_matches
        | some rt =>
          obtain ⟨index, there⟩ := List.mem_iff_getElem?.mp (List.mem_of_find?_eq_some found)
          have matched := records.matchedBy_iff.mpr ⟨rt, there, by simpa using List.find?_some found⟩
          exact iff_of_true ⟨rt.allMethods, rfl⟩ ⟨none_serves, index, matched⟩
      · refine iff_of_false ?_ fun ⟨absent, _⟩ => none_serves absent
        obtain ⟨rt, handler, found, lookup⟩ := Router.find_serving none_serves
        rintro ⟨allowed, thrown⟩
        rw [Router.tryRoutes_some found lookup, decodes] at thrown
        cases thrown
    · intro none_matches
      have none := records.none_matches.mpr none_matches
      rw [Router.tryRoutes_none fun rt mem serves => none rt mem serves.1]
      rw [List.find?_eq_none.mpr fun rt mem => by simpa using none rt mem]
      rfl
  · intro url' first second whole inserted query beside
    simp only [Router.createHandler, split_eq_pieces, whole, inserted, query, pieces_insert beside]

theorem create_handler_dispatches_overlapping :
    ∃ router, (registrations Nat).Reaches (fun _ _ => True) (.create (bytes "/api/"))
        [.createRoute (bytes "items/\x7bid\x7d"), .addMethodHandler 0 (bytes "GET") 1,
          .createRoute (bytes "items/special"), .addMethodHandler 1 (bytes "PUT") 2, .addMethodHandler 1 (bytes "PUT") 3] router ∧
      router.createHandler (bytes "//api/items//special?a=b=c") (bytes "PUT") =
        .ok (some (3, { captures := [], queries := [(bytes "a", bytes "b=c")], allButOptionsNodeMethods := bytes "PUT" })) := by
  have ran : ((registrations Nat).run (.create (bytes "/api/"))
      [.createRoute (bytes "items/\x7bid\x7d"), .addMethodHandler 0 (bytes "GET") 1,
        .createRoute (bytes "items/special"), .addMethodHandler 1 (bytes "PUT") 2, .addMethodHandler 1 (bytes "PUT") 3]).isSome := by
    decide +kernel
  obtain ⟨router, ran⟩ := Option.isSome_iff_exists.mp ran
  have reached := System.reaches_of_run ran
  refine ⟨router, reached, ?_⟩
  have dispatched := create_handler_dispatches reached (bytes "//api/items//special?a=b=c") (bytes "PUT")
    (show parseQueries _ = .ok [(bytes "a", bytes "b=c")] by decide +kernel)
  refine (dispatched.2.1 [bytes "items", bytes "special"] (by unfold Router.Remaining; decide +kernel)).1 1
    [(false, bytes "items"), (false, bytes "special")] 3 (by decide +kernel) (by decide +kernel) (by decide +kernel) ?_
  intro earlier before
  obtain rfl : earlier = 0 := by omega
  decide +kernel

/-- A method without a name is left out of the list when it comes first. -/
theorem nameless_method_not_listed :
    ∃ router, (registrations Nat).Reaches (fun _ _ => True) (.create [])
        [.createRoute (bytes "items"), .addMethodHandler 0 [] 1, .addMethodHandler 0 (bytes "GET") 2] router ∧
      router.createHandler (bytes "/items") (bytes "GET") =
        .ok (some (2, { captures := [], queries := [], allButOptionsNodeMethods := bytes "GET" })) ∧
      methodNames (registered [.createRoute (bytes "items"), .addMethodHandler 0 [] 1, .addMethodHandler 0 (bytes "GET") 2] 0) =
        [[], bytes "GET"] ∧
      methodsText [[], bytes "GET"] = bytes ", GET" := by
  have ran : ((registrations Nat).run (.create [])
      [.createRoute (bytes "items"), .addMethodHandler 0 [] 1, .addMethodHandler 0 (bytes "GET") 2]).map
      (fun router => router.createHandler (bytes "/items") (bytes "GET")) =
        some (.ok (some (2, { captures := [], queries := [], allButOptionsNodeMethods := bytes "GET" }))) := by
    decide +kernel
  obtain ⟨router, ran, dispatched⟩ := Option.map_eq_some_iff.mp ran
  exact ⟨router, System.reaches_of_run ran, dispatched, by decide +kernel, by decide⟩

def Router.Finds (router : Router H) (url method : Bytes) : Prop :=
  ∃ found, router.createHandler (urlPath url) method = .ok (some found)

def Lists (text : Bytes) (methods : Bytes → Prop) : Prop :=
  ∃ names : List Bytes, names.Nodup ∧ (∀ name, name ∈ names ↔ methods name) ∧ text = methodsText names

theorem methodsText_length (names : List Bytes) :
    (methodsText names).length = (names.map List.length).sum + 2 * (names.length - 1) := by
  induction names with
  | nil => rfl
  | cons name names ih =>
    rw [methodsText_cons]
    by_cases last : names = []
    · simp [last]
    · have := List.length_pos_of_ne_nil last
      simp only [last, if_false, List.length_append, ih, List.map_cons, List.sum_cons, List.length_cons]
      rw [show (bytes ", ").length = 2 from rfl]
      omega

theorem lists_methodsText_iff {names : List Bytes} (nodup : names.Nodup) {methods : Bytes → Prop}
    (included : ∀ name ∈ names, methods name) :
    Lists (methodsText names) methods ↔
      (∀ name, methods name → name ∈ names) ∨ (names = [] ∧ ∀ name, methods name → name = []) := by
  constructor
  · rintro ⟨all, distinct, listed, text⟩
    obtain ⟨more, perm⟩ : ∃ more, all.Perm (names ++ more) := by
      obtain ⟨sub, same, inside⟩ := nodup.subperm fun name mem => (listed name).mpr (included name mem)
      obtain ⟨more, perm⟩ := inside.exists_perm_append
      exact ⟨more, perm.trans (same.append_right more)⟩
    have lengths := congrArg List.length text
    rw [methodsText_length, methodsText_length, perm.length_eq, (perm.map _).sum_eq] at lengths
    simp only [List.map_append, List.sum_append, List.length_append] at lengths
    by_cases empty : names = []
    · refine .inr ⟨empty, fun name mem => ?_⟩
      have mem := perm.mem_iff.mp ((listed name).mpr mem)
      simp only [empty, List.nil_append, List.map_nil, List.sum_nil, List.length_nil] at mem lengths
      have short := List.single_le_sum (by simp) _ (List.mem_map_of_mem (f := List.length) mem)
      exact List.length_eq_zero_iff.mp (by omega)
    · have := List.length_pos_of_ne_nil empty
      obtain rfl : more = [] := List.length_eq_zero_iff.mp (by omega)
      exact .inl fun name mem => by simpa using perm.mem_iff.mp ((listed name).mpr mem)
  · rintro (complete | ⟨rfl, blank⟩)
    · exact ⟨names, nodup, fun name => ⟨included name, complete name⟩, rfl⟩
    · by_cases empty : methods []
      · exact ⟨[[]], by simp, fun name => ⟨fun mem => by rwa [List.mem_singleton.mp mem], fun mem => by simp [blank name mem]⟩, rfl⟩
      · refine ⟨[], .nil, fun name => ⟨nofun, fun mem => absurd mem ?_⟩, rfl⟩
        rw [blank name mem]
        exact empty

theorem Router.urlPath_urlPath (url : Bytes) : urlPath (urlPath url) = urlPath url ∧ urlQuery (urlPath url) = none := by
  have absent : ch '?' ∉ urlPath url := by
    unfold urlPath
    cases found : cut (ch '?') url with
    | none => exact cut_eq_none.mp found
    | some parts => exact (cut_eq_some.mp found).2
  have none := cut_eq_none.mpr absent
  constructor
  · rw [urlPath, none]
    rfl
  · rw [urlQuery, none]
    rfl

theorem Router.Records.finds_iff (records : router.Records baseUrl history) {url : Bytes}
    (remaining : Router.Remaining (pieces (ch '/') baseUrl) url segments) :
    router.Finds url method ↔ ∃ index, ServedBy history segments method index := by
  obtain ⟨path, query⟩ := Router.urlPath_urlPath url
  have created : router.createHandler (Router.urlPath url) method = _ :=
    Router.createHandler_of_remaining ⟨remaining.1, by rw [path, remaining.2, records.base]⟩ method
  rw [Router.Finds, created, query]
  by_cases none_serves : ∀ rt ∈ router.routes, ¬ rt.Serves segments method
  · rw [Router.tryRoutes_none none_serves]
    refine iff_of_false ?_ fun ⟨index, served⟩ => records.none_serves.mp none_serves index served
    rintro ⟨found, result⟩
    split at result <;> cases result
  · obtain ⟨rt, handler, found, lookup⟩ := Router.find_serving none_serves
    rw [Router.tryRoutes_some found lookup]
    refine iff_of_true ⟨_, rfl⟩ ?_
    rw [records.none_serves] at none_serves
    simpa using none_serves

theorem Router.Records.mem_methodNames_iff (name : Bytes) :
    (name ≠ bytes "OPTIONS" ∧ ∃ index, ServedBy history segments name index) ↔
      ∃ index, MatchedBy history segments index ∧ name ∈ methodNames (registered history index) := by
  have handled (index : Nat) : (handlerFor (registered history index) name).isSome ↔
      name ∈ (registered history index).map Prod.fst := by
    rw [← not_iff_not, Option.not_isSome_iff_eq_none, handlerFor_eq_none]
  simp only [ServedBy, handled, mem_methodNames]
  grind

theorem allow_lists_methods_iff
    (reached : (registrations H).Reaches (fun _ _ => True) (.create baseUrl) history router) {url allowed : Bytes}
    (thrown : router.createHandler url method = .error (Router.notAllowed allowed)) :
    ∃ segments first, Router.Remaining (pieces (ch '/') baseUrl) url segments ∧
      MatchedBy history segments first ∧ (∀ earlier < first, ¬ MatchedBy history segments earlier) ∧
      (Lists allowed (fun name => name ≠ bytes "OPTIONS" ∧ router.Finds url name) ↔
        (∀ index, MatchedBy history segments index → ∀ name ∈ methodNames (registered history index),
          name ∈ listed (methodNames (registered history first))) ∨
        (listed (methodNames (registered history first)) = [] ∧
          ∀ index, MatchedBy history segments index → ∀ name ∈ methodNames (registered history index), name = [])) := by
  have records := Router.records_of_reaches reached
  obtain ⟨segments, remaining⟩ : ∃ segments, Router.Remaining (pieces (ch '/') baseUrl) url segments := by
    by_contra outside
    cases (Router.createHandler_of_not_remaining (records.base ▸ outside)).symm.trans thrown
  rw [Router.createHandler_of_remaining (records.base.symm ▸ remaining)] at thrown
  have none_serves : ∀ rt ∈ router.routes, ¬ rt.Serves segments method := by
    by_contra served
    obtain ⟨rt, handler, found, lookup⟩ := Router.find_serving served
    rw [Router.tryRoutes_some found lookup] at thrown
    rcases bind_eq_error thrown with bad | ⟨_, thrown⟩
    · rcases parseQueries_error bad with other | ⟨what, other⟩ <;> cases other
    · cases thrown
  rw [Router.tryRoutes_none none_serves, Option.none_or] at thrown
  cases found : router.routes.find? fun rt => Matches rt.routeParts segments with
  | none => simp [found] at thrown
  | some rt =>
    obtain ⟨fits, first, inside, there, before⟩ := List.find?_eq_some_iff_getElem.mp found
    have place : router.routes[first]? = some rt := List.getElem?_eq_some_iff.mpr ⟨inside, there⟩
    refine ⟨segments, first, remaining, records.matchedBy_iff.mpr ⟨rt, place, by simpa using fits⟩, ?_, ?_⟩
    · intro earlier less matched
      obtain ⟨other, place', fits'⟩ := records.matchedBy_iff.mp matched
      obtain ⟨_, rfl⟩ := List.getElem?_eq_some_iff.mp place'
      simpa [fits'] using before earlier less
    · have text : allowed = methodsText (listed (methodNames (registered history first))) := by
        rw [← (records.registers first rt place).allMethods]
        simpa [found, Router.notAllowed, eq_comm] using thrown
      have matched := records.matchedBy_iff.mpr ⟨rt, place, by simpa using fits⟩
      have methods : (fun name => name ≠ bytes "OPTIONS" ∧ router.Finds url name) = fun name =>
          ∃ index, MatchedBy history segments index ∧ name ∈ methodNames (registered history index) := by
        funext name
        rw [records.finds_iff remaining, Router.Records.mem_methodNames_iff]
      have kept : (listed (methodNames (registered history first))).Sublist (methodNames (registered history first)) :=
        List.dropWhile_sublist _
      rw [text, methods, lists_methodsText_iff (nodup_eraseDups _ |>.sublist kept)
        fun name mem => ⟨first, matched, kept.subset mem⟩]
      simp only [forall_exists_index, and_imp]
      grind

theorem allow_lists_methods_iff_shadowed :
    ∃ router, (registrations Nat).Reaches (fun _ _ => True) (.create [])
        [.createRoute (bytes "items/\x7bid\x7d"), .addMethodHandler 0 (bytes "GET") 1, .addMethodHandler 0 (bytes "PUT") 2,
          .createRoute (bytes "items/special"), .addMethodHandler 1 (bytes "PUT") 3] router ∧
      router.createHandler (bytes "/items/special") (bytes "DELETE") = .error (Router.notAllowed (bytes "GET, PUT")) ∧
      Lists (bytes "GET, PUT") (fun name => name ≠ bytes "OPTIONS" ∧ router.Finds (bytes "/items/special") name) := by
  have ran : ((registrations Nat).run (.create [])
      [.createRoute (bytes "items/\x7bid\x7d"), .addMethodHandler 0 (bytes "GET") 1, .addMethodHandler 0 (bytes "PUT") 2,
        .createRoute (bytes "items/special"), .addMethodHandler 1 (bytes "PUT") 3]).map
      (fun router => router.createHandler (bytes "/items/special") (bytes "DELETE")) =
        some (.error (Router.notAllowed (bytes "GET, PUT"))) := by decide +kernel
  obtain ⟨router, ran, thrown⟩ := Option.map_eq_some_iff.mp ran
  have reached := System.reaches_of_run ran
  obtain ⟨segments, first, ⟨-, remaining⟩, matched, before, lists⟩ := allow_lists_methods_iff reached thrown
  obtain rfl : [bytes "items", bytes "special"] = segments :=
    (show pieces (ch '/') (Router.urlPath (bytes "/items/special")) = _ by decide +kernel).symm.trans remaining
  obtain rfl : first = 0 := by
    by_contra later
    exact before 0 (Nat.pos_of_ne_zero later) (by decide +kernel)
  refine ⟨router, reached, thrown, lists.mpr (.inl fun index matched => ?_)⟩
  obtain ⟨parts, there, _⟩ := matched
  have inside := (List.getElem?_eq_some_iff.mp there).1
  rw [show (declared _).length = 2 by decide +kernel] at inside
  interval_cases index <;> decide +kernel

/-- The methods of a later route that matches as well are left out. -/
theorem allow_misses_later_route :
    ∃ router, (registrations Nat).Reaches (fun _ _ => True) (.create [])
        [.createRoute (bytes "items/\x7bid\x7d"), .addMethodHandler 0 (bytes "GET") 1,
          .createRoute (bytes "items/special"), .addMethodHandler 1 (bytes "PUT") 2] router ∧
      router.createHandler (bytes "/items/special") (bytes "DELETE") = .error (Router.notAllowed (bytes "GET")) ∧
      router.Finds (bytes "/items/special") (bytes "PUT") ∧
      ¬ Lists (bytes "GET") (fun name => name ≠ bytes "OPTIONS" ∧ router.Finds (bytes "/items/special") name) := by
  have ran : ((registrations Nat).run (.create [])
      [.createRoute (bytes "items/\x7bid\x7d"), .addMethodHandler 0 (bytes "GET") 1,
        .createRoute (bytes "items/special"), .addMethodHandler 1 (bytes "PUT") 2]).map
      (fun router => [router.createHandler (bytes "/items/special") (bytes "DELETE"),
        router.createHandler (Router.urlPath (bytes "/items/special")) (bytes "GET"),
        router.createHandler (Router.urlPath (bytes "/items/special")) (bytes "PUT")]) =
        some [.error (Router.notAllowed (bytes "GET")), .ok (some (1, ⟨[bytes "special"], [], bytes "GET"⟩)),
          .ok (some (2, ⟨[], [], bytes "PUT"⟩))] := by decide +kernel
  obtain ⟨router, ran, results⟩ := Option.map_eq_some_iff.mp ran
  obtain ⟨thrown, get, put⟩ : _ ∧ _ ∧ _ := by simpa only [List.cons.injEq, and_true] using results
  refine ⟨router, System.reaches_of_run ran, thrown, ⟨_, put⟩, fun lists => ?_⟩
  have found : ∀ name ∈ [bytes "GET"], name ≠ bytes "OPTIONS" ∧ router.Finds (bytes "/items/special") name := by
    simpa using ⟨by decide, _, get⟩
  rcases (lists_methodsText_iff (by simp) found).mp lists with complete | ⟨empty, _⟩
  · exact absurd (complete (bytes "PUT") ⟨by decide, _, put⟩) (by decide)
  · cases empty

end History

end Dracon.Restful
