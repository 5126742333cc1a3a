import Mathlib
import Dracon.Shared.StepSystem
import Dracon.Restful.Router

set_option autoImplicit false

namespace Dracon.Restful

open Shared

variable {H : Type}

inductive Registration (H : Type) where
  | createRoute (route : Bytes)
  -- on the route at this place, which a `createRoute` has returned
  | addMethodHandler (index : Nat) (method : Bytes) (handler : H)

def Router.register (router : Router H) : Registration H → Option (Router H)
  | .createRoute route => (router.createRoute route).toOption.map Prod.fst
  | .addMethodHandler index method handler =>
    if index < router.routes.length then some (router.addMethodHandler index method handler) else none

def registrations (H : Type) : System (Router H) (Registration H) := ⟨Router.register⟩

def Registration.declares : Registration H → Option (List RoutePart)
  | .createRoute route => (parseRouteParts route).toOption
  | .addMethodHandler .. => none

def declared (history : List (Registration H)) : List (List RoutePart) :=
  (history.filterMap Registration.declares).eraseDups

def Registration.registers (index : Nat) : Registration H → Option (Bytes × H)
  | .createRoute _ => none
  | .addMethodHandler place method handler => if place = index then some (method, handler) else none

def registered (history : List (Registration H)) (index : Nat) : List (Bytes × H) :=
  history.filterMap (Registration.registers index)

-- the one that was registered last counts
def handlerFor (registered : List (Bytes × H)) (method : Bytes) : Option H :=
  ((registered.filter (·.1 = method)).getLast?).map Prod.snd

def methodNames (registered : List (Bytes × H)) : List Bytes :=
  ((registered.map Prod.fst).filter (· ≠ bytes "OPTIONS")).eraseDups

-- an empty name leaves no trace in a text that is still empty
def listed (names : List Bytes) : List Bytes := names.dropWhile (· = [])

def methodsText (names : List Bytes) : Bytes := List.intercalate (bytes ", ") names

section Names

variable {α : Type} [BEq α] [LawfulBEq α]

theorem eraseDups_concat (l : List α) (a : α) [Decidable (a ∈ l)] :
    (l ++ [a]).eraseDups = if a ∈ l then l.eraseDups else l.eraseDups ++ [a] := by
  by_cases mem : a ∈ l <;> simp [List.eraseDups_append, List.removeAll, List.eraseDups_cons, mem]

theorem nodup_eraseDups (l : List α) : l.eraseDups.Nodup := by
  classical
  induction l using List.reverseRecOn with
  | nil => simp
  | append_singleton l a ih =>
    rw [eraseDups_concat]
    split_ifs with mem
    · exact ih
    · rw [← List.concat_eq_append]
      exact ih.concat (by simpa using mem)

theorem mem_methodNames {registered : List (Bytes × H)} {method : Bytes} :
    method ∈ methodNames registered ↔ method ≠ bytes "OPTIONS" ∧ method ∈ registered.map Prod.fst := by
  simp only [methodNames, List.mem_eraseDups, List.mem_filter, decide_eq_true_eq]
  exact and_comm

theorem methodNames_concat (registered : List (Bytes × H)) (method : Bytes) (handler : H) :
    methodNames (registered ++ [(method, handler)]) =
      if method = bytes "OPTIONS" ∨ method ∈ registered.map Prod.fst then methodNames registered
      else methodNames registered ++ [method] := by
  by_cases options : method = bytes "OPTIONS"
  · simp [methodNames, options]
  · have kept : [method].filter (· ≠ bytes "OPTIONS") = [method] := by simp [options]
    have mem : method ∈ (registered.map Prod.fst).filter (· ≠ bytes "OPTIONS") ↔ method ∈ registered.map Prod.fst := by
      simp [options]
    rw [methodNames, List.map_append, List.filter_append, List.map_singleton, kept, eraseDups_concat]
    simp only [methodNames, mem, options, false_or]

theorem handlerFor_eq_none {registered : List (Bytes × H)} {method : Bytes} :
    handlerFor registered method = none ↔ method ∉ registered.map Prod.fst := by
  simp only [handlerFor, Option.map_eq_none_iff, List.getLast?_eq_none_iff, List.filter_eq_nil_iff,
    decide_eq_true_eq, List.mem_map, not_exists, not_and]

theorem handlerFor_concat (registered : List (Bytes × H)) (method name : Bytes) (handler : H) :
    handlerFor (registered ++ [(name, handler)]) method =
      if name = method then some handler else handlerFor registered method := by
  by_cases same : name = method <;> simp [handlerFor, same]

@[simp] theorem methodsText_nil : methodsText [] = [] := rfl

@[simp] theorem methodsText_singleton (name : Bytes) : methodsText [name] = name := by
  simp [methodsText, List.intercalate]

theorem methodsText_cons (name : Bytes) (names : List Bytes) :
    methodsText (name :: names) = name ++ if names = [] then [] else bytes ", " ++ methodsText names := by
  cases names <;> simp [methodsText, List.intercalate]

theorem methodsText_concat (names : List Bytes) (name : Bytes) :
    methodsText (names ++ [name]) = methodsText names ++ if names = [] then name else bytes ", " ++ name := by
  induction names with
  | nil => simp
  | cons first names ih =>
    rw [List.cons_append, methodsText_cons, methodsText_cons, ih]
    by_cases last : names = []
    · simp [last]
    · simp [last]

theorem listed_concat (names : List Bytes) (name : Bytes) :
    listed (names ++ [name]) = if listed names = [] then listed [name] else listed names ++ [name] := by
  rw [listed, List.dropWhile_append]
  by_cases empty : listed names = []
  · simp [show names.dropWhile (· = []) = [] from empty, listed]
  · simp [show names.dropWhile (· = []) ≠ [] from empty, listed]

theorem methodsText_listed_eq_nil {names : List Bytes} : methodsText (listed names) = [] ↔ listed names = [] := by
  cases kept : listed names with
  | nil => simp
  | cons name rest =>
    have filled : name ≠ [] := by
      have first := List.head?_dropWhile_not (· = []) names
      rw [show names.dropWhile (· = []) = name :: rest from kept] at first
      simpa using first
    simp [methodsText_cons, filled]

end Names

structure Route.Registers (rt : Route H) (registered : List (Bytes × H)) : Prop where
  methods : ∀ method, rt.methods.lookup method = handlerFor registered method
  allMethods : rt.allMethods = methodsText (listed (methodNames registered))

theorem Route.Registers.new (parts : List RoutePart) : Route.Registers (H := H) { routeParts := parts } [] :=
  ⟨fun _ => rfl, rfl⟩

theorem Route.Registers.setMethodHandler {rt : Route H} {registered : List (Bytes × H)}
    (registers : rt.Registers registered) (method : Bytes) (handler : H) :
    (rt.setMethodHandler method handler).Registers (registered ++ [(method, handler)]) where
  methods name := by
    have lookup : (rt.setMethodHandler method handler).methods = rt.methods.insert method handler := by
      unfold Route.setMethodHandler
      split <;> rfl
    rw [lookup, handlerFor_concat]
    split
    next same => rw [← same, AList.lookup_insert]
    next differs => rw [AList.lookup_insert_ne (Ne.symm differs), registers.methods]
  allMethods := by
    have known : rt.methods.lookup method = none ↔ method ∉ registered.map Prod.fst := by
      rw [registers.methods, handlerFor_eq_none]
    rw [Route.setMethodHandler, methodNames_concat]
    by_cases present : method ∈ registered.map Prod.fst
    · rw [if_neg (by simpa [known] using present), if_pos (.inr present)]
      exact registers.allMethods
    · rw [if_pos (known.mpr present)]
      by_cases options : method = bytes "OPTIONS"
      · simp only [options, true_or, if_true]
        exact registers.allMethods
      · simp only [options, present, or_self, if_false]
        -- a name in front of which nothing is listed yet stands alone
        rw [registers.allMethods, listed_concat]
        by_cases empty : listed (methodNames registered) = []
        · have alone : methodsText (listed [method]) = method := by
            by_cases blank : method = [] <;> simp [listed, blank]
          simp [empty, alone]
        · simp [empty, methodsText_listed_eq_nil, methodsText_concat]

namespace Router

theorem sameParts_eq (other parts : List RoutePart) :
    (other.length == parts.length &&
      (other.zip parts).all fun (theirs, ours) => theirs.1 == ours.1 && theirs.2 == ours.2) = decide (parts = other) := by
  induction other generalizing parts with
  | nil => cases parts <;> simp
  | cons part other ih =>
    cases parts with
    | nil => simp
    | cons ours parts =>
      have step := ih parts
      by_cases same : ours = part
      · subst same
        simpa using step
      · have differs : (part.1 == ours.1 && part.2 == ours.2) = false := by
          rw [Bool.eq_false_iff]
          intro both
          simp only [Bool.and_eq_true, beq_iff_eq] at both
          exact same (Prod.ext both.1.symm both.2.symm)
        simp [differs, same]

theorem isDeclaredAs_eq {rt : Route H} {route : Bytes} {parts : List RoutePart}
    (parsed : parseRouteParts route = .ok parts) :
    rt.isDeclaredAs route = .ok (decide (rt.routeParts = parts)) := by
  rw [Route.isDeclaredAs, parsed, ← sameParts_eq]
  rfl

theorem findRoute_eq {routes : List (Route H)} {route : Bytes} {parts : List RoutePart}
    (parsed : parseRouteParts route = .ok parts) :
    findRoute route routes = .ok ((routes.map (·.routeParts)).idxOf? parts) := by
  induction routes with
  | nil => rfl
  | cons rt routes ih =>
    rw [findRoute, isDeclaredAs_eq parsed, ih, List.map_cons, List.idxOf?_cons]
    by_cases same : rt.routeParts = parts
    · simp [same]
      rfl
    · simp [same]
      rfl

theorem findRoute_error {rt : Route H} {routes : List (Route H)} {route : Bytes} {exc : Exc}
    (parsed : parseRouteParts route = .error exc) : findRoute route (rt :: routes) = .error exc := by
  rw [findRoute, Route.isDeclaredAs, parsed]
  rfl

theorem createRoute_ok {router router' : Router H} {route : Bytes} {index : Nat} :
    router.createRoute route = .ok (router', index) ↔
      ∃ parts, parseRouteParts route = .ok parts ∧
        match (router.routes.map (·.routeParts)).idxOf? parts with
        | some place => router' = router ∧ index = place
        | none =>
          router' = { router with routes := router.routes ++ [{ routeParts := parts }] } ∧
            index = router.routes.length := by
  cases parsed : parseRouteParts route with
  | error exc =>
    have thrown : router.createRoute route = .error exc := by
      unfold createRoute
      cases routes : router.routes with
      | nil => simp [findRoute, parsed, Bind.bind, Except.bind]
      | cons rt routes => simp [findRoute_error parsed, Bind.bind, Except.bind]
    simp [thrown]
  | ok parts =>
    simp only [createRoute, findRoute_eq parsed, parsed, Except.ok.injEq, exists_eq_left', Bind.bind, Except.bind]
    cases (router.routes.map (·.routeParts)).idxOf? parts <;> simp [pure, Except.pure, eq_comm]

end Router

theorem createRoute_of_register {router router' : Router H} {route : Bytes}
    (taken : router.register (.createRoute route) = some router') :
    ∃ index, router.createRoute route = .ok (router', index) := by
  unfold Router.register at taken
  cases created : router.createRoute route with
  | error exc => simp [created, Except.toOption] at taken
  | ok result =>
    simp only [created, Except.toOption, Option.map_some, Option.some.injEq] at taken
    exact ⟨result.2, by rw [← taken]⟩

theorem addMethodHandler_of_register {router router' : Router H} {index : Nat} {method : Bytes} {handler : H}
    (taken : router.register (.addMethodHandler index method handler) = some router') :
    index < router.routes.length ∧ router' = router.addMethodHandler index method handler := by
  obtain ⟨valid, same⟩ := Option.ite_none_right_eq_some.mp taken
  exact ⟨valid, (Option.some.inj same).symm⟩

theorem addMethodHandler_parts (router : Router H) (index : Nat) (method : Bytes) (handler : H) :
    (router.addMethodHandler index method handler).routes.map (·.routeParts) = router.routes.map (·.routeParts) := by
  have kept (rt : Route H) : (rt.setMethodHandler method handler).routeParts = rt.routeParts := by
    unfold Route.setMethodHandler
    split <;> rfl
  refine List.ext_getElem? fun place => ?_
  simp only [Router.addMethodHandler, List.getElem?_map, List.getElem?_modify, Option.map_eq_map, Option.map_map]
  congr 1
  funext rt
  by_cases here : index = place <;> simp [here, kept]

theorem declared_concat (history : List (Registration H)) (input : Registration H) :
    declared (history ++ [input]) =
      match input.declares with
      | some parts => if parts ∈ declared history then declared history else declared history ++ [parts]
      | none => declared history := by
  cases parts : input.declares <;> simp [declared, List.filterMap_append, parts, eraseDups_concat]

theorem registered_concat (history : List (Registration H)) (input : Registration H) (index : Nat) :
    registered (history ++ [input]) index = registered history index ++ (input.registers index).toList := by
  cases parts : input.registers index <;> simp [registered, List.filterMap_append, parts]

structure Router.Records (baseUrl : Bytes) (history : List (Registration H)) (router : Router H) : Prop where
  base : router.baseUrl = pieces (ch '/') baseUrl
  parts : router.routes.map (·.routeParts) = declared history
  registers : ∀ index (rt : Route H), router.routes[index]? = some rt → rt.Registers (registered history index)
  future : ∀ index, router.routes.length ≤ index → registered history index = []

theorem Router.Records.step {baseUrl : Bytes} {history : List (Registration H)} {router router' : Router H}
    {input : Registration H} (records : router.Records baseUrl history) (taken : router.register input = some router') :
    router'.Records baseUrl (history ++ [input]) := by
  have declared_eq := declared_concat history input
  have registered_eq := registered_concat history input
  cases input with
  | createRoute route =>
    obtain ⟨place, created⟩ := createRoute_of_register taken
    obtain ⟨parts, parsed, found⟩ := createRoute_ok.mp created
    have same : ∀ index, registered (history ++ [.createRoute route]) index = registered history index := by
      simpa [Registration.registers] using registered_eq
    simp only [Registration.declares, parsed, Except.toOption, ← records.parts] at declared_eq
    cases present : (router.routes.map (·.routeParts)).idxOf? parts with
    | some index =>
      have mem : parts ∈ router.routes.map (·.routeParts) := by
        by_contra absent
        simp [List.idxOf?_eq_none_iff.mpr absent] at present
      simp only [present] at found
      rw [if_pos mem] at declared_eq
      rw [found.1]
      exact ⟨records.base, declared_eq.symm, by simpa only [same] using records.registers,
        by simpa only [same] using records.future⟩
    | none =>
      simp only [present] at found
      rw [if_neg (List.idxOf?_eq_none_iff.mp present)] at declared_eq
      rw [found.1]
      refine ⟨records.base, by simp [declared_eq], fun index rt there => ?_, fun index beyond => ?_⟩
      · rw [same]
        -- the new route is the last one, and nothing was registered with its place so far
        by_cases old : index < router.routes.length
        · rw [List.getElem?_append_left old] at there
          exact records.registers index rt there
        · rw [records.future index (Nat.le_of_not_lt old)]
          rw [List.getElem?_append_right (Nat.le_of_not_lt old)] at there
          rw [List.mem_singleton.mp (List.mem_of_getElem? there)]
          exact .new parts
      · rw [same]
        simp only [List.length_append, List.length_singleton] at beyond
        exact records.future index (by omega)
  | addMethodHandler place method handler =>
    obtain ⟨valid, rfl⟩ := addMethodHandler_of_register taken
    refine ⟨records.base, ?_, fun index rt there => ?_, fun index beyond => ?_⟩
    · rw [addMethodHandler_parts, records.parts, declared_eq]
      rfl
    · rw [registered_eq]
      simp only [Router.addMethodHandler, List.getElem?_modify, Option.map_eq_map, Option.map_eq_some_iff] at there
      obtain ⟨before, there, rfl⟩ := there
      have registers := records.registers index before there
      by_cases here : place = index
      · simpa [Registration.registers, here] using registers.setMethodHandler method handler
      · simpa [Registration.registers, here] using registers
    · simp only [Router.addMethodHandler, List.length_modify] at beyond
      rw [registered_eq, records.future index beyond]
      simp [Registration.registers, show place ≠ index by omega]

theorem Router.records_of_reaches {ok : Router H → Registration H → Prop} {baseUrl : Bytes} {history : List (Registration H)}
    {router : Router H} (reached : (registrations H).Reaches ok (.create baseUrl) history router) :
    router.Records baseUrl history :=
  reached.invariant (P := fun history router => router.Records baseUrl history)
    ⟨split_eq_pieces _ _, rfl, by simp [Router.create], by simp [registered]⟩
    fun records _ taken => records.step taken

def IsCapture (part : Bytes) : Prop := part.head? = some (ch '\x7b') ∧ part.getLast? = some (ch '\x7d')

instance (part : Bytes) : Decidable (IsCapture part) := inferInstanceAs (Decidable (_ ∧ _))

def IsRoute (route : Bytes) : Prop := ∀ part ∈ pieces (ch '/') route, 2 ≤ part.length

-- The same literal parts and captures at the same places, whatever their names.
def Corresponds (a b : Bytes) : Prop :=
  List.Forall₂ (fun x y => (IsCapture x ↔ IsCapture y) ∧ (¬ IsCapture x → x = y)) (pieces (ch '/') a) (pieces (ch '/') b)

-- `none` is a capture
def shape (parts : List RoutePart) : List (Option Bytes) :=
  parts.map fun (captured, text) => if captured then none else some text

theorem parseRoutePart_ok {text : Bytes} {part : RoutePart} :
    parseRoutePart text = .ok part ↔
      2 ≤ text.length ∧ part = if IsCapture text then (true, (text.drop 1).take (text.length - 2)) else (false, text) := by
  unfold parseRoutePart
  by_cases short : text.length < 2
  · simp [short, Nat.not_le.mpr short]
  · simp only [short, if_false, Nat.le_of_not_lt short, true_and]
    by_cases capture : IsCapture text
    · rw [if_pos capture, if_pos (show _ ∧ _ from capture), Except.ok.injEq, eq_comm]
    · rw [if_neg capture, if_neg (show ¬ (_ ∧ _) from capture), Except.ok.injEq, eq_comm]

theorem shape_eq {route : Bytes} {parts : List RoutePart} (parsed : parseRouteParts route = .ok parts) :
    shape parts = (pieces (ch '/') route).map fun text => if IsCapture text then none else some text := by
  rw [parseRouteParts, split_eq_pieces, mapM_ok_iff] at parsed
  generalize pieces (ch '/') route = texts at parsed
  induction parsed with
  | nil => rfl
  | @cons text part texts parts first _ ih =>
    obtain ⟨-, rfl⟩ := parseRoutePart_ok.mp first
    rw [List.map_cons, ← ih]
    by_cases capture : IsCapture text <;> simp [shape, capture]

theorem shape_eq_iff {a b : Bytes} {parts parts' : List RoutePart} (first : parseRouteParts a = .ok parts)
    (second : parseRouteParts b = .ok parts') : shape parts = shape parts' ↔ Corresponds a b := by
  have same (x y : Bytes) : ((if IsCapture x then none else some x) = if IsCapture y then none else some y) ↔
      (IsCapture x ↔ IsCapture y) ∧ (¬ IsCapture x → x = y) := by
    by_cases left : IsCapture x <;> by_cases right : IsCapture y <;> simp [left, right]
  rw [shape_eq first, shape_eq second, ← List.forall₂_eq_eq_eq, List.forall₂_map_left_iff, List.forall₂_map_right_iff]
  simp only [same, Corresponds]

theorem IsRoute.parsed {route : Bytes} (valid : IsRoute route) : ∃ parts, parseRouteParts route = .ok parts := by
  simp only [parseRouteParts, split_eq_pieces, mapM_ok_iff]
  unfold IsRoute at valid
  generalize pieces (ch '/') route = texts at valid
  induction texts with
  | nil => exact ⟨[], .nil⟩
  | cons text texts ih =>
    obtain ⟨parts, parsed⟩ := ih fun part mem => valid part (List.mem_cons_of_mem _ mem)
    exact ⟨_ :: parts, .cons (parseRoutePart_ok.mpr ⟨valid text (by simp), rfl⟩) parsed⟩

def SameNames (router : Router H) : Registration H → Prop
  | .createRoute route =>
    ∀ parts, parseRouteParts route = .ok parts → ∀ rt ∈ router.routes, shape rt.routeParts = shape parts → rt.routeParts = parts
  | .addMethodHandler .. => True

instance (router : Router H) (input : Registration H) : Decidable (SameNames router input) :=
  match input with
  | .createRoute route =>
    decidable_of_iff (∀ parts ∈ (parseRouteParts route).toOption, ∀ rt ∈ router.routes,
      shape rt.routeParts = shape parts → rt.routeParts = parts) <| by
        cases parsed : parseRouteParts route <;> simp [SameNames, parsed, Except.toOption]
  | .addMethodHandler .. => .isTrue trivial

namespace Router

def parts (router : Router H) : List (List RoutePart) := router.routes.map (·.routeParts)

def shapes (router : Router H) : List (List (Option Bytes)) := router.parts.map shape

variable {router router' : Router H} {route : Bytes} {index : Nat}

theorem createRoute_parts {parts : List RoutePart} (parsed : parseRouteParts route = .ok parts)
    (created : router.createRoute route = .ok (router', index)) :
    router.parts <+: router'.parts ∧ router'.parts[index]? = some parts ∧
      (parts ∈ router.parts → router' = router) ∧ (parts ∉ router.parts → router'.parts = router.parts ++ [parts]) := by
  obtain ⟨_, again, found⟩ := createRoute_ok.mp created
  obtain rfl := Except.ok.inj (parsed.symm.trans again)
  cases place : router.parts.idxOf? parts with
  | some place' =>
    simp only [show (router.routes.map (·.routeParts)).idxOf? parts = some place' from place] at found
    obtain ⟨rfl, rfl⟩ := found
    obtain ⟨inside, there, _⟩ := List.idxOf?_eq_some_iff.mp place
    have at_place : router'.parts[index]? = some parts := List.getElem?_eq_some_iff.mpr ⟨inside, there⟩
    exact ⟨List.prefix_rfl, at_place, fun _ => rfl, fun absent => absurd (List.mem_of_getElem? at_place) absent⟩
  | none =>
    simp only [show (router.routes.map (·.routeParts)).idxOf? parts = none from place] at found
    obtain ⟨rfl, rfl⟩ := found
    have appended : Router.parts { router with routes := router.routes ++ [{ routeParts := parts }] } =
        router.parts ++ [parts] := by simp [Router.parts]
    have absent := List.idxOf?_eq_none_iff.mp place
    refine ⟨appended ▸ List.prefix_append _ _, ?_, fun mem => absurd mem absent, fun _ => appended⟩
    rw [appended, List.getElem?_append_right (by simp [Router.parts])]
    simp [Router.parts]

theorem createRoute_exists (router : Router H) {parts : List RoutePart} (parsed : parseRouteParts route = .ok parts) :
    ∃ router' index, router.createRoute route = .ok (router', index) := by
  cases place : (router.routes.map (·.routeParts)).idxOf? parts with
  | some index => exact ⟨router, index, createRoute_ok.mpr ⟨parts, parsed, by simp [place]⟩⟩
  | none => exact ⟨_, _, createRoute_ok.mpr ⟨parts, parsed, by simp only [place]; exact ⟨rfl, rfl⟩⟩⟩

theorem shapes_nodup_createRoute {parts : List RoutePart} (nodup : router.shapes.Nodup)
    (parsed : parseRouteParts route = .ok parts) (created : router.createRoute route = .ok (router', index)) :
    router'.shapes.Nodup ↔ SameNames router (.createRoute route) := by
  obtain ⟨-, -, old, new⟩ := createRoute_parts parsed created
  have names : SameNames router (.createRoute route) ↔ ∀ known ∈ router.parts, shape known = shape parts → known = parts := by
    simp [SameNames, parsed, Router.parts]
  rw [names]
  by_cases present : parts ∈ router.parts
  · rw [old present]
    exact iff_of_true nodup fun known mem same => List.inj_on_of_nodup_map nodup mem present same
  · rw [shapes, new present, List.map_append, List.map_singleton, ← List.concat_eq_append, List.nodup_concat]
    constructor
    · rintro ⟨absent, _⟩ known mem same
      exact absurd (same ▸ List.mem_map_of_mem mem) absent
    · refine fun same => ⟨fun mem => ?_, nodup⟩
      obtain ⟨known, mem, equal⟩ := List.mem_map.mp mem
      exact present (same known mem equal ▸ mem)

theorem shapes_nodup_step {input : Registration H} (nodup : router.shapes.Nodup) (named : SameNames router input)
    (taken : router.register input = some router') : router'.shapes.Nodup ∧ router.parts <+: router'.parts := by
  cases input with
  | createRoute route =>
    obtain ⟨index, created⟩ := createRoute_of_register taken
    obtain ⟨parts, parsed, _⟩ := createRoute_ok.mp created
    exact ⟨(shapes_nodup_createRoute nodup parsed created).mpr named, (createRoute_parts parsed created).1⟩
  | addMethodHandler place method handler =>
    obtain ⟨_, rfl⟩ := addMethodHandler_of_register taken
    have kept : (router.addMethodHandler place method handler).parts = router.parts := addMethodHandler_parts ..
    rw [shapes, kept]
    exact ⟨nodup, List.prefix_rfl⟩

end Router

theorem route_identity_ignores_names {baseUrl a b : Bytes} {before later : List (Registration H)}
    {r₀ r₁ router : Router H} {i : Nat} (reached : (registrations H).Reaches SameNames (.create baseUrl) before r₀)
    (named : SameNames r₀ (.createRoute a)) (created : r₀.createRoute a = .ok (r₁, i))
    (reached' : (registrations H).Reaches SameNames r₁ later router) (valid : IsRoute b) :
    router.shapes.Nodup ∧
      (SameNames router (.createRoute b) ↔
        ∃ router' j, router.createRoute b = .ok (router', j) ∧ router'.shapes.Nodup ∧
          (Corresponds a b → j = i ∧ router' = router) ∧ (¬ Corresponds a b → j ≠ i)) := by
  have start : r₀.shapes.Nodup :=
    reached.invariant (P := fun _ r => r.shapes.Nodup) .nil fun nodup named taken =>
      (Router.shapes_nodup_step nodup named taken).1
  obtain ⟨partsA, parsedA, _⟩ := Router.createRoute_ok.mp created
  have nodup₁ := (Router.shapes_nodup_createRoute start parsedA created).mpr named
  obtain ⟨nodup, kept⟩ : router.shapes.Nodup ∧ r₁.parts <+: router.parts := by
    refine reached'.invariant (P := fun _ r => r.shapes.Nodup ∧ r₁.parts <+: r.parts) ⟨nodup₁, List.prefix_rfl⟩ ?_
    intro _ _ _ _ ⟨nodup, kept⟩ named taken
    obtain ⟨nodup', more⟩ := Router.shapes_nodup_step nodup named taken
    exact ⟨nodup', kept.trans more⟩
  obtain ⟨partsB, parsedB⟩ := valid.parsed
  have thereA : router.parts[i]? = some partsA := by
    obtain ⟨inside, equal⟩ := List.getElem?_eq_some_iff.mp (Router.createRoute_parts parsedA created).2.1
    rw [List.prefix_iff_getElem?.mp kept i inside, equal]
  refine ⟨nodup, fun namedB => ?_, fun ⟨_, _, again, nodup', _⟩ =>
    (Router.shapes_nodup_createRoute nodup parsedB again).mp nodup'⟩
  obtain ⟨router', j, again⟩ := router.createRoute_exists parsedB
  obtain ⟨⟨_, more⟩, thereB, old, _⟩ := Router.createRoute_parts parsedB again
  have nodup' := (Router.shapes_nodup_createRoute nodup parsedB again).mpr namedB
  refine ⟨router', j, again, nodup', fun corresponds => ?_, fun differs same => ?_⟩
  · have equal : partsA = partsB := by
      have memA := List.mem_of_getElem? thereA
      obtain ⟨rt, mem, rfl⟩ := List.mem_map.mp memA
      exact namedB partsB parsedB rt mem ((shape_eq_iff parsedA parsedB).mpr corresponds)
    subst equal
    obtain rfl := old (List.mem_of_getElem? thereA)
    have places : j = i := by
      have inside := (List.getElem?_eq_some_iff.mp thereB).1
      exact (List.getElem?_inj inside (List.Nodup.of_map _ nodup)).mp (thereB.trans thereA.symm)
    exact ⟨places, rfl⟩
  · subst same
    have inside := (List.getElem?_eq_some_iff.mp thereA).1
    rw [← more, List.getElem?_append_left inside, thereA] at thereB
    exact differs ((shape_eq_iff parsedA parsedB).mp (by rw [Option.some.inj thereB]))

theorem route_identity_ignores_names_twice :
    ∃ r₁ router : Router Nat,
      (registrations Nat).Reaches SameNames r₁ [.addMethodHandler 0 (bytes "GET") 1, .createRoute (bytes "about")] router ∧
        router.shapes.Nodup ∧
        (SameNames router (.createRoute (bytes "/items//\x7bid\x7d/")) ↔
          ∃ router' j, router.createRoute (bytes "/items//\x7bid\x7d/") = .ok (router', j) ∧ router'.shapes.Nodup ∧
            (Corresponds (bytes "items/\x7bid\x7d") (bytes "/items//\x7bid\x7d/") → j = 0 ∧ router' = router) ∧
            (¬ Corresponds (bytes "items/\x7bid\x7d") (bytes "/items//\x7bid\x7d/") → j ≠ 0)) := by
  have created : (Router.create [] : Router Nat).createRoute (bytes "items/\x7bid\x7d") =
      .ok (⟨[], [⟨[(false, bytes "items"), (true, bytes "id")], ∅, []⟩]⟩, 0) := by decide +kernel
  have ran : (((registrations Nat).guarded fun router input => decide (SameNames router input)).run
      ⟨[], [⟨[(false, bytes "items"), (true, bytes "id")], ∅, []⟩]⟩
      [.addMethodHandler 0 (bytes "GET") 1, .createRoute (bytes "about")]).isSome := by decide +kernel
  obtain ⟨router, ran⟩ := Option.isSome_iff_exists.mp ran
  have reached := System.reaches_of_guarded (fun _ _ checked => of_decide_eq_true checked) ran
  exact ⟨_, router, reached, route_identity_ignores_names .start (fun _ _ rt mem _ => by cases mem) created reached
    (by unfold IsRoute; decide +kernel)⟩

/-- Another name makes another route, of the same shape. -/
theorem renamed_capture_is_another_route :
    ∃ (r₁ r₂ : Router Nat),
      (Router.create [] : Router Nat).createRoute (bytes "items/\x7bid\x7d") = .ok (r₁, 0) ∧
        r₁.createRoute (bytes "items/\x7bitem_id\x7d") = .ok (r₂, 1) ∧
        Corresponds (bytes "items/\x7bid\x7d") (bytes "items/\x7bitem_id\x7d") ∧
        r₂.routes.length = 2 ∧ ¬ r₂.shapes.Nodup :=
  ⟨⟨[], [⟨[(false, bytes "items"), (true, bytes "id")], ∅, []⟩]⟩,
    ⟨[], [⟨[(false, bytes "items"), (true, bytes "id")], ∅, []⟩, ⟨[(false, bytes "items"), (true, bytes "item_id")], ∅, []⟩]⟩,
    by decide +kernel, by decide +kernel, by unfold Corresponds; decide +kernel, rfl, by decide⟩

end Dracon.Restful
