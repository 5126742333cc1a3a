import Mathlib
import Dracon.Shared.Pieces
import Dracon.Http.Url

set_option autoImplicit false

namespace Dracon.Restful

open Shared

-- a `count` of `none` is `npos`
def split (str : Bytes) (sep : Byte) (count : Option Nat := none) : List Bytes :=
  match _found : cut sep str with
  | some (piece, rest) =>
    if count = some 0 then [str]
    else (if piece = [] then [] else [piece]) ++ split rest sep (count.map (· - 1))
  | none => if str = [] then [] else [str]
termination_by str.length
decreasing_by
  obtain ⟨rfl, -⟩ := cut_eq_some.mp _found
  simp
  omega

theorem split_eq_pieces (str : Bytes) (sep : Byte) : split str sep = pieces sep str := by
  generalize unlimited : (none : Option Nat) = count
  fun_induction split str sep count with
  | case1 => cases unlimited
  | case2 str count piece rest found _ ih =>
    subst unlimited
    obtain ⟨rfl, absent⟩ := cut_eq_some.mp found
    rw [ih rfl, pieces_cut absent]
  | case3 => simp
  | case4 str count missing filled => rw [pieces_of_notMem (cut_eq_none.mp missing), if_neg filled]

theorem split_once_none {str : Bytes} {sep : Byte} (absent : sep ∉ str) :
    split str sep (some 1) = if str = [] then [] else [str] := by
  unfold split
  split
  next _ _ found => exact absurd (cut_eq_none.mpr absent) (by simp [found])
  next => rfl

theorem split_once {before after : Bytes} {sep : Byte} (absent : sep ∉ before) :
    split (before ++ sep :: after) sep (some 1) =
      (if before = [] then [] else [before]) ++ if after = [] then [] else [after] := by
  have rest : split after sep (some 0) = if after = [] then [] else [after] := by
    unfold split
    split
    next _ _ found =>
      have : after ≠ [] := by
        rintro rfl
        cases found
      simp [this]
    next => rfl
  rw [split]
  split
  next piece more found =>
    obtain ⟨rfl, rfl⟩ := Prod.mk.inj (Option.some.inj (found.symm.trans (cut_of_append absent)))
    simp [rest]
  next missing => exact absurd missing (by simp [cut_of_append absent])

abbrev RoutePart := Bool × Bytes

def parseRoutePart (part : Bytes) : Except Exc RoutePart :=
  if part.length < 2 then .error (fail 400 "Invalid route")
  else if part.head? = some (ch '\x7b') ∧ part.getLast? = some (ch '\x7d') then
    .ok (true, (part.drop 1).take (part.length - 2))
  else .ok (false, part)

def parseRouteParts (route : Bytes) : Except Exc (List RoutePart) := (split route (ch '/')).mapM parseRoutePart

structure Route (H : Type) where
  routeParts : List RoutePart
  methods : AList (fun _ : Bytes => H) := ∅
  allMethods : Bytes := []

instance {H : Type} [DecidableEq H] : DecidableEq (Route H) := fun a b =>
  decidable_of_iff (a.routeParts = b.routeParts ∧ a.methods.entries = b.methods.entries ∧ a.allMethods = b.allMethods) <| by
    cases a
    cases b
    simp [AList.ext_iff]

structure ParsedRoute where
  captures : List Bytes
  queries : List (Bytes × Bytes)
  allButOptionsNodeMethods : Bytes
  deriving DecidableEq

variable {H : Type}

namespace Route

-- `operator ==`
def isDeclaredAs (rt : Route H) (route : Bytes) : Except Exc Bool := do
  let other ← parseRouteParts route
  return other.length == rt.routeParts.length &&
    (other.zip rt.routeParts).all fun (theirs, ours) => theirs.1 == ours.1 && theirs.2 == ours.2

def setMethodHandler (rt : Route H) (method : Bytes) (creator : H) : Route H :=
  if rt.methods.lookup method = none then
    { rt with
      allMethods :=
        if method = bytes "OPTIONS" then rt.allMethods
        else rt.allMethods ++ if rt.allMethods = [] then method else bytes ", " ++ method
      methods := rt.methods.insert method creator }
  else { rt with methods := rt.methods.insert method creator }

-- the loop over the parts; `none` when a literal part differs
def capture : List RoutePart → List Bytes → Option (List Bytes)
  | (captured, text) :: parts, segment :: segments =>
    if captured then (capture parts segments).map (segment :: ·)
    else if text ≠ segment then none
    else capture parts segments
  | _, _ => some []

-- The first part is `path_matched`.
def createHandler (rt : Route H) (urlParts : List Bytes) (method : Bytes) : Bool × Option (List Bytes × H) :=
  if urlParts.length ≠ rt.routeParts.length then (false, none)
  else
    match capture rt.routeParts urlParts with
    | none => (false, none)
    | some captures => (true, (rt.methods.lookup method).map fun handler => (captures, handler))

end Route

def parseQuery (pair : Bytes) : Except Exc (Bytes × Bytes) :=
  match split pair (ch '=') (some 1) with
  | [key] => do
    let key ← unescapeUrl key
    return (key, [])
  | [key, value] => do
    let key ← unescapeUrl key
    let value ← unescapeUrl value
    return (key, value)
  | _ => .error (fail 400 "Invalid query strings")

theorem parseQuery_error {pair : Bytes} {exc : Exc} (thrown : parseQuery pair = .error exc) :
    exc = fail 400 "Invalid query strings" ∨ ∃ what, exc = .stdException what := by
  unfold parseQuery at thrown
  split at thrown
  · rcases bind_eq_error thrown with bad | ⟨_, thrown⟩
    · exact .inr (unescapeUrl_error bad)
    · cases thrown
  · rcases bind_eq_error thrown with bad | ⟨_, thrown⟩
    · exact .inr (unescapeUrl_error bad)
    rcases bind_eq_error thrown with bad | ⟨_, thrown⟩
    · exact .inr (unescapeUrl_error bad)
    · cases thrown
  · exact .inl (Except.error.inj thrown).symm

def parseQueries : Option Bytes → Except Exc (List (Bytes × Bytes))
  | none => .ok []
  | some query => (split query (ch '&')).mapM parseQuery

theorem parseQueries_error {query : Option Bytes} {exc : Exc} (thrown : parseQueries query = .error exc) :
    exc = fail 400 "Invalid query strings" ∨ ∃ what, exc = .stdException what := by
  cases query with
  | none => cases thrown
  | some query =>
    obtain ⟨pair, -, bad⟩ := mapM_error thrown
    exact parseQuery_error bad

structure Router (H : Type) where
  baseUrl : List Bytes
  routes : List (Route H) := []
  deriving DecidableEq

namespace Router

def create (baseUrl : Bytes) : Router H := { baseUrl := split baseUrl (ch '/') }

def findRoute (route : Bytes) : List (Route H) → Except Exc (Option Nat)
  | [] => .ok none
  | rt :: routes => do
    if ← rt.isDeclaredAs route then return some 0
    let found ← findRoute route routes
    return found.map (· + 1)

-- The route that is returned is given by its place in the list.
def createRoute (router : Router H) (route : Bytes) : Except Exc (Router H × Nat) := do
  match ← findRoute route router.routes with
  | some index => return (router, index)
  | none =>
    let parts ← parseRouteParts route
    return ({ router with routes := router.routes ++ [{ routeParts := parts }] }, router.routes.length)

-- on the route that `createRoute` has returned
def addMethodHandler (router : Router H) (index : Nat) (method : Bytes) (handler : H) : Router H :=
  { router with routes := router.routes.modify index (·.setMethodHandler method handler) }

def urlPath (url : Bytes) : Bytes := ((cut (ch '?') url).map Prod.fst).getD url

def urlQuery (url : Bytes) : Option Bytes := (cut (ch '?') url).map Prod.snd

-- the loop over the routes
def tryRoutes (resources : List Bytes) (method : Bytes) (query : Option Bytes) :
    List (Route H) → Option Bytes → Except Exc (Option (H × ParsedRoute))
  | [], none => .ok none
  | [], some allowed =>
    .error (.response { statusCode := 405, fields := [(bytes "Allow", allowed)] })
  | rt :: routes, allowed =>
    match rt.createHandler resources method with
    | (_, some (captures, handler)) => do
      let queries ← parseQueries query
      return some (handler, { captures, queries, allButOptionsNodeMethods := rt.allMethods })
    | (matched, none) =>
      tryRoutes resources method query routes (if matched && allowed.isNone then some rt.allMethods else allowed)

def createHandler (router : Router H) (url method : Bytes) : Except Exc (Option (H × ParsedRoute)) :=
  let resources := split (urlPath url) (ch '/')
  if resources.length < router.baseUrl.length + 1 then .ok none
  else if ¬ router.baseUrl <+: resources then .ok none
  else tryRoutes (resources.drop router.baseUrl.length) method (urlQuery url) router.routes none

-- `create_handler` as a whole: what the handler returns or throws is the result.
def answer {R : Type} (router : Router H) (call : H → ParsedRoute → Except Exc R) (empty : R) (url method : Bytes) :
    Except Exc R := do
  match ← router.createHandler url method with
  | none => return empty
  | some (handler, parsedRoute) => call handler parsedRoute

end Router

end Dracon.Restful
