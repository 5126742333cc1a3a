import Dracon.Restful.Dispatch
import Dracon.Restful.Handlers
import Dracon.Shared.Sections

set_option autoImplicit false

namespace Dracon.Template

open Shared Restful

inductive Json where
  -- null, a boolean or a number, as it is written
  | scalar (text : Bytes)
  | string (text : Bytes)
  | array (values : List Json)
  | object (members : List (Bytes × Json))

-- What is used of the JSON library; `dump` throws on text that is not UTF-8.
structure JsonLibrary where
  parse : Bytes → Option Json
  dump : Json → Except Bytes Bytes

def maxBodySize : Nat := 512 * 1024

def deviceIndex (device : Bytes) : Except Exc Nat :=
  match fromChars device with
  | some (index, []) => .ok index
  | _ => .error (fail 400 "Invalid device id")

def deviceJson (index : Nat) (name : Bytes) : Json :=
  .object [(bytes "id", .scalar (numberText index)), (bytes "name", .string name)]

inductive Call where
  | getDevices (device : Option Bytes)
  | postDevices
  | patchDevice (device : Bytes)
  | deleteDevice (device : Bytes)
  deriving DecidableEq

inductive Command where
  | list
  | get (index : Nat)
  | assign (names : List Bytes)
  | rename (index : Nat) (name : Bytes)
  | erase (index : Nat)
  deriving DecidableEq

section Handlers

variable (json : JsonLibrary)

def parseBody (body : Bytes) : Except Exc Json :=
  match json.parse body with
  | some value => .ok value
  | none => .error (fail 400 "Invalid JSON body")

def deviceName : Json → Except Exc Bytes
  | .string name => .ok name
  | _ => .error (fail 400 "Expected an array of device names")

def deviceNames : Json → Except Exc (List Bytes)
  | .array values => values.mapM deviceName
  | _ => .error (fail 400 "Expected an array of device names")

-- what is not an object has no members to find
def patchedName : Json → Except Exc Bytes
  | .object members =>
    match members.lookup (bytes "name") with
    | some (.string name) => .ok name
    | _ => .error (fail 400 "Expected a \"name\" string")
  | _ => .error (fail 400 "Expected a \"name\" string")

def getDevices : Option Bytes → Except Exc Command
  | none => .ok .list
  | some device => do
    let index ← deviceIndex device
    return .get index

def postDevices (body : Bytes) : Except Exc Command := do
  let value ← parseBody json body
  let names ← deviceNames value
  return .assign names

def patchDevice (device body : Bytes) : Except Exc Command := do
  let index ← deviceIndex device
  let value ← parseBody json body
  let name ← patchedName value
  return .rename index name

def deleteDevice (device : Bytes) : Except Exc Command := do
  let index ← deviceIndex device
  return .erase index

def Call.validate (body : Bytes) : Call → Except Exc Command
  | .getDevices device => Template.getDevices device
  | .postDevices => Template.postDevices json body
  | .patchDevice device => Template.patchDevice json device body
  | .deleteDevice device => Template.deleteDevice device

end Handlers

def Call.readsBody : Call → Bool
  | .postDevices | .patchDevice _ => true
  | .getDevices _ | .deleteDevice _ => false

inductive Outcome where
  | devices (res : List Json)
  | changed
  | missing

def Outcome.answer (json : JsonLibrary) : Outcome → Except Exc Response
  | .devices res =>
    match json.dump (.array res) with
    | .ok body => .ok { statusCode := 200, body, fields := [(bytes "Content-Type", bytes "application/json")] }
    | .error what => .error (.stdException what)
  | .changed => .ok { statusCode := 200 }
  | .missing => .error (.response { statusCode := 404 })

inductive Work where
  | listing (i : Nat) (res : List Json)
  | one (index : Nat)
  | assign (names : List Bytes)
  | rename (index : Nat) (name : Bytes)
  | erase (index : Nat)
  | done (exclusive : Bool) (outcome : Outcome)

def Command.enter : Command → Work
  | .list => .listing 0 []
  | .get index => .one index
  | .assign names => .assign names
  | .rename index name => .rename index name
  | .erase index => .erase index

def Work.exclusive : Work → Bool
  | .listing _ _ | .one _ => false
  | .assign _ | .rename _ _ | .erase _ => true
  | .done exclusive _ => exclusive

def Work.act (devices : List Bytes) : Work → Option (List Bytes × Work)
  | .listing i res =>
    match devices[i]? with
    | some name => some (devices, .listing (i + 1) (res ++ [deviceJson i name]))
    | none => some (devices, .done false (.devices res))
  | .one index =>
    match devices[index]? with
    | some name => some (devices, .done false (.devices [deviceJson index name]))
    | none => some (devices, .done false .missing)
  | .assign names => some (names, .done true .changed)
  | .rename index name =>
    if devices.length ≤ index then some (devices, .done true .missing)
    else some (devices.set index name, .done true .changed)
  | .erase index =>
    if devices.length ≤ index then some (devices, .done true .missing)
    else some (devices.eraseIdx index, .done true .changed)
  | .done _ _ => none

def Work.outcome : Work → Option Outcome
  | .done _ outcome => some outcome
  | _ => none

def sections : Sections (List Bytes) Command Work Outcome where
  enter := Command.enter
  exclusive := Work.exclusive
  act := Work.act
  result := Work.outcome

-- The devices as one would have them: every command at once, and the answers to it.
def Command.apply : Command → List Bytes → List Bytes × Outcome
  | .list, devices => (devices, .devices (devices.mapIdx deviceJson))
  | .get index, devices => (devices, (devices[index]?).elim .missing fun name => .devices [deviceJson index name])
  | .assign names, _ => (names, .changed)
  | .rename index name, devices => if index < devices.length then (devices.set index name, .changed) else (devices, .missing)
  | .erase index, devices => if index < devices.length then (devices.eraseIdx index, .changed) else (devices, .missing)

-- what is still to come of a command
def Work.rest (devices : List Bytes) : Work → List Bytes × Outcome
  | .listing i res => (devices, .devices (res ++ (devices.mapIdx deviceJson).drop i))
  | .one index => Command.apply (.get index) devices
  | .assign names => Command.apply (.assign names) devices
  | .rename index name => Command.apply (.rename index name) devices
  | .erase index => Command.apply (.erase index) devices
  | .done _ outcome => (devices, outcome)

theorem rest_enter (command : Command) (devices : List Bytes) : command.enter.rest devices = command.apply devices := by
  cases command <;> rfl

theorem act_spec {devices devices' : List Bytes} {w w' : Work} (acted : w.act devices = some (devices', w')) :
    w'.rest devices' = w.rest devices ∧ w'.exclusive = w.exclusive ∧ (w.exclusive = false → devices' = devices) := by
  cases w with
  | listing i res =>
    rw [Work.act] at acted
    split at acted
    next name there =>
      cases acted
      obtain ⟨within, rfl⟩ := List.getElem?_eq_some_iff.mp there
      have first : (devices.mapIdx deviceJson).drop i =
          deviceJson i devices[i] :: (devices.mapIdx deviceJson).drop (i + 1) := by
        rw [List.drop_eq_getElem_cons (by simpa using within)]
        simp
      exact ⟨by simp [Work.rest, first], rfl, fun _ => rfl⟩
    next beyond =>
      cases acted
      have none_left : (devices.mapIdx deviceJson).drop i = [] := by simpa using beyond
      exact ⟨by simp [Work.rest, none_left], rfl, fun _ => rfl⟩
  | one index =>
    rw [Work.act] at acted
    split at acted
    next name there =>
      cases acted
      exact ⟨by simp [Work.rest, Command.apply, there], rfl, fun _ => rfl⟩
    next beyond =>
      cases acted
      exact ⟨by simp [Work.rest, Command.apply, beyond], rfl, fun _ => rfl⟩
  | assign names =>
    cases acted
    exact ⟨rfl, rfl, by rintro ⟨⟩⟩
  | rename index name =>
    rw [Work.act] at acted
    split_ifs at acted with beyond
    · cases acted
      exact ⟨by simp [Work.rest, Command.apply, Nat.not_lt.mpr beyond], rfl, by rintro ⟨⟩⟩
    · cases acted
      exact ⟨by simp [Work.rest, Command.apply, Nat.not_le.mp beyond], rfl, by rintro ⟨⟩⟩
  | erase index =>
    rw [Work.act] at acted
    split_ifs at acted with beyond
    · cases acted
      exact ⟨by simp [Work.rest, Command.apply, Nat.not_lt.mpr beyond], rfl, by rintro ⟨⟩⟩
    · cases acted
      exact ⟨by simp [Work.rest, Command.apply, Nat.not_le.mp beyond], rfl, by rintro ⟨⟩⟩
  | done exclusive outcome => cases acted

theorem sections_implement : sections.Implements Command.apply (fun devices w => w.rest devices) where
  enter := rest_enter
  act acted := (act_spec acted).1
  result := by
    intro w r ended devices
    cases w <;> cases ended
    rfl
  exclusive acted := (act_spec acted).2.1
  reads acted := (act_spec acted).2.2
  keeps := by
    intro command beside devices
    cases command <;> first | rfl | cases beside

section Routes

inductive Endpoint where
  | getDevices
  | postDevices
  | patchDevice
  | deleteDevice
  deriving DecidableEq

-- a function that is handed over as such has no defaults
def Endpoint.handler : Endpoint → CaptureHandler
  | .getDevices => ⟨true, [.optional], 1, by decide⟩
  | .postDevices => ⟨true, [], 0, by decide⟩
  | .patchDevice | .deleteDevice => ⟨true, [.string], 1, by decide⟩

def Endpoint.call : Endpoint → List Argument → Option Call
  | .getDevices, [.optional device] => some (.getDevices device)
  | .postDevices, [] => some .postDevices
  | .patchDevice, [.string device] => some (.patchDevice device)
  | .deleteDevice, [.string device] => some (.deleteDevice device)
  | _, _ => none

def Endpoint.session (endpoint : Endpoint) (route : ParsedRoute) : Option Call :=
  match makeSession (.captures endpoint.handler) route with
  | some (.captures _ arguments) => endpoint.call arguments
  | _ => none

def routes : Except Exc (Router Endpoint) := do
  let (router, devices) ← (Router.create (bytes "/v1/")).createRoute (bytes "devices")
  let router := router.addMethodHandler devices (bytes "GET") .getDevices
  let router := router.addMethodHandler devices (bytes "POST") .postDevices
  let (router, device) ← router.createRoute (bytes "devices/\x7bdevice\x7d")
  let router := router.addMethodHandler device (bytes "GET") .getDevices
  let router := router.addMethodHandler device (bytes "PATCH") .patchDevice
  return router.addMethodHandler device (bytes "DELETE") .deleteDevice

def createSession (url method : Bytes) : Except Exc (Option Call) := do
  let router ← routes
  router.answer (fun endpoint route => .ok (endpoint.session route)) none url method

def devicesRoute : Route Endpoint where
  routeParts := [(false, bytes "devices")]
  methods := AList.insert (bytes "POST") .postDevices (AList.insert (bytes "GET") .getDevices ∅)
  allMethods := bytes "GET, POST"

def deviceRoute : Route Endpoint where
  routeParts := [(false, bytes "devices"), (true, bytes "device")]
  methods := AList.insert (bytes "DELETE") .deleteDevice
    (AList.insert (bytes "PATCH") .patchDevice (AList.insert (bytes "GET") .getDevices ∅))
  allMethods := bytes "GET, PATCH, DELETE"

theorem routes_eq : routes = .ok { baseUrl := [bytes "v1"], routes := [devicesRoute, deviceRoute] } := by
  decide +kernel

def Endpoint.asked (captures : List Bytes) : Endpoint → Call
  | .getDevices => .getDevices captures[0]?
  | .postDevices => .postDevices
  | .patchDevice => .patchDevice (capturedResource captures 0)
  | .deleteDevice => .deleteDevice (capturedResource captures 0)

theorem session_eq (endpoint : Endpoint) (route : ParsedRoute) : endpoint.session route = some (endpoint.asked route.captures) := by
  rw [Endpoint.session, makeSession_captures _ (by cases endpoint <;> decide)]
  cases endpoint <;> rfl

theorem route_unique {rt other : Route Endpoint} {segments : List Bytes} (mem : rt ∈ [devicesRoute, deviceRoute])
    (mem' : other ∈ [devicesRoute, deviceRoute]) (fits : Matches rt.routeParts segments) (fits' : Matches other.routeParts segments) :
    rt = other := by
  have lengths := (List.Forall₂.length_eq fits).trans (List.Forall₂.length_eq fits').symm
  simp only [List.mem_cons, List.not_mem_nil, or_false] at mem mem'
  rcases mem with rfl | rfl <;> rcases mem' with rfl | rfl <;> first | rfl | exact absurd lengths (by decide)

theorem createSession_eq (url method : Bytes) :
    createSession url method = Router.answer { baseUrl := [bytes "v1"], routes := [devicesRoute, deviceRoute] }
      (fun endpoint route => .ok (endpoint.session route)) none url method := by
  rw [createSession, routes_eq]
  rfl

theorem createSession_iff {url method : Bytes} {queries : List (Bytes × Bytes)} (decoded : parseQueries (Router.urlQuery url) = .ok queries)
    (call : Call) :
    createSession url method = .ok (some call) ↔
      ∃ rt ∈ [devicesRoute, deviceRoute], ∃ segments endpoint, pieces (ch '/') (Router.urlPath url) = bytes "v1" :: segments ∧
        Matches rt.routeParts segments ∧ rt.methods.lookup method = some endpoint ∧
        endpoint.asked (captured rt.routeParts segments) = call := by
  let router : Router Endpoint := { baseUrl := [bytes "v1"], routes := [devicesRoute, deviceRoute] }
  rw [createSession_eq, Router.answer]
  by_cases inside : ∃ segments, Router.Remaining router.baseUrl url segments
  · obtain ⟨segments, remaining⟩ := inside
    rw [Router.createHandler_of_remaining remaining]
    by_cases unserved : ∀ rt ∈ router.routes, ¬ rt.Serves segments method
    · rw [Router.tryRoutes_none unserved]
      constructor
      · intro found
        split at found <;> cases found
      · rintro ⟨rt, mem, others, endpoint, path, fits, lookup, -⟩
        obtain rfl : segments = others := (List.cons.inj (remaining.2.symm.trans path)).2
        exact absurd ⟨fits, by rw [lookup]; rfl⟩ (unserved rt mem)
    · obtain ⟨rt, endpoint, found, lookup⟩ := Router.find_serving unserved
      have serves : rt.Serves segments method := by simpa using List.find?_some found
      have mem : rt ∈ [devicesRoute, deviceRoute] := List.mem_of_find?_eq_some found
      rw [Router.tryRoutes_some found lookup, decoded]
      simp only [session_eq]
      constructor
      · intro asked
        exact ⟨rt, mem, segments, endpoint, remaining.2, serves.1, lookup, Option.some.inj (Except.ok.inj asked)⟩
      · rintro ⟨other, mem', others, endpoint', path, fits, lookup', rfl⟩
        obtain rfl : segments = others := (List.cons.inj (remaining.2.symm.trans path)).2
        obtain rfl := route_unique mem mem' serves.1 fits
        obtain rfl : endpoint = endpoint' := Option.some.inj (lookup.symm.trans lookup')
        rfl
  · rw [Router.createHandler_of_not_remaining inside]
    constructor
    · intro found
      cases found
    · rintro ⟨rt, mem, segments, endpoint, path, fits, -⟩
      refine absurd ⟨segments, ?_, path⟩ inside
      rintro rfl
      have lengths := List.Forall₂.length_eq fits
      simp only [List.mem_cons, List.not_mem_nil, or_false] at mem
      rcases mem with rfl | rfl <;> exact absurd lengths (by decide)

theorem matches_devices (segments : List Bytes) : Matches devicesRoute.routeParts segments ↔ segments = [bytes "devices"] := by
  simp only [Matches, devicesRoute, List.forall₂_cons_left_iff, List.forall₂_nil_left_iff]
  constructor
  · rintro ⟨segment, rest, same, rfl, rfl⟩
    rw [same trivial]
  · rintro rfl
    exact ⟨_, [], fun _ => rfl, rfl, rfl⟩

theorem matches_device (segments : List Bytes) :
    Matches deviceRoute.routeParts segments ↔ ∃ device, segments = [bytes "devices", device] := by
  simp only [Matches, deviceRoute, List.forall₂_cons_left_iff, List.forall₂_nil_left_iff]
  constructor
  · rintro ⟨segment, _, same, ⟨device, rest, -, rfl, rfl⟩, rfl⟩
    exact ⟨device, by rw [same trivial]⟩
  · rintro ⟨device, rfl⟩
    exact ⟨_, [device], fun _ => rfl, ⟨device, [], by rintro ⟨⟩, rfl, rfl⟩, rfl⟩

theorem lookup_insert (methods : AList fun _ : Bytes => Endpoint) (key method : Bytes) (endpoint : Endpoint) :
    (methods.insert key endpoint).lookup method = if method = key then some endpoint else methods.lookup method := by
  split_ifs with same
  · rw [same, AList.lookup_insert]
  · rw [AList.lookup_insert_ne same]

theorem lookup_devices (method : Bytes) (endpoint : Endpoint) :
    devicesRoute.methods.lookup method = some endpoint ↔
      method = bytes "GET" ∧ endpoint = .getDevices ∨ method = bytes "POST" ∧ endpoint = .postDevices := by
  have apart : bytes "GET" ≠ bytes "POST" := by decide
  simp only [devicesRoute, lookup_insert, AList.lookup_empty]
  grind

theorem lookup_device (method : Bytes) (endpoint : Endpoint) :
    deviceRoute.methods.lookup method = some endpoint ↔
      method = bytes "GET" ∧ endpoint = .getDevices ∨ method = bytes "PATCH" ∧ endpoint = .patchDevice ∨
        method = bytes "DELETE" ∧ endpoint = .deleteDevice := by
  have apart : bytes "GET" ≠ bytes "PATCH" ∧ bytes "GET" ≠ bytes "DELETE" ∧ bytes "PATCH" ≠ bytes "DELETE" := by decide
  simp only [deviceRoute, lookup_insert, AList.lookup_empty]
  grind

/-- The requests the devices are for; the id is the segment as it is. -/
theorem devices_routed {url method : Bytes} {queries : List (Bytes × Bytes)} (decoded : parseQueries (Router.urlQuery url) = .ok queries)
    (call : Call) :
    createSession url method = .ok (some call) ↔
      (pieces (ch '/') (Router.urlPath url) = [bytes "v1", bytes "devices"] ∧
        (method = bytes "GET" ∧ call = .getDevices none ∨ method = bytes "POST" ∧ call = .postDevices)) ∨
      ∃ device, pieces (ch '/') (Router.urlPath url) = [bytes "v1", bytes "devices", device] ∧
        (method = bytes "GET" ∧ call = .getDevices (some device) ∨ method = bytes "PATCH" ∧ call = .patchDevice device ∨
          method = bytes "DELETE" ∧ call = .deleteDevice device) := by
  rw [createSession_iff decoded]
  simp only [List.mem_cons, List.not_mem_nil, or_false, exists_eq_or_imp, exists_eq_left, matches_devices, matches_device,
    lookup_devices, lookup_device]
  constructor
  · rintro (⟨segments, endpoint, path, rfl, found, rfl⟩ | ⟨segments, endpoint, path, ⟨device, rfl⟩, found, rfl⟩)
    · left
      rcases found with ⟨rfl, rfl⟩ | ⟨rfl, rfl⟩
      · exact ⟨path, .inl ⟨rfl, rfl⟩⟩
      · exact ⟨path, .inr ⟨rfl, rfl⟩⟩
    · right
      rcases found with ⟨rfl, rfl⟩ | ⟨rfl, rfl⟩ | ⟨rfl, rfl⟩
      · exact ⟨device, path, .inl ⟨rfl, rfl⟩⟩
      · exact ⟨device, path, .inr (.inl ⟨rfl, rfl⟩)⟩
      · exact ⟨device, path, .inr (.inr ⟨rfl, rfl⟩)⟩
  · rintro (⟨path, found⟩ | ⟨device, path, found⟩)
    · left
      rcases found with ⟨rfl, rfl⟩ | ⟨rfl, rfl⟩
      · exact ⟨_, .getDevices, path, rfl, .inl ⟨rfl, rfl⟩, rfl⟩
      · exact ⟨_, .postDevices, path, rfl, .inr ⟨rfl, rfl⟩, rfl⟩
    · right
      rcases found with ⟨rfl, rfl⟩ | ⟨rfl, rfl⟩ | ⟨rfl, rfl⟩
      · exact ⟨_, .getDevices, path, ⟨device, rfl⟩, .inl ⟨rfl, rfl⟩, rfl⟩
      · exact ⟨_, .patchDevice, path, ⟨device, rfl⟩, .inr (.inl ⟨rfl, rfl⟩), rfl⟩
      · exact ⟨_, .deleteDevice, path, ⟨device, rfl⟩, .inr (.inr ⟨rfl, rfl⟩), rfl⟩

theorem devices_routed_patch :
    createSession (bytes "/v1/devices/7?a=b") (bytes "PATCH") = .ok (some (.patchDevice (bytes "7"))) := by
  have decoded : parseQueries (Router.urlQuery (bytes "/v1/devices/7?a=b")) = .ok [(bytes "a", bytes "b")] := by decide +kernel
  refine (devices_routed decoded _).mpr (.inr ⟨bytes "7", by decide +kernel, .inr (.inl ⟨rfl, rfl⟩)⟩)

end Routes

end Dracon.Template
