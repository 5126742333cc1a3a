import Dracon.Http.Expect
import Dracon.Shared.StepSystem
import Dracon.Template.Devices

set_option autoImplicit false

namespace Dracon.Template

open Shared Restful

section Service

inductive Stage where
  | reading (call : Call)
  | ready (call : Call) (body : Bytes) (command : Command)
  | inside (call : Call) (body : Bytes) (command : Command)
  | answered (call : Call) (body : Bytes) (answer : Except Exc Response)
  -- `create_session` has thrown
  | rejected (e : Exc)
  -- the stream has thrown: it refuses the body, or the peer is gone
  | lost (e : Exc)
  deriving DecidableEq

structure Service where
  -- `s_devices` and `s_mutex`
  devices : Protected Nat (List Bytes) Command Work := { value := [] }
  sessions : Nat → Option Stage := fun _ => none

inductive Input where
  | create (k : Nat) (url method : Bytes)
  | read (k : Nat) (body : Bytes)
  | throws (k : Nat) (e : Exc)
  | lock (k : Nat)
  | act (k : Nat)
  | unlock (k : Nat)
  deriving DecidableEq

def Service.goto (s : Service) (k : Nat) (stage : Stage) : Service :=
  { s with sessions := Function.update s.sessions k (some stage) }

-- `patch_device` looks at the index before it reads.
def Call.start : Call → Stage
  | .patchDevice device =>
    match deviceIndex device with
    | .ok _ => .reading (.patchDevice device)
    | .error e => .answered (.patchDevice device) [] (.error e)
  | call => .reading call

variable (json : JsonLibrary)

def Call.validated (call : Call) (body : Bytes) : Stage :=
  match call.validate json body with
  | .ok command => .ready call body command
  | .error e => .answered call body (.error e)

def Service.step (s : Service) : Input → Option Service
  | .create k url method =>
    match s.sessions k, createSession url method with
    | none, .ok (some call) => some (s.goto k call.start)
    | none, .error e => some (s.goto k (.rejected e))
    | _, _ => none
  | .read k body =>
    match s.sessions k with
    | some (.reading call) =>
      if call.readsBody ∧ maxBodySize < body.length then none else some (s.goto k (call.validated json body))
    | _ => none
  | .throws k e =>
    match s.sessions k with
    | some (.reading _) => some (s.goto k (.lost e))
    | _ => none
  | .lock k =>
    match s.sessions k with
    | some (.ready call body command) =>
      (s.devices.lock sections k command).map fun devices => { s with devices }.goto k (.inside call body command)
    | _ => none
  | .act k =>
    match s.sessions k with
    | some (.inside _ _ _) => (s.devices.act sections k).map fun devices => { s with devices }
    | _ => none
  | .unlock k =>
    match s.sessions k with
    | some (.inside call body _) =>
      (s.devices.unlock sections k).map fun left => { s with devices := left.1 }.goto k (.answered call body (left.2.answer json))
    | _ => none

-- what a step does, with what it has found
inductive Moves (s : Service) : Input → Service → Prop
  | starts {k : Nat} {url method : Bytes} {call : Call} (new : s.sessions k = none)
      (created : createSession url method = .ok (some call)) : Moves s (.create k url method) (s.goto k (.reading call))
  | refused {k : Nat} {url method : Bytes} {call : Call} {e : Exc} (new : s.sessions k = none)
      (created : createSession url method = .ok (some call)) (invalid : call.validate json [] = .error e) :
      Moves s (.create k url method) (s.goto k (.answered call [] (.error e)))
  | rejects {k : Nat} {url method : Bytes} {e : Exc} (new : s.sessions k = none)
      (failed : createSession url method = .error e) : Moves s (.create k url method) (s.goto k (.rejected e))
  | validates {k : Nat} {body : Bytes} {call : Call} {command : Command} (reading : s.sessions k = some (.reading call))
      (valid : call.validate json body = .ok command) : Moves s (.read k body) (s.goto k (.ready call body command))
  | invalidates {k : Nat} {body : Bytes} {call : Call} {e : Exc} (reading : s.sessions k = some (.reading call))
      (invalid : call.validate json body = .error e) : Moves s (.read k body) (s.goto k (.answered call body (.error e)))
  | loses {k : Nat} {call : Call} {e : Exc} (reading : s.sessions k = some (.reading call)) :
      Moves s (.throws k e) (s.goto k (.lost e))
  | locks {k : Nat} {call : Call} {body : Bytes} {command : Command} {devices : Protected Nat (List Bytes) Command Work}
      (ready : s.sessions k = some (.ready call body command)) (locked : s.devices.lock sections k command = some devices) :
      Moves s (.lock k) ({ s with devices }.goto k (.inside call body command))
  | acts {k : Nat} {call : Call} {body : Bytes} {command : Command} {devices : Protected Nat (List Bytes) Command Work}
      (inside : s.sessions k = some (.inside call body command)) (acted : s.devices.act sections k = some devices) :
      Moves s (.act k) { s with devices }
  | unlocks {k : Nat} {call : Call} {body : Bytes} {command : Command} {devices : Protected Nat (List Bytes) Command Work}
      {outcome : Outcome} (inside : s.sessions k = some (.inside call body command))
      (unlocked : s.devices.unlock sections k = some (devices, outcome)) :
      Moves s (.unlock k) ({ s with devices }.goto k (.answered call body (outcome.answer json)))

def service : System Service Input := ⟨Service.step json⟩

def Input.locks : Input → Option Nat
  | .lock k => some k
  | _ => none

abbrev Commands := List (Nat × Command)

def keys (entered : Commands) : List Nat := entered.map Prod.fst

-- What has come of a request: it is refused and leaves no trace, or it has its place in the row.
def Settled (entered : Commands) (k : Nat) (call : Call) (body : Bytes) (answer : Except Exc Response) : Prop :=
  (∃ e, call.validate json body = .error e ∧ answer = .error e ∧ k ∉ keys entered) ∨
    ∃ before command after, call.validate json body = .ok command ∧ entered = before ++ (k, command) :: after ∧
      answer = (command.apply (replay Command.apply [] before)).2.answer json

def Sound (entered : Commands) (k : Nat) : Option Stage → Prop
  | none | some (.reading _) | some (.rejected _) | some (.lost _) => k ∉ keys entered
  | some (.ready call body command) => call.validate json body = .ok command ∧ k ∉ keys entered
  | some (.inside call body command) => call.validate json body = .ok command ∧ (k, command) ∈ entered
  | some (.answered call body answer) => Settled json entered k call body answer

def Stage.request : Stage → Option (Call × Bytes)
  | .reading call => some (call, [])
  | .ready call body _ | .inside call body _ | .answered call body _ => some (call, body)
  | .rejected _ | .lost _ => none

def Received (inputs : List Input) (k : Nat) (call : Call) (body : Bytes) : Prop :=
  (∃ url method, .create k url method ∈ inputs ∧ createSession url method = .ok (some call)) ∧
    (body = [] ∨ .read k body ∈ inputs)

structure Good (inputs : List Input) (s : Service) : Prop where
  serial : Serial sections Command.apply (fun devices w => w.rest devices) [] s.devices
  order : keys s.devices.entered = inputs.filterMap Input.locks
  once : (keys s.devices.entered).Nodup
  asked : ∀ entry ∈ s.devices.entered, ∃ call body, Call.validate json body call = .ok entry.2
  sound : ∀ k, Sound json s.devices.entered k (s.sessions k)
  received : ∀ k stage call body, s.sessions k = some stage → stage.request = some (call, body) → Received inputs k call body

end Service

section Runs

variable {json : JsonLibrary} {inputs : List Input} {input : Input} {s s' : Service} {k : Nat}
  {devices : Protected Nat (List Bytes) Command Work} {stage : Stage}

@[simp] theorem sessions_goto (j : Nat) (stage : Stage) :
    (s.goto k stage).sessions j = if j = k then some stage else s.sessions j := by
  simp [Service.goto, Function.update_apply]

theorem start_cases (json : JsonLibrary) (call : Call) :
    call.start = .reading call ∨ ∃ e, call.validate json [] = .error e ∧ call.start = .answered call [] (.error e) := by
  cases call with
  | patchDevice device =>
    cases index : deviceIndex device with
    | ok value => exact .inl (by simp [Call.start, index])
    | error e => exact .inr ⟨e, by simp [Call.validate, patchDevice, index, Bind.bind, Except.bind], by simp [Call.start, index]⟩
  | getDevices device => exact .inl rfl
  | postDevices => exact .inl rfl
  | deleteDevice device => exact .inl rfl

theorem validated_cases (json : JsonLibrary) (call : Call) (body : Bytes) :
    (∃ command, call.validate json body = .ok command ∧ call.validated json body = .ready call body command) ∨
      ∃ e, call.validate json body = .error e ∧ call.validated json body = .answered call body (.error e) := by
  unfold Call.validated
  cases checked : call.validate json body with
  | ok command => exact .inl ⟨command, rfl, rfl⟩
  | error e => exact .inr ⟨e, rfl, rfl⟩

theorem moves_of_step (taken : s.step json input = some s') : Moves json s input s' := by
  cases input with
  | create k url method =>
    rw [Service.step] at taken
    split at taken
    next call new created =>
      cases taken
      rcases start_cases json call with started | ⟨e, invalid, started⟩
      · exact started ▸ .starts new created
      · exact started ▸ .refused new created invalid
    next e new failed =>
      cases taken
      exact .rejects new failed
    next => cases taken
  | read k body =>
    rw [Service.step] at taken
    split at taken
    next call reading =>
      split_ifs at taken
      cases taken
      rcases validated_cases json call body with ⟨command, valid, next⟩ | ⟨e, invalid, next⟩
      · exact next ▸ .validates reading valid
      · exact next ▸ .invalidates reading invalid
    next => cases taken
  | throws k e =>
    rw [Service.step] at taken
    split at taken
    next call reading =>
      cases taken
      exact .loses reading
    next => cases taken
  | lock k =>
    rw [Service.step] at taken
    split at taken
    next call body command ready =>
      obtain ⟨devices, locked, rfl⟩ := Option.map_eq_some_iff.mp taken
      exact .locks ready locked
    next => cases taken
  | act k =>
    rw [Service.step] at taken
    split at taken
    next call body command inside =>
      obtain ⟨devices, acted, rfl⟩ := Option.map_eq_some_iff.mp taken
      exact .acts inside acted
    next => cases taken
  | unlock k =>
    rw [Service.step] at taken
    split at taken
    next call body command inside =>
      obtain ⟨⟨devices, outcome⟩, unlocked, rfl⟩ := Option.map_eq_some_iff.mp taken
      exact .unlocks inside unlocked
    next => cases taken

theorem keys_concat (entered : Commands) (entry : Nat × Command) : keys (entered ++ [entry]) = keys entered ++ [entry.1] := by
  simp [keys]

theorem Received.concat {call : Call} {body : Bytes} (received : Received inputs k call body) (input : Input) :
    Received (inputs ++ [input]) k call body := by
  obtain ⟨⟨url, method, created, found⟩, read⟩ := received
  exact ⟨⟨url, method, List.mem_append_left _ created, found⟩, read.imp_right (List.mem_append_left _)⟩

theorem Sound.concat {entered : Commands} {stage : Option Stage} {entry : Nat × Command} (sound : Sound json entered k stage)
    (other : k ≠ entry.1) : Sound json (entered ++ [entry]) k stage := by
  have out (outside : k ∉ keys entered) : k ∉ keys (entered ++ [entry]) := by simp [keys_concat, outside, other]
  rcases stage with _ | stage
  · exact out sound
  cases stage with
  | reading call => exact out sound
  | rejected e => exact out sound
  | lost e => exact out sound
  | ready call body command => exact ⟨sound.1, out sound.2⟩
  | inside call body command => exact ⟨sound.1, List.mem_append_left _ sound.2⟩
  | answered call body answer =>
    rcases sound with ⟨e, refused, answer, outside⟩ | ⟨before, command, after, valid, rfl, answer⟩
    · exact .inl ⟨e, refused, answer, out outside⟩
    · exact .inr ⟨before, command, after ++ [entry], valid, by simp, answer⟩

theorem Good.start : Good json [] {} where
  serial := Serial.initial _
  order := rfl
  once := List.nodup_nil
  asked := by simp
  sound := fun k => by simp [Sound, keys]
  received := by simp

theorem Good.sound_at {stage : Option Stage} (good : Good json inputs s) (here : s.sessions k = stage) :
    Sound json s.devices.entered k stage :=
  here ▸ good.sound k

theorem Good.move (good : Good json inputs s)
    (serial : Serial sections Command.apply (fun devices w => w.rest devices) [] devices)
    (same : devices.entered = s.devices.entered) (idle : input.locks = none)
    (sound : Sound json s.devices.entered k (some stage))
    (received : ∀ call body, stage.request = some (call, body) → Received (inputs ++ [input]) k call body) :
    Good json (inputs ++ [input]) ({ s with devices }.goto k stage) := by
  constructor
  case serial => exact serial
  case order =>
    change keys devices.entered = _
    rw [same, good.order]
    simp [idle]
  case once => exact same ▸ good.once
  case asked => exact same ▸ good.asked
  case sound =>
    intro j
    change Sound json devices.entered j _
    rw [same, sessions_goto]
    split_ifs with here
    · exact here ▸ sound
    · exact good.sound j
  case received =>
    intro j next call body found request
    rw [sessions_goto] at found
    split_ifs at found with here
    · cases found
      exact here ▸ received call body request
    · exact (good.received j next call body found request).concat input

theorem Good.lock {call : Call} {body : Bytes} {command : Command} (good : Good json inputs s)
    (ready : s.sessions k = some (.ready call body command)) (locked : s.devices.lock sections k command = some devices) :
    Good json (inputs ++ [.lock k]) ({ s with devices }.goto k (.inside call body command)) := by
  have entered := Protected.lock_entered locked
  obtain ⟨valid, outside⟩ := good.sound_at ready
  constructor
  case serial => exact good.serial.lock sections_implement locked
  case order =>
    change keys devices.entered = _
    rw [entered, keys_concat, good.order]
    simp [Input.locks]
  case once =>
    change (keys devices.entered).Nodup
    rw [entered, keys_concat]
    simpa using good.once.concat outside
  case asked =>
    change ∀ entry ∈ devices.entered, _
    rw [entered]
    intro entry mem
    rcases List.mem_append.mp mem with before | last
    · exact good.asked entry before
    · obtain rfl := List.mem_singleton.mp last
      exact ⟨call, body, valid⟩
  case sound =>
    intro j
    change Sound json devices.entered j _
    rw [entered, sessions_goto]
    split_ifs with here
    · exact ⟨valid, by simp [here]⟩
    · exact (good.sound j).concat here
  case received =>
    intro j next asked text found request
    rw [sessions_goto] at found
    split_ifs at found with here
    · cases found
      cases request
      subst here
      exact (good.received j _ call body ready rfl).concat _
    · exact (good.received j next asked text found request).concat _

theorem Good.unlock {call : Call} {body : Bytes} {command : Command} {outcome : Outcome} (good : Good json inputs s)
    (inside : s.sessions k = some (.inside call body command)) (unlocked : s.devices.unlock sections k = some (devices, outcome)) :
    Good json (inputs ++ [.unlock k]) ({ s with devices }.goto k (.answered call body (outcome.answer json))) := by
  obtain ⟨valid, mem⟩ := good.sound_at inside
  obtain ⟨serial, before, found, after, entered, result⟩ := good.serial.unlock sections_implement unlocked
  -- the session has been there once, so what it was there for is its command
  obtain rfl : found = command := by
    have there : (k, found) ∈ s.devices.entered := by simp [entered]
    exact congrArg Prod.snd (List.inj_on_of_nodup_map good.once there mem rfl)
  refine good.move serial (Protected.unlock_entered unlocked) rfl (.inr ⟨before, found, after, valid, entered, by rw [result]⟩) ?_
  rintro _ _ ⟨⟩
  exact (good.received k _ call body inside rfl).concat _

theorem goto_self (here : s.sessions k = some stage) : { s with devices }.goto k stage = { s with devices } := by
  simp [Service.goto, ← here]

theorem Good.step (good : Good json inputs s) (taken : s.step json input = some s') : Good json (inputs ++ [input]) s' := by
  cases moves_of_step taken with
  | @starts k url method call new created =>
    have outside : k ∉ keys s.devices.entered := good.sound_at new
    refine good.move good.serial rfl rfl outside ?_
    rintro _ _ ⟨⟩
    exact ⟨⟨url, method, by simp, created⟩, .inl rfl⟩
  | @refused k url method call e new created invalid =>
    have outside : k ∉ keys s.devices.entered := good.sound_at new
    refine good.move good.serial rfl rfl (.inl ⟨e, invalid, rfl, outside⟩) ?_
    rintro _ _ ⟨⟩
    exact ⟨⟨url, method, by simp, created⟩, .inl rfl⟩
  | @rejects k _ _ _ new =>
    have outside : k ∉ keys s.devices.entered := good.sound_at new
    exact good.move good.serial rfl rfl outside (by rintro _ _ ⟨⟩)
  | @validates k body call command reading valid =>
    have outside : k ∉ keys s.devices.entered := good.sound_at reading
    refine good.move good.serial rfl rfl ⟨valid, outside⟩ ?_
    rintro _ _ ⟨⟩
    exact ⟨((good.received k _ call [] reading rfl).concat _).1, .inr (by simp)⟩
  | @invalidates k body call e reading invalid =>
    have outside : k ∉ keys s.devices.entered := good.sound_at reading
    refine good.move good.serial rfl rfl (.inl ⟨e, invalid, rfl, outside⟩) ?_
    rintro _ _ ⟨⟩
    exact ⟨((good.received k _ call [] reading rfl).concat _).1, .inr (by simp)⟩
  | @loses k _ _ reading =>
    have outside : k ∉ keys s.devices.entered := good.sound_at reading
    exact good.move good.serial rfl rfl outside (by rintro _ _ ⟨⟩)
  | locks ready locked => exact good.lock ready locked
  | @acts k call body command devices inside acted =>
    rw [← goto_self inside]
    refine good.move (good.serial.act sections_implement acted) (Protected.act_entered acted) rfl (good.sound_at inside) ?_
    rintro _ _ ⟨⟩
    exact (good.received k _ call body inside rfl).concat _
  | unlocks inside unlocked => exact good.unlock inside unlocked

theorem run_good (reached : (service json).Reaches (fun _ _ => True) {} inputs s) : Good json inputs s :=
  reached.invariant (P := Good json) Good.start fun good _ taken => good.step taken

/--
However the sessions interleave, the devices and all the answers are those of the commands one after another, in the order in
which the sessions got the mutex. A request that is refused before that has no part in it.
-/
theorem devices_serialized (reached : (service json).Reaches (fun _ _ => True) {} inputs s) :
    (keys s.devices.entered = inputs.filterMap Input.locks ∧ (keys s.devices.entered).Nodup) ∧
    (∀ k call body answer, s.sessions k = some (.answered call body answer) →
      Received inputs k call body ∧ Settled json s.devices.entered k call body answer) ∧
    ((∀ writer, s.devices.holders ≠ .exclusive writer) → s.devices.value = replay Command.apply [] s.devices.entered) := by
  have good := run_good reached
  refine ⟨⟨good.order, good.once⟩, fun k call body answer answered => ⟨?_, ?_⟩, fun unwritten => ?_⟩
  · exact good.received k _ call body answered rfl
  · exact good.sound_at answered
  · cases held : s.devices.holders with
    | shared readers => exact (good.serial.shared readers held).1
    | exclusive writer => exact absurd held (unwritten writer)

def continues (c : Byte) : Bool := 0x80 ≤ c && c ≤ 0xbf

-- no overlong forms, no surrogates, nothing beyond the last code point
def secondByte (a b : Byte) : Bool :=
  continues b && !(a == 0xe0 && b < 0xa0) && !(a == 0xed && 0x9f < b) && !(a == 0xf0 && b < 0x90) && !(a == 0xf4 && 0x8f < b)

def isUtf8 : Bytes → Bool
  | [] => true
  | a :: rest =>
    if a < 0x80 then isUtf8 rest
    else
      match rest with
      | [] => false
      | b :: rest =>
        if 0xc2 ≤ a && a ≤ 0xdf then continues b && isUtf8 rest
        else
          match rest with
          | [] => false
          | c :: rest =>
            if 0xe0 ≤ a && a ≤ 0xef then secondByte a b && continues c && isUtf8 rest
            else
              match rest with
              | [] => false
              | d :: rest => 0xf0 ≤ a && a ≤ 0xf4 && secondByte a b && continues c && continues d && isUtf8 rest

def escaped (c : Byte) : Bytes :=
  if c = 0x22 then bytes "\\\""
  else if c = 0x5c then bytes "\\\\"
  else if c = 0x08 then bytes "\\b"
  else if c = 0x09 then bytes "\\t"
  else if c = 0x0a then bytes "\\n"
  else if c = 0x0c then bytes "\\f"
  else if c = 0x0d then bytes "\\r"
  else if c < 0x20 then bytes (if c < 0x10 then "\\u000" else "\\u001") ++ [if c % 16 < 10 then 48 + c % 16 else 87 + c % 16]
  else [c]

def writeString (text : Bytes) : Except Bytes Bytes :=
  if isUtf8 text then .ok (bytes "\"" ++ text.flatMap escaped ++ bytes "\"") else .error (bytes "invalid UTF-8 byte")

mutual

def writeJson : Json → Except Bytes Bytes
  | .scalar text => .ok text
  | .string text => writeString text
  | .array values => do
    let texts ← writeValues values
    return bytes "[" ++ [ch ','].intercalate texts ++ bytes "]"
  | .object members => do
    let texts ← writeMembers members
    return bytes "\x7b" ++ [ch ','].intercalate texts ++ bytes "\x7d"

def writeValues : List Json → Except Bytes (List Bytes)
  | [] => .ok []
  | value :: values => do
    let first ← writeJson value
    let others ← writeValues values
    return first :: others

def writeMembers : List (Bytes × Json) → Except Bytes (List Bytes)
  | [] => .ok []
  | (key, value) :: members => do
    let name ← writeString key
    let text ← writeJson value
    let others ← writeMembers members
    return (name ++ bytes ":" ++ text) :: others

end

def sampleJson : JsonLibrary where
  parse text := if text = bytes "[\"lamp\"]" then some (.array [.string (bytes "lamp")]) else none
  dump := writeJson

def sampleInputs : List Input :=
  [.create 0 (bytes "/v1/devices") (bytes "POST"), .create 1 (bytes "/v1/devices") (bytes "GET"), .read 1 [],
    .read 0 (bytes "[\"lamp\"]"), .lock 0, .act 0, .unlock 0, .lock 1, .act 1, .act 1, .unlock 1]

def sampleAnswer : Response :=
  { statusCode := 200, body := bytes "[\x7b\"id\":0,\"name\":\"lamp\"\x7d]", fields := [(bytes "Content-Type", bytes "application/json")] }

theorem sample_reached :
    ∃ s, (service sampleJson).Reaches (fun _ _ => True) {} sampleInputs s ∧
      s.sessions 1 = some (.answered (.getDevices none) [] (.ok sampleAnswer)) ∧
      s.devices.entered = [(0, .assign [bytes "lamp"]), (1, .list)] := by
  have ran : ((service sampleJson).run {} sampleInputs).map (fun s => (s.sessions 1, s.devices.entered)) =
      some (some (.answered (.getDevices none) [] (.ok sampleAnswer)), [(0, .assign [bytes "lamp"]), (1, .list)]) := by
    decide +kernel
  obtain ⟨s, ran, found⟩ := Option.map_eq_some_iff.mp ran
  obtain ⟨answered, entered⟩ := Prod.mk.inj found
  exact ⟨s, System.reaches_of_run ran, answered, entered⟩

theorem devices_serialized_two :
    ∃ s, (service sampleJson).Reaches (fun _ _ => True) {} sampleInputs s ∧ keys s.devices.entered = [0, 1] ∧
      Settled sampleJson [(0, .assign [bytes "lamp"]), (1, .list)] 1 (.getDevices none) [] (.ok sampleAnswer) := by
  obtain ⟨s, reached, answered, entered⟩ := sample_reached
  obtain ⟨⟨order, -⟩, settled, -⟩ := devices_serialized reached
  exact ⟨s, reached, order, entered ▸ (settled 1 _ _ _ answered).2⟩

end Runs

section Printing

def Command.names : Command → List Bytes
  | .assign names => names
  | .rename _ name => [name]
  | .list | .get _ | .erase _ => []

variable {json : JsonLibrary} {utf8 : Bytes → Prop}

def Call.limit (call : Call) : Limit := if call.readsBody then ⟨true, maxBodySize⟩ else ⟨false, 0⟩

-- What `stream >> req` throws in a handler: what it says of the request, or that the peer is gone.
def ThrownBy (call : Call) (e : Exc) : Prop :=
  (∃ t pieces, t.req.limit = call.limit ∧ readRequest (fun _ _ => none) t pieces = .error e) ∨ ∃ ec, e = .errorCode ec

structure Ends (inputs : List Input) (s : Service) : Prop where
  rejected : ∀ k e, s.sessions k = some (.rejected e) →
    ∃ url method, .create k url method ∈ inputs ∧ createSession url method = .error e
  lost : ∀ k e, s.sessions k = some (.lost e) → ∃ call, ThrownBy call e

theorem Ends.goto {inputs : List Input} {s : Service} (ends : Ends inputs s)
    {devices : Protected Nat (List Bytes) Command Work} {k : Nat} {stage : Stage}
    (rejected : ∀ e, stage = .rejected e →
      ∃ url method, .create k url method ∈ inputs ∧ createSession url method = .error e)
    (lost : ∀ e, stage = .lost e → ∃ call, ThrownBy call e) : Ends inputs ({ s with devices }.goto k stage) where
  rejected j e here := by
    rw [sessions_goto] at here
    split_ifs at here with own
    · exact own ▸ rejected e (Option.some.inj here)
    · exact ends.rejected j e here
  lost j e here := by
    rw [sessions_goto] at here
    split_ifs at here
    · exact lost e (Option.some.inj here)
    · exact ends.lost j e here

end Printing

end Dracon.Template
