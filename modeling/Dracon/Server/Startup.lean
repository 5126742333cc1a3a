import Dracon.Http.Url

set_option autoImplicit false

namespace Dracon.Startup

open Shared

-- The real, effective and saved ids of a process and its other groups. Being privileged is being root.
structure Credentials where
  ruid : UInt32
  euid : UInt32
  suid : UInt32
  rgid : UInt32
  egid : UInt32
  sgid : UInt32
  groups : List UInt32
  deriving DecidableEq

namespace Credentials

def setgroups (c : Credentials) (groups : List UInt32) : Option Credentials :=
  if c.euid = 0 then some { c with groups } else none

def setgid (c : Credentials) (gid : UInt32) : Option Credentials :=
  if c.euid = 0 then some { c with rgid := gid, egid := gid, sgid := gid }
  else if gid = c.rgid ∨ gid = c.sgid then some { c with egid := gid }
  else none

def setuid (c : Credentials) (uid : UInt32) : Option Credentials :=
  if c.euid = 0 then some { c with ruid := uid, euid := uid, suid := uid }
  else if uid = c.ruid ∨ uid = c.suid then some { c with euid := uid }
  else none

def setresuid (c : Credentials) (ruid euid suid : Option UInt32) : Option Credentials :=
  let allowed (id : Option UInt32) : Bool := id.all fun id => id = c.ruid ∨ id = c.euid ∨ id = c.suid
  if c.euid = 0 ∨ allowed ruid ∧ allowed euid ∧ allowed suid then
    some { c with ruid := ruid.getD c.ruid, euid := euid.getD c.euid, suid := suid.getD c.suid }
  else none

def setresgid (c : Credentials) (rgid egid sgid : Option UInt32) : Option Credentials :=
  let allowed (id : Option UInt32) : Bool := id.all fun id => id = c.rgid ∨ id = c.egid ∨ id = c.sgid
  if c.euid = 0 ∨ allowed rgid ∧ allowed egid ∧ allowed sgid then
    some { c with rgid := rgid.getD c.rgid, egid := egid.getD c.egid, sgid := sgid.getD c.sgid }
  else none

end Credentials

inductive IdCall where
  | setgroups (groups : List UInt32)
  | setgid (gid : UInt32)
  | setuid (uid : UInt32)
  | setresuid (ruid euid suid : Option UInt32)
  | setresgid (rgid egid sgid : Option UInt32)

def Credentials.call (c : Credentials) : IdCall → Credentials
  | .setgroups groups => (c.setgroups groups).getD c
  | .setgid gid => (c.setgid gid).getD c
  | .setuid uid => (c.setuid uid).getD c
  | .setresuid ruid euid suid => (c.setresuid ruid euid suid).getD c
  | .setresgid rgid egid sgid => (c.setresgid rgid egid sgid).getD c

structure Https where
  enabled : Option Bool := none
  port : Option Int := none

structure Privileges where
  drop : Option Bool := none
  user : Option String := none
  group : Option String := none

structure Properties where
  httpPort : Option Int := none
  https : Option Https := none
  privileges : Option Privileges := none

structure Options where
  properties : Option Properties
  user : String := ""
  group : String := ""

structure Host where
  getpwnam : String → Option (UInt32 × UInt32)
  getgrnam : String → Option UInt32
  -- the settings of the section `https.ssl` are accepted
  sslSettings : Bool := true
  bind : Nat → Bool := fun _ => true

structure Config where
  httpPort : Int := 8080
  httpsPort : Int := 8443
  sslContext : Bool := false
  -- `gid_t(-1)` and `uid_t(-1)`
  uid : UInt32 := 0xffffffff
  gid : UInt32 := 0xffffffff

structure Running where
  http : Option Nat
  https : Option Nat
  sslContext : Bool
  credentials : Credentials

def dropTarget (host : Host) (opts : Options) (properties : Properties) : Except String (Option (UInt32 × UInt32)) := do
  if opts.user ≠ "" ∨ properties.privileges.any (fun section_ => section_.drop.getD false) then
    let user ←
      if opts.user ≠ "" then pure opts.user
      else match properties.privileges.bind Privileges.user with
        | some user => pure user
        | none => throw "No such node (privileges.user)"
    let (uid, gid) ← match host.getpwnam user with
      | some account => pure account
      | none => throw ("Can't find user \"" ++ user ++ "\"")
    let group := if opts.group ≠ "" then opts.group else (properties.privileges.bind Privileges.group).getD ""
    if group = "" then return some (uid, gid)
    match host.getgrnam group with
    | some gid => return some (uid, gid)
    | none => throw ("Can't find group \"" ++ group ++ "\"")
  else return none

-- Without the section `https` its port keeps the default, and nothing sets up a context.
def readHttps (host : Host) (properties : Properties) : Except String Config :=
  let config : Config := { httpPort := properties.httpPort.getD (-1) }
  match properties.https with
  | none => .ok config
  | some https =>
    if https.enabled.getD false then
      if host.sslSettings then .ok { config with httpsPort := https.port.getD config.httpsPort, sslContext := true }
      else .error "Can't create SSL Context"
    else .ok { config with httpsPort := -1 }

def wantedAccount (host : Host) (opts : Options) (credentials : Credentials) (properties : Properties) :
    Except String (Option (UInt32 × UInt32)) :=
  if credentials.ruid = 0 then dropTarget host opts properties else .ok none

def readConf (host : Host) (opts : Options) (credentials : Credentials) (properties : Properties) : Except String Config := do
  let config ← readHttps host properties
  let target ← wantedAccount host opts credentials properties
  return target.elim config fun account => { config with uid := account.1, gid := account.2 }

def bindPort (host : Host) (port : Int) : Except String (Option Nat) :=
  if 0 < port then
    if host.bind (port.toNat % 65536) then .ok (some (port.toNat % 65536)) else .error "Can't bind the socket"
  else .ok none

def dropPrivileges (c : Credentials) (uid gid : UInt32) : Except String Credentials :=
  match ((c.setgroups []).bind (·.setgid gid)).bind (·.setuid uid) with
  | none => .error "Can't drop privileges"
  | some c =>
    if uid ≠ 0 ∧ (c.ruid = 0 ∨ c.euid = 0 ∨ (c.setuid 0).isSome) then .error "Dropping privileges didn't stick"
    else .ok c

def checkPorts (config : Config) : Except String Unit :=
  if config.httpPort < 0 ∧ config.httpsPort < 0 then .error "No HTTP nor HTTPS ports specified" else .ok ()

def changeAccount (credentials : Credentials) (config : Config) : Except String Credentials :=
  if credentials.ruid = 0 ∧ config.gid ≠ 0xffffffff ∧ config.uid ≠ 0xffffffff then
    dropPrivileges credentials config.uid config.gid
  else .ok credentials

def start (host : Host) (opts : Options) (credentials : Credentials) : Except String Running := do
  let config ← opts.properties.elim (.ok {}) (readConf host opts credentials)
  checkPorts config
  let http ← bindPort host config.httpPort
  let https ← bindPort host config.httpsPort
  let credentials ← changeAccount credentials config
  return { http, https, sslContext := config.sslContext, credentials }

def Credentials.of (uid gid : UInt32) : Credentials := ⟨uid, uid, uid, gid, gid, gid, []⟩

section Account

variable {host : Host} {opts : Options} {credentials : Credentials} {properties : Properties} {running : Running}
  {uid gid : UInt32}

theorem getD_of_all {id : Option UInt32} {own : UInt32} (allowed : id.all fun id => decide (id = own)) : id.getD own = own := by
  cases id with
  | none => rfl
  | some id => simpa using allowed

theorem Credentials.call_of (user : uid ≠ 0) (call : IdCall) : (Credentials.of uid gid).call call = .of uid gid := by
  cases call with
  | setgroups groups => simp [call, of, setgroups, user]
  | setgid g =>
    simp only [call, of, setgid, user, if_false, or_self]
    split_ifs with same
    · rw [same]
      rfl
    · rfl
  | setuid u =>
    simp only [call, of, setuid, user, if_false, or_self]
    split_ifs with same
    · rw [same]
      rfl
    · rfl
  | setresuid r e s =>
    simp only [call, of, setresuid, user, false_or, or_self]
    split_ifs with allowed
    · simp [getD_of_all allowed.1, getD_of_all allowed.2.1, getD_of_all allowed.2.2]
    · rfl
  | setresgid r e s =>
    simp only [call, of, setresgid, user, false_or, or_self]
    split_ifs with allowed
    · simp [getD_of_all allowed.1, getD_of_all allowed.2.1, getD_of_all allowed.2.2]
    · rfl

theorem dropPrivileges_ok {c : Credentials} (dropped : dropPrivileges credentials uid gid = .ok c) :
    c = .of uid gid := by
  unfold dropPrivileges at dropped
  split at dropped
  next => cases dropped
  next c' changed =>
    split_ifs at dropped
    cases dropped
    by_cases root : credentials.euid = 0
    · simp [Credentials.setgroups, Credentials.setgid, Credentials.setuid, root] at changed
      exact changed.symm
    · simp [Credentials.setgroups, root] at changed

theorem start_drops (started : start host opts credentials = .ok running) (conf : opts.properties = some properties)
    (root : credentials.ruid = 0) (target : dropTarget host opts properties = .ok (some (uid, gid)))
    (known : uid ≠ 0xffffffff ∧ gid ≠ 0xffffffff) : dropPrivileges credentials uid gid = .ok running.credentials := by
  simp only [start, conf, bind_eq_ok] at started
  obtain ⟨config, read, -, -, http, -, https, -, credentials', changed, finished⟩ := started
  cases finished
  simp only [Option.elim_some, readConf, wantedAccount, root, if_true, target, bind_eq_ok] at read
  obtain ⟨config', -, account, found, read⟩ := read
  cases found
  cases read
  simpa [changeAccount, root, known] using changed

/--
A server that starts as root and has an account to drop to runs under that account and nothing else, and
whatever its code calls later, it stays there.
-/
theorem root_given_up (started : start host opts credentials = .ok running) (conf : opts.properties = some properties)
    (root : credentials.ruid = 0) (target : dropTarget host opts properties = .ok (some (uid, gid)))
    (known : uid ≠ 0xffffffff ∧ gid ≠ 0xffffffff) (user : uid ≠ 0) (calls : List IdCall) :
    calls.foldl Credentials.call running.credentials = .of uid gid := by
  rw [dropPrivileges_ok (start_drops started conf root target known)]
  induction calls with
  | nil => rfl
  | cons call calls ih => rw [List.foldl_cons, Credentials.call_of user, ih]

end Account

def daemonConf : Properties where
  httpPort := some 80
  https := some { enabled := some true, port := some 443 }
  privileges := some { drop := some true, user := some "daemon", group := some "www-data" }

def daemonHost : Host where
  getpwnam name := if name = "daemon" then some (1, 1) else none
  getgrnam name := if name = "www-data" then some 33 else none

def asRoot : Credentials := ⟨0, 0, 0, 0, 0, 0, [0, 27]⟩

theorem root_given_up_daemon :
    start daemonHost { properties := some daemonConf } asRoot = .ok ⟨some 80, some 443, true, .of 1 33⟩ ∧
      [IdCall.setuid 0, .setresuid (some 0) (some 0) none, .setgroups [0]].foldl Credentials.call (.of 1 33) = .of 1 33 := by
  have target : dropTarget daemonHost { properties := some daemonConf } daemonConf = .ok (some (1, 33)) := by rfl
  have started : start daemonHost { properties := some daemonConf } asRoot = .ok ⟨some 80, some 443, true, .of 1 33⟩ := by rfl
  exact ⟨started, root_given_up started rfl rfl target (by decide) (by decide) _⟩

end Dracon.Startup
