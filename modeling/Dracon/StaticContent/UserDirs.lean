import Dracon.StaticContent.Plugin

set_option autoImplicit false

namespace Dracon

open Shared

-- Under `D/<user>/public_html` for a single component `<user>`.
def Confined (dir : Bytes) (p : FsPath) : Prop :=
  ∃ user, IsFileName user ∧ p.lexicallyNormal.StartsWith (userRoot dir user).lexicallyNormal

-- Relative and made of names only: nothing in it leads up or away. A file name is, and so is no file at all.
structure IsBelow (defaultFile : Bytes) : Prop where
  relative : (pathOf defaultFile).absolute = false
  names : ∃ names : List Bytes, (pathOf defaultFile).components = names.map .name

-- A default file that leads elsewhere lies in the user's directory all the same, whenever it is served.
def DefaultConfined (dir defaultFile : Bytes) (root : FsPath) : Prop :=
  ∀ (allowSymlinks : Bool) (fs : FileSystem) (text : Bytes) (p : FsPath) (content : Bytes),
    locate allowSymlinks fs root (pathOf text).lexicallyNormal = some p → p.StartsWith root →
    fs.isDirectory p = true → fs.status (p / pathOf defaultFile) = some (.file content) →
    Confined dir (cStr (p / pathOf defaultFile))

-- What the user part of a url has to be, unless nothing is served at all.
def UserConfined (dir defaultFile segment : Bytes) : Prop :=
  ∀ user, unescapeUrl segment = .ok user → user ≠ bytes "." → user ≠ bytes ".." →
    (userRoot dir user).lexicallyNormal = userRoot dir user →
    ((cStr (userRoot dir user)).EndsInName → Confined dir (cStr (userRoot dir user))) ∧
      (IsBelow defaultFile ∨ DefaultConfined dir defaultFile (userRoot dir user))

theorem pathOf_publicHtml : pathOf (bytes "public_html") = ⟨false, [.name (bytes "public_html")], false, by simp⟩ := by
  decide +kernel

theorem userRoot_components (dir user : Bytes) :
    (userRoot dir user).components = (pathOf dir / pathOf user).components ++ [.name (bytes "public_html")] ∧
      (userRoot dir user).trailing = false := by
  rw [userRoot, pathOf_publicHtml]
  exact ⟨Path.div_components rfl, Path.div_trailing rfl (by simp)⟩

theorem userRoot_endsInName (dir user : Bytes) : (userRoot dir user).EndsInName :=
  ⟨(userRoot_components dir user).2, _, by rw [(userRoot_components dir user).1, List.getLast?_concat]⟩

theorem Confined.extend {dir : Bytes} {p r : FsPath} (confined : Confined dir r) (ends : r.EndsInName)
    (normal : Path.IsNormal p.absolute p.components) (below : p.EndsInName) (absolute : p.absolute = r.absolute)
    (within : r.components <+: p.components) : Confined dir p := by
  obtain ⟨user, named, inside⟩ := confined
  refine ⟨user, named, ?_⟩
  have shorter : Path.IsNormal r.absolute r.components := absolute ▸ normal.sublist within.sublist
  rw [ends.lexicallyNormal_eq shorter] at inside
  rw [below.lexicallyNormal_eq normal]
  exact ((Path.startsWith_iff ends.ne_nil ends.1).mpr ⟨absolute, within⟩).trans inside

theorem locate_normal {allowSymlinks : Bool} {fs : FileSystem} {root path p : FsPath} (ends : root.EndsInName)
    (located : locate allowSymlinks fs root path = some p) (inside : p.StartsWith root) :
    p.absolute = root.absolute ∧ root.components <+: p.components ∧ Path.IsNormal p.absolute p.components := by
  obtain ⟨absolute, within⟩ := (Path.startsWith_iff ends.ne_nil ends.1).mp inside
  refine ⟨absolute, within, ?_⟩
  cases allowSymlinks with
  | true =>
    cases located
    rw [Path.lexicallyNormal_isAbsolute]
    refine (Path.lexicallyNormal_normal _).resolve_left fun here => ?_
    obtain ⟨-, n, last⟩ := ends
    have mem : .name n ∈ root.components := List.mem_of_getLast? last
    simpa [here] using within.subset mem
  | false =>
    obtain ⟨place, -, rfl⟩ := FileSystem.canonical_real located
    exact Path.isNormal_names ..

theorem confined_of_file {dir : Bytes} {root p : FsPath} {fs : FileSystem} {content : Bytes}
    (ends : root.EndsInName) (confined : (cStr root).EndsInName → Confined dir (cStr root))
    (absolute : p.absolute = root.absolute) (within : root.components <+: p.components)
    (normal : Path.IsNormal p.absolute p.components) (found : fs.status p = some (.file content)) :
    Confined dir (cStr p) := by
  have seen := FileSystem.status_file found
  obtain ⟨rootEnds, prefixed⟩ := cStr_endsInName absolute within ends seen
  refine (confined rootEnds).extend rootEnds ?_ seen ?_ prefixed
  · rw [cStr_isAbsolute]
    exact cStr_normal normal seen
  · rw [cStr_isAbsolute, cStr_isAbsolute, absolute]

theorem empty_div (text : Bytes) : pathOf [] / pathOf text = pathOf text := by
  cases absolute : (pathOf text).absolute with
  | true => exact Path.div_absolute absolute
  | false =>
    have closed := (pathOf text).follows
    change Path.append (pathOf []) (pathOf text) = _
    cases path : pathOf text with
    | mk absolute components trailing =>
      simp only [path] at absolute closed
      cases components <;> simp_all [Path.append, pathOf, pathNames]

theorem createSession_user {files : StaticFiles} {req : Request} {start dir : Bytes} {session : StaticSession}
    (mapped : files.mapping req.url = some (start, dir)) (tilde : bytes "/~" <+: start)
    (created : files.createSession req = .ok (some session)) :
    ∃ user text, unescapeUrl (userSegment req.url) = .ok user ∧ user ≠ bytes "." ∧ user ≠ bytes ".." ∧
      session.root = userRoot dir user ∧ session.path = (pathOf text).lexicallyNormal := by
  unfold StaticFiles.createSession at created
  rw [findMapping_eq mapped, if_pos tilde] at created
  split_ifs at created
  · cases created
  simp only [userSession, bind, Except.bind] at created
  cases decoded : unescapeUrl (userSegment req.url) with
  | error e => simp [decoded] at created
  | ok user =>
    simp only [decoded] at created
    split_ifs at created with dots more
    · cases created
    · cases rest : unescapeUrl (req.url.drop (userEnd req.url + 1)) with
      | error e => simp [rest, Except.map] at created
      | ok text =>
        simp only [rest, Except.map] at created
        cases created
        exact ⟨user, text, rfl, fun same => dots (.inl same), fun same => dots (.inr same), rfl, by rw [empty_div]⟩
    · cases created
      exact ⟨user, [], rfl, fun same => dots (.inl same), fun same => dots (.inr same), rfl, rfl⟩

def userRequest (segment text : Bytes) : Request :=
  { method := bytes "GET", url := bytes "/~" ++ segment ++ slash :: escapeAll text }

theorem userRequest_end {segment : Bytes} (single : slash ∉ segment) (text : Bytes) :
    userEnd (userRequest segment text).url = segment.length + 2 := by
  have split : (userRequest segment text).url.drop 1 = ch '~' :: segment ++ slash :: escapeAll text := rfl
  have absent : slash ∉ ch '~' :: segment := by
    simp only [List.mem_cons, not_or]
    exact ⟨by decide, single⟩
  rw [userEnd, split, List.idxOf_append_of_notMem absent]
  simp
  omega

theorem userRequest_segment {segment : Bytes} (single : slash ∉ segment) (text : Bytes) :
    userSegment (userRequest segment text).url = segment := by
  rw [userSegment, userRequest_end single]
  change (segment ++ slash :: escapeAll text).take (segment.length + 2 - 2) = segment
  simp

theorem userRequest_session {segment user : Bytes} (single : slash ∉ segment) (text dir : Bytes)
    (decoded : unescapeUrl segment = .ok user) (here : user ≠ bytes ".") (up : user ≠ bytes "..") :
    userSession dir (userRequest segment text) =
      .ok (some ⟨userRoot dir user, (pathOf text).lexicallyNormal, false⟩) := by
  have rest : (userRequest segment text).url.drop (segment.length + 2 + 1) = escapeAll text := by
    change (segment ++ slash :: escapeAll text).drop (segment.length + 1) = _
    rw [← List.drop_drop, List.drop_left]
    rfl
  have length : (userRequest segment text).url.length - (segment.length + 2) = 1 + (escapeAll text).length := by
    simp [userRequest, bytes]
    omega
  unfold userSession
  simp only [userRequest_end single, userRequest_segment single, decoded, rest, length, unescapeUrl_escapeAll,
    bind, Except.bind, here, up, or_self, if_false]
  split_ifs with more
  · rw [Except.map, empty_div]
    rfl
  · have empty : text = [] := by
      cases text with
      | nil => rfl
      | cons c text => simp [escapeAll] at more
    subst empty
    rfl

theorem userRoot_normal {dir user : Bytes} (normal : (userRoot dir user).lexicallyNormal = userRoot dir user) :
    Path.IsNormal (userRoot dir user).absolute (userRoot dir user).components := by
  have either := Path.lexicallyNormal_normal (userRoot dir user)
  rw [normal] at either
  refine either.resolve_left fun here => ?_
  have last := congrArg List.getLast? here
  rw [(userRoot_components dir user).1, List.getLast?_concat] at last
  cases last

theorem Confined.of_snoc {dir name : Bytes} {p r : FsPath} (confined : Confined dir p)
    (normal : Path.IsNormal p.absolute p.components) (absolute : p.absolute = r.absolute)
    (components : p.components = r.components ++ [.name name]) (closed : p.trailing = false)
    (other : name ≠ bytes "public_html") (ends : r.EndsInName) : Confined dir r := by
  obtain ⟨user, named, inside⟩ := confined
  refine ⟨user, named, ?_⟩
  have pEnds : p.EndsInName := ⟨closed, name, by rw [components, List.getLast?_concat]⟩
  have rNormal : Path.IsNormal r.absolute r.components :=
    absolute ▸ normal.sublist (components ▸ List.sublist_append_left ..)
  obtain ⟨rootComponents, rootClosed⟩ :=
    Path.lexicallyNormal_snoc (userRoot_components dir user).1 (userRoot_components dir user).2
  have nonempty : (userRoot dir user).lexicallyNormal.components ≠ [] := by simp [rootComponents]
  rw [pEnds.lexicallyNormal_eq normal, Path.startsWith_iff nonempty rootClosed] at inside
  rw [ends.lexicallyNormal_eq rNormal, Path.startsWith_iff nonempty rootClosed]
  refine ⟨absolute.symm.trans inside.1, ?_⟩
  have within := inside.2
  rw [components, List.prefix_concat_iff] at within
  refine within.resolve_left fun same => ?_
  rw [rootComponents] at same
  have equal := (List.append_inj' same rfl).2
  simp at equal
  exact other equal.symm

def fileIn (root : FsPath) : FsPath := root / (pathOf (bytes "f")).lexicallyNormal

theorem fileIn_components (root : FsPath) : (fileIn root).absolute = root.absolute ∧
    (fileIn root).components = root.components ++ [.name (bytes "f")] ∧ (fileIn root).trailing = false := by
  have file : (pathOf (bytes "f")).lexicallyNormal = ⟨false, [.name (bytes "f")], false, by simp⟩ := by decide +kernel
  rw [fileIn, file]
  exact ⟨Path.div_isAbsolute rfl, Path.div_components rfl, Path.div_trailing rfl (by simp)⟩

theorem fileIn_named {root : FsPath} (named : Named root) : Named (fileIn root) := by
  intro name mem
  rw [(fileIn_components root).2.1] at mem
  rcases List.mem_append.mp mem with before | last
  · exact named name before
  · cases List.mem_singleton.mp last
    exact (by decide : IsFileName (bytes "f")).toIsPathName

theorem confined_root {dir user : Bytes} (normal : (userRoot dir user).lexicallyNormal = userRoot dir user)
    (seen : (cStr (userRoot dir user)).EndsInName)
    (serves : ∀ (fs : FileSystem) (p : FsPath) (content : Bytes),
      locate true fs (userRoot dir user) (pathOf (bytes "f")).lexicallyNormal = some p →
      p.StartsWith (userRoot dir user) → fs.status p = some (.file content) →
      Confined dir (cStr p)) : Confined dir (cStr (userRoot dir user)) := by
  have rootEnds := userRoot_endsInName dir user
  have named : Named (userRoot dir user) := ((pathOf_named dir).div (pathOf_named user)).div (pathOf_named _)
  generalize equal : userRoot dir user = root at *
  have rootNormal : Path.IsNormal root.absolute root.components := equal ▸ userRoot_normal (equal ▸ normal)
  obtain ⟨absolute, components, closed⟩ := fileIn_components root
  have ends : (fileIn root).EndsInName := ⟨closed, _, by rw [components, List.getLast?_concat]⟩
  have fileNormal : Path.IsNormal (fileIn root).absolute (fileIn root).components := by
    rw [absolute, components]
    exact rootNormal.append_names [bytes "f"]
  have inside : (fileIn root).StartsWith root :=
    (Path.startsWith_iff rootEnds.ne_nil rootEnds.1).mpr ⟨absolute, components ▸ List.prefix_append ..⟩
  have confined (fileSeen : (cStr (fileIn root)).EndsInName) : Confined dir (cStr (fileIn root)) := by
    obtain ⟨fs, content, found⟩ :=
      FileSystem.exists_file (fileIn_named named) (cStr_normal fileNormal fileSeen) fileSeen
    exact serves fs _ content (congrArg some (ends.lexicallyNormal_eq fileNormal)) inside found
  by_cases clean : ∀ c ∈ root.components, ¬ hasNul c
  · have fileClean : cStr (fileIn root) = fileIn root := by
      apply cStr_of_clean
      intro c mem
      rw [components] at mem
      rcases List.mem_append.mp mem with before | last
      · exact clean c before
      · cases List.mem_singleton.mp last
        decide
    rw [cStr_of_clean clean]
    rw [fileClean] at confined
    exact (confined ends).of_snoc fileNormal absolute components closed (by decide) rootEnds
  · push Not at clean
    obtain ⟨c, mem, nul⟩ := clean
    rw [cStr_append absolute components mem nul] at confined
    exact confined seen

theorem IsPathName.isBelow {name : Bytes} (valid : IsPathName name) : IsBelow name where
  relative := by rw [pathOf_name valid]
  names := ⟨[name], by rw [pathOf_name valid]; rfl⟩

theorem IsBelow.defaultConfined {dir defaultFile : Bytes} {root : FsPath} (below : IsBelow defaultFile)
    (ends : root.EndsInName) (confined : (cStr root).EndsInName → Confined dir (cStr root)) :
    DefaultConfined dir defaultFile root := by
  intro allowSymlinks fs text p content located inside directory found
  obtain ⟨absolute, within, normal⟩ := locate_normal ends located inside
  obtain ⟨names, components⟩ := below.names
  refine confined_of_file ends confined ?_ ?_ ?_ found
  · rw [Path.div_isAbsolute below.relative, absolute]
  · rw [Path.div_components below.relative]
    exact within.trans (List.prefix_append ..)
  · rw [Path.div_isAbsolute below.relative, Path.div_components below.relative, components]
    exact normal.append_names names

/--
A `/~` mapping serves only what is under `D/<user>/public_html`, whatever files there are, if and
only if the root it makes of the user part of the url lies there itself.
-/
theorem userMapping_confined_iff (dir defaultFile segment : Bytes) (single : slash ∉ segment) :
    (∀ (files : StaticFiles) (fs : FileSystem) (req : Request) (start : Bytes) (session : StaticSession)
        (reply : Reply), files.defaultFile = defaultFile → files.mapping req.url = some (start, dir) →
        bytes "/~" <+: start → userSegment req.url = segment → files.createSession req = .ok (some session) →
        session.serve files fs = .ok reply → Confined dir (cStr reply.path)) ↔
      UserConfined dir defaultFile segment := by
  constructor
  · intro serves user decoded here up normal
    have confined (allowSymlinks : Bool) (fs : FileSystem) (text : Bytes) (p : FsPath) (content : Bytes)
        (located : locate allowSymlinks fs (userRoot dir user) (pathOf text).lexicallyNormal = some p)
        (inside : p.StartsWith (userRoot dir user))
        (found : fs.status (if fs.isDirectory p then p / pathOf defaultFile else p) = some (.file content)) :
        Confined dir (cStr (if fs.isDirectory p then p / pathOf defaultFile else p)) := by
      let files : StaticFiles :=
        { defaultFile := defaultFile, urls := [(bytes "/~", dir)], allowSymlinks := allowSymlinks }
      let req := userRequest segment text
      let session : StaticSession := ⟨userRoot dir user, (pathOf text).lexicallyNormal, false⟩
      have mapped : files.mapping req.url = some (bytes "/~", dir) := by
        simp [files, req, StaticFiles.mapping, userRequest, List.append_assoc]
      have created : files.createSession req = .ok (some session) := by
        unfold StaticFiles.createSession
        rw [findMapping_eq mapped, if_pos (List.prefix_refl _), userRequest_session single text dir decoded here up]
        rfl
      obtain ⟨reply, served, path⟩ := serve_eq files session located inside found
      rw [← path]
      exact serves files fs req _ session reply rfl mapped (List.prefix_refl _)
        (userRequest_segment single text) created served
    refine ⟨fun seen => confined_root normal seen fun fs p content located inside found => ?_, ?_⟩
    · have plain : fs.isDirectory p = false := by
        simp [FileSystem.isDirectory, found, isDirectory]
      simpa [plain] using confined true fs _ p content located inside (by simpa [plain] using found)
    · right
      intro allowSymlinks fs text p content located inside directory found
      simpa [directory] using
        confined allowSymlinks fs text p content located inside (by simpa [directory] using found)
  · intro safe files fs req start session reply default mapped tilde part created served
    obtain ⟨user, text, decoded, here, up, root, path⟩ := createSession_user mapped tilde created
    obtain ⟨p, content, located, inside, found, reached⟩ := serve_ok served
    rw [root, path] at located
    rw [root] at inside
    have ends := userRoot_endsInName dir user
    obtain ⟨absolute, within, normal⟩ := locate_normal ends located inside
    obtain ⟨rootConfined, defaultConfined⟩ := safe user (part ▸ decoded) here up
      (ends.lexicallyNormal_eq (absolute ▸ normal.sublist within.sublist))
    rcases reached with ⟨directory, equal⟩ | ⟨-, equal⟩
    · rw [equal, default] at found ⊢
      rcases defaultConfined with below | stays
      · exact below.defaultConfined ends rootConfined _ fs text p content located inside directory found
      · exact stays _ fs text p content located inside directory found
    · rw [equal] at found ⊢
      exact confined_of_file ends rootConfined absolute within normal found

def homes : StaticFiles := { defaultFile := bytes "index.html", urls := [(bytes "/~", bytes "/home")] }

def joesPage : List Bytes := [bytes "home", bytes "joe", bytes "public_html", bytes "index.html"]

def joesHome : FileSystem := .single joesPage (bytes "Hello") (by decide) (by decide)

def joesSession : StaticSession := ⟨userRoot (bytes "/home") (bytes "joe"), pathOf [], false⟩

theorem userMapping_confined_joe :
    ∃ reply, homes.createSession { method := bytes "GET", url := bytes "/~joe" } = .ok (some joesSession) ∧
      joesSession.serve homes joesHome = .ok reply ∧ Confined (bytes "/home") (cStr reply.path) := by
  let req : Request := { method := bytes "GET", url := bytes "/~joe" }
  let reply : Reply := ⟨FileSystem.realPath joesPage,
    ⟨200, [], [(bytes "Content-Type", bytes "text/html")], 5, -1⟩, bytes "Hello"⟩
  have created : homes.createSession req = .ok (some joesSession) ∧
      homes.mapping req.url = some (bytes "/~", bytes "/home") ∧ userSegment req.url = bytes "joe" := by
    decide +kernel
  have served : joesSession.serve homes joesHome = .ok reply := by decide +kernel
  refine ⟨reply, created.1, served, ?_⟩
  refine (userMapping_confined_iff (bytes "/home") (bytes "index.html") (bytes "joe") (by decide)).mpr ?_ homes
    joesHome req _ joesSession reply rfl created.2.1 (List.prefix_refl _) created.2.2 created.1 served
  have below : IsBelow (bytes "index.html") := (by decide : IsFileName (bytes "index.html")).toIsPathName.isBelow
  have plain : unescapeUrl (bytes "joe") = .ok (bytes "joe") := by decide +kernel
  intro user decoded here up normal
  rw [plain] at decoded
  cases decoded
  exact ⟨fun _ => ⟨bytes "joe", by decide, by decide +kernel⟩, .inl below⟩

/-- Nobody's home is under `/etc`, but a user part that begins with an escaped slash leads there. -/
theorem absoluteUser_escapes :
    ∃ (fs : FileSystem) (session : StaticSession) (reply : Reply),
      homes.createSession { method := bytes "GET", url := bytes "/~%2Fetc/secret" } = .ok (some session) ∧
        session.serve homes fs = .ok reply ∧ ¬ Confined (bytes "/home") (cStr reply.path) := by
  let place : List Bytes := [bytes "etc", bytes "public_html", bytes "secret"]
  let fs : FileSystem := .single place (bytes "Boo") (by decide) (by decide)
  let session : StaticSession := ⟨pathOf (bytes "/etc/public_html"), pathOf (bytes "secret"), false⟩
  let reply : Reply := ⟨FileSystem.realPath place,
    ⟨200, [], [(bytes "Content-Type", bytes "application/octet-stream")], 3, -1⟩, bytes "Boo"⟩
  have created : homes.createSession { method := bytes "GET", url := bytes "/~%2Fetc/secret" } = .ok (some session) := by
    decide +kernel
  have served : session.serve homes fs = .ok reply := by decide +kernel
  refine ⟨fs, session, reply, created, served, ?_⟩
  rintro ⟨user, valid, inside⟩
  have home : (pathOf (bytes "/home")) = ⟨true, [.name (bytes "home")], false, by simp⟩ := by decide +kernel
  have served : (cStr reply.path).lexicallyNormal.components =
      [.name (bytes "etc"), .name (bytes "public_html"), .name (bytes "secret")] := by decide +kernel
  obtain ⟨components, closed⟩ := Path.lexicallyNormal_snoc (userRoot_components (bytes "/home") user).1
    (userRoot_components (bytes "/home") user).2
  rw [Path.startsWith_iff (by simp [components]) closed, components, served] at inside
  obtain ⟨rest, equal⟩ := inside.2
  rw [pathOf_name valid.toIsPathName, Path.div_components rfl, home] at equal
  have first := congrArg List.head? equal
  revert first
  simp [Path.reduce, Path.push]
  decide

end Dracon
