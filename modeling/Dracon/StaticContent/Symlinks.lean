import Dracon.StaticContent.Plugin

set_option autoImplicit false

namespace Dracon

open Shared

variable {files : StaticFiles} {fs : FileSystem} {req : Request}

def LeadsInside (fs : FileSystem) (root p : FsPath) : Prop :=
  ∃ q, fs.canonical p = some q ∧ q.StartsWith root

-- A directory under the root that is asked for has no default file, or one that leads inside.
def DefaultLeadsInside (files : StaticFiles) (fs : FileSystem) (root : FsPath) (text : Bytes) : Prop :=
  ∀ dir content, fs.canonical (root / (pathOf text).lexicallyNormal).lexicallyNormal = some dir →
    dir.StartsWith root → fs.isDirectory dir = true →
    fs.status (dir / pathOf files.defaultFile) = some (.file content) →
    LeadsInside fs root (dir / pathOf files.defaultFile)

theorem createSession_plain {start dir : Bytes} (mapped : files.mapping req.url = some (start, dir))
    (plain : ¬ bytes "/~" <+: start) {session : StaticSession} :
    files.createSession req = .ok (some session) ↔
      (req.method = bytes "GET" ∨ req.method = bytes "HEAD") ∧
        ∃ text, unescapeUrl ((req.url.drop start.length).takeWhile (· ≠ 0)) = .ok text ∧
          session = ⟨pathOf dir, (pathOf text).lexicallyNormal, req.method = bytes "HEAD"⟩ := by
  unfold StaticFiles.createSession
  rw [findMapping_eq mapped, if_neg plain]
  unfold plainSession
  cases unescapeUrl ((req.url.drop start.length).takeWhile (· ≠ 0)) with
  | error e => split_ifs <;> simp [bind, Except.bind]
  | ok text =>
    split_ifs with method
    · simp [method]
    · simp only [bind, Except.bind, pure, Except.pure]
      grind

/--
Where links are not allowed, a plain mapping serves what lies under its root, if and only if
the default file of a directory that is asked for does not lead out of it.
-/
theorem plainMapping_confined_iff (files : StaticFiles) (fs : FileSystem) (req : Request) (start dir : Bytes)
    (mapped : files.mapping req.url = some (start, dir)) (plain : ¬ bytes "/~" <+: start)
    (checked : files.allowSymlinks = false) :
    (∀ session reply, files.createSession req = .ok (some session) → session.serve files fs = .ok reply →
        LeadsInside fs (pathOf dir) reply.path) ↔
      (req.method = bytes "GET" ∨ req.method = bytes "HEAD" →
        ∀ text, unescapeUrl ((req.url.drop start.length).takeWhile (· ≠ 0)) = .ok text →
          DefaultLeadsInside files fs (pathOf dir) text) := by
  constructor
  · intro confined method text decoded place content located inside directory found
    let session : StaticSession := ⟨pathOf dir, (pathOf text).lexicallyNormal, req.method = bytes "HEAD"⟩
    have created : files.createSession req = .ok (some session) :=
      (createSession_plain mapped plain).mpr ⟨method, text, decoded, rfl⟩
    have lookedUp : locate files.allowSymlinks fs session.root session.path = some place := by
      simpa [locate, checked] using located
    have default : fs.status (if fs.isDirectory place then place / pathOf files.defaultFile else place) =
        some (.file content) := by simpa [directory] using found
    obtain ⟨reply, served, path⟩ := serve_eq files session lookedUp inside default
    rw [directory, if_pos rfl] at path
    exact path ▸ confined session reply created served
  · intro stays session reply created served
    obtain ⟨method, text, decoded, rfl⟩ := (createSession_plain mapped plain).mp created
    obtain ⟨place, content, located, inside, found, path⟩ := serve_ok served
    have canonical : fs.canonical (pathOf dir / (pathOf text).lexicallyNormal).lexicallyNormal = some place := by
      simpa [locate, checked] using located
    rcases path with ⟨directory, path⟩ | ⟨-, path⟩
    · rw [path] at found ⊢
      exact stays method text decoded place content canonical inside directory found
    · -- what was checked is what is served, and it is canonical already
      rw [path]
      exact ⟨place, FileSystem.canonical_canonical canonical, inside⟩

def site (linked : Bool) : FileSystem :=
  .ofEntries
    [([bytes "var"], .directory), ([bytes "var", bytes "www"], .directory), ([bytes "etc"], .directory),
      ([bytes "etc", bytes "passwd"], .file (bytes "root")),
      ([bytes "var", bytes "www", bytes "index.html"],
        if linked then .link (pathOf (bytes "/etc/passwd")) else .file (bytes "Welcome"))]
    (by cases linked <;> decide) (by cases linked <;> decide)

def siteFiles : StaticFiles := { defaultFile := bytes "index.html", urls := [(bytes "/", bytes "/var/www")] }

def getRoot : Request := { method := bytes "GET", url := bytes "/" }

def rootSession : StaticSession := ⟨pathOf (bytes "/var/www"), pathOf [], false⟩

theorem plainMapping_confined_site :
    ∃ reply, siteFiles.createSession getRoot = .ok (some rootSession) ∧
      rootSession.serve siteFiles (site false) = .ok reply ∧ reply.data = bytes "Welcome" ∧
      LeadsInside (site false) (pathOf (bytes "/var/www")) reply.path := by
  have created : siteFiles.createSession getRoot = .ok (some rootSession) := by decide +kernel
  have served : ∃ reply, rootSession.serve siteFiles (site false) = .ok reply ∧ reply.data = bytes "Welcome" := by
    refine ⟨⟨pathOf (bytes "/var/www/index.html"), ⟨200, [], [(bytes "Content-Type", bytes "text/html")], 7, -1⟩,
      bytes "Welcome"⟩, ?_⟩
    decide +kernel
  obtain ⟨reply, served, data⟩ := served
  refine ⟨reply, created, served, data, ?_⟩
  refine (plainMapping_confined_iff siteFiles (site false) getRoot (bytes "/") (bytes "/var/www") (by decide)
    (by decide) rfl).mpr ?_ rootSession reply created served
  have decodes : unescapeUrl ((getRoot.url.drop (bytes "/").length).takeWhile (· ≠ 0)) = .ok [] := by
    decide +kernel
  have canonical : (site false).canonical (pathOf (bytes "/var/www") / (pathOf []).lexicallyNormal).lexicallyNormal =
      some (pathOf (bytes "/var/www")) := by decide +kernel
  intro _ text decoded dir content located _ _ _
  rw [decodes] at decoded
  cases decoded
  rw [canonical] at located
  cases located
  exact ⟨pathOf (bytes "/var/www/index.html"), by decide +kernel, by decide +kernel⟩

/-- The start page is a link out of the root. -/
theorem linkedDefault_escapes :
    ∃ reply, siteFiles.createSession getRoot = .ok (some rootSession) ∧
      rootSession.serve siteFiles (site true) = .ok reply ∧ reply.data = bytes "root" ∧
      ¬ LeadsInside (site true) (pathOf (bytes "/var/www")) reply.path := by
  let reply : Reply := ⟨pathOf (bytes "/var/www/index.html"),
    ⟨200, [], [(bytes "Content-Type", bytes "text/html")], 4, -1⟩, bytes "root"⟩
  have served : siteFiles.createSession getRoot = .ok (some rootSession) ∧
      rootSession.serve siteFiles (site true) = .ok reply := by decide +kernel
  have real : (site true).canonical reply.path = some (pathOf (bytes "/etc/passwd")) := by decide +kernel
  refine ⟨reply, served.1, served.2, rfl, ?_⟩
  rintro ⟨q, canonical, inside⟩
  rw [real] at canonical
  cases canonical
  revert inside
  decide +kernel

end Dracon
