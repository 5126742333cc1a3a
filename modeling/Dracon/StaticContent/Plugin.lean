import Dracon.Http.Url
import Dracon.StaticContent.Filesystem

set_option autoImplicit false

namespace Dracon

open Shared

structure StaticFiles where
  defaultFile : Bytes := []
  urls : List (Bytes × Bytes) := []
  allowSymlinks : Bool := false
  customFields : Fields := []

def mimeTypes : List (String × String) :=
  [ (".htm", "text/html"), (".html", "text/html"), (".php", "text/html"), (".css", "text/css"),
    (".js", "application/javascript"), (".json", "application/json"), (".xml", "application/xml"),
    (".png", "image/png"), (".jpe", "image/jpeg"), (".jpeg", "image/jpeg"), (".jpg", "image/jpeg"),
    (".gif", "image/gif"), (".bmp", "image/bmp"), (".tiff", "image/tiff"), (".tif", "image/tiff"),
    (".svg", "image/svg+xml"), (".svgz", "image/svg+xml"), (".txt", "text/plain"), (".webp", "image/webp"),
    (".webm", "video/webmx"), (".weba", "audio/webm"), (".swf", "application/x-shockwave-flash"),
    (".flv", "video/x-flv") ]

def mimeType (ext : Bytes) : Bytes :=
  bytes (((mimeTypes.find? fun entry => bytes entry.1 = ext).map Prod.snd).getD "application/octet-stream")

-- `path::extension`: from the last dot of the filename on, unless the filename begins with it.
def extension (p : FsPath) : Bytes :=
  match p.trailing, p.components.getLast? with
  | false, some (.name name) =>
      let stem := name.rdropWhile (· ≠ ch '.')
      if stem.length ≤ 1 then [] else name.drop (stem.length - 1)
  | _, _ => []

def Fields.assign (fields : Fields) (key value : Bytes) : Fields :=
  if fields.any fun kv => kv.1 = key then fields.map fun kv => if kv.1 = key then (key, value) else kv
  else fields ++ [(key, value)]

structure Reply where
  -- the file it is about
  path : FsPath
  response : Response
  -- what is written after the response
  data : Bytes
  deriving DecidableEq

def notFound : Exc := .response { statusCode := 404 }

def locate (allowSymlinks : Bool) (fs : FileSystem) (root path : FsPath) : Option FsPath :=
  let p := (root / path).lexicallyNormal
  if allowSymlinks then some p else fs.canonical p

-- the regular file that a session is about
def resolvePath (files : StaticFiles) (fs : FileSystem) (root path : FsPath) : Option FsPath :=
  (locate files.allowSymlinks fs root path).bind fun p =>
    if ¬ p.StartsWith root then none
    else
      let p := if fs.isDirectory p then p / pathOf files.defaultFile else p
      match fs.status p with
      | some (.file _) => some p
      | _ => none

-- what is sent of a mapped file
def fileReply (files : StaticFiles) (p : FsPath) (head : Bool) (content : Bytes) : Reply where
  path := p
  response :=
    { statusCode := 200
      fields := Fields.assign files.customFields (bytes "Content-Type") (mimeType (extension p))
      contentLength := content.length }
  data := if head then [] else content

-- A session during which nobody changes the files, so that what is mapped is what is there.
def staticContentSession (files : StaticFiles) (fs : FileSystem) (root path : FsPath) (head : Bool) :
    Except Exc Reply :=
  match locate files.allowSymlinks fs root path with
  | none => .error notFound
  | some p =>
      if ¬ p.StartsWith root then .error notFound
      else
        let p := if fs.isDirectory p then p / pathOf files.defaultFile else p
        match fs.status p with
        | some (.file content) => .ok (fileReply files p head content)
        | _ => .error notFound

structure StaticSession where
  root : FsPath
  path : FsPath
  head : Bool
  deriving DecidableEq

def StaticSession.serve (session : StaticSession) (files : StaticFiles) (fs : FileSystem) : Except Exc Reply :=
  staticContentSession files fs session.root session.path session.head

def userRoot (dir user : Bytes) : FsPath := pathOf dir / pathOf user / pathOf (bytes "public_html")

def userEnd (url : Bytes) : Nat := 1 + (url.drop 1).idxOf slash

def userSegment (url : Bytes) : Bytes := (url.drop 2).take (userEnd url - 2)

def userSession (dir : Bytes) (req : Request) : Except Exc (Option StaticSession) := do
  let pos := userEnd req.url
  let user ← unescapeUrl (userSegment req.url)
  if user = bytes "." ∨ user = bytes ".." then return none
  let filePath ←
    if 1 < req.url.length - pos then
      (unescapeUrl (req.url.drop (pos + 1))).map fun text => pathOf [] / pathOf text
    else .ok (pathOf [])
  return some ⟨userRoot dir user, filePath.lexicallyNormal, req.method = bytes "HEAD"⟩

def plainSession (start dir : Bytes) (req : Request) : Except Exc (Option StaticSession) := do
  -- the rest of the url is handed over as a C string
  let text ← unescapeUrl ((req.url.drop start.length).takeWhile (· ≠ 0))
  return some ⟨pathOf dir, (pathOf text).lexicallyNormal, req.method = bytes "HEAD"⟩

def findMapping (req : Request) : List (Bytes × Bytes) → Except Exc (Option StaticSession)
  | [] => .ok none
  | (start, dir) :: urls =>
      if start <+: req.url then
        if bytes "/~" <+: start then userSession dir req else plainSession start dir req
      else findMapping req urls

def StaticFiles.createSession (files : StaticFiles) (req : Request) : Except Exc (Option StaticSession) :=
  if req.method ≠ bytes "GET" ∧ req.method ≠ bytes "HEAD" then .ok none
  else findMapping req files.urls

def StaticFiles.mapping (files : StaticFiles) (url : Bytes) : Option (Bytes × Bytes) :=
  files.urls.find? fun pair => pair.1.isPrefixOf url

theorem findMapping_eq {req : Request} {urls : List (Bytes × Bytes)} {start dir : Bytes}
    (found : (urls.find? fun pair => pair.1.isPrefixOf req.url) = some (start, dir)) :
    findMapping req urls =
      if bytes "/~" <+: start then userSession dir req else plainSession start dir req := by
  induction urls with
  | nil => cases found
  | cons pair urls ih =>
    obtain ⟨first, place⟩ := pair
    rw [List.find?_cons] at found
    cases fits : first.isPrefixOf req.url with
    | true =>
      simp only [fits] at found
      cases found
      simp [findMapping, List.isPrefixOf_iff_prefix.mp fits]
    | false =>
      simp only [fits] at found
      have notFirst : ¬ first <+: req.url := fun is => by simp [List.isPrefixOf_iff_prefix.mpr is] at fits
      simp [findMapping, notFirst, ih found]

theorem serve_ok {files : StaticFiles} {fs : FileSystem} {session : StaticSession} {reply : Reply}
    (served : session.serve files fs = .ok reply) :
    ∃ p content, locate files.allowSymlinks fs session.root session.path = some p ∧ p.StartsWith session.root ∧
      fs.status reply.path = some (.file content) ∧
      (fs.isDirectory p = true ∧ reply.path = p / pathOf files.defaultFile ∨
        fs.isDirectory p = false ∧ reply.path = p) := by
  unfold StaticSession.serve staticContentSession at served
  split at served
  · cases served
  · rename_i p located
    split at served
    · cases served
    · rename_i inside
      dsimp only at served
      split at served
      · rename_i content found
        cases served
        refine ⟨p, content, located, not_not.mp inside, found, ?_⟩
        cases fs.isDirectory p <;> simp [fileReply]
      · cases served

theorem serve_eq (files : StaticFiles) (session : StaticSession) {fs : FileSystem} {p : FsPath} {content : Bytes}
    (located : locate files.allowSymlinks fs session.root session.path = some p)
    (inside : p.StartsWith session.root)
    (found : fs.status (if fs.isDirectory p then p / pathOf files.defaultFile else p) = some (.file content)) :
    ∃ reply, session.serve files fs = .ok reply ∧
      reply.path = if fs.isDirectory p then p / pathOf files.defaultFile else p := by
  simp [StaticSession.serve, staticContentSession, located, inside, found, fileReply]

end Dracon
