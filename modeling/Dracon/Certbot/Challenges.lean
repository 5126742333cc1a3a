import Dracon.Certbot.Files
import Dracon.Shared.StepSystem
import Dracon.StaticContent.Symlinks
import Dracon.Utils.FormEncoding

set_option autoImplicit false

namespace Dracon.Certbot

open Shared

def isBase64Url (c : Byte) : Bool :=
  (ch 'A' ≤ c && c ≤ ch 'Z') || (ch 'a' ≤ c && c ≤ ch 'z') || (ch '0' ≤ c && c ≤ ch '9') || c == ch '-' || c == ch '_'

structure Token where
  text : Bytes
  nonempty : text ≠ []
  base64Url : ∀ c ∈ text, isBase64Url c
  deriving DecidableEq

structure Achall where
  domain : Bytes
  token : Token
  response : Bytes
  validation : Bytes
  deriving DecidableEq

def wellKnown : Bytes := bytes ".well-known"

def acmeChallenge : Bytes := bytes "acme-challenge"

structure Authenticator where
  fs : FileSystem
  performed : Achall → Option Bytes := fun _ => none

-- `os.chmod` succeeds on everything that is there.
def performOne (webroot : Bytes) (s : Authenticator) (achall : Achall) : Authenticator × Bool :=
  let challengeDir := joinPath (joinPath webroot wellKnown) acmeChallenge
  let path := joinPath challengeDir achall.token.text
  let (fs, made) := FileSystem.makedirs (pathOf challengeDir).absolute (pathOf challengeDir).components.reverse s.fs
  if made && (fs.stat (pathOf (joinPath webroot wellKnown))).isSome && (fs.stat (pathOf challengeDir)).isSome then
    match fs.write (pathOf path) achall.validation with
    | none => ({ s with fs }, false)
    | some fs =>
      if (fs.stat (pathOf path)).isSome then ({ fs, performed := Function.update s.performed achall (some path) }, true)
      else ({ s with fs }, false)
  else ({ s with fs }, false)

def perform (webroot : Bytes) (s : Authenticator) : List Achall → Authenticator × Option (List Bytes)
  | [] => (s, some [])
  | achall :: achalls =>
    let (s, done) := performOne webroot s achall
    if done then
      let (s, responses) := perform webroot s achalls
      (s, responses.map (achall.response :: ·))
    else (s, none)

-- `cleanup`; a file that cannot be removed is only logged.
def cleanup (s : Authenticator) : List Achall → Authenticator
  | [] => s
  | achall :: achalls =>
    match s.performed achall with
    | none => cleanup s achalls
    | some path =>
      cleanup
        { fs := (s.fs.unlink (pathOf path)).getD s.fs
          performed := Function.update s.performed achall none }
        achalls

inductive Call where
  | perform (achalls : List Achall)
  | cleanup (achalls : List Achall)

def Call.achalls : Call → List Achall
  | .perform achalls => achalls
  | .cleanup achalls => achalls

def authenticator (webroot : Bytes) : System Authenticator Call where
  step s
    | .perform achalls => some (perform webroot s achalls).1
    | .cleanup achalls => some (cleanup s achalls)

def Call.leaves (achall : Achall) (pending : Bool) : Call → Bool
  | .perform achalls => pending || achall ∈ achalls
  | .cleanup achalls => pending && achall ∉ achalls

def pending (calls : List Call) (achall : Achall) : Bool := calls.foldl (Call.leaves achall) false

def challengeUrl (token : Token) : Bytes := bytes "/.well-known/acme-challenge/" ++ token.text

def challengeRequest (token : Token) : Request := { method := bytes "GET", url := challengeUrl token }

theorem wellKnown_valid : IsFileName wellKnown := by decide

theorem acmeChallenge_valid : IsFileName acmeChallenge := by decide

theorem Token.valid (token : Token) : IsFileName token.text := by
  have without (c : Byte) (bad : isBase64Url c = false) : c ∉ token.text := by
    intro mem
    simp [token.base64Url c mem] at bad
  have dot : ch '.' ∉ token.text := without _ (by decide)
  refine ⟨⟨token.nonempty, without slash (by decide), ?_, ?_⟩, without 0 (by decide)⟩
  · intro same
    exact dot (same ▸ by decide)
  · intro same
    exact dot (same ▸ by decide)

def challengeNames : List Bytes := [wellKnown, acmeChallenge]

def challengePlace (root : List Bytes) (token : Token) : List Bytes := root ++ challengeNames ++ [token.text]

def challengePath (webroot : Bytes) (token : Token) : Bytes :=
  joinPath (joinPath (joinPath webroot wellKnown) acmeChallenge) token.text

structure Site (fs : FileSystem) (webroot : Bytes) (root : List Bytes) : Prop where
  path : pathOf webroot = FileSystem.realPath root
  free : fs.Free root challengeNames

section Steps

variable {webroot : Bytes} {root : List Bytes} {s : Authenticator} {achall : Achall}

theorem pathOf_challengeDir (path : pathOf webroot = FileSystem.realPath root) :
    pathOf (joinPath (joinPath webroot wellKnown) acmeChallenge) = FileSystem.realPath (root ++ challengeNames) := by
  have above := FileSystem.pathOf_join_real wellKnown_valid.toIsPathName path
  simpa [challengeNames] using FileSystem.pathOf_join_real acmeChallenge_valid.toIsPathName above

theorem pathOf_challengePath (path : pathOf webroot = FileSystem.realPath root) (token : Token) :
    pathOf (challengePath webroot token) = FileSystem.realPath (challengePlace root token) :=
  FileSystem.pathOf_join_real token.valid.toIsPathName (pathOf_challengeDir path)

def HasPerformed (fs fs' : FileSystem) (root : List Bytes) (achall : Achall) : Prop :=
  ∀ other, fs'.entry other =
    if other = challengePlace root achall.token then some (.file achall.validation)
    else if root <+: other ∧ other <+: root ++ challengeNames then some .directory
    else fs.entry other

theorem place_outside (root : List Bytes) (token : Token) :
    ¬ (root <+: challengePlace root token ∧ challengePlace root token <+: root ++ challengeNames) := by
  rintro ⟨-, within⟩
  simpa [challengePlace] using within.length_le

theorem place_ne (root : List Bytes) (token : Token) {above : List Bytes} (within : above <+: challengeNames) :
    root ++ above ≠ challengePlace root token := by
  intro same
  apply place_outside root token
  rw [← same]
  exact ⟨List.prefix_append _ _, (List.prefix_append_right_inj root).mpr within⟩

theorem performOne_spec (site : Site s.fs webroot root)
    (regular : ∀ node, s.fs.entry (challengePlace root achall.token) = some node → ∃ old, node = .file old) :
    ∃ fs', performOne webroot s achall =
        ({ fs := fs', performed := Function.update s.performed achall (some (challengePath webroot achall.token)) }, true) ∧
      HasPerformed s.fs fs' root achall := by
  have dirPath := pathOf_challengeDir site.path
  have filePath := pathOf_challengePath site.path achall.token
  have abovePath := FileSystem.pathOf_join_real wellKnown_valid.toIsPathName site.path
  obtain ⟨fs₁, made, directories⟩ : ∃ fs₁, FileSystem.makedirs true
        (FileSystem.realPath (root ++ challengeNames)).components.reverse s.fs = (fs₁, true) ∧
      FileSystem.HasMade s.fs fs₁ root challengeNames :=
    @FileSystem.makedirs_real s.fs root [wellKnown] acmeChallenge site.free
  have above : fs₁.entry (root ++ [wellKnown]) = some .directory := by
    rw [directories, if_pos]
    exact ⟨List.prefix_append _ _, by simp [challengeNames]⟩
  have directory : fs₁.entry (root ++ challengeNames) = some .directory := by
    rw [directories, if_pos]
    exact ⟨List.prefix_append _ _, List.prefix_refl _⟩
  have kept : fs₁.entry (challengePlace root achall.token) = s.fs.entry (challengePlace root achall.token) := by
    rw [directories, if_neg (place_outside root achall.token)]
  obtain ⟨fs₂, written, entries⟩ : ∃ fs₂, fs₁.write (FileSystem.realPath (challengePlace root achall.token)) achall.validation =
      some fs₂ ∧ ∀ other, fs₂.entry other =
        if other = challengePlace root achall.token then some (.file achall.validation) else fs₁.entry other :=
    FileSystem.write_real directory achall.token.valid (kept ▸ regular)
  have there : fs₂.stat (FileSystem.realPath (challengePlace root achall.token)) = some (.file achall.validation) := by
    have found : fs₂.entry (challengePlace root achall.token) = some (.file achall.validation) := by rw [entries, if_pos rfl]
    rw [FileSystem.stat_resolved ⟨_, found, by simp⟩, found]
  refine ⟨fs₂, ?_, fun other => ?_⟩
  · simp only [performOne]
    rw [← challengePath, filePath, dirPath, abovePath, show (FileSystem.realPath (root ++ challengeNames)).absolute = true from rfl,
      made, FileSystem.stat_resolved (FileTree.resolved_directory above),
      FileSystem.stat_resolved (FileTree.resolved_directory directory)]
    simp only [above, directory, written, there]
    rfl
  · rw [entries, directories]

structure Holds (fs₀ : FileSystem) (webroot : Bytes) (root : List Bytes) (all : Set Achall) (pending : Achall → Bool)
    (s : Authenticator) : Prop where
  site : Site s.fs webroot root
  performed : ∀ a ∈ all, s.performed a = if pending a then some (challengePath webroot a.token) else none
  files : ∀ a ∈ all, s.fs.entry (challengePlace root a.token) = if pending a then some (.file a.validation) else none
  rest : ∀ other, ¬ (root <+: other ∧ other <+: root ++ challengeNames) →
    (∀ a ∈ all, other ≠ challengePlace root a.token) → s.fs.entry other = fs₀.entry other

variable {fs₀ : FileSystem} {all : Set Achall} {pending : Achall → Bool}

theorem place_inj {a b : Achall} (distinct : all.InjOn Achall.token) (a_mem : a ∈ all) (b_mem : b ∈ all)
    (same : challengePlace root a.token = challengePlace root b.token) : a = b := by
  apply distinct a_mem b_mem
  obtain ⟨-, last⟩ := List.append_inj' same rfl
  cases ha : a.token
  cases hb : b.token
  simp_all

theorem Holds.update (holds : Holds fs₀ webroot root all pending s) (distinct : all.InjOn Achall.token)
    (mem : achall ∈ all) (now : Bool) {fs' : FileSystem}
    (changed : fs'.entry (challengePlace root achall.token) = if now then some (.file achall.validation) else none)
    (inner : fs'.Free root challengeNames)
    (kept : ∀ other, other ≠ challengePlace root achall.token → ¬ (root <+: other ∧ other <+: root ++ challengeNames) →
      fs'.entry other = s.fs.entry other) :
    Holds fs₀ webroot root all (Function.update pending achall now)
      { fs := fs'
        performed := Function.update s.performed achall (if now then some (challengePath webroot achall.token) else none) } where
  site := ⟨holds.site.path, inner⟩
  performed := by
    intro a a_mem
    by_cases same : a = achall
    · subst same
      simp
    · simp only [Function.update_of_ne same]
      exact holds.performed a a_mem
  files := by
    intro a a_mem
    by_cases same : a = achall
    · subst same
      simpa using changed
    · rw [Function.update_of_ne same, ← holds.files a a_mem]
      exact kept _ (fun place => same (place_inj distinct a_mem mem place)) (place_outside root a.token)
  rest := by
    intro other outside others
    rw [← holds.rest other outside others]
    exact kept other (others achall mem) outside

theorem performOne_holds (holds : Holds fs₀ webroot root all pending s) (distinct : all.InjOn Achall.token) (mem : achall ∈ all) :
    ∃ s', performOne webroot s achall = (s', true) ∧ Holds fs₀ webroot root all (Function.update pending achall true) s' := by
  have regular (node : Node Bytes Bytes) (found : s.fs.entry (challengePlace root achall.token) = some node) :
      ∃ old, node = .file old := by
    rw [holds.files achall mem] at found
    split_ifs at found
    exact ⟨_, (Option.some.inj found).symm⟩
  obtain ⟨fs', done, entries⟩ := performOne_spec holds.site regular
  refine ⟨_, done, holds.update distinct mem true ?changed ?inner ?kept⟩
  case changed => rw [entries, if_pos rfl, if_pos rfl]
  case inner =>
    have directory (above : List Bytes) (within : above <+: challengeNames) : fs'.entry (root ++ above) = some .directory := by
      rw [entries, if_neg (place_ne root achall.token within), if_pos]
      exact ⟨List.prefix_append _ _, (List.prefix_append_right_inj root).mpr within⟩
    refine ⟨?_, holds.site.free.valid, fun above within => .inr (directory above within)⟩
    simpa using directory [] List.nil_prefix
  case kept =>
    intro other differs outside
    rw [entries, if_neg differs, if_neg outside]

theorem cleanup_holds (holds : Holds fs₀ webroot root all pending s) (distinct : all.InjOn Achall.token) (mem : achall ∈ all)
    (achalls : List Achall) :
    ∃ s', cleanup s (achall :: achalls) = cleanup s' achalls ∧
      Holds fs₀ webroot root all (Function.update pending achall false) s' := by
  have recorded := holds.performed achall mem
  have file := holds.files achall mem
  cases here : pending achall with
  | false =>
    simp only [here, Bool.false_eq_true, if_false] at recorded
    refine ⟨s, by simp only [cleanup, recorded], ?_⟩
    rwa [← here, Function.update_eq_self]
  | true =>
    simp only [here, if_true] at recorded file
    obtain ⟨fs', removed, entries⟩ : ∃ fs', s.fs.unlink (FileSystem.realPath (challengePlace root achall.token)) = some fs' ∧
        ∀ other, fs'.entry other = if other = challengePlace root achall.token then none else s.fs.entry other :=
      FileSystem.unlink_real file
    have kept (above : List Bytes) (within : above <+: challengeNames) : fs'.entry (root ++ above) = s.fs.entry (root ++ above) := by
      rw [entries, if_neg]
      exact place_ne root achall.token within
    have path := pathOf_challengePath holds.site.path achall.token
    refine ⟨{ fs := fs', performed := Function.update s.performed achall none }, ?_,
      holds.update distinct mem false ?changed ?inner ?kept⟩
    case changed => simp [entries]
    case inner =>
      refine ⟨?_, holds.site.free.valid, fun above within => kept above within ▸ holds.site.free.free above within⟩
      have top := kept [] List.nil_prefix
      rw [List.append_nil] at top
      exact top.trans holds.site.free.directory
    case kept =>
      intro other differs _
      rw [entries, if_neg differs]
    · simp only [cleanup, recorded]
      rw [path, removed]
      rfl

theorem perform_run (distinct : all.InjOn Achall.token) (achalls : List Achall) (within : ∀ a ∈ achalls, a ∈ all)
    (holds : Holds fs₀ webroot root all pending s) :
    ∃ s', perform webroot s achalls = (s', some (achalls.map Achall.response)) ∧
      Holds fs₀ webroot root all (fun a => pending a || a ∈ achalls) s' := by
  induction achalls generalizing s pending with
  | nil => exact ⟨s, rfl, by simpa using holds⟩
  | cons achall achalls ih =>
    obtain ⟨mem, within⟩ := List.forall_mem_cons.mp within
    obtain ⟨s₁, done, holds₁⟩ := performOne_holds holds distinct mem
    obtain ⟨s₂, rest, holds₂⟩ := ih within holds₁
    refine ⟨s₂, by simp [perform, done, rest], ?_⟩
    convert holds₂ using 2 with a
    by_cases same : a = achall <;> simp [same]

theorem cleanup_run (distinct : all.InjOn Achall.token) (achalls : List Achall) (within : ∀ a ∈ achalls, a ∈ all)
    (holds : Holds fs₀ webroot root all pending s) :
    Holds fs₀ webroot root all (fun a => pending a && a ∉ achalls) (cleanup s achalls) := by
  induction achalls generalizing s pending with
  | nil => simpa [cleanup] using holds
  | cons achall achalls ih =>
    obtain ⟨mem, within⟩ := List.forall_mem_cons.mp within
    obtain ⟨s₁, done, holds₁⟩ := cleanup_holds holds distinct mem achalls
    rw [done]
    convert ih within holds₁ using 2 with a
    by_cases same : a = achall <;> simp [same]

theorem run_holds {calls : List Call} (distinct : all.InjOn Achall.token) (site : Site fs₀ webroot root)
    (fresh : ∀ a ∈ all, fs₀.entry (challengePlace root a.token) = none)
    (reached : (authenticator webroot).Reaches (fun _ call => ∀ a ∈ call.achalls, a ∈ all) { fs := fs₀ } calls s) :
    Holds fs₀ webroot root all (Certbot.pending calls) s := by
  refine reached.invariant (P := fun calls s => Holds fs₀ webroot root all (Certbot.pending calls) s) ?start ?keeps
  case start => exact ⟨site, fun _ _ => rfl, fun a mem => fresh a mem, fun _ _ _ => rfl⟩
  case keeps =>
    intro calls call s s' holds within taken
    have next : Certbot.pending (calls ++ [call]) = fun a => call.leaves a (Certbot.pending calls a) := by
      funext a
      simp [Certbot.pending]
    rw [next]
    cases call with
    | perform achalls =>
      cases taken
      obtain ⟨s', done, holds⟩ := perform_run distinct achalls within holds
      rw [done]
      exact holds
    | cleanup achalls =>
      cases taken
      exact cleanup_run distinct achalls within holds

end Steps

section Serving

variable {files : StaticFiles} {fs : FileSystem} {webroot : Bytes} {root : List Bytes} {token : Token}

def challengeText (token : Token) : Bytes := bytes ".well-known/acme-challenge/" ++ token.text

theorem formEncoding_self {text : Bytes} (plain : ∀ c ∈ text, c ≠ ch '%' ∧ c ≠ ch '+') : FormEncoding text text := by
  induction text with
  | nil => exact .nil
  | cons c text ih =>
    obtain ⟨⟨percent, plus⟩, rest⟩ := List.forall_mem_cons.mp plain
    exact .plain percent plus (ih rest)

theorem challengeText_plain : ∀ c ∈ challengeText token, c ≠ 0 ∧ c ≠ ch '%' ∧ c ≠ ch '+' := by
  have fixed : ∀ c ∈ bytes ".well-known/acme-challenge/", c ≠ 0 ∧ c ≠ ch '%' ∧ c ≠ ch '+' := by decide +kernel
  intro c mem
  rcases List.mem_append.mp mem with mem | mem
  · exact fixed c mem
  · have base64 := token.base64Url c mem
    refine ⟨?_, ?_, ?_⟩ <;> rintro rfl <;> revert base64 <;> decide

def challengeRest (token : Token) : FsPath := ⟨false, (challengeNames ++ [token.text]).map .name, false, by simp⟩

theorem pathOf_challengeText : (pathOf (challengeText token)).lexicallyNormal = challengeRest token := by
  have split : bytes ".well-known/acme-challenge/" = joinPath wellKnown acmeChallenge ++ [slash] := by decide
  have text : challengeText token = joinPath (joinPath wellKnown acmeChallenge) token.text := by
    have relative : token.text.head? ≠ some slash := fun same => token.valid.slash (List.mem_of_head? same)
    rw [joinPath, if_neg relative, if_neg (by decide), challengeText, split, List.append_assoc]
    rfl
  have path : pathOf (challengeText token) = challengeRest token := by
    rw [text, pathOf_join token.valid.toIsPathName, pathOf_join acmeChallenge_valid.toIsPathName,
      pathOf_name wellKnown_valid.toIsPathName]
    rfl
  rw [path]
  exact Path.EndsInName.lexicallyNormal_eq ⟨rfl, token.text, by simp [challengeRest]⟩ (Path.isNormal_names _ _)

theorem challenge_session (path : pathOf webroot = FileSystem.realPath root)
    (mapped : files.mapping (challengeUrl token) = some (bytes "/", webroot)) :
    files.createSession (challengeRequest token) = .ok (some ⟨FileSystem.realPath root, challengeRest token, false⟩) := by
  refine (createSession_plain mapped (by decide)).mpr ⟨.inl rfl, challengeText token, ?_, ?_⟩
  · have url : (challengeUrl token).drop (bytes "/").length = challengeText token := rfl
    have whole : (challengeText token).takeWhile (· ≠ 0) = challengeText token :=
      List.takeWhile_eq_self_iff.mpr fun c mem => by simpa using (challengeText_plain c mem).1
    change unescapeUrl (((challengeUrl token).drop (bytes "/").length).takeWhile (· ≠ 0)) = _
    rw [url, whole]
    exact unescapeUrl_eq_ok.mpr (formEncoding_self fun c mem => (challengeText_plain c mem).2)
  · rw [path, pathOf_challengeText]
    rfl

theorem root_div_rest : (FileSystem.realPath root / challengeRest token).lexicallyNormal =
    FileSystem.realPath (challengePlace root token) := by
  have joined : FileSystem.realPath root / challengeRest token = FileSystem.realPath (challengePlace root token) := by
    change Path.append _ _ = _
    simp [Path.append, challengeRest, FileSystem.realPath, challengePlace, challengeNames]
  rw [joined]
  exact Path.EndsInName.lexicallyNormal_eq ⟨rfl, token.text, by simp [FileSystem.realPath, challengePlace]⟩ (Path.isNormal_names _ _)

def challengeSession (root : List Bytes) (token : Token) : StaticSession := ⟨FileSystem.realPath root, challengeRest token, false⟩

theorem place_named (free : fs.Free root challengeNames) : ∀ name ∈ challengePlace root token, IsFileName name := by
  intro name mem
  rcases List.mem_append.mp mem with above | last
  · exact free.named name above
  · cases List.mem_singleton.mp last
    exact token.valid

theorem place_status (free : fs.Free root challengeNames)
    (plain : ∀ path, fs.entry (challengePlace root token) ≠ some (.link path)) :
    fs.status (FileSystem.realPath (challengePlace root token)) = fs.entry (challengePlace root token) := by
  rw [FileSystem.status_real (place_named free)]
  refine (FileTree.walk_plain FileSystem.maxLinks [] _ fun above within => ?_).trans (by rw [List.nil_append])
  rw [List.nil_append]
  rcases List.prefix_concat_iff.mp within with rfl | inside
  · exact plain
  · exact free.plain inside

theorem place_canonical (free : fs.Free root challengeNames) :
    fs.canonical (FileSystem.realPath (challengePlace root token)) =
      (fs.resolve (FileSystem.realPath (challengePlace root token))).map FileSystem.realPath := by
  have absolute : FileSystem.realPath fs.cwd / FileSystem.realPath (challengePlace root token) =
      FileSystem.realPath (challengePlace root token) := Path.div_absolute rfl
  rw [FileSystem.canonical, if_neg (by simp [FileSystem.realPath]), absolute, FileSystem.realPath_clean (place_named free)]

theorem serve_pending {content : Bytes} (free : fs.Free root challengeNames)
    (found : fs.entry (challengePlace root token) = some (.file content)) :
    ∃ reply, (challengeSession root token).serve files fs = .ok reply ∧ reply.response.statusCode = 200 ∧ reply.data = content := by
  have status : fs.status (FileSystem.realPath (challengePlace root token)) = fs.entry (challengePlace root token) :=
    place_status free (by simp [found])
  have resolved := FileTree.walk_names FileSystem.maxLinks [] (challengePlace root token) ⟨_, found, by simp⟩
  rw [List.nil_append] at resolved
  have located : locate files.allowSymlinks fs (FileSystem.realPath root) (challengeRest token) =
      some (FileSystem.realPath (challengePlace root token)) := by
    rw [locate, root_div_rest, place_canonical free, FileSystem.resolve_real, resolved]
    cases files.allowSymlinks <;> rfl
  have inside : (FileSystem.realPath (challengePlace root token)).StartsWith (FileSystem.realPath root) := by
    refine (Path.startsWith_absolute_iff rfl rfl).mpr ⟨rfl, ?_⟩
    simp [FileSystem.realPath, challengePlace]
  have file : fs.isDirectory (FileSystem.realPath (challengePlace root token)) = false := by
    simp [FileSystem.isDirectory, status, found, Shared.isDirectory]
  simp [challengeSession, StaticSession.serve, staticContentSession, located, inside, file, status, found, fileReply]

theorem serve_missing (free : fs.Free root challengeNames) (missing : fs.entry (challengePlace root token) = none) :
    (challengeSession root token).serve files fs = .error notFound := by
  have status : fs.status (FileSystem.realPath (challengePlace root token)) = none :=
    (place_status free (by simp [missing])).trans missing
  have unresolved : fs.resolve (FileSystem.realPath (challengePlace root token)) = none := by
    rw [FileSystem.status, FileSystem.realPath_clean (place_named free)] at status
    cases resolved : fs.resolve (FileSystem.realPath (challengePlace root token)) with
    | none => rfl
    | some place =>
      obtain ⟨node, there, -⟩ := FileSystem.resolve_resolved resolved
      simp [resolved, there] at status
  have directory : fs.isDirectory (FileSystem.realPath (challengePlace root token)) = false := by
    simp [FileSystem.isDirectory, status, Shared.isDirectory]
  cases links : files.allowSymlinks <;>
    simp [challengeSession, StaticSession.serve, staticContentSession, locate, links, root_div_rest, place_canonical free,
      unresolved, directory, status]

end Serving

/--
Whatever certbot calls, in whatever order: while a challenge is pending the server answers it with
its validation, and before and after that with a 404. `perform` always has a response for each challenge.
-/
theorem challenge_served_while_pending {files : StaticFiles} {fs : FileSystem} {webroot : Bytes} {root : List Bytes}
    {all : Set Achall} {calls : List Call} {s : Authenticator} (distinct : all.InjOn Achall.token) (site : Site fs webroot root)
    (fresh : ∀ a ∈ all, fs.entry (challengePlace root a.token) = none)
    (mapped : ∀ a ∈ all, files.mapping (challengeUrl a.token) = some (bytes "/", webroot))
    (reached : (authenticator webroot).Reaches (fun _ call => ∀ a ∈ call.achalls, a ∈ all) { fs } calls s) :
    (∀ a ∈ all, ∃ session, files.createSession (challengeRequest a.token) = .ok (some session) ∧
      if pending calls a then
        ∃ reply, session.serve files s.fs = .ok reply ∧ reply.response.statusCode = 200 ∧ reply.data = a.validation
      else session.serve files s.fs = .error notFound) ∧
    ∀ achalls, (∀ a ∈ achalls, a ∈ all) → (perform webroot s achalls).2 = some (achalls.map Achall.response) := by
  have holds := run_holds distinct site fresh reached
  constructor
  · intro a mem
    refine ⟨challengeSession root a.token, challenge_session site.path (mapped a mem), ?_⟩
    have file := holds.files a mem
    split_ifs at file ⊢
    · exact serve_pending holds.site.free file
    · exact serve_missing holds.site.free file
  · intro achalls within
    obtain ⟨s', done, -⟩ := perform_run distinct achalls within holds
    rw [done]

def firstChallenge : Achall where
  domain := bytes "example.com"
  token := ⟨bytes "evaGxfADs6pSRb2L", by decide, by decide +kernel⟩
  response := bytes "first"
  validation := bytes "evaGxfADs6pSRb2L.9jg46WB3rR_AHD"

def secondChallenge : Achall where
  domain := bytes "www.example.com"
  token := ⟨bytes "DGyRejmCefe7v4Nf", by decide, by decide +kernel⟩
  response := bytes "second"
  validation := bytes "DGyRejmCefe7v4Nf.9jg46WB3rR_AHD"

theorem site_ready : Site (site false) (bytes "/var/www") [bytes "var", bytes "www"] where
  path := by decide
  free :=
    { directory := rfl
      valid := by decide
      free := by
        intro above within
        have cases : above ∈ challengeNames.inits := (List.mem_inits _ _).mpr within
        simp only [challengeNames, List.inits, List.map_cons, List.map_nil, List.mem_cons, List.not_mem_nil, or_false] at cases
        rcases cases with rfl | rfl | rfl
        · exact .inr rfl
        · exact .inl rfl
        · exact .inl rfl }

def bothChallenges : Set Achall := {firstChallenge, secondChallenge}

theorem bothChallenges_distinct : bothChallenges.InjOn Achall.token := by
  rintro a (rfl | rfl) b (rfl | rfl) same
  · rfl
  · exact absurd same (by decide)
  · exact absurd same (by decide)
  · rfl

theorem bothChallenges_fresh : ∀ a ∈ bothChallenges, (site false).entry (challengePlace [bytes "var", bytes "www"] a.token) = none := by
  rintro a (rfl | rfl)
  · rfl
  · rfl

def halfway : Authenticator :=
  cleanup (perform (bytes "/var/www") { fs := site false } [firstChallenge, secondChallenge]).1 [firstChallenge]

theorem halfway_reached : (authenticator (bytes "/var/www")).Reaches (fun _ call => ∀ a ∈ call.achalls, a ∈ bothChallenges)
    { fs := site false } [.perform [firstChallenge, secondChallenge], .cleanup [firstChallenge]] halfway :=
  .step (.step .start (by simp [Call.achalls, bothChallenges]) rfl) (by simp [Call.achalls, bothChallenges]) rfl

theorem challenge_served_while_pending_second :
    ∃ session reply, siteFiles.createSession (challengeRequest secondChallenge.token) = .ok (some session) ∧
      session.serve siteFiles halfway.fs = .ok reply ∧ reply.response.statusCode = 200 ∧
      reply.data = secondChallenge.validation := by
  have mapped : ∀ a ∈ bothChallenges, siteFiles.mapping (challengeUrl a.token) = some (bytes "/", bytes "/var/www") := by
    rintro a (rfl | rfl)
    · decide +kernel
    · decide +kernel
  have served := (challenge_served_while_pending bothChallenges_distinct site_ready bothChallenges_fresh mapped halfway_reached).1
  obtain ⟨session, created, answer⟩ := served secondChallenge (.inr rfl)
  rw [if_pos (by decide +kernel)] at answer
  obtain ⟨reply, answer⟩ := answer
  exact ⟨session, reply, created, answer⟩

/--
The authenticator changes nothing of a site but its challenges, and once these are cleaned up it leaves
two directories behind at most.
-/
theorem authenticator_cleans_up {fs : FileSystem} {webroot : Bytes} {root : List Bytes} {all : Set Achall} {calls : List Call}
    {s : Authenticator} (distinct : all.InjOn Achall.token) (site : Site fs webroot root)
    (fresh : ∀ a ∈ all, fs.entry (challengePlace root a.token) = none)
    (reached : (authenticator webroot).Reaches (fun _ call => ∀ a ∈ call.achalls, a ∈ all) { fs } calls s)
    {place : List Bytes} (outside : ¬ (root <+: place ∧ place <+: root ++ challengeNames))
    (cleaned : ∀ a ∈ all, pending calls a → place ≠ challengePlace root a.token) : s.fs.entry place = fs.entry place := by
  have holds := run_holds distinct site fresh reached
  by_cases challenge : ∃ a ∈ all, place = challengePlace root a.token
  · obtain ⟨a, mem, rfl⟩ := challenge
    have ended : pending calls a = false := by simpa using fun still => cleaned a mem still rfl
    rw [holds.files a mem, fresh a mem, ended]
    rfl
  · push Not at challenge
    exact holds.rest place outside challenge

theorem authenticator_cleans_up_first :
    halfway.fs.entry (challengePlace [bytes "var", bytes "www"] firstChallenge.token) = none := by
  refine (authenticator_cleans_up bothChallenges_distinct site_ready bothChallenges_fresh halfway_reached
    (place_outside _ _) ?_).trans (bothChallenges_fresh _ (.inl rfl))
  rintro a (rfl | rfl) still
  · exact absurd still (by decide +kernel)
  · decide

end Dracon.Certbot
