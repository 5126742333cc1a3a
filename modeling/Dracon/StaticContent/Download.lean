import Dracon.Http.ResponseStream
import Dracon.StaticContent.FileCache
import Dracon.StaticContent.Symlinks

set_option autoImplicit false

namespace Dracon

open Shared

-- A session of the plugin: what `create_session` has bound, and `p.string()` for the file it has found.
structure Download where
  session : StaticSession
  path : Bytes
  opened : Bool := false
  deriving DecidableEq

structure Downloads where
  cache : FileCache.State := {}
  requests : Nat → Option Download := fun _ => none

inductive DownloadInput where
  -- up to `is_regular_file`, in the file system as the session finds it
  | resolve (k : Nat) (session : StaticSession) (fs : FileSystem) (path : Bytes)
  | fileSize (k : Nat)
  -- the rest of a session, the timer, and those who replace the files
  | cached (input : FileCache.Input)

def downloads (files : StaticFiles) : System Downloads DownloadInput where
  step s
    | .resolve k session fs path =>
      if (s.cache.sessions k).isSome then none
      else
        match resolvePath files fs session.root session.path with
        | none => some { s with requests := Function.update s.requests k none }
        | some p =>
          if pathOf path = p then some { s with requests := Function.update s.requests k (some { session, path }) } else none
    | .fileSize k =>
      (s.requests k).bind fun request =>
        if request.opened then none
        else
          (FileCache.plugin.step s.cache (.fileSize k request.path)).map fun cache =>
            ⟨cache, Function.update s.requests k (some { request with opened := true })⟩
    | .cached (.fileSize _ _) => none
    | .cached input => (FileCache.plugin.step s.cache input).map fun cache => { s with cache }

def Download.reply (files : StaticFiles) (request : Download) (file : FileCache.FileMap) : Reply :=
  fileReply files (pathOf request.path) request.session.head file.data

def Downloads.Careful (s : Downloads) : DownloadInput → Prop
  | .cached input => FileCache.Careful s.cache input
  | .resolve .. | .fileSize _ => True

section Reply

variable {files : StaticFiles} {p : FsPath} {head : Bool} {content : Bytes}

theorem serve_eq_ok {fs : FileSystem} {session : StaticSession} {reply : Reply} :
    session.serve files fs = .ok reply ↔
      ∃ p content, resolvePath files fs session.root session.path = some p ∧ fs.status p = some (.file content) ∧
        reply = fileReply files p session.head content := by
  unfold StaticSession.serve staticContentSession resolvePath
  cases locate files.allowSymlinks fs session.root session.path with
  | none => simp
  | some p =>
    simp only [Option.bind_some]
    generalize (if fs.isDirectory p then p / pathOf files.defaultFile else p) = q
    by_cases inside : p.StartsWith session.root
    · simp only [inside, not_true, if_false]
      split
      next content found =>
        constructor
        · rintro ⟨⟩
          exact ⟨_, _, rfl, found, rfl⟩
        · rintro ⟨_, _, ⟨⟩, other, rfl⟩
          cases found.symm.trans other
          rfl
      next => simp
    · simp [inside]

end Reply

section Runs

variable {files : StaticFiles} {k : Nat}

theorem set_path {s : FileCache.State} {j : Nat} {next : Option FileCache.Session} {looked : FileCache.Session}
    (same : ∀ x, next = some x → ∃ before, s.sessions j = some before ∧ before.path = x.path)
    (here : (s.set j next).sessions k = some looked) : ∃ before, s.sessions k = some before ∧ before.path = looked.path := by
  simp only [FileCache.State.set, Function.update_apply] at here
  split_ifs at here with own
  · exact own ▸ same looked here
  · exact ⟨looked, here, rfl⟩

-- A session stays with its path.
theorem step_path {s s' : FileCache.State} {input : FileCache.Input} {looked : FileCache.Session}
    (taken : FileCache.plugin.step s input = some s') (here : s'.sessions k = some looked) :
    (∃ before, s.sessions k = some before ∧ before.path = looked.path) ∨ input = .fileSize k looked.path := by
  cases FileCache.moves_of_step taken with
  | replace =>
    obtain ⟨before, eq, rfl⟩ := Option.map_eq_some_iff.mp here
    exact .inl ⟨before, eq, by simp⟩
  | remove | absent | timer => exact .inl ⟨looked, here, rfl⟩
  | opened =>
    simp only [FileCache.State.set, Function.update_apply] at here
    split_ifs at here with own
    · cases here
      exact .inr (by rw [own])
    · exact .inl ⟨looked, here, rfl⟩
  | timed own => exact .inl (set_path (by rintro _ ⟨⟩; exact ⟨_, own, rfl⟩) here)
  | gone | unmapped | finish => exact .inl (set_path (by rintro _ ⟨⟩) here)
  | hit own | mapped own => exact .inl (set_path (by rintro _ ⟨⟩; exact ⟨_, own, rfl⟩) here)

-- The cache goes through a run of its own, on the paths that the sessions have resolved.
structure Downloads.Tracked (files : StaticFiles) (inputs : List DownloadInput) (s : Downloads) : Prop where
  cache : ∃ cached, FileCache.plugin.Reaches FileCache.Careful {} cached s.cache
  resolved : ∀ k request, s.requests k = some request → ∃ fs, .resolve k request.session fs request.path ∈ inputs ∧
    resolvePath files fs request.session.root request.session.path = some (pathOf request.path)
  looks : ∀ k looked, s.cache.sessions k = some looked → ∃ request, s.requests k = some request ∧ request.path = looked.path

theorem step_tracked {s s' : Downloads} {inputs : List DownloadInput} {input : DownloadInput}
    (tracked : s.Tracked files inputs) (careful : s.Careful input) (taken : (downloads files).step s input = some s') :
    s'.Tracked files (inputs ++ [input]) := by
  obtain ⟨⟨cached, reached⟩, resolved, looks⟩ := tracked
  have earlier (k : Nat) (request : Download) (asked : s.requests k = some request) :
      ∃ fs, .resolve k request.session fs request.path ∈ inputs ++ [input] ∧
        resolvePath files fs request.session.root request.session.path = some (pathOf request.path) := by
    obtain ⟨fs, mem, found⟩ := resolved k request asked
    exact ⟨fs, List.mem_append_left _ mem, found⟩
  cases input with
  | resolve j session fs path =>
    simp only [downloads] at taken
    split_ifs at taken with free
    -- the session with the number has ended
    have others (next : Option Download) (k : Nat) (looked : FileCache.Session) (here : s.cache.sessions k = some looked) :
        ∃ request, Function.update s.requests j next k = some request ∧ request.path = looked.path := by
      have distinct : k ≠ j := by
        rintro rfl
        simp [here] at free
      rw [Function.update_of_ne distinct]
      exact looks k looked here
    split at taken
    next =>
      cases taken
      refine ⟨⟨cached, reached⟩, fun k request asked => ?_, others none⟩
      simp only [Function.update_apply] at asked
      split_ifs at asked
      exact earlier k request asked
    next p found =>
      split_ifs at taken with same
      cases taken
      refine ⟨⟨cached, reached⟩, fun k request asked => ?_, others _⟩
      simp only [Function.update_apply] at asked
      split_ifs at asked with own
      · cases asked
        subst own
        exact ⟨fs, by simp, same ▸ found⟩
      · exact earlier k request asked
  | fileSize j =>
    simp only [downloads] at taken
    obtain ⟨request, asked, taken⟩ := Option.bind_eq_some_iff.mp taken
    split_ifs at taken
    obtain ⟨cache, opened, rfl⟩ := Option.map_eq_some_iff.mp taken
    have calm : FileCache.Careful s.cache (.fileSize j request.path) := trivial
    refine ⟨⟨_, reached.step calm opened⟩, fun k other eq => ?_, fun k looked here => ?_⟩
    · simp only [Function.update_apply] at eq
      split_ifs at eq with own
      · cases eq
        subst own
        exact earlier k request asked
      · exact earlier k other eq
    · simp only [Function.update_apply]
      rcases step_path opened here with ⟨before, held, path⟩ | new
      · obtain ⟨other, eq, same⟩ := looks k before held
        split_ifs with own
        · subst own
          cases asked.symm.trans eq
          exact ⟨_, rfl, same.trans path⟩
        · exact ⟨other, eq, same.trans path⟩
      · obtain ⟨rfl, path⟩ := FileCache.Input.fileSize.inj new
        exact ⟨_, if_pos rfl, path⟩
  | cached inner =>
    have fresh (j : Nat) (path : Bytes) : inner ≠ .fileSize j path := by
      rintro rfl
      cases taken
    have stepped : (FileCache.plugin.step s.cache inner).map (fun cache => { s with cache }) = some s' := by
      cases inner <;> first | exact taken | cases taken
    obtain ⟨cache, ran, rfl⟩ := Option.map_eq_some_iff.mp stepped
    refine ⟨⟨_, reached.step careful ran⟩, earlier, fun k looked here => ?_⟩
    obtain ⟨before, held, path⟩ := (step_path ran here).resolve_right (fresh k looked.path)
    obtain ⟨request, eq, same⟩ := looks k before held
    exact ⟨request, eq, same.trans path⟩

theorem reaches_tracked {inputs : List DownloadInput} {s : Downloads}
    (reached : (downloads files).Reaches Downloads.Careful {} inputs s) : s.Tracked files inputs := by
  apply reached.invariant (P := fun inputs s => s.Tracked files inputs)
  · exact ⟨⟨[], .start⟩, by rintro _ _ ⟨⟩, by rintro _ _ ⟨⟩⟩
  · exact fun tracked careful taken => step_tracked tracked careful taken

theorem served_current {inputs : List DownloadInput} {s : Downloads} {looked : FileCache.Session} {file : FileCache.FileMap}
    (reached : (downloads files).Reaches Downloads.Careful {} inputs s) (here : s.cache.sessions k = some looked)
    (serves : looked.stage = .serving file) : file.data ∈ looked.seen := by
  obtain ⟨cached, inner⟩ := (reaches_tracked reached).cache
  have knows := (FileCache.reaches_current inner).knows k looked here
  simpa only [FileCache.Session.Knows, serves] using knows

-- A session whose file nobody replaces sends what `staticContentSession` sends.
theorem reply_eq_serve {inputs : List DownloadInput} {s : Downloads} {request : Download} {looked : FileCache.Session}
    {file : FileCache.FileMap} {fs : FileSystem} {content : Bytes}
    (reached : (downloads files).Reaches Downloads.Careful {} inputs s) (here : s.cache.sessions k = some looked)
    (serves : looked.stage = .serving file)
    (resolved : resolvePath files fs request.session.root request.session.path = some (pathOf request.path))
    (held : fs.status (pathOf request.path) = some (.file content)) (unchanged : looked.seen = [content]) :
    request.session.serve files fs = .ok (request.reply files file) := by
  have same := served_current reached here serves
  rw [unchanged, List.mem_singleton] at same
  exact serve_eq_ok.mpr ⟨_, content, resolved, held, by rw [← same]; rfl⟩

end Runs

end Dracon
