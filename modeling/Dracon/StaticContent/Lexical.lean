import Dracon.StaticContent.Symlinks

set_option autoImplicit false

namespace Dracon

open Shared

-- The paths of the calls of `fs::status`. The file is read from the last of them.
def StaticSession.statusQueries (session : StaticSession) (files : StaticFiles) (fs : FileSystem) : List FsPath :=
  match locate files.allowSymlinks fs session.root session.path with
  | none => []
  | some p =>
      if ¬ p.StartsWith session.root then []
      else if fs.isDirectory p then [p, p / pathOf files.defaultFile]
      else [p]

section

variable {files : StaticFiles} {fs : FileSystem} {session : StaticSession}

theorem statusQueries_outside (allowed : files.allowSymlinks = true)
    (outside : ¬ (session.root / session.path).lexicallyNormal.StartsWith session.root) :
    session.statusQueries files fs = [] ∧ session.serve files fs = .error notFound := by
  simp [StaticSession.statusQueries, StaticSession.serve, staticContentSession, locate, allowed, outside]

theorem serve_congr {fs' : FileSystem} (allowed : files.allowSymlinks = true)
    (agree : ∀ q ∈ session.statusQueries files fs, fs'.status q = fs.status q) :
    session.serve files fs' = session.serve files fs := by
  by_cases inside : (session.root / session.path).lexicallyNormal.StartsWith session.root
  · simp only [StaticSession.statusQueries, StaticSession.serve, staticContentSession, locate, allowed, if_true, inside,
      not_true_eq_false, if_false] at agree ⊢
    generalize (session.root / session.path).lexicallyNormal = p at agree ⊢
    have first : fs'.status p = fs.status p := agree p (by split_ifs <;> simp)
    have directory : fs'.isDirectory p = fs.isDirectory p := congrArg Shared.isDirectory first
    have last : fs'.status (if fs.isDirectory p then p / pathOf files.defaultFile else p) =
        fs.status (if fs.isDirectory p then p / pathOf files.defaultFile else p) := by
      split_ifs with isDirectory
      · exact agree _ (by simp [isDirectory])
      · exact first
    rw [directory, last]
  · rw [(statusQueries_outside allowed inside).2, (statusQueries_outside allowed inside).2]

theorem statusQueries_confined (allowed : files.allowSymlinks = true) (absolute : session.root.absolute = true)
    (closed : session.root.trailing = false) (default : IsFileName files.defaultFile) :
    ∀ q ∈ session.statusQueries files fs, q.StartsWith session.root ∧ .up ∉ q.components := by
  intro q mem
  by_cases inside : (session.root / session.path).lexicallyNormal.StartsWith session.root
  · simp only [StaticSession.statusQueries, locate, allowed, if_true, inside, not_true_eq_false, if_false] at mem
    obtain ⟨isAbsolute, within⟩ := (Path.startsWith_absolute_iff absolute closed).mp inside
    have normal := Path.reduce_normal true (session.root / session.path).components
    rw [Path.lexicallyNormal_isAbsolute] at isAbsolute
    rw [← Path.lexicallyNormal_components isAbsolute] at normal
    rw [← Path.lexicallyNormal_isAbsolute] at isAbsolute
    generalize (session.root / session.path).lexicallyNormal = p at *
    have relative : (pathOf files.defaultFile).absolute = false := by rw [pathOf_name default.toIsPathName]
    have appended : (p / pathOf files.defaultFile).components = p.components ++ [.name files.defaultFile] := by
      rw [Path.div_components relative, pathOf_name default.toIsPathName]
    split_ifs at mem
    · rcases List.mem_pair.mp mem with rfl | rfl
      · exact ⟨inside, normal.up rfl⟩
      · constructor
        · refine (Path.startsWith_absolute_iff absolute closed).mpr ⟨(Path.div_isAbsolute relative).trans isAbsolute, ?_⟩
          exact appended ▸ within.trans (List.prefix_append _ _)
        · simpa [appended] using normal.up rfl
    · obtain rfl := List.mem_singleton.mp mem
      exact ⟨inside, normal.up rfl⟩
  · rw [(statusQueries_outside allowed inside).1] at mem
    cases mem

theorem statusQueries_seen (allowed : files.allowSymlinks = true) (absolute : session.root.absolute = true)
    (closed : session.root.trailing = false) (default : IsFileName files.defaultFile)
    (clean : ∀ c ∈ session.root.components, ¬ hasNul c) :
    ∀ q ∈ session.statusQueries files fs, session.root.components <+: (cStr q).components := by
  intro q mem
  obtain ⟨inside, -⟩ := statusQueries_confined allowed absolute closed default q mem
  obtain ⟨-, rest, components⟩ := (Path.startsWith_absolute_iff absolute closed).mp inside
  exact cStr_prefix components.symm clean

end

/--
A plain mapping with links allowed asks for nothing outside its root, and answers what is outside without asking.
-/
theorem plain_mapping_lexically_confined (files : StaticFiles) (fs : FileSystem) (req : Request) (start dir text : Bytes)
    (allowed : files.allowSymlinks = true) (mapped : files.mapping req.url = some (start, dir))
    (plain : ¬ bytes "/~" <+: start) (absolute : (pathOf dir).absolute = true)
    (closed : (pathOf dir).trailing = false) (default : IsFileName files.defaultFile)
    (method : req.method = bytes "GET" ∨ req.method = bytes "HEAD")
    (decoded : unescapeUrl ((req.url.drop start.length).takeWhile (· ≠ 0)) = .ok text) :
    ∃ session, files.createSession req = .ok (some session) ∧
      (∀ q ∈ session.statusQueries files fs, q.StartsWith (pathOf dir) ∧ .up ∉ q.components) ∧
      (∀ fs' : FileSystem, (∀ q ∈ session.statusQueries files fs, fs'.status q = fs.status q) →
        session.serve files fs' = session.serve files fs) ∧
      (¬ (pathOf dir / pathOf text).lexicallyNormal.StartsWith (pathOf dir) →
        session.statusQueries files fs = [] ∧ session.serve files fs = .error notFound) ∧
      ((∀ c ∈ (pathOf dir).components, ¬ hasNul c) →
        ∀ q ∈ session.statusQueries files fs, (pathOf dir).components <+: (cStr q).components) := by
  refine ⟨_, (createSession_plain mapped plain).mpr ⟨method, text, decoded, rfl⟩, ?_, ?_, ?_, ?_⟩
  · exact statusQueries_confined allowed absolute closed default
  · exact fun fs' agree => serve_congr allowed agree
  · intro outside
    refine statusQueries_outside allowed fun inside => outside ?_
    rw [Path.startsWith_absolute_iff absolute closed, Path.lexicallyNormal_div absolute] at inside
    refine (Path.startsWith_absolute_iff absolute closed).mpr ⟨?_, inside.2⟩
    rw [Path.lexicallyNormal_isAbsolute]
    cases relative : (pathOf text).absolute with
    | true => rwa [Path.div_absolute relative]
    | false => exact (Path.div_isAbsolute relative).trans absolute
  · intro clean
    exact statusQueries_seen allowed absolute closed default clean

theorem plain_mapping_lexically_confined_dots :
    ∃ session, { siteFiles with allowSymlinks := true }.createSession
        { method := bytes "GET", url := bytes "/a/%2e%2E//..%2f../etc/passwd" } = .ok (some session) ∧
      session.statusQueries { siteFiles with allowSymlinks := true } (site true) = [] ∧
      session.serve { siteFiles with allowSymlinks := true } (site true) = .error notFound := by
  obtain ⟨session, created, -, -, outside, -⟩ :=
    plain_mapping_lexically_confined { siteFiles with allowSymlinks := true } (site true)
      { method := bytes "GET", url := bytes "/a/%2e%2E//..%2f../etc/passwd" } (bytes "/") (bytes "/var/www")
      (bytes "a/..//../../etc/passwd") rfl (by decide +kernel) (by decide +kernel) (by decide +kernel)
      (by decide +kernel) (by decide +kernel) (by decide +kernel) (by decide +kernel)
  exact ⟨session, created, outside (by decide +kernel)⟩

end Dracon
