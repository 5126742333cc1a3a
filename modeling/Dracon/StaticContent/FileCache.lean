import Dracon.Utils.LruCache
import Dracon.Http.Chars

set_option autoImplicit false

namespace Dracon.FileCache

open Shared Utils

section Cache

variable {K V : Type} [DecidableEq K] {c : LruCache K V} {r : Recency K V}

-- The loop of the timer over the cache, from an iterator on.
def purgeFrom (used : V → Bool) : Nat → LruCache K V → Option Nat → Option (LruCache K V)
  | _, c, none => some c
  | 0, _, some _ => none
  | fuel + 1, c, some it => do
    let node ← c.node it
    if used node.value then purgeFrom used fuel c (c.next it)
    else
      let (c, next) ← c.erase it
      purgeFrom used fuel c next

def purge (used : V → Bool) (c : LruCache K V) : Option (LruCache K V) :=
  purgeFrom used c.cacheItems.length c (c.cacheItems.head?.map Utils.Node.id)

theorem next_eq {before after : List (Utils.Node K V)} {node : Utils.Node K V} (consistent : c.Consistent)
    (items : c.cacheItems = before ++ node :: after) : c.next node.id = after.head?.map Utils.Node.id := by
  have ids := consistent.ids
  have others : ∀ other ∈ before, other.id ≠ node.id := by
    intro other mem same
    rw [items, List.map_append, List.map_cons] at ids
    exact (List.nodup_append.mp ids).2.2 other.id (List.mem_map_of_mem mem) node.id List.mem_cons_self same
  have skipped : c.cacheItems.dropWhile (·.id ≠ node.id) = node :: after := by
    rw [items, List.dropWhile_append_of_pos (by simpa using others)]
    simp
  rw [LruCache.next, skipped, List.tail_cons]

theorem erase_items {before after : List (Utils.Node K V)} {node : Utils.Node K V} {c' : LruCache K V} {next : Option Nat}
    (consistent : c.Consistent) (items : c.cacheItems = before ++ node :: after)
    (erased : c.erase node.id = some (c', next)) : c'.cacheItems = before ++ after := by
  have mem : node ∈ c.cacheItems := by simp [items]
  have found : ({ c with cacheHash := c.cacheHash.erase node.key } : LruCache K V).node node.id = some node :=
    consistent.node_eq mem
  simp only [LruCache.erase, LruCache.eraseNode, consistent.node_eq mem, found, Option.map_some, Option.bind_eq_bind,
    Option.bind_some, Option.some.injEq, Prod.mk.injEq] at erased
  rw [← erased.1]
  have ids := consistent.ids
  rw [items, List.map_append, List.map_cons, List.nodup_append, List.nodup_cons] at ids
  obtain ⟨-, ⟨later, -⟩, earlier⟩ := ids
  have left : ∀ other ∈ before, other.id ≠ node.id := fun other mem =>
    earlier other.id (List.mem_map_of_mem mem) node.id List.mem_cons_self
  have right : ∀ other ∈ after, other.id ≠ node.id := fun other mem same =>
    later (same ▸ List.mem_map_of_mem mem)
  simp only [items, List.filter_append]
  rw [List.filter_eq_self.mpr (by simpa using left), List.filter_cons_of_neg (by simp),
    List.filter_eq_self.mpr (by simpa using right)]

theorem purgeFrom_eq (used : V → Bool) {rest : List (Utils.Node K V)} (before : List (Utils.Node K V)) {fuel : Nat} (refines : c.Refines r)
    (items : c.cacheItems = before ++ rest) (enough : rest.length ≤ fuel) :
    ∃ c' r', purgeFrom used fuel c (rest.head?.map Utils.Node.id) = some c' ∧ c'.Refines r' ∧
      c'.cacheItems = before ++ rest.filter fun node => used node.value := by
  induction rest generalizing c r before fuel with
  | nil => exact ⟨c, r, by cases fuel <;> rfl, refines, items⟩
  | cons node rest ih =>
    obtain ⟨fuel, rfl⟩ : ∃ n, fuel = n + 1 := ⟨fuel - 1, by simp only [List.length_cons] at enough; omega⟩
    have enough : rest.length ≤ fuel := by simpa using enough
    have mem : node ∈ c.cacheItems := by simp [items]
    have found := refines.consistent.node_eq mem
    have next := next_eq refines.consistent items
    simp only [List.head?_cons, Option.map_some, purgeFrom, found, Option.bind_eq_bind, Option.bind_some]
    split_ifs with keep
    · -- the node stays, and is behind the iterator
      obtain ⟨c', r', ran, refines', left⟩ := ih (before ++ [node]) refines (by simp [items]) enough
      exact ⟨c', r', next ▸ ran, refines', by simp [left, keep]⟩
    · obtain ⟨erased, gone, refines'⟩ := refines.remove mem
      have items := erase_items refines.consistent items gone
      obtain ⟨c', r', ran, refines', left⟩ := ih before refines' items enough
      refine ⟨c', r', ?_, refines', by simp [left, keep]⟩
      rw [gone]
      exact next ▸ ran

theorem purge_eq (used : V → Bool) (refines : c.Refines r) :
    ∃ c' r', purge used c = some c' ∧ c'.Refines r' ∧ c'.cacheItems = c.cacheItems.filter fun node => used node.value :=
  purgeFrom_eq used [] refines rfl (Nat.le_refl _)

theorem value_spec [Inhabited V] (refines : c.Refines r) (key : K) :
    ∃ c' r' found, c.value key = some (c', found) ∧ c'.Refines r' ∧ (∀ entry ∈ c'.entries, entry ∈ c.entries) ∧
      (found = default ∨ (key, found) ∈ c.entries) := by
  obtain ⟨c', ran, refines'⟩ : ∃ c', c.call (.value key) = some (c', c.answer r (.value key)) ∧
      c'.Refines (c.mirror r (.value key)) := refines.call trivial
  obtain ⟨⟨c'', found⟩, looked, eq⟩ := Option.map_eq_some_iff.mp ran
  obtain ⟨rfl, answer⟩ := Prod.mk.inj eq
  refine ⟨c'', _, found, looked, refines', fun entry mem => ?_, ?_⟩
  · obtain ⟨key', v⟩ := entry
    rw [refines.lists.mem]
    have after := (refines'.lists.mem _ _).mp mem
    simp only [LruCache.mirror, Recency.lookup] at after
    cases present : r.value key with
    | none => simpa [present] using after
    | some w =>
      simp only [present, Recency.use, Function.update_apply] at after
      split_ifs at after with same
      · exact same ▸ present.trans after
      · exact after
  · simp only [LruCache.answer, Answer.value.injEq] at answer
    cases present : r.value key with
    | none => exact .inl (by simpa [present] using answer)
    | some w =>
      refine .inr ((refines.lists.mem _ _).mpr ?_)
      simpa [present] using answer.symm

theorem put_spec (refines : c.Refines r) (key : K) (v : V) :
    ∃ c' r', c.put key v = some c' ∧ c'.Refines r' ∧ ∀ entry ∈ c'.entries, entry = (key, v) ∨ entry ∈ c.entries := by
  obtain ⟨c', ran, refines'⟩ := refines.put key v
  refine ⟨c', _, ran, refines', fun entry mem => ?_⟩
  obtain ⟨key', w⟩ := entry
  have after := (refines'.lists.mem _ _).mp mem
  simp only [Recency.put, Recency.evict, Recency.use, Function.update_apply] at after
  split_ifs at after with _ same
  · exact .inl (by simp [same, Option.some.inj after])
  · exact .inr ((refines.lists.mem _ _).mpr after)

end Cache

-- What is at a path: files are replaced as a whole, so that one that is mapped stays as it is.
structure File where
  content : Bytes
  lastWriteTime : Nat
  deriving DecidableEq

structure FileMap where
  object : Nat
  data : Bytes
  lastWriteTime : Nat
  deriving DecidableEq

inductive Stage where
  | sized (size : Nat)
  | timed (size lastWriteTime : Nat)
  | serving (file : FileMap)
  deriving DecidableEq

structure Session where
  path : Bytes
  stage : Stage
  -- what the file has held since the session looked at it first
  seen : List Bytes
  deriving DecidableEq

def Session.sees (session : Session) (path content : Bytes) : Session :=
  if session.path = path then { session with seen := content :: session.seen } else session

section Sees

variable (session : Session) (path content : Bytes)

@[simp] theorem sees_path : (session.sees path content).path = session.path := by
  unfold Session.sees
  split_ifs <;> rfl

@[simp] theorem sees_stage : (session.sees path content).stage = session.stage := by
  unfold Session.sees
  split_ifs <;> rfl

@[simp] theorem sees_seen :
    (session.sees path content).seen = if session.path = path then content :: session.seen else session.seen := by
  unfold Session.sees
  split_ifs <;> rfl

theorem mem_sees {c : Bytes} (mem : c ∈ session.seen) : c ∈ (session.sees path content).seen := by
  rw [sees_seen]
  split_ifs
  · exact List.mem_cons_of_mem _ mem
  · exact mem

end Sees

structure State where
  files : Bytes → Option File := fun _ => none
  cache : LruCache Bytes (Option FileMap) := ⟨[], ∅, 100, 0⟩
  sessions : Nat → Option Session := fun _ => none
  -- the sessions that share an object with the cache
  users : Nat → Finset Nat := fun _ => ∅
  objects : Nat := 0
  -- what the files have held, by the times of the changes
  history : Bytes → Nat → Option Bytes := fun _ _ => none

inductive Input where
  | replace (path content : Bytes) (time : Nat)
  | remove (path : Bytes)
  | fileSize (k : Nat) (path : Bytes)
  | lastWriteTime (k : Nat)
  -- what is done under `s_files_cache_mutex`
  | find (k : Nat)
  | finish (k : Nat)
  | timer
  deriving DecidableEq

-- The constructor of `file_map`: nothing is opened for a size of zero, and an empty file cannot be mapped.
def mapFile (file : Option File) (size : Nat) : Option Bytes :=
  if size = 0 then some []
  else file.bind fun file => if file.content = [] then none else some file.content

namespace State

variable (s : State)

def replace (path content : Bytes) (time : Nat) : State :=
  { s with
    files := Function.update s.files path (some ⟨content, time⟩)
    history := Function.update s.history path (Function.update (s.history path) time (some content))
    sessions := fun k => (s.sessions k).map fun session => session.sees path content }

def set (k : Nat) (session : Option Session) : State := { s with sessions := Function.update s.sessions k session }

def serve (k : Nat) (session : Session) (file : FileMap) : State :=
  { s.set k (some { session with stage := .serving file }) with
    users := Function.update s.users file.object (insert k (s.users file.object)) }

def find (k : Nat) (session : Session) (size time : Nat) : Option State := do
  let (cache, found) ← s.cache.value session.path
  match found.filter fun file => file.lastWriteTime = time with
  | some file => some ({ s with cache }.serve k session file)
  | none =>
    match mapFile (s.files session.path) size with
    | none => some ({ s with cache }.set k none)
    | some data =>
      let file : FileMap := ⟨s.objects, data, time⟩
      let cache ← cache.put session.path (some file)
      some ({ s with cache, objects := s.objects + 1 }.serve k session file)

-- `use_count() == 1`; there is no null pointer in the cache
def isUsed : Option FileMap → Bool
  | some file => s.users file.object ≠ ∅
  | none => true

end State

def plugin : System State Input where
  step s
    | .replace path content time => some (s.replace path content time)
    | .remove path => some { s with files := Function.update s.files path none }
    | .fileSize k path =>
      match s.sessions k, s.files path with
      | none, some file => some (s.set k (some ⟨path, .sized file.content.length, [file.content]⟩))
      | none, none => some s
      | some _, _ => none
    | .lastWriteTime k =>
      (s.sessions k).bind fun session =>
        match session.stage, s.files session.path with
        | .sized size, some file => some (s.set k (some { session with stage := .timed size file.lastWriteTime }))
        | .sized _, none => some (s.set k none)
        | _, _ => none
    | .find k =>
      (s.sessions k).bind fun session =>
        match session.stage with
        | .timed size time => s.find k session size time
        | _ => none
    | .finish k =>
      (s.sessions k).bind fun session =>
        match session.stage with
        | .serving file =>
          some { s.set k none with users := Function.update s.users file.object ((s.users file.object).erase k) }
        | _ => none
    | .timer => (purge s.isUsed s.cache).map fun cache => { s with cache }

-- what a step does, with what it has found
inductive Moves (s : State) : Input → State → Prop
  | replace (path content : Bytes) (time : Nat) : Moves s (.replace path content time) (s.replace path content time)
  | remove (path : Bytes) : Moves s (.remove path) { s with files := Function.update s.files path none }
  | opened {k : Nat} {path : Bytes} {file : File} (free : s.sessions k = none) (found : s.files path = some file) :
      Moves s (.fileSize k path) (s.set k (some ⟨path, .sized file.content.length, [file.content]⟩))
  | absent {k : Nat} {path : Bytes} : Moves s (.fileSize k path) s
  | timed {k size : Nat} {session : Session} {file : File} (here : s.sessions k = some session)
      (stage : session.stage = .sized size) (found : s.files session.path = some file) :
      Moves s (.lastWriteTime k) (s.set k (some { session with stage := .timed size file.lastWriteTime }))
  | gone {k size : Nat} {session : Session} (here : s.sessions k = some session) (stage : session.stage = .sized size) :
      Moves s (.lastWriteTime k) (s.set k none)
  | hit {k size time : Nat} {session : Session} {cache : LruCache Bytes (Option FileMap)} {file : FileMap}
      (here : s.sessions k = some session) (stage : session.stage = .timed size time)
      (looked : s.cache.value session.path = some (cache, some file)) (same : file.lastWriteTime = time) :
      Moves s (.find k) ({ s with cache }.serve k session file)
  | unmapped {k size time : Nat} {session : Session} {cache : LruCache Bytes (Option FileMap)} {found : Option FileMap}
      (here : s.sessions k = some session) (stage : session.stage = .timed size time)
      (looked : s.cache.value session.path = some (cache, found)) : Moves s (.find k) ({ s with cache }.set k none)
  | mapped {k size time : Nat} {session : Session} {cache cache' : LruCache Bytes (Option FileMap)} {found : Option FileMap}
      {data : Bytes} (here : s.sessions k = some session) (stage : session.stage = .timed size time)
      (looked : s.cache.value session.path = some (cache, found)) (content : mapFile (s.files session.path) size = some data)
      (put : cache.put session.path (some ⟨s.objects, data, time⟩) = some cache') :
      Moves s (.find k) ({ s with cache := cache', objects := s.objects + 1 }.serve k session ⟨s.objects, data, time⟩)
  | finish {k : Nat} {session : Session} {file : FileMap} (here : s.sessions k = some session)
      (stage : session.stage = .serving file) : Moves s (.finish k)
        { s.set k none with users := Function.update s.users file.object ((s.users file.object).erase k) }
  | timer {cache : LruCache Bytes (Option FileMap)} (ran : purge s.isUsed s.cache = some cache) :
      Moves s .timer { s with cache }

theorem moves_of_find {s s' : State} {k size time : Nat} {session : Session} (here : s.sessions k = some session)
    (stage : session.stage = .timed size time) (taken : s.find k session size time = some s') : Moves s (.find k) s' := by
  obtain ⟨⟨cache, found⟩, looked, taken⟩ := Option.bind_eq_some_iff.mp taken
  dsimp only at taken
  split at taken
  next file hit =>
    cases taken
    obtain ⟨rfl, same⟩ := Option.filter_eq_some_iff.mp hit
    exact .hit here stage looked (of_decide_eq_true same)
  next =>
    split at taken
    next =>
      cases taken
      exact .unmapped here stage looked
    next data content =>
      obtain ⟨cache', put, taken⟩ := Option.bind_eq_some_iff.mp taken
      cases taken
      exact .mapped here stage looked content put

theorem moves_of_step {s s' : State} {input : Input} (taken : plugin.step s input = some s') : Moves s input s' := by
  cases input with
  | replace path content time =>
    cases taken
    exact .replace path content time
  | remove path =>
    cases taken
    exact .remove path
  | fileSize k path =>
    simp only [plugin] at taken
    split at taken
    next file free found =>
      cases taken
      exact .opened free found
    next =>
      cases taken
      exact .absent
    next => cases taken
  | lastWriteTime k =>
    obtain ⟨session, here, taken⟩ := Option.bind_eq_some_iff.mp taken
    split at taken
    next size file stage found =>
      cases taken
      exact .timed here stage found
    next size stage _ =>
      cases taken
      exact .gone here stage
    next => cases taken
  | find k =>
    obtain ⟨session, here, taken⟩ := Option.bind_eq_some_iff.mp taken
    split at taken
    next size time stage => exact moves_of_find here stage taken
    next => cases taken
  | finish k =>
    obtain ⟨session, here, taken⟩ := Option.bind_eq_some_iff.mp taken
    split at taken
    next file stage =>
      cases taken
      exact .finish here stage
    next => cases taken
  | timer =>
    obtain ⟨cache, ran, rfl⟩ := Option.map_eq_some_iff.mp taken
    exact .timer ran

-- The time is later than those of all changes of the file before.
def State.Later (s : State) (path : Bytes) (time : Nat) : Prop := ∀ t content, s.history path t = some content → t < time

-- Every change of a file has a later time than those before it, and no file is replaced that a session has just found empty.
def Careful (s : State) : Input → Prop
  | .replace path _ time => s.Later path time ∧ ∀ k session, s.sessions k = some session → session.path = path →
      session.stage ≠ .sized 0
  | _ => True

def Session.Knows (s : State) (session : Session) : Prop :=
  match session.stage with
  | .sized size => size = 0 → ∀ file, s.files session.path = some file → file.content = []
  | .timed size time => (∃ content, s.history session.path time = some content) ∧
      (size = 0 → s.history session.path time = some []) ∧
      ∀ t content, time ≤ t → s.history session.path t = some content → content ∈ session.seen
  | .serving file => file.data ∈ session.seen

structure Current (s : State) : Prop where
  cache : ∃ r, s.cache.Refines r
  files : ∀ path file, s.files path = some file → s.history path file.lastWriteTime = some file.content ∧
    ∀ t content, s.history path t = some content → t ≤ file.lastWriteTime
  -- an entry is not older than it says
  entries : ∀ path file, (path, some file) ∈ s.cache.entries →
    ∃ t, file.lastWriteTime ≤ t ∧ s.history path t = some file.data
  seen : ∀ k session, s.sessions k = some session → ∀ file, s.files session.path = some file → file.content ∈ session.seen
  knows : ∀ k session, s.sessions k = some session → session.Knows s

section Steps

variable {s s' : State}

theorem Current.set (current : Current s) (k : Nat) (session : Option Session)
    (seen : ∀ x, session = some x → ∀ file, s.files x.path = some file → file.content ∈ x.seen)
    (knows : ∀ x, session = some x → x.Knows s) : Current (s.set k session) where
  cache := current.cache
  files := current.files
  entries := current.entries
  seen j x eq := by
    simp only [State.set, Function.update_apply] at eq
    split_ifs at eq
    · exact seen x eq
    · exact current.seen j x eq
  knows j x eq := by
    simp only [State.set, Function.update_apply] at eq
    split_ifs at eq
    · exact knows x eq
    · exact current.knows j x eq

theorem Current.cached (current : Current s) {cache : LruCache Bytes (Option FileMap)} {r : Recency Bytes (Option FileMap)}
    (refines : cache.Refines r)
    (entries : ∀ path file, (path, some file) ∈ cache.entries → ∃ t, file.lastWriteTime ≤ t ∧ s.history path t = some file.data) :
    Current { s with cache } :=
  { current with cache := ⟨r, refines⟩, entries }

theorem Current.serve (current : Current s) {k : Nat} {session : Session} {file : FileMap} (here : s.sessions k = some session)
    (served : file.data ∈ session.seen) : Current (s.serve k session file) := by
  have set := current.set k (some { session with stage := .serving file })
    (by rintro _ ⟨⟩; exact current.seen k session here) (by rintro _ ⟨⟩; exact served)
  exact { set with }

theorem mapFile_current (current : Current s) {path data : Bytes} {size time : Nat}
    (stamp : ∃ content, s.history path time = some content) (empty : size = 0 → s.history path time = some [])
    (mapped : mapFile (s.files path) size = some data) : ∃ t, time ≤ t ∧ s.history path t = some data := by
  unfold mapFile at mapped
  split_ifs at mapped with zero
  · cases mapped
    exact ⟨time, Nat.le_refl _, empty zero⟩
  · obtain ⟨file, here, mapped⟩ := Option.bind_eq_some_iff.mp mapped
    split_ifs at mapped
    cases mapped
    obtain ⟨held, last⟩ := current.files path file here
    obtain ⟨content, stamp⟩ := stamp
    exact ⟨file.lastWriteTime, last time content stamp, held⟩

theorem Current.looked (current : Current s) {path : Bytes} {cache : LruCache Bytes (Option FileMap)} {found : Option FileMap}
    (looked : s.cache.value path = some (cache, found)) :
    Current { s with cache } ∧ ∀ file, found = some file → (path, some file) ∈ s.cache.entries := by
  obtain ⟨r, refines⟩ := current.cache
  obtain ⟨cache', r', found', ran, refines', fewer, origin⟩ := value_spec refines path
  cases looked.symm.trans ran
  refine ⟨current.cached refines' fun path file mem => current.entries path file (fewer _ mem), ?_⟩
  rintro file rfl
  exact origin.resolve_left (by rintro ⟨⟩)

theorem Current.stored (current : Current s) {path data : Bytes} {t time : Nat} {cache : LruCache Bytes (Option FileMap)}
    (after : time ≤ t) (held : s.history path t = some data) (put : s.cache.put path (some ⟨s.objects, data, time⟩) = some cache) :
    Current { s with cache, objects := s.objects + 1 } := by
  obtain ⟨r, refines⟩ := current.cache
  obtain ⟨cache', r', ran, refines', more⟩ := put_spec refines path (some ⟨s.objects, data, time⟩)
  cases put.symm.trans ran
  have cached := current.cached refines' fun path' file mem => ?_
  · exact { cached with }
  · rcases more _ mem with new | old
    · cases new
      exact ⟨t, after, held⟩
    · exact current.entries path' file old

theorem Current.purged (current : Current s) {cache : LruCache Bytes (Option FileMap)}
    (ran : purge s.isUsed s.cache = some cache) : Current { s with cache } := by
  obtain ⟨r, refines⟩ := current.cache
  obtain ⟨c', r', ran', refines', items⟩ := purge_eq s.isUsed refines
  cases ran.symm.trans ran'
  refine current.cached refines' fun path file mem => current.entries path file ?_
  simp only [LruCache.entries, items, List.mem_map] at mem ⊢
  obtain ⟨node, mem, eq⟩ := mem
  exact ⟨node, List.mem_of_mem_filter mem, eq⟩

section Replace

variable {path content : Bytes} {time : Nat}

theorem replace_files (p : Bytes) :
    (s.replace path content time).files p = if p = path then some ⟨content, time⟩ else s.files p :=
  Function.update_apply _ _ _ _

-- What was known of the history is still there, because the time is a new one.
theorem history_of_replace (fresh : s.Later path time) {p : Bytes} {t : Nat} {c : Bytes} :
    (s.replace path content time).history p t = some c ↔ p = path ∧ t = time ∧ c = content ∨ s.history p t = some c := by
  simp only [State.replace, Function.update_apply]
  split_ifs with same
  · subst same
    refine ⟨fun held => ?_, ?_⟩
    · rw [Function.update_apply] at held
      split_ifs at held with last
      · exact .inl ⟨rfl, last, (Option.some.inj held).symm⟩
      · exact .inr held
    · rintro (⟨-, rfl, rfl⟩ | held)
      · simp
      · simp [(fresh t c held).ne, held]
  · simp [same]

theorem State.Later.replace (fresh : s.Later path time) {time' : Nat} (after : time < time') :
    (s.replace path content time).Later path time' := by
  intro t c held
  rcases (history_of_replace fresh).mp held with ⟨-, rfl, -⟩ | old
  · exact after
  · exact (fresh t c old).trans after

theorem replace_knows (fresh : s.Later path time) {session : Session} (knows : session.Knows s)
    (apart : session.path = path → session.stage ≠ .sized 0) :
    (session.sees path content).Knows (s.replace path content time) := by
  unfold Session.Knows at knows ⊢
  simp only [sees_stage, sees_path, history_of_replace fresh]
  split
  next size stage =>
    simp only [stage] at knows
    rintro rfl file here
    rw [replace_files] at here
    split_ifs at here with same
    · exact absurd stage (apart same)
    · exact knows rfl file here
  next size time' stage =>
    simp only [stage] at knows
    obtain ⟨⟨c, stamp⟩, empty, later⟩ := knows
    refine ⟨⟨c, .inr stamp⟩, fun zero => .inr (empty zero), ?_⟩
    rintro t c' after (⟨same, rfl, rfl⟩ | held)
    · simp [same]
    · exact mem_sees _ _ _ (later t c' after held)
  next file stage =>
    simp only [stage] at knows
    exact mem_sees _ _ _ knows

theorem replace_current (current : Current s) (fresh : s.Later path time)
    (apart : ∀ k session, s.sessions k = some session → session.path = path → session.stage ≠ .sized 0) :
    Current (s.replace path content time) := by
  have history {p : Bytes} {t : Nat} {c : Bytes} : (s.replace path content time).history p t = some c ↔
      p = path ∧ t = time ∧ c = content ∨ s.history p t = some c := history_of_replace fresh
  constructor
  case cache => exact current.cache
  case files =>
    intro p file eq
    rw [replace_files] at eq
    split_ifs at eq with same
    · subst same
      cases eq
      refine ⟨history.mpr (.inl ⟨rfl, rfl, rfl⟩), fun t c held => ?_⟩
      rcases history.mp held with ⟨-, rfl, -⟩ | old
      · exact Nat.le_refl _
      · exact (fresh t c old).le
    · obtain ⟨held, last⟩ := current.files p file eq
      refine ⟨history.mpr (.inr held), fun t c held => ?_⟩
      exact last t c ((history.mp held).resolve_left fun new => same new.1)
  case entries =>
    intro p file mem
    obtain ⟨t, after, held⟩ := current.entries p file mem
    exact ⟨t, after, history.mpr (.inr held)⟩
  case seen =>
    intro k session eq file here
    obtain ⟨x, before, rfl⟩ := Option.map_eq_some_iff.mp eq
    rw [replace_files, sees_path] at here
    split_ifs at here with same
    · cases here
      simp [same]
    · exact mem_sees _ _ _ (current.seen k x before file here)
  case knows =>
    intro k session eq
    obtain ⟨x, before, rfl⟩ := Option.map_eq_some_iff.mp eq
    exact replace_knows fresh (current.knows k x before) (apart k x before)

end Replace

theorem remove_current (current : Current s) (path : Bytes) :
    Current { s with files := Function.update s.files path none } := by
  have left {p : Bytes} {file : File} (eq : Function.update s.files path none p = some file) : s.files p = some file := by
    rw [Function.update_apply] at eq
    split_ifs at eq
    exact eq
  refine { current with files := fun p file eq => current.files p file (left eq), seen := ?_, knows := ?_ }
  · exact fun k session here file eq => current.seen k session here file (left eq)
  · intro k session here
    have knows := current.knows k session here
    unfold Session.Knows at knows ⊢
    split
    next size stage =>
      simp only [stage] at knows
      exact fun zero file eq => knows zero file (left eq)
    next size time stage => simpa only [stage] using knows
    next file stage => simpa only [stage] using knows

theorem step_current {input : Input} (current : Current s) (careful : Careful s input) (taken : plugin.step s input = some s') :
    Current s' := by
  cases moves_of_step taken with
  | replace => exact replace_current current careful.1 careful.2
  | remove path => exact remove_current current path
  | absent => exact current
  | opened free here =>
    refine current.set _ _ ?_ ?_
    · rintro _ ⟨⟩ other eq
      cases here.symm.trans eq
      exact List.mem_singleton_self _
    · rintro _ ⟨⟩ zero other eq
      cases here.symm.trans eq
      exact List.length_eq_zero_iff.mp zero
  | @timed k _ session file here stage found =>
    have knows := current.knows k session here
    obtain ⟨held, last⟩ := current.files _ _ found
    simp only [Session.Knows, stage] at knows
    refine current.set _ _ (by rintro _ ⟨⟩; exact current.seen k session here) ?_
    rintro _ ⟨⟩
    refine ⟨⟨_, held⟩, fun zero => knows zero file found ▸ held, fun t c after old => ?_⟩
    -- nothing was written after what is there now
    obtain rfl : t = file.lastWriteTime := Nat.le_antisymm (last t c old) after
    cases held.symm.trans old
    exact current.seen k session here file found
  | gone => exact current.set _ _ (by rintro _ ⟨⟩) (by rintro _ ⟨⟩)
  | @hit k _ _ session _ file here stage looked same =>
    have knows := current.knows k session here
    simp only [Session.Knows, stage] at knows
    obtain ⟨after, origin⟩ := current.looked looked
    -- the entry has the time that this session has seen
    obtain ⟨t, later, held⟩ := current.entries session.path file (origin file rfl)
    exact after.serve here (knows.2.2 t file.data (same ▸ later) held)
  | unmapped here stage looked => exact (current.looked looked).1.set _ _ (by rintro _ ⟨⟩) (by rintro _ ⟨⟩)
  | @mapped k _ _ session _ _ _ data here stage looked content put =>
    have knows := current.knows k session here
    simp only [Session.Knows, stage] at knows
    obtain ⟨stamp, empty, later⟩ := knows
    obtain ⟨t, after, held⟩ := mapFile_current current stamp empty content
    exact ((current.looked looked).1.stored after held put).serve here (later t data after held)
  | @finish k =>
    have set := current.set k none (by rintro _ ⟨⟩) (by rintro _ ⟨⟩)
    exact { set with }
  | timer ran => exact current.purged ran

end Steps

theorem later_start (path : Bytes) (time : Nat) : State.Later {} path time := by
  rintro t content ⟨⟩

theorem current_start : Current {} where
  cache := ⟨_, .start 100⟩
  files := by rintro _ _ ⟨⟩
  entries := by simp [LruCache.entries]
  seen := by rintro _ _ ⟨⟩
  knows := by rintro _ _ ⟨⟩

theorem reaches_current {inputs : List Input} {s : State} (reached : plugin.Reaches Careful {} inputs s) : Current s :=
  reached.invariant (P := fun _ s => Current s) current_start
    (fun before careful taken => step_current before careful taken)

def Dated (s : State) (input : Input) : Prop :=
  ∀ path content time, input = .replace path content time → s.Later path time

theorem raced_file_served_empty :
    ∃ inputs s session file, plugin.Reaches Dated {} inputs s ∧
      s.sessions 1 = some session ∧ session.stage = .serving file ∧ session.seen = [[65]] ∧ file.data = [] := by
  let asked : State := (({} : State).replace [47] [] 1).set 0 (some ⟨[47], .sized 0, [[]]⟩)
  let rest : List Input := [.lastWriteTime 0, .find 0, .finish 0, .fileSize 1 [47], .lastWriteTime 1, .find 1]
  have reached : plugin.Reaches Dated {} [.replace [47] [] 1] (({} : State).replace [47] [] 1) :=
    .step .start (by rintro _ _ _ ⟨⟩; exact later_start _ _) rfl
  have looked : plugin.run (({} : State).replace [47] [] 1) [.fileSize 0 [47]] = some asked := rfl
  have reached := reached.extend (by simp [Dated]) looked
  have careful : Dated asked (.replace [47] [65] 2) := by
    rintro _ _ _ ⟨⟩
    exact (later_start [47] 1).replace (by decide)
  have reached := reached.step careful rfl
  have ran : (plugin.run (asked.replace [47] [65] 2) rest).map (fun s => s.sessions 1) =
      some (some ⟨[47], .serving ⟨0, [], 2⟩, [[65]]⟩) := by
    decide +kernel
  obtain ⟨s, ran, here⟩ := Option.map_eq_some_iff.mp ran
  exact ⟨_, s, _, _, reached.extend (by simp [rest, Dated]) ran, here, rfl, rfl, rfl⟩

structure Shares (s : State) : Prop where
  cache : ∃ r, s.cache.Refines r
  users : ∀ object k, k ∈ s.users object ↔
    ∃ session file, s.sessions k = some session ∧ session.stage = .serving file ∧ file.object = object

section Shares

variable {s s' : State} {k : Nat} {session : Session}

theorem not_serving (here : s.sessions k = some session) (stage : ∀ file, session.stage ≠ .serving file) :
    ∀ x file, s.sessions k = some x → x.stage ≠ .serving file := by
  intro x file eq
  cases here.symm.trans eq
  exact stage file

theorem Shares.set (shares : Shares s) {next : Option Session}
    (before : ∀ x file, s.sessions k = some x → x.stage ≠ .serving file)
    (after : ∀ x file, next = some x → x.stage ≠ .serving file) : Shares (s.set k next) where
  cache := shares.cache
  users object j := by
    simp only [State.set, shares.users, Function.update_apply]
    by_cases same : j = k
    · subst same
      simp only [if_true]
      constructor
      · rintro ⟨x, file, here, stage, -⟩
        exact absurd stage (before x file here)
      · rintro ⟨x, file, here, stage, -⟩
        exact absurd stage (after x file here)
    · simp [same]

theorem Shares.serve (shares : Shares s) (before : ∀ x file, s.sessions k = some x → x.stage ≠ .serving file)
    (file : FileMap) : Shares (s.serve k session file) where
  cache := shares.cache
  users object j := by
    simp only [State.serve, State.set, Function.update_apply]
    by_cases same : j = k
    · subst same
      have fresh (object : Nat) : j ∉ s.users object := by
        rw [shares.users]
        rintro ⟨x, held, here, stage, -⟩
        exact before x held here stage
      simp only [if_true, Option.some.injEq, ↓existsAndEq, true_and]
      split_ifs with own
      · simp [own]
      · simp [fresh, Ne.symm own]
    · have others := shares.users object j
      simp only [same, if_false]
      split_ifs with own
      · rw [Finset.mem_insert, ← own, others]
        simp [same]
      · exact others

theorem Shares.finish (shares : Shares s) {file : FileMap} (here : s.sessions k = some session)
    (stage : session.stage = .serving file) :
    Shares { s.set k none with users := Function.update s.users file.object ((s.users file.object).erase k) } where
  cache := shares.cache
  users object j := by
    simp only [State.set, Function.update_apply]
    have others := shares.users object j
    by_cases same : j = k
    · subst same
      simp only [if_true, reduceCtorEq, false_and, exists_false, iff_false]
      split_ifs with own
      · exact Finset.notMem_erase _ _
      · rw [others]
        rintro ⟨x, held, eq, serves, rfl⟩
        cases here.symm.trans eq
        cases stage.symm.trans serves
        exact own rfl
    · simp only [same, if_false]
      split_ifs with own
      · rw [Finset.mem_erase, ← own, others]
        simp [same]
      · exact others

theorem step_shares {input : Input} (shares : Shares s) (taken : plugin.step s input = some s') : Shares s' := by
  obtain ⟨r, refines⟩ := shares.cache
  cases moves_of_step taken with
  | replace path content time =>
    refine ⟨shares.cache, fun object k => ?_⟩
    change k ∈ s.users object ↔ _
    rw [shares.users]
    simp [State.replace, Option.map_eq_some_iff]
  | remove => exact { shares with }
  | absent => exact shares
  | opened free => exact shares.set (by simp [free]) (by rintro _ _ ⟨⟩ ⟨⟩)
  | timed here stage => exact shares.set (not_serving here (by simp [stage])) (by rintro _ _ ⟨⟩ ⟨⟩)
  | gone here stage => exact shares.set (not_serving here (by simp [stage])) (by rintro _ _ ⟨⟩)
  | @hit _ _ _ session cache _ here stage looked =>
    obtain ⟨_, r', _, ran, refines', -, -⟩ := value_spec refines session.path
    cases looked.symm.trans ran
    have after : Shares { s with cache } := ⟨⟨r', refines'⟩, shares.users⟩
    exact after.serve (not_serving here (by simp [stage])) _
  | @unmapped _ _ _ session cache _ here stage looked =>
    obtain ⟨_, r', _, ran, refines', -, -⟩ := value_spec refines session.path
    cases looked.symm.trans ran
    have after : Shares { s with cache } := ⟨⟨r', refines'⟩, shares.users⟩
    exact after.set (not_serving here (by simp [stage])) (by rintro _ _ ⟨⟩)
  | @mapped _ _ time session _ cache' _ data here stage looked _ put =>
    obtain ⟨_, r', _, ran, refines', -, -⟩ := value_spec refines session.path
    cases looked.symm.trans ran
    obtain ⟨_, r'', ran, refines'', -⟩ := put_spec refines' session.path (some ⟨s.objects, data, time⟩)
    cases put.symm.trans ran
    have stored : Shares { s with cache := cache', objects := s.objects + 1 } := ⟨⟨r'', refines''⟩, shares.users⟩
    exact stored.serve (not_serving here (by simp [stage])) _
  | finish here stage => exact shares.finish here stage
  | timer ran =>
    obtain ⟨_, r', ran', refines', -⟩ := purge_eq s.isUsed refines
    cases ran.symm.trans ran'
    exact ⟨⟨r', refines'⟩, shares.users⟩

end Shares

/--
The timer purges the files that no session has. In every state it gets through the cache with its iterators, and of the
mapped files those stay, and only those, that some session is sending.
-/
theorem timer_purges_unused {inputs : List Input} {s : State} (reached : plugin.Reaches (fun _ _ => True) {} inputs s) :
    ∃ s', plugin.step s .timer = some s' ∧ ∀ path file, (path, some file) ∈ s'.cache.entries ↔
      (path, some file) ∈ s.cache.entries ∧ ∃ k session held, s.sessions k = some session ∧ session.stage = .serving held ∧
        held.object = file.object := by
  have shares := reached.invariant (P := fun _ s => Shares s) ⟨⟨_, .start 100⟩, by simp⟩
    (fun before _ taken => step_shares before taken)
  obtain ⟨r, refines⟩ := shares.cache
  obtain ⟨cache, r', ran, -, items⟩ := purge_eq s.isUsed refines
  refine ⟨{ s with cache }, by simp [plugin, ran], fun path file => ?_⟩
  have used : s.isUsed (some file) ↔ ∃ k session held, s.sessions k = some session ∧ session.stage = .serving held ∧
      held.object = file.object := by
    simp only [State.isUsed, decide_eq_true_eq, ne_eq, ← Finset.nonempty_iff_ne_empty, Finset.Nonempty, shares.users]
  rw [← used]
  simp only [LruCache.entries, items, List.mem_map, List.mem_filter]
  constructor
  · rintro ⟨node, ⟨mem, keep⟩, eq⟩
    obtain ⟨rfl, value⟩ := Prod.mk.inj eq
    exact ⟨⟨node, mem, eq⟩, value ▸ keep⟩
  · rintro ⟨⟨node, mem, eq⟩, keep⟩
    exact ⟨node, ⟨mem, (Prod.mk.inj eq).2 ▸ keep⟩, eq⟩

theorem timer_purges_unused_one :
    ∃ inputs s s', plugin.Reaches (fun _ _ => True) {} inputs s ∧ plugin.step s .timer = some s' ∧
      s.cache.entries = [([66], some ⟨1, [98], 2⟩), ([65], some ⟨0, [97], 1⟩)] ∧
      ([66], some ⟨1, [98], 2⟩) ∈ s'.cache.entries := by
  let inputs : List Input :=
    [.replace [65] [97] 1, .replace [66] [98] 2, .fileSize 0 [65], .lastWriteTime 0, .find 0, .finish 0, .fileSize 1 [66],
      .lastWriteTime 1, .find 1]
  have ran : (plugin.run {} inputs).map (fun s => (s.cache.entries, s.sessions 1)) =
      some ([([66], some ⟨1, [98], 2⟩), ([65], some ⟨0, [97], 1⟩)], some ⟨[66], .serving ⟨1, [98], 2⟩, [[98]]⟩) := by
    decide +kernel
  obtain ⟨s, ran, seen⟩ := Option.map_eq_some_iff.mp ran
  obtain ⟨entries, here⟩ := Prod.mk.inj seen
  have reached := System.reaches_of_run ran
  obtain ⟨s', taken, stays⟩ := timer_purges_unused reached
  refine ⟨inputs, s, s', reached, taken, entries, (stays _ _).mpr ⟨?_, 1, _, _, here, rfl, rfl⟩⟩
  rw [entries]
  exact List.mem_cons_self

end Dracon.FileCache
