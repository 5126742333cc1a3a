import Mathlib
import Dracon.Shared.Recency
import Dracon.Shared.StepSystem

set_option autoImplicit false

namespace Dracon.Utils

open Shared

structure Node (K V : Type) where
  id : Nat
  key : K
  value : V
  deriving DecidableEq

structure LruCache (K V : Type) where
  cacheItems : List (Node K V) := []
  cacheHash : AList (fun _ : K => Nat) := ∅
  cacheSize : Nat
  -- how many nodes were allocated
  nodes : Nat := 0

variable {K V : Type} [DecidableEq K]

namespace LruCache

-- the node an iterator points at; an iterator of a node that is gone must not be used
def node (c : LruCache K V) (it : Nat) : Option (Node K V) := c.cacheItems.find? (·.id = it)

def size (c : LruCache K V) : Nat := c.cacheHash.entries.length

-- `none`: the list is empty while the hash is not, and `rbegin` is dereferenced all the same.
def cleanCache (c : LruCache K V) : Option (LruCache K V) :=
  if c.size ≤ c.cacheSize then some c
  else
    match _last : c.cacheItems.getLast? with
    | none => none
    | some node =>
      cleanCache { c with cacheHash := c.cacheHash.erase node.key, cacheItems := c.cacheItems.dropLast }
termination_by c.cacheItems.length
decreasing_by
  have : c.cacheItems ≠ [] := by
    rintro empty
    simp [empty] at _last
  simpa using List.length_pos_of_ne_nil this

def eraseNode (c : LruCache K V) (it : Nat) : Option (LruCache K V) :=
  (c.node it).map fun _ => { c with cacheItems := c.cacheItems.filter (·.id ≠ it) }

def put (c : LruCache K V) (key : K) (value : V) : Option (LruCache K V) := do
  let c ← match c.cacheHash.lookup key with
    | some it => c.eraseNode it
    | none => some c
  cleanCache
    { c with
      cacheItems := ⟨c.nodes, key, value⟩ :: c.cacheItems
      cacheHash := c.cacheHash.insert key c.nodes
      nodes := c.nodes + 1 }

-- `splice` to the front, and the value of the node
def spliceFront (c : LruCache K V) (it : Nat) : Option (LruCache K V × V) :=
  (c.node it).map fun node =>
    ({ c with cacheItems := node :: c.cacheItems.filter (·.id ≠ it) }, node.value)

-- The inner `none` is the `std::range_error`.
def reference (c : LruCache K V) (key : K) : Option (LruCache K V × Option V) :=
  match c.cacheHash.lookup key with
  | none => some (c, none)
  | some it => (c.spliceFront it).map fun (c, v) => (c, some v)

def value [Inhabited V] (c : LruCache K V) (key : K) : Option (LruCache K V × V) :=
  match c.cacheHash.lookup key with
  | none => some (c, default)
  | some it => c.spliceFront it

def «exists» (c : LruCache K V) (key : K) : Bool := (c.cacheHash.lookup key).isSome

def resize (c : LruCache K V) (size : Nat) : Option (LruCache K V) := cleanCache { c with cacheSize := size }

def clear (c : LruCache K V) : LruCache K V := { c with cacheItems := [], cacheHash := ∅ }

-- the next node in the order of iteration, `none` for `end`
def next (c : LruCache K V) (it : Nat) : Option Nat :=
  (c.cacheItems.dropWhile (·.id ≠ it)).tail.head?.map Node.id

def erase (c : LruCache K V) (it : Nat) : Option (LruCache K V × Option Nat) := do
  let node ← c.node it
  let erased ← eraseNode { c with cacheHash := c.cacheHash.erase node.key } it
  some (erased, c.next it)

def entries (c : LruCache K V) : List (K × V) := c.cacheItems.map fun node => (node.key, node.value)

-- The list and the hash hold the same keys, and the hash points at the node of its key.
structure Consistent (c : LruCache K V) : Prop where
  keys : (c.cacheItems.map Node.key).Nodup
  ids : (c.cacheItems.map Node.id).Nodup
  allocated : ∀ node ∈ c.cacheItems, node.id < c.nodes
  hash : ∀ key it, c.cacheHash.lookup key = some it ↔ ∃ node ∈ c.cacheItems, node.key = key ∧ node.id = it

namespace Consistent

variable {c : LruCache K V}

theorem empty (items : c.cacheItems = []) (hash : c.cacheHash = ∅) : c.Consistent :=
  ⟨by simp [items], by simp [items], by simp [items], by simp [items, hash]⟩

theorem same_id_iff (consistent : c.Consistent) {a b : Node K V} (left : a ∈ c.cacheItems) (right : b ∈ c.cacheItems) :
    a.id = b.id ↔ a.key = b.key := by
  constructor
  · intro same
    rw [List.inj_on_of_nodup_map consistent.ids left right same]
  · intro same
    rw [List.inj_on_of_nodup_map consistent.keys left right same]

theorem node_eq (consistent : c.Consistent) {node : Node K V} (mem : node ∈ c.cacheItems) :
    c.node node.id = some node := by
  unfold LruCache.node
  cases found : c.cacheItems.find? (·.id = node.id) with
  | none => simpa using List.find?_eq_none.mp found node mem
  | some other =>
    have same : other.id = node.id := by simpa using List.find?_some found
    rw [List.inj_on_of_nodup_map consistent.ids (List.mem_of_find?_eq_some found) mem same]

theorem lookup_none_iff (consistent : c.Consistent) {key : K} :
    c.cacheHash.lookup key = none ↔ ∀ node ∈ c.cacheItems, node.key ≠ key := by
  constructor
  · intro absent node mem same
    have := (consistent.hash key node.id).mpr ⟨node, mem, same, rfl⟩
    simp [absent] at this
  · intro absent
    refine Option.eq_none_iff_forall_ne_some.mpr fun it found => ?_
    obtain ⟨node, mem, same, _⟩ := (consistent.hash key it).mp found
    exact absent node mem same

theorem size_eq (consistent : c.Consistent) : c.size = c.cacheItems.length := by
  have perm : c.cacheHash.keys.Perm (c.cacheItems.map Node.key) := by
    refine (List.perm_ext_iff_of_nodup c.cacheHash.keys_nodup consistent.keys).mpr fun key => ?_
    rw [← AList.mem_keys, ← AList.lookup_isSome, Option.isSome_iff_exists]
    simp [consistent.hash]
  simpa [size, AList.keys, List.keys] using perm.length_eq

theorem remove (consistent : c.Consistent) {node : Node K V} (mem : node ∈ c.cacheItems) :
    Consistent { c with
      cacheItems := c.cacheItems.filter (·.id ≠ node.id), cacheHash := c.cacheHash.erase node.key } where
  keys := consistent.keys.sublist ((List.filter_sublist).map _)
  ids := consistent.ids.sublist ((List.filter_sublist).map _)
  allocated other mem := consistent.allocated other (List.mem_of_mem_filter mem)
  hash key it := by
    by_cases same : key = node.key
    · subst same
      simp only [AList.lookup_erase, reduceCtorEq, false_iff]
      rintro ⟨other, left, same, _⟩
      obtain ⟨left, differ⟩ := List.mem_filter.mp left
      exact (of_decide_eq_true differ) ((consistent.same_id_iff left mem).mpr same)
    · rw [AList.lookup_erase_ne same, consistent.hash]
      refine exists_congr fun other => ⟨?_, ?_⟩
      · rintro ⟨left, rfl, rfl⟩
        exact ⟨List.mem_filter.mpr ⟨left, by simpa [consistent.same_id_iff left mem] using same⟩, rfl, rfl⟩
      · rintro ⟨left, rfl, rfl⟩
        exact ⟨List.mem_of_mem_filter left, rfl, rfl⟩

theorem filter_id_eq (consistent : c.Consistent) {node : Node K V} (mem : node ∈ c.cacheItems) :
    c.cacheItems.filter (·.id ≠ node.id) = c.cacheItems.filter (·.key ≠ node.key) :=
  List.filter_congr fun other left => by simp [consistent.same_id_iff left mem]

theorem renew (consistent : c.Consistent) (key : K) (value : V) :
    Consistent { c with
      cacheItems := ⟨c.nodes, key, value⟩ :: c.cacheItems.filter (·.key ≠ key)
      cacheHash := c.cacheHash.insert key c.nodes
      nodes := c.nodes + 1 } where
  keys := by
    refine List.nodup_cons.mpr ⟨by simp, consistent.keys.sublist ((List.filter_sublist).map _)⟩
  ids := by
    refine List.nodup_cons.mpr ⟨fun mem => ?_, consistent.ids.sublist ((List.filter_sublist).map _)⟩
    obtain ⟨node, left, same⟩ := List.mem_map.mp mem
    exact (consistent.allocated node (List.mem_of_mem_filter left)).ne same
  allocated node mem := by
    rcases List.mem_cons.mp mem with rfl | mem
    · exact Nat.lt_succ_self _
    · exact Nat.lt_succ_of_lt (consistent.allocated node (List.mem_of_mem_filter mem))
  hash key' it := by
    by_cases same : key' = key
    · subst same
      rw [AList.lookup_insert]
      simp +contextual
    · rw [AList.lookup_insert_ne same, consistent.hash]
      constructor
      · rintro ⟨node, mem, rfl, rfl⟩
        exact ⟨node, List.mem_cons_of_mem _ (List.mem_filter.mpr ⟨mem, by simpa using same⟩), rfl, rfl⟩
      · rintro ⟨node, mem, rfl, rfl⟩
        rcases List.mem_cons.mp mem with rfl | mem
        · exact absurd rfl same
        · exact ⟨node, List.mem_of_mem_filter mem, rfl, rfl⟩

theorem splice_perm (consistent : c.Consistent) {node : Node K V} (mem : node ∈ c.cacheItems) :
    (node :: c.cacheItems.filter (·.id ≠ node.id)).Perm c.cacheItems := by
  have nodup : c.cacheItems.Nodup := consistent.ids.of_map
  refine (List.perm_ext_iff_of_nodup (List.nodup_cons.mpr ⟨by simp, nodup.filter _⟩) nodup).mpr fun other => ?_
  by_cases same : other = node
  · simp [same, mem]
  · simp only [List.mem_cons, same, List.mem_filter, decide_eq_true_eq, false_or, and_iff_left_iff_imp]
    exact fun left id_eq => same (List.inj_on_of_nodup_map consistent.ids left mem id_eq)

theorem splice (consistent : c.Consistent) {node : Node K V} (mem : node ∈ c.cacheItems) :
    Consistent { c with cacheItems := node :: c.cacheItems.filter (·.id ≠ node.id) } := by
  have perm := consistent.splice_perm mem
  exact
    { keys := (perm.map _).nodup_iff.mpr consistent.keys
      ids := (perm.map _).nodup_iff.mpr consistent.ids
      allocated := fun other left => consistent.allocated other (perm.mem_iff.mp left)
      hash := fun key it => by simp only [consistent.hash, perm.mem_iff] }

theorem cleanCache_eq (consistent : c.Consistent) :
    ∃ c', c.cleanCache = some c' ∧ c'.Consistent ∧ c'.cacheItems = c.cacheItems.take c.cacheSize ∧
      c'.cacheSize = c.cacheSize ∧ c'.nodes = c.nodes := by
  fun_induction cleanCache c with
  | case1 c fits =>
    rw [consistent.size_eq] at fits
    exact ⟨c, rfl, consistent, (List.take_of_length_le fits).symm, rfl, rfl⟩
  | case2 c exceeds empty =>
    rw [consistent.size_eq, List.getLast?_eq_none_iff.mp empty] at exceeds
    simp at exceeds
  | case3 c exceeds node last ih =>
    rw [consistent.size_eq] at exceeds
    obtain ⟨items, eq⟩ := List.getLast?_eq_some_iff.mp last
    have mem : node ∈ c.cacheItems := by simp [eq]
    have kept : c.cacheItems.filter (·.id ≠ node.id) = c.cacheItems.dropLast := by
      have ids := consistent.ids
      rw [eq, List.map_append, List.nodup_append] at ids
      rw [eq, List.dropLast_concat, List.filter_append, List.filter_eq_self.mpr]
      · simp
      · intro other left
        simpa using ids.2.2 other.id (List.mem_map_of_mem left) node.id (by simp)
    obtain ⟨c', ran, consistent', items_eq, size, nodes⟩ := ih (kept ▸ consistent.remove mem)
    refine ⟨c', ran, consistent', items_eq.trans ?_, size, nodes⟩
    rw [eq] at exceeds ⊢
    simp only [List.length_append, List.length_singleton] at exceeds
    rw [List.dropLast_concat, List.take_append_of_le_length (by omega)]

end Consistent

end LruCache

inductive Call (K V : Type) where
  | put (key : K) (value : V)
  | reference (key : K)
  | value (key : K)
  | «exists» (key : K)
  | erase (it : Nat)
  | clear
  | cacheSize (size : Nat)

inductive Answer (V : Type) where
  | done
  | value (v : V)
  | rangeError
  | found (cached : Bool)
  | iterator (it : Option Nat)
  deriving DecidableEq

namespace LruCache

def call [Inhabited V] (c : LruCache K V) : Call K V → Option (LruCache K V × Answer V)
  | .put key value => (c.put key value).map fun c => (c, .done)
  | .reference key => (c.reference key).map fun (c, found) => (c, (found.map .value).getD .rangeError)
  | .value key => (c.value key).map fun (c, v) => (c, .value v)
  | .exists key => some (c, .found (c.exists key))
  | .erase it => (c.erase it).map fun (c, next) => (c, .iterator next)
  | .clear => some (c.clear, .done)
  | .cacheSize size => (c.resize size).map fun c => (c, .done)

noncomputable def mirror (c : LruCache K V) (r : Recency K V) : Call K V → Recency K V
  | .put key value => r.put key value
  | .reference key | .value key => r.lookup key
  | .exists _ => r
  | .erase it => (c.node it).elim r fun node => r.remove node.key
  | .clear => r.clear
  | .cacheSize size => r.resize size

def answer [Inhabited V] (c : LruCache K V) (r : Recency K V) : Call K V → Answer V
  | .put .. | .clear | .cacheSize _ => .done
  | .reference key => ((r.value key).map .value).getD .rangeError
  | .value key => .value ((r.value key).getD default)
  | .exists key => .found (r.value key).isSome
  | .erase it => .iterator (c.next it)

-- An iterator that is handed to `erase` has to be one of a node of the list.
def Allowed (c : LruCache K V) : Call K V → Prop
  | .erase it => ∃ node ∈ c.cacheItems, node.id = it
  | _ => True

structure Refines (c : LruCache K V) (r : Recency K V) : Prop where
  consistent : c.Consistent
  lists : r.Lists c.entries
  capacity : r.capacity = c.cacheSize
  bounded : c.cacheItems.length ≤ c.cacheSize

namespace Refines

variable {c : LruCache K V} {r : Recency K V}

theorem value_eq_some_iff (refines : c.Refines r) {key : K} {v : V} :
    r.value key = some v ↔ ∃ node ∈ c.cacheItems, node.key = key ∧ node.value = v := by
  simp [← refines.lists.mem, entries]

theorem lookup_cases (refines : c.Refines r) (key : K) :
    (c.cacheHash.lookup key = none ∧ r.value key = none) ∨
      ∃ node ∈ c.cacheItems, node.key = key ∧ c.cacheHash.lookup key = some node.id ∧ r.value key = some node.value := by
  cases found : c.cacheHash.lookup key with
  | none =>
    refine .inl ⟨rfl, Option.eq_none_iff_forall_ne_some.mpr fun v present => ?_⟩
    obtain ⟨node, mem, same, _⟩ := refines.value_eq_some_iff.mp present
    exact refines.consistent.lookup_none_iff.mp found node mem same
  | some it =>
    obtain ⟨node, mem, same, rfl⟩ := (refines.consistent.hash key it).mp found
    exact .inr ⟨node, mem, same, rfl, refines.value_eq_some_iff.mpr ⟨node, mem, same, rfl⟩⟩

theorem entries_filter (c : LruCache K V) (key : K) :
    (c.cacheItems.filter (·.key ≠ key)).map (fun node => (node.key, node.value)) =
      c.entries.filter (·.1 ≠ key) := by
  simp [entries, List.filter_map, Function.comp_def]

theorem clean (consistent : c.Consistent) (lists : r.Lists c.entries) (capacity : r.capacity = c.cacheSize) :
    ∃ c', c.cleanCache = some c' ∧ c'.Refines r.evict := by
  obtain ⟨c', ran, consistent', items, size, _⟩ := consistent.cleanCache_eq
  have taken : c'.entries = c.entries.take r.capacity := by
    rw [entries, items, capacity, List.map_take]
    rfl
  refine ⟨c', ran, consistent', taken ▸ lists.evict, capacity.trans size.symm, ?_⟩
  rw [items, size]
  exact List.length_take_le _ _

theorem put (refines : c.Refines r) (key : K) (v : V) : ∃ c', c.put key v = some c' ∧ c'.Refines (r.put key v) := by
  set inserted : LruCache K V :=
    { c with
      cacheItems := ⟨c.nodes, key, v⟩ :: c.cacheItems.filter (·.key ≠ key)
      cacheHash := c.cacheHash.insert key c.nodes
      nodes := c.nodes + 1 } with inserted_eq
  have put_eq : c.put key v = inserted.cleanCache := by
    rcases refines.lookup_cases key with ⟨absent, _⟩ | ⟨node, mem, rfl, found, _⟩
    · have rest : c.cacheItems.filter (·.key ≠ key) = c.cacheItems :=
        List.filter_eq_self.mpr fun node mem => by
          simpa using refines.consistent.lookup_none_iff.mp absent node mem
      simp only [LruCache.put, absent, inserted_eq, rest, Option.bind_eq_bind, Option.bind_some]
    · simp only [LruCache.put, found, eraseNode, refines.consistent.node_eq mem, inserted_eq,
        refines.consistent.filter_id_eq mem, Option.map_some, Option.bind_eq_bind, Option.bind_some]
  have lists : (r.use key v).Lists inserted.entries := by
    have := refines.lists.use key v
    rwa [← entries_filter] at this
  rw [put_eq]
  exact clean (refines.consistent.renew key v) lists refines.capacity

theorem splice (refines : c.Refines r) {node : Node K V} (mem : node ∈ c.cacheItems) :
    ∃ c', c.spliceFront node.id = some (c', node.value) ∧ c'.Refines (r.use node.key node.value) := by
  refine ⟨_, by rw [spliceFront, refines.consistent.node_eq mem]; rfl, refines.consistent.splice mem, ?_, refines.capacity, ?_⟩
  · have := refines.lists.use node.key node.value
    rwa [← entries_filter, ← refines.consistent.filter_id_eq mem] at this
  · exact (refines.consistent.splice_perm mem).length_eq.trans_le refines.bounded

theorem remove (refines : c.Refines r) {node : Node K V} (mem : node ∈ c.cacheItems) :
    ∃ c', c.erase node.id = some (c', c.next node.id) ∧ c'.Refines (r.remove node.key) := by
  have found := refines.consistent.node_eq mem
  refine ⟨_, ?_, refines.consistent.remove mem, ?_, refines.capacity, ?_⟩
  · have erased : ({ c with cacheHash := c.cacheHash.erase node.key } : LruCache K V).node node.id = some node := found
    simp only [LruCache.erase, found, eraseNode, erased, Option.map_some, Option.bind_eq_bind, Option.bind_some]
  · have := refines.lists.filter node.key
    rwa [← entries_filter, ← refines.consistent.filter_id_eq mem] at this
  · exact (List.length_filter_le _ _).trans refines.bounded

theorem call [Inhabited V] (refines : c.Refines r) {call : Call K V} (allowed : c.Allowed call) :
    ∃ c', c.call call = some (c', c.answer r call) ∧ c'.Refines (c.mirror r call) := by
  cases call with
  | put key v =>
    obtain ⟨c', ran, refines'⟩ := refines.put key v
    exact ⟨c', by simp [LruCache.call, ran, answer], refines'⟩
  | reference key =>
    rcases refines.lookup_cases key with ⟨absent, missing⟩ | ⟨node, mem, rfl, found, present⟩
    · exact ⟨c, by simp [LruCache.call, LruCache.reference, absent, answer, missing],
        by simpa [mirror, Recency.lookup, missing] using refines⟩
    · obtain ⟨c', ran, refines'⟩ := refines.splice mem
      exact ⟨c', by simp [LruCache.call, LruCache.reference, found, ran, answer, present],
        by simpa [mirror, Recency.lookup, present] using refines'⟩
  | value key =>
    rcases refines.lookup_cases key with ⟨absent, missing⟩ | ⟨node, mem, rfl, found, present⟩
    · exact ⟨c, by simp [LruCache.call, LruCache.value, absent, answer, missing],
        by simpa [mirror, Recency.lookup, missing] using refines⟩
    · obtain ⟨c', ran, refines'⟩ := refines.splice mem
      exact ⟨c', by simp [LruCache.call, LruCache.value, found, ran, answer, present],
        by simpa [mirror, Recency.lookup, present] using refines'⟩
  | «exists» key =>
    refine ⟨c, ?_, refines⟩
    rcases refines.lookup_cases key with ⟨absent, missing⟩ | ⟨node, _, _, found, present⟩
    · simp [LruCache.call, LruCache.exists, absent, answer, missing]
    · simp [LruCache.call, LruCache.exists, found, answer, present]
  | erase it =>
    obtain ⟨node, mem, rfl⟩ := allowed
    obtain ⟨c', ran, refines'⟩ := refines.remove mem
    exact ⟨c', by simp [LruCache.call, ran, answer],
      by simpa [mirror, refines.consistent.node_eq mem] using refines'⟩
  | clear => exact ⟨c.clear, rfl, .empty rfl rfl, Recency.Lists.clear, refines.capacity, Nat.zero_le _⟩
  | cacheSize size =>
    obtain ⟨c', ran, refines'⟩ := clean (c := { c with cacheSize := size }) (r := { r with capacity := size })
      ⟨refines.consistent.keys, refines.consistent.ids, refines.consistent.allocated, refines.consistent.hash⟩
      ⟨refines.lists.mem, refines.lists.sorted, refines.lists.past⟩ rfl
    exact ⟨c', by simp [LruCache.call, resize, ran, answer], refines'⟩

theorem start (capacity : Nat) : Refines (K := K) (V := V) ⟨[], ∅, capacity, 0⟩ { capacity } :=
  ⟨.empty rfl rfl, ⟨by simp [entries], .nil, by simp [entries]⟩, rfl, Nat.zero_le _⟩

end Refines

variable [Inhabited V] {capacity : Nat} {calls : List (Call K V)} {c : LruCache K V} {r : Recency K V}

end LruCache
end Dracon.Utils
