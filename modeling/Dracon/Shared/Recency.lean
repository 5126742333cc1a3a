import Mathlib.Data.Set.Card
import Mathlib.Data.List.Nodup

set_option autoImplicit false

namespace Shared

variable {α : Type*}

theorem mem_take_iff_above {f : α → Nat} {l : List α} (sorted : l.Pairwise fun a b => f b < f a)
    (n : Nat) (x : α) :
    x ∈ l.take n ↔ x ∈ l ∧ (l.filter fun a => f x < f a).length < n := by
  induction l generalizing n with
  | nil => simp
  | cons a l ih =>
    obtain ⟨below, sorted⟩ := List.pairwise_cons.mp sorted
    cases n with
    | zero => simp
    | succ n =>
      have none_above : l.filter (fun b => f a < f b) = [] :=
        List.filter_eq_nil_iff.mpr fun b mem => by simpa using (below b mem).le
      rw [List.take_succ_cons, List.mem_cons, List.mem_cons, ih sorted]
      by_cases same : x = a
      · subst same
        simp [none_above]
      · by_cases mem : x ∈ l
        · simp [same, mem, below x mem]
        · simp [same, mem]

structure Recency (K V : Type*) where
  capacity : Nat
  value : K → Option V := fun _ => none
  lastUse : K → Nat := fun _ => 0
  now : Nat := 0

namespace Recency

variable {K V : Type*} [DecidableEq K] {r : Recency K V} {l : List (K × V)}

def newer (r : Recency K V) (k : K) : Set K := {k' | (r.value k').isSome ∧ r.lastUse k < r.lastUse k'}

def use (r : Recency K V) (k : K) (v : V) : Recency K V :=
  { r with
    value := Function.update r.value k (some v)
    lastUse := Function.update r.lastUse k r.now
    now := r.now + 1 }

open Classical in
-- What stays are the keys with fewer than `capacity` keys used after them.
noncomputable def evict (r : Recency K V) : Recency K V :=
  { r with value := fun k => if (r.newer k).encard < r.capacity then r.value k else none }

noncomputable def put (r : Recency K V) (k : K) (v : V) : Recency K V := (r.use k v).evict

def lookup (r : Recency K V) (k : K) : Recency K V :=
  match r.value k with
  | some v => r.use k v
  | none => r

def remove (r : Recency K V) (k : K) : Recency K V := { r with value := Function.update r.value k none }

def clear (r : Recency K V) : Recency K V := { r with value := fun _ => none }

noncomputable def resize (r : Recency K V) (capacity : Nat) : Recency K V := evict { r with capacity }

structure Lists (r : Recency K V) (l : List (K × V)) : Prop where
  mem : ∀ k v, (k, v) ∈ l ↔ r.value k = some v
  sorted : l.Pairwise fun a b => r.lastUse b.1 < r.lastUse a.1
  past : ∀ entry ∈ l, r.lastUse entry.1 < r.now

omit [DecidableEq K] in
theorem Lists.nodup (lists : r.Lists l) : (l.map Prod.fst).Nodup :=
  List.pairwise_map.mpr (lists.sorted.imp fun lt same => lt.ne' (by rw [same]))

theorem Lists.filter (lists : r.Lists l) (k : K) : (r.remove k).Lists (l.filter (·.1 ≠ k)) where
  mem k' v := by
    by_cases same : k' = k
    · simp [remove, same]
    · simp [remove, same, lists.mem]
  sorted := lists.sorted.filter _
  past entry mem := lists.past entry (List.mem_of_mem_filter mem)

theorem Lists.use (lists : r.Lists l) (k : K) (v : V) : (r.use k v).Lists ((k, v) :: l.filter (·.1 ≠ k)) := by
  have rest := lists.filter k
  have other : ∀ {entry}, entry ∈ l.filter (·.1 ≠ k) → (r.use k v).lastUse entry.1 = r.lastUse entry.1 := by
    intro entry mem
    simp [Recency.use, show entry.1 ≠ k by simpa using List.of_mem_filter mem]
  have self : (r.use k v).lastUse k = r.now := by simp [Recency.use]
  constructor
  case mem =>
    intro k' v'
    by_cases same : k' = k
    · simp [Recency.use, same, eq_comm]
    · simp [Recency.use, same, lists.mem]
  case sorted =>
    refine List.pairwise_cons.mpr ⟨fun entry mem => ?_, rest.sorted.imp_of_mem fun first second lt => ?_⟩
    · rw [self, other mem]
      exact rest.past entry mem
    · rw [other first, other second]
      exact lt
  case past =>
    intro entry mem
    rcases List.mem_cons.mp mem with rfl | mem
    · rw [self]
      exact Nat.lt_succ_self _
    · rw [other mem]
      exact Nat.lt_succ_of_lt (rest.past entry mem)

theorem Lists.encard_newer (lists : r.Lists l) (k : K) :
    (r.newer k).encard = (l.filter fun entry => r.lastUse k < r.lastUse entry.1).length := by
  set above := l.filter fun entry => r.lastUse k < r.lastUse entry.1 with above_eq
  have nodup : (above.map Prod.fst).Nodup := lists.nodup.sublist ((List.filter_sublist).map _)
  have same : r.newer k = ↑(above.map Prod.fst).toFinset := by
    ext k'
    simp [newer, above_eq, Option.isSome_iff_exists, lists.mem]
  rw [same, Set.encard_coe_eq_coe_finsetCard, List.toFinset_card_of_nodup nodup, List.length_map]

theorem Lists.evict (lists : r.Lists l) : r.evict.Lists (l.take r.capacity) where
  mem k v := by
    rw [mem_take_iff_above (f := fun entry => r.lastUse entry.1) lists.sorted, lists.mem]
    simp only [Recency.evict, lists.encard_newer]
    norm_cast
    by_cases few : (l.filter fun entry => r.lastUse k < r.lastUse entry.1).length < r.capacity <;> simp [few]
  sorted := lists.sorted.sublist (List.take_sublist _ _)
  past entry mem := lists.past entry (List.mem_of_mem_take mem)

omit [DecidableEq K] in
theorem Lists.clear : r.clear.Lists [] := ⟨by simp [Recency.clear], .nil, nofun⟩

end Recency

end Shared
