import Mathlib.Data.List.Induction
import Mathlib.Data.List.TakeWhile
import Mathlib.Order.Lattice

set_option autoImplicit false

namespace Shared

variable {α κ : Type*}

def partitionPoint (inFront : α → Bool) (range : List α) : Nat :=
  match rest : range.drop (range.length / 2) with
  | [] => 0
  | middle :: behind =>
    if inFront middle then range.length / 2 + 1 + partitionPoint inFront behind
    else partitionPoint inFront (range.take (range.length / 2))
termination_by range.length
decreasing_by
  all_goals have := congrArg List.length rest; simp at this ⊢; omega

section

variable {inFront : α → Bool}

theorem takeWhile_of_split {before behind : List α} {middle : α}
    (parted : (before ++ middle :: behind).Pairwise fun a b => inFront b → inFront a) :
    (before ++ middle :: behind).takeWhile inFront =
      if inFront middle then before ++ middle :: behind.takeWhile inFront else before.takeWhile inFront := by
  split_ifs with front
  · have all : ∀ a ∈ before, inFront a := fun a mem =>
      (List.pairwise_append.mp parted).2.2 a mem middle List.mem_cons_self front
    rw [List.takeWhile_append_of_pos all, List.takeWhile_cons_of_pos front]
  · rw [List.takeWhile_append]
    split_ifs with whole
    · rw [List.takeWhile_cons_of_neg front, List.append_nil, (List.takeWhile_prefix _).eq_of_length whole]
    · rfl

theorem partitionPoint_eq (range : List α) (parted : range.Pairwise fun a b => inFront b → inFront a) :
    partitionPoint inFront range = (range.takeWhile inFront).length := by
  fun_induction partitionPoint inFront range with
  | case1 range rest =>
    have := congrArg List.length rest
    obtain rfl : range = [] := List.length_eq_zero_iff.mp (by simp at this; omega)
    rfl
  | case2 range middle behind rest front ih =>
    have split := List.take_append_drop (range.length / 2) range
    rw [rest] at split
    rw [← split] at parted
    have half : (range.take (range.length / 2)).length = range.length / 2 := by simp; omega
    have found := takeWhile_of_split parted
    rw [split, if_pos front] at found
    rw [ih (List.pairwise_cons.mp (List.pairwise_append.mp parted).2.1).2, found, List.length_append, half,
      List.length_cons]
    omega
  | case3 range middle behind rest notFront ih =>
    have split := List.take_append_drop (range.length / 2) range
    rw [rest] at split
    rw [← split] at parted
    have found := takeWhile_of_split parted
    rw [split, if_neg notFront] at found
    rw [ih (List.pairwise_append.mp parted).1, found]

end

section Lookup

variable [LinearOrder κ] {β : Type*}

def sortedLookup (table : List (κ × β)) (key : κ) : Option β :=
  (table[partitionPoint (fun entry => entry.1 < key) table]?).bind fun entry =>
    if entry.1 = key then some entry.2 else none

theorem sortedLookup_eq {table : List (κ × β)} (sorted : table.Pairwise fun a b => a.1 < b.1) (key : κ) :
    sortedLookup table key = table.lookup key := by
  have parted : table.Pairwise fun a b => decide (b.1 < key) → decide (a.1 < key) :=
    sorted.imp fun lt below => by simpa using lt.trans (by simpa using below)
  rw [sortedLookup, partitionPoint_eq table parted]
  clear parted
  induction table with
  | nil => rfl
  | cons entry table ih =>
    obtain ⟨first, value⟩ := entry
    obtain ⟨least, sorted⟩ := List.pairwise_cons.mp sorted
    rw [List.lookup_cons]
    rcases lt_trichotomy first key with below | rfl | above
    · simpa [below, beq_eq_false_iff_ne.mpr below.ne'] using ih sorted
    · simp
    · have absent : table.lookup key = none :=
        List.lookup_eq_none_iff.mpr fun a mem => by simpa using (above.trans (least a mem)).ne
      simp [above.not_gt, beq_eq_false_iff_ne.mpr above.ne, above.ne', absent]

end Lookup

section Insertion

variable [LinearOrder κ] (key : α → κ)

def insertBehind (sorted : List α) (a : α) : List α :=
  let point := partitionPoint (fun b => !decide (key a < key b)) sorted
  sorted.take point ++ a :: sorted.drop point

def insertAll (elements : List α) : List α := elements.foldl (insertBehind key) []

variable {key} {sorted elements : List α} {a : α}

theorem insertBehind_eq (inOrder : sorted.Pairwise fun a b => key a ≤ key b) :
    insertBehind key sorted a =
      sorted.takeWhile (fun b => key b ≤ key a) ++ a :: sorted.dropWhile (fun b => key b ≤ key a) := by
  have parted : sorted.Pairwise fun b c => decide (key c ≤ key a) → decide (key b ≤ key a) :=
    inOrder.imp fun le below => by simpa using le.trans (by simpa using below)
  have spelled : (fun b => !decide (key a < key b)) = fun b => decide (key b ≤ key a) := by
    funext b
    rw [← decide_not]
    simp only [not_lt]
  rw [insertBehind, spelled, partitionPoint_eq sorted parted]
  have whole := List.takeWhile_append_dropWhile (p := fun b => decide (key b ≤ key a)) (l := sorted)
  congr 1
  · exact (congrArg (List.take _) whole.symm).trans (List.take_left' rfl)
  · exact congrArg _ ((congrArg (List.drop _) whole.symm).trans (List.drop_left' rfl))

variable (key) in
structure StablySorted (elements sorted : List α) : Prop where
  perm : sorted.Perm elements
  inOrder : sorted.Pairwise fun a b => key a ≤ key b
  stable : ∀ k, sorted.filter (fun a => key a = k) = elements.filter fun a => key a = k

theorem above_of_dropWhile (inOrder : sorted.Pairwise fun a b => key a ≤ key b) :
    ∀ b ∈ sorted.dropWhile fun b => key b ≤ key a, key a < key b := by
  have suffixInOrder := inOrder.sublist (List.dropWhile_sublist fun b => decide (key b ≤ key a))
  have first := List.head?_dropWhile_not (fun b => decide (key b ≤ key a)) sorted
  cases high : sorted.dropWhile fun b => key b ≤ key a with
  | nil => simp
  | cons c high' =>
    rw [high] at suffixInOrder first
    have start : key a < key c := by simpa using first
    intro b mem
    rcases List.mem_cons.mp mem with rfl | mem
    · exact start
    · exact start.trans_le ((List.pairwise_cons.mp suffixInOrder).1 b mem)

theorem StablySorted.insert (before : StablySorted key elements sorted) :
    StablySorted key (elements ++ [a]) (insertBehind key sorted a) := by
  obtain ⟨perm, inOrder, stable⟩ := before
  rw [insertBehind_eq inOrder]
  have low_below : ∀ b ∈ sorted.takeWhile fun b => key b ≤ key a, key b ≤ key a := fun b mem => by
    simpa using List.mem_takeWhile_imp mem
  have high_above := above_of_dropWhile (a := a) inOrder
  have whole := List.takeWhile_append_dropWhile (p := fun b => decide (key b ≤ key a)) (l := sorted)
  generalize sorted.takeWhile (fun b => key b ≤ key a) = low at *
  generalize sorted.dropWhile (fun b => key b ≤ key a) = high at *
  subst whole
  constructor
  case perm => exact List.perm_middle.trans ((perm.cons a).trans (List.perm_append_singleton a elements).symm)
  case inOrder =>
    obtain ⟨lowInOrder, highInOrder, between⟩ := List.pairwise_append.mp inOrder
    apply List.pairwise_append.mpr ⟨lowInOrder, List.pairwise_cons.mpr ⟨fun b mem => (high_above b mem).le, highInOrder⟩, ?_⟩
    intro b inLow c mem
    rcases List.mem_cons.mp mem with rfl | mem
    · exact low_below b inLow
    · exact between b inLow c mem
  case stable =>
    intro k
    rw [List.filter_append elements, ← stable k, List.filter_append, List.filter_append, List.append_assoc]
    congr 1
    by_cases same : key a = k
    · -- nothing above has the key of the new element
      have none_above : high.filter (fun b => key b = k) = [] :=
        List.filter_eq_nil_iff.mpr fun b mem => by simpa [← same] using (high_above b mem).ne'
      simp [same, none_above]
    · simp [same]

theorem insertAll_append (elements : List α) (a : α) :
    insertAll key (elements ++ [a]) = insertBehind key (insertAll key elements) a := List.foldl_append

theorem insertAll_stablySorted (elements : List α) : StablySorted key elements (insertAll key elements) := by
  induction elements using List.reverseRecOn with
  | nil => exact ⟨.refl _, .nil, fun _ => rfl⟩
  | append_singleton elements a ih =>
    rw [insertAll_append]
    exact ih.insert

end Insertion

end Shared
