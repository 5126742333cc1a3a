import Mathlib.Data.List.Induction
import Mathlib.Data.List.Infix

set_option autoImplicit false

namespace Shared

inductive Component (ν : Type) where
  | here
  | up
  | name (n : ν)
  deriving DecidableEq

def Component.isName {ν : Type} : Component ν → Bool
  | .name _ => true
  | _ => false

-- A path as it is written down; nothing is said of what it leads to.
structure Path (ν : Type) where
  absolute : Bool
  components : List (Component ν)
  -- whether a separator follows the last component
  trailing : Bool := false
  follows : trailing → components ≠ [] := by simp
  deriving DecidableEq

inductive Element (ν : Type) where
  | rootDirectory
  | component (c : Component ν)
  | empty
  deriving DecidableEq

namespace Path

variable {ν : Type}

def elements (p : Path ν) : List (Element ν) :=
  (if p.absolute then [.rootDirectory] else []) ++ p.components.map .component ++
    if p.trailing then [.empty] else []

def StartsWith (p q : Path ν) : Prop := q.elements <+: p.elements

instance [DecidableEq ν] (p q : Path ν) : Decidable (p.StartsWith q) :=
  inferInstanceAs (Decidable (_ <+: _))

theorem StartsWith.trans {p q r : Path ν} (first : p.StartsWith q) (second : q.StartsWith r) :
    p.StartsWith r :=
  List.IsPrefix.trans second first

def EndsInName (p : Path ν) : Prop := p.trailing = false ∧ ∃ n, p.components.getLast? = some (.name n)

theorem EndsInName.ne_nil {p : Path ν} (ends : p.EndsInName) : p.components ≠ [] := by
  obtain ⟨-, n, last⟩ := ends
  rintro empty
  simp [empty] at last

theorem startsWith_iff {p q : Path ν} (nonempty : q.components ≠ []) (closed : q.trailing = false) :
    p.StartsWith q ↔ p.absolute = q.absolute ∧ q.components <+: p.components := by
  obtain ⟨c, cs, components⟩ := List.exists_cons_of_ne_nil nonempty
  have inside (rest : List (Element ν)) (trailing : rest = [] ∨ rest = [.empty]) (ds : List (Component ν)) :
      (c :: cs).map Element.component <+: ds.map .component ++ rest ↔ c :: cs <+: ds := by
    generalize c :: cs = cs
    induction cs generalizing ds with
    | nil => simp
    | cons c cs ih =>
      cases ds with
      | nil => rcases trailing with rfl | rfl <;> simp
      | cons d ds => simpa [List.cons_prefix_cons] using fun _ => ih ds
  have rest : (if p.trailing then [Element.empty] else ([] : List (Element ν))) = [] ∨
      (if p.trailing then [Element.empty] else ([] : List (Element ν))) = [.empty] := by
    cases p.trailing <;> simp
  have step := inside _ rest p.components
  simp only [StartsWith, elements, components, closed]
  cases p.absolute <;> cases q.absolute
  · simpa using step
  · cases ds : p.components <;> rcases rest with equal | equal <;> simp [equal]
  · simp
  · simpa [List.cons_prefix_cons] using step

theorem startsWith_absolute_iff {p q : Path ν} (absolute : q.absolute = true) (closed : q.trailing = false) :
    p.StartsWith q ↔ p.absolute = true ∧ q.components <+: p.components := by
  by_cases root : q.components = []
  · have only : q.elements = [.rootDirectory] := by simp [elements, absolute, root, closed]
    rw [StartsWith, only, root]
    cases isAbsolute : p.absolute
    · cases components : p.components <;> cases trailing : p.trailing <;> simp [elements, isAbsolute, components, trailing]
    · simp [elements, isAbsolute]
  · rw [startsWith_iff root closed, absolute]

def append (p q : Path ν) : Path ν :=
  if q.absolute then q
  else
    { absolute := p.absolute
      components := p.components ++ q.components
      trailing := if q.components.isEmpty then !p.components.isEmpty else q.trailing
      follows := by
        cases empty : q.components
        · simp
        · simp }

instance : Div (Path ν) := ⟨append⟩

theorem div_absolute {p q : Path ν} (absolute : q.absolute = true) : p / q = q := if_pos absolute

theorem div_components {p q : Path ν} (relative : q.absolute = false) :
    (p / q).components = p.components ++ q.components := by
  change (append p q).components = _
  simp [append, relative]

theorem div_isAbsolute {p q : Path ν} (relative : q.absolute = false) : (p / q).absolute = p.absolute := by
  change (append p q).absolute = _
  simp [append, relative]

theorem div_trailing {p q : Path ν} (relative : q.absolute = false) (nonempty : q.components ≠ []) :
    (p / q).trailing = q.trailing := by
  change (append p q).trailing = _
  simp [append, relative, nonempty]

def push (absolute : Bool) : List (Component ν) → Component ν → List (Component ν)
  | done, .here => done
  | done, .name n => .name n :: done
  | .name _ :: done, .up => done
  | done, .up => if absolute then done else .up :: done

def reduce (absolute : Bool) (components : List (Component ν)) : List (Component ν) :=
  (components.foldl (push absolute) []).reverse

theorem reduce_snoc (absolute : Bool) (components : List (Component ν)) (c : Component ν) :
    reduce absolute (components ++ [c]) = (push absolute (reduce absolute components).reverse c).reverse := by
  simp [reduce]

-- Nothing is left to reduce: `..` stands in front only, and never right after the root.
structure IsNormal (absolute : Bool) (components : List (Component ν)) : Prop where
  here : .here ∉ components
  up : absolute → .up ∉ components
  ordered : components.Pairwise fun c d => d = .up → c = .up

theorem IsNormal.sublist {absolute : Bool} {cs ds : List (Component ν)} (normal : IsNormal absolute ds)
    (sub : cs.Sublist ds) : IsNormal absolute cs where
  here := fun mem => normal.here (sub.subset mem)
  up := fun root mem => normal.up root (sub.subset mem)
  ordered := normal.ordered.sublist sub

theorem isNormal_names (absolute : Bool) (names : List ν) :
    IsNormal absolute (names.map Component.name) where
  here := by simp
  up := by simp
  ordered := List.pairwise_map.mpr (List.pairwise_of_forall fun _ _ => by simp)

theorem IsNormal.append_names {absolute : Bool} {cs : List (Component ν)} (normal : IsNormal absolute cs)
    (names : List ν) : IsNormal absolute (cs ++ names.map .name) where
  here := by simpa using normal.here
  up := by simpa using normal.up
  ordered := by
    simpa [List.pairwise_append] using And.intro normal.ordered (isNormal_names absolute names).ordered

theorem IsNormal.exists_names {absolute : Bool} {cs : List (Component ν)} (normal : IsNormal absolute cs) :
    ∃ (ups : Nat) (names : List ν), cs = List.replicate ups .up ++ names.map .name := by
  induction cs with
  | nil => exact ⟨0, [], rfl⟩
  | cons c cs ih =>
    obtain ⟨ups, names, rfl⟩ := ih (normal.sublist (List.sublist_cons_self ..))
    cases c with
    | here => exact absurd (by simp) normal.here
    | up => exact ⟨ups + 1, names, by simp [List.replicate_succ]⟩
    | name n =>
      cases ups with
      | zero => exact ⟨0, n :: names, by simp⟩
      | succ ups =>
        have ordered := (List.pairwise_cons.mp normal.ordered).1 .up (by simp [List.replicate_succ]) rfl
        cases ordered

theorem reduce_normal (absolute : Bool) (components : List (Component ν)) :
    IsNormal absolute (reduce absolute components) := by
  induction components using List.reverseRecOn with
  | nil => exact ⟨by simp [reduce], by simp [reduce], by simp [reduce]⟩
  | append_singleton components c ih =>
    rw [reduce_snoc]
    cases c with
    | here => simpa [push] using ih
    | name n => simpa [push] using ih.append_names [n]
    | up =>
      cases done : (reduce absolute components).reverse with
      | nil =>
        cases absolute
        · exact ⟨by simp [push], by simp, by simp [push]⟩
        · exact ⟨by simp [push], by simp [push], by simp [push]⟩
      | cons last before =>
        have whole : reduce absolute components = before.reverse ++ [last] := by
          rw [← List.reverse_reverse (reduce absolute components), done, List.reverse_cons]
        rw [whole] at ih
        cases last with
        | here => exact absurd (by simp) ih.here
        | name n => exact ih.sublist (List.sublist_append_left ..)
        | up =>
          cases absolute
          · refine ⟨by simpa [push] using ih.here, by simp, ?_⟩
            have ordered := ih.ordered
            simp only [List.pairwise_append] at ordered
            simpa [push, List.pairwise_append, or_imp, forall_and] using ordered
          · exact absurd (by simp) (ih.up rfl)

theorem IsNormal.reduce_eq {absolute : Bool} {components : List (Component ν)}
    (normal : IsNormal absolute components) : reduce absolute components = components := by
  induction components using List.reverseRecOn with
  | nil => rfl
  | append_singleton components c ih =>
    rw [reduce_snoc, ih (normal.sublist (List.sublist_append_left ..))]
    cases c with
    | here => exact absurd (by simp) normal.here
    | name n => simp [push]
    | up =>
      have relative : absolute = false := by
        cases absolute
        · rfl
        · exact absurd (by simp) (normal.up rfl)
      have ups : ∀ c ∈ components, c = .up := by
        simpa [List.pairwise_append] using (List.pairwise_append.mp normal.ordered).2.2
      cases done : components.reverse with
      | nil => simp_all [push]
      | cons last before =>
        obtain rfl := ups last (List.mem_reverse.mp (by simp [done]))
        simp [push, relative, ← done]

theorem foldl_push_reduce (absolute : Bool) (done components : List (Component ν)) :
    (reduce false components).foldl (push absolute) done = components.foldl (push absolute) done := by
  induction components using List.reverseRecOn with
  | nil => rfl
  | append_singleton components c ih =>
    rw [reduce_snoc, List.foldl_append, ← ih]
    cases c with
    | here => simp [push]
    | name n => simp [push]
    | up =>
      cases last : (reduce false components).reverse with
      | nil =>
        have empty : reduce false components = [] := by simpa using last
        simp [push, empty]
      | cons c before =>
        have whole : reduce false components = before.reverse ++ [c] := by
          rw [← List.reverse_reverse (reduce false components), last, List.reverse_cons]
        rw [whole]
        cases c <;> simp [push]

theorem reduce_append_reduce (absolute : Bool) (first second : List (Component ν)) :
    reduce absolute (first ++ reduce false second) = reduce absolute (first ++ second) := by
  simp only [reduce, List.foldl_append]
  rw [← reduce, foldl_push_reduce]

def lexicallyNormal (p : Path ν) : Path ν :=
  match reduce p.absolute p.components with
  | [] => { absolute := p.absolute, components := if p.absolute ∨ p.components = [] then [] else [.here] }
  | c :: cs =>
    { absolute := p.absolute
      components := c :: cs
      trailing := (p.trailing || !p.components.getLast?.any (·.isName)) && (c :: cs).getLast?.any (·.isName) }

theorem lexicallyNormal_isAbsolute (p : Path ν) : p.lexicallyNormal.absolute = p.absolute := by
  unfold lexicallyNormal
  split <;> rfl

theorem lexicallyNormal_components {p : Path ν} (absolute : p.absolute = true) :
    p.lexicallyNormal.components = reduce true p.components := by
  unfold lexicallyNormal
  split <;> simp_all

theorem lexicallyNormal_div {p q : Path ν} (absolute : p.absolute = true) :
    (p / q.lexicallyNormal).lexicallyNormal.components = (p / q).lexicallyNormal.components := by
  cases relative : q.absolute with
  | true =>
    have same : q.lexicallyNormal.absolute = true := (lexicallyNormal_isAbsolute q).trans relative
    rw [div_absolute same, div_absolute relative, lexicallyNormal_components same, lexicallyNormal_components relative,
      (reduce_normal true q.components).reduce_eq]
  | false =>
    have same : q.lexicallyNormal.absolute = false := (lexicallyNormal_isAbsolute q).trans relative
    rw [lexicallyNormal_components ((div_isAbsolute same).trans absolute),
      lexicallyNormal_components ((div_isAbsolute relative).trans absolute), div_components same, div_components relative,
      ← reduce_append_reduce true p.components q.components]
    unfold lexicallyNormal
    split
    next empty =>
      rw [relative] at empty
      rw [empty, List.append_nil]
      split_ifs with nothing
      · rw [List.append_nil]
      · rw [reduce_snoc, push, List.reverse_reverse]
    next more =>
      rw [relative] at more
      rw [more]

theorem lexicallyNormal_normal (p : Path ν) :
    p.lexicallyNormal.components = [.here] ∨ IsNormal p.absolute p.lexicallyNormal.components := by
  have normal := reduce_normal p.absolute p.components
  unfold lexicallyNormal
  split
  · split_ifs
    · exact .inr ⟨by simp, by simp, by simp⟩
    · exact .inl rfl
  · rename_i equal
    rw [equal] at normal
    exact .inr normal

theorem EndsInName.lexicallyNormal_eq {p : Path ν} (ends : p.EndsInName)
    (normal : IsNormal p.absolute p.components) : p.lexicallyNormal = p := by
  have same := normal.reduce_eq
  obtain ⟨closed, n, last⟩ := ends
  unfold lexicallyNormal
  split
  · rename_i equal
    rw [← same, equal] at last
    cases last
  · rename_i c cs equal
    have components : c :: cs = p.components := equal.symm.trans same
    cases p
    simp_all [Component.isName]

theorem lexicallyNormal_snoc {p : Path ν} {cs : List (Component ν)} {n : ν}
    (components : p.components = cs ++ [.name n]) (closed : p.trailing = false) :
    p.lexicallyNormal.components = reduce p.absolute cs ++ [.name n] ∧ p.lexicallyNormal.trailing = false := by
  have reduced : reduce p.absolute p.components = reduce p.absolute cs ++ [.name n] := by
    rw [components, reduce_snoc]
    simp [push]
  unfold lexicallyNormal
  split
  · rename_i empty
    simp [empty] at reduced
  · rename_i equal
    refine ⟨equal.symm.trans reduced, ?_⟩
    simp [components, closed, Component.isName]

end Path

end Shared
