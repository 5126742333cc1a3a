import Mathlib
import Dracon.Shared.Backtracking
import Dracon.Shared.Lines

set_option autoImplicit false

namespace Dracon.Certbot

open Shared

abbrev Text := List Char

def isSpace (c : Char) : Bool :=
  let n := c.toNat
  (9 ≤ n && n ≤ 13) || (0x1c ≤ n && n ≤ 0x20) || n == 0x85 || n == 0xa0 || n == 0x1680 || (0x2000 ≤ n && n ≤ 0x200a)
    || n == 0x2028 || n == 0x2029 || n == 0x202f || n == 0x205f || n == 0x3000

structure Words where
  isWord : Char → Bool
  alphanumeric : ∀ c : Char, c.isAlphanum → isWord c

def Words.ascii : Words where
  isWord c := c.isAlphanum || c == '_'
  alphanumeric := by
    intro c letter
    simp [letter]

def httpsOpen : Text := "https \x7b".toList

def key : Text := "enabled".toList

def off : Text := "false".toList

def on : Text := "true".toList

theorem httpsOpen_eq : httpsOpen = ['h', 't', 't', 'p', 's', ' ', '\x7b'] := by decide

theorem key_eq : key = ['e', 'n', 'a', 'b', 'l', 'e', 'd'] := by decide

theorem off_eq : off = ['f', 'a', 'l', 's', 'e'] := by decide

theorem on_eq : on = ['t', 'r', 'u', 'e'] := by decide

-- The ways in which `^(\s*)enabled\s+false\b.*$` matches: the group, and what follows the match.
def enabledFalse (words : Words) (before : Option Char) (text : Text) : List (Text × Text) :=
  if before.all (· = '\n') then
    (greedy isSpace text).flatMap fun (indent, rest) =>
    (literal key rest).flatMap fun rest =>
    ((greedy isSpace rest).filter fun (gap, _) => gap ≠ []).flatMap fun (_, rest) =>
    (literal off rest).flatMap fun rest =>
    if words.isWord 'e' ≠ rest.head?.any words.isWord then
      (greedy (· ≠ '\n') rest).flatMap fun (_, rest) =>
      if rest.head?.all (· = '\n') then [(indent, rest)] else []
    else []
  else []

-- re.subn with count=1, behind the symbol before: the new text and the number of substitutions
def subn (words : Words) (before : Option Char) : Text → Text × Nat
  | [] => ([], 0)
  | c :: rest =>
    match (enabledFalse words before (c :: rest)).head? with
    | some (indent, after) => (indent ++ (key ++ ' ' :: on) ++ after, 1)
    | none => (subn words (some c) rest).map (c :: ·) id

-- what read() makes of the ends of lines; on POSIX write() leaves them as they are
def universalNewlines : Text → Text
  | '\r' :: '\n' :: rest => '\n' :: universalNewlines rest
  | '\r' :: rest => '\n' :: universalNewlines rest
  | c :: rest => c :: universalNewlines rest
  | [] => []

def enableHttps (words : Words) (file : Text) : Text :=
  match cutAt httpsOpen (universalNewlines file) with
  | none => file
  | some (head, rest) =>
    let (newTail, count) := subn words none (httpsOpen ++ rest)
    if count = 0 then file else head ++ newTail

section Newlines

variable {text : Text}

theorem not_mem_universalNewlines (text : Text) : '\r' ∉ universalNewlines text := by
  fun_induction universalNewlines text <;> simp_all [eq_comm]

theorem universalNewlines_of_not_mem (absent : '\r' ∉ text) : universalNewlines text = text := by
  fun_induction universalNewlines text <;> simp_all

theorem length_universalNewlines_le (text : Text) : (universalNewlines text).length ≤ text.length := by
  fun_induction universalNewlines text <;> grind

end Newlines

structure Flag (words : Words) (text before gap after : Text) : Prop where
  split : text = before ++ (key ++ (gap ++ (off ++ after)))
  blank : ∀ c ∈ lastPiece '\n' before, isSpace c
  gap_ne : gap ≠ []
  gap_space : ∀ c ∈ gap, isSpace c
  word : ∀ c ∈ after.head?, words.isWord c = false

def flipped (before after : Text) : Text := before ++ (key ++ (' ' :: on ++ after.dropWhile (· ≠ '\n')))

section

variable {words : Words} {text before gap after : Text}

theorem mem_line {after rest : Text} :
    (∃ line, (line, rest) ∈ greedy (· ≠ '\n') after ∧ rest.head?.all (· = '\n')) ↔ rest = after.dropWhile (· ≠ '\n') := by
  constructor
  · rintro ⟨line, taken, ends⟩
    obtain ⟨rfl, all⟩ := mem_greedy.mp taken
    rw [List.dropWhile_append_of_pos all]
    cases rest with
    | nil => rfl
    | cons c rest =>
      have newline : c = '\n' := by simpa using ends
      simp [newline]
  · rintro rfl
    refine ⟨after.takeWhile (· ≠ '\n'), mem_greedy.mpr ⟨List.takeWhile_append_dropWhile.symm, ?_⟩, ?_⟩
    · exact fun c mem => List.mem_takeWhile_imp (p := fun c => decide (c ≠ '\n')) mem
    · have stops := List.head?_dropWhile_not (· ≠ '\n') after
      revert stops
      cases (after.dropWhile (· ≠ '\n')).head? <;> simp

theorem mem_enabledFalse {indent rest : Text} {last : Option Char} (start : last.all (· = '\n')) :
    (indent, rest) ∈ enabledFalse words last text ↔
      ∃ gap after, text = indent ++ (key ++ (gap ++ (off ++ after))) ∧ (∀ c ∈ indent, isSpace c) ∧ gap ≠ [] ∧
        (∀ c ∈ gap, isSpace c) ∧ (∀ c ∈ after.head?, words.isWord c = false) ∧ rest = after.dropWhile (· ≠ '\n') := by
  have boundary (after : Text) : words.isWord 'e' ≠ after.head?.any words.isWord ↔
      ∀ c ∈ after.head?, words.isWord c = false := by
    rw [words.alphanumeric 'e' (by decide)]
    cases after.head? <;> simp
  simp only [enabledFalse, start, if_true, List.mem_flatMap, Prod.exists, mem_greedy, mem_literal, List.mem_filter,
    decide_eq_true_eq]
  constructor
  · rintro ⟨_, _, ⟨rfl, space⟩, _, rfl, gap, _, ⟨⟨rfl, gapSpace⟩, filled⟩, after, rfl, found⟩
    split_ifs at found with word
    · obtain ⟨⟨line, left⟩, taken, ends⟩ := List.mem_flatMap.mp found
      dsimp only at ends
      split_ifs at ends with newline
      · cases List.mem_singleton.mp ends
        refine ⟨gap, after, rfl, space, filled, gapSpace, (boundary after).mp word, ?_⟩
        exact mem_line.mp ⟨line, taken, newline⟩
      · cases ends
    · cases found
  · rintro ⟨gap, after, rfl, space, filled, gapSpace, word, line⟩
    refine ⟨indent, _, ⟨rfl, space⟩, _, rfl, gap, _, ⟨⟨rfl, gapSpace⟩, filled⟩, after, rfl, ?_⟩
    rw [if_pos ((boundary after).mpr word)]
    obtain ⟨line, taken, ends⟩ := mem_line.mpr line
    exact List.mem_flatMap.mpr ⟨_, taken, by simp [ends]⟩

theorem key_head : ∀ c ∈ (key ++ before).head?, isSpace c = false := by
  intro c first
  obtain rfl : 'e' = c := Option.some.inj first
  decide

theorem off_head : ∀ c ∈ (off ++ before).head?, isSpace c = false := by
  intro c first
  obtain rfl : 'f' = c := Option.some.inj first
  decide

theorem on_head : ∀ c ∈ (on ++ before).head?, isSpace c = false := by
  intro c first
  obtain rfl : 't' = c := Option.some.inj first
  decide

theorem space_blank : ∀ c ∈ [' '], isSpace c := by simp [isSpace]

theorem enabledFalse_unique {last : Option Char} :
    ∀ x ∈ enabledFalse words last text, ∀ y ∈ enabledFalse words last text, x = y := by
  rintro ⟨indent, rest⟩ first ⟨indent', rest'⟩ second
  by_cases start : last.all (· = '\n')
  · obtain ⟨gap, after, rfl, space, filled, gapSpace, -, rfl⟩ := (mem_enabledFalse start).mp first
    obtain ⟨gap', after', same, space', filled', gapSpace', -, rfl⟩ := (mem_enabledFalse start).mp second
    obtain ⟨rfl, keyed⟩ := append_cancel_class space space' key_head key_head same
    obtain ⟨rfl, left⟩ := append_cancel_class gapSpace gapSpace' off_head off_head (List.append_cancel_left keyed)
    rw [List.append_cancel_left left]
  · simp [enabledFalse, start] at first

def Found (words : Words) (last : Option Char) (text before gap after : Text) : Prop :=
  Flag words text before gap after ∧ (last.all (· = '\n') ∨ '\n' ∈ before)

theorem lastPiece_cons {c : Char} (line : c = '\n' ∨ '\n' ∈ before) : lastPiece '\n' (c :: before) = lastPiece '\n' before := by
  by_cases more : '\n' ∈ before
  · exact lastPiece_append_of_mem more [c]
  · obtain rfl := line.resolve_right more
    have first : lastPiece '\n' ['\n'] = [] := by decide
    calc lastPiece '\n' ('\n' :: before)
        = lastPiece '\n' ['\n'] ++ before := lastPiece_append_of_not_mem more ['\n']
      _ = lastPiece '\n' before := by rw [first, lastPiece_of_not_mem more, List.nil_append]

theorem found_cons {last : Option Char} {c : Char} {rest : Text} (missing : enabledFalse words last (c :: rest) = []) :
    Found words last (c :: rest) before gap after ↔
      ∃ inner, before = c :: inner ∧ Found words (some c) rest inner gap after := by
  constructor
  · rintro ⟨⟨split, blank, filled, gapSpace, word⟩, line⟩
    have other (start : last.all (· = '\n')) : ¬ ∀ d ∈ before, isSpace d := by
      intro space
      have mem : (before, after.dropWhile (· ≠ '\n')) ∈ enabledFalse words last (c :: rest) :=
        (mem_enabledFalse start).mpr ⟨gap, after, split, space, filled, gapSpace, word, rfl⟩
      rw [missing] at mem
      cases mem
    cases before with
    | nil => exact absurd (by simp) (other (line.resolve_right (by simp)))
    | cons d inner =>
      obtain ⟨rfl, splitRest⟩ := List.cons.inj split
      have lined : c = '\n' ∨ '\n' ∈ inner := by
        by_contra single
        obtain ⟨first, others⟩ := not_or.mp single
        have absent : '\n' ∉ c :: inner := by simp [Ne.symm first, others]
        rw [lastPiece_of_not_mem absent] at blank
        exact other (line.resolve_right absent) blank
      rw [lastPiece_cons lined] at blank
      exact ⟨inner, rfl, ⟨splitRest, blank, filled, gapSpace, word⟩, by simpa using lined⟩
  · rintro ⟨inner, rfl, ⟨split, blank, filled, gapSpace, word⟩, line⟩
    have lined : c = '\n' ∨ '\n' ∈ inner := by simpa using line
    refine ⟨⟨congrArg (c :: ·) split, ?_, filled, gapSpace, word⟩, .inr ?_⟩
    · rwa [lastPiece_cons lined]
    · simpa [eq_comm] using lined

theorem subn_spec (words : Words) (last : Option Char) (text : Text) :
    (subn words last text = (text, 0) ∧ ∀ before gap after, ¬ Found words last text before gap after) ∨
    ∃ before gap after, Found words last text before gap after ∧ subn words last text = (flipped before after, 1) ∧
      ∀ before' gap' after', Found words last text before' gap' after' → before.length ≤ before'.length := by
  induction text generalizing last with
  | nil =>
    refine .inl ⟨rfl, fun before gap after found => ?_⟩
    have split := found.1.split
    simp [key_eq] at split
  | cons c rest ih =>
    cases first : (enabledFalse words last (c :: rest)).head? with
    | none =>
      have missing := List.head?_eq_none_iff.mp first
      simp only [subn, first]
      rcases ih (some c) with ⟨same, none⟩ | ⟨before, gap, after, found, result, least⟩
      · rw [same]
        refine .inl ⟨rfl, fun before gap after found => ?_⟩
        obtain ⟨inner, -, found⟩ := (found_cons missing).mp found
        exact none inner gap after found
      · refine .inr ⟨c :: before, gap, after, (found_cons missing).mpr ⟨before, rfl, found⟩, by rw [result]; rfl, ?_⟩
        intro before' gap' after' found'
        obtain ⟨inner, rfl, below⟩ := (found_cons missing).mp found'
        exact Nat.succ_le_succ (least inner gap' after' below)
    | some way =>
      obtain ⟨indent, left⟩ := way
      have mem := (head?_eq_some_of_unique enabledFalse_unique).mp first
      have start : last.all (· = '\n') := by
        by_contra inside
        simp [enabledFalse, inside] at mem
      obtain ⟨gap, after, split, space, filled, gapSpace, word, rfl⟩ := (mem_enabledFalse start).mp mem
      refine .inr ⟨indent, gap, after, ⟨⟨split, ?_, filled, gapSpace, word⟩, .inl start⟩, ?_, ?_⟩
      · exact fun d mem => space d ((List.rtakeWhile_suffix _ _).subset mem)
      · simp [subn, first, flipped]
      · intro before' gap' after' found'
        by_contra less
        rcases List.append_eq_append_iff.mp (split.symm.trans found'.1.split) with ⟨more, rfl, -⟩ | ⟨more, rfl, keyed⟩
        · simp at less
        -- the key does not begin with a blank
        · cases more with
          | nil => simp at less
          | cons d more =>
            have blank := space d (by simp)
            have letter := key_head d (by rw [keyed]; rfl)
            rw [blank] at letter
            cases letter

-- A place that the substitution may change: `https {` stands somewhere in front of it.
def Target (words : Words) (text before gap after : Text) : Prop :=
  Flag words text before gap after ∧ httpsOpen <:+: before

theorem httpsOpen_newline : '\n' ∉ httpsOpen := by decide

theorem newline_of_blank {rest : Text} (blank : ∀ c ∈ lastPiece '\n' (httpsOpen ++ rest), isSpace c) : '\n' ∈ rest := by
  by_contra absent
  rw [lastPiece_append_of_not_mem absent, lastPiece_of_not_mem httpsOpen_newline] at blank
  exact absurd (blank 'h' (List.mem_append_left _ (by decide))) (by decide)

theorem target_iff {head rest : Text} (cut : cutAt httpsOpen text = some (head, rest)) :
    Target words text before gap after ↔
      ∃ inner, before = head ++ inner ∧ Found words none (httpsOpen ++ rest) inner gap after := by
  obtain ⟨whole, first⟩ := cutAt_eq_some cut
  constructor
  · rintro ⟨⟨split, blank, filled, gapSpace, word⟩, u, w, occurs⟩
    have early : head.length ≤ u.length := first u (w ++ (key ++ (gap ++ (off ++ after)))) (by simp [split, ← occurs])
    have size : before.length = u.length + 7 + w.length := by
      simp [← occurs, httpsOpen_eq]
      omega
    rcases List.append_eq_append_iff.mp (whole.symm.trans split) with ⟨inner, rfl, splitRest⟩ | ⟨more, rfl, -⟩
    · refine ⟨inner, rfl, ⟨splitRest, fun c mem => blank c ?_, filled, gapSpace, word⟩, .inl rfl⟩
      by_cases line : '\n' ∈ inner
      · rwa [lastPiece_append_of_mem line]
      · rw [lastPiece_of_not_mem line] at mem
        rw [lastPiece_append_of_not_mem line]
        exact List.mem_append_right _ mem
    · rw [List.length_append] at early
      omega
  · rintro ⟨inner, rfl, ⟨split, blank, filled, gapSpace, word⟩, -⟩
    rcases List.append_eq_append_iff.mp split with ⟨more, rfl, -⟩ | ⟨more, opened, keyed⟩
    · have line := newline_of_blank blank
      rw [lastPiece_append_of_mem line] at blank
      refine ⟨⟨by rw [whole, split, List.append_assoc head], ?_, filled, gapSpace, word⟩, ⟨head, more, by simp⟩⟩
      rwa [← List.append_assoc, lastPiece_append_of_mem line]
    · cases inner with
      | nil => simp [key_eq, httpsOpen_eq] at split
      | cons c inner =>
        have absent : '\n' ∉ c :: inner := fun mem => httpsOpen_newline (opened ▸ List.mem_append_left _ mem)
        rw [lastPiece_of_not_mem absent] at blank
        obtain rfl : 'h' = c := (List.cons.inj opened).1
        exact absurd (blank 'h' (by simp)) (by decide)

theorem enableHttps_spec (words : Words) (file : Text) :
    (enableHttps words file = file ∧ ∀ before gap after, ¬ Target words (universalNewlines file) before gap after) ∨
    ∃ before gap after, Target words (universalNewlines file) before gap after ∧
      enableHttps words file = flipped before after ∧
      ∀ before' gap' after', Target words (universalNewlines file) before' gap' after' →
        before.length ≤ before'.length := by
  unfold enableHttps
  cases cut : cutAt httpsOpen (universalNewlines file) with
  | none =>
    refine .inl ⟨rfl, ?_⟩
    rintro before gap after ⟨⟨split, -⟩, u, w, rfl⟩
    exact cutAt_eq_none cut u (w ++ (key ++ (gap ++ (off ++ after)))) (by simp [split])
  | some parts =>
    obtain ⟨head, rest⟩ := parts
    dsimp only
    rcases subn_spec words none (httpsOpen ++ rest) with ⟨same, none⟩ | ⟨inner, gap, after, found, result, least⟩
    · refine .inl ⟨by rw [same, if_pos rfl], fun before gap after target => ?_⟩
      obtain ⟨inner, -, found⟩ := (target_iff cut).mp target
      exact none inner gap after found
    · refine .inr ⟨head ++ inner, gap, after, (target_iff cut).mpr ⟨inner, rfl, found⟩, ?_, ?_⟩
      · rw [result, if_neg Nat.one_ne_zero, flipped, flipped, List.append_assoc]
      · intro before' gap' after' target
        obtain ⟨inner', rfl, found'⟩ := (target_iff cut).mp target
        rw [List.length_append, List.length_append]
        exact Nat.add_le_add_left (least inner' gap' after' found') _

theorem Flag.length_flipped (flag : Flag words text before gap after) : (flipped before after).length < text.length := by
  have line := (List.dropWhile_suffix (fun c => decide (c ≠ '\n')) (l := after)).length_le
  have positive := List.length_pos_of_ne_nil flag.gap_ne
  have sizes : key.length = 7 ∧ off.length = 5 ∧ on.length = 4 := by decide
  rw [flag.split, flipped]
  simp only [List.length_append, List.length_cons]
  omega

theorem not_blank_append {c : Char} {word : Text} (letter : isSpace c = false) (single : '\n' ∉ word) (mem : c ∈ word)
    (blank : ∀ d ∈ lastPiece '\n' (before ++ word), isSpace d) : False := by
  rw [lastPiece_append_of_not_mem single] at blank
  rw [blank c (List.mem_append_right _ mem)] at letter
  cases letter

theorem flag_later {place line rest : Text} (single : '\n' ∉ key ++ line) (longer : before.length < place.length) :
    Flag words (before ++ (key ++ line ++ rest)) place gap after ↔
      ∃ inner, place = before ++ (key ++ line ++ inner) ∧ '\n' ∈ inner ∧ Flag words rest inner gap after := by
  constructor
  · rintro ⟨split, blank, filled, gapSpace, word⟩
    obtain ⟨more, rfl, splitMore⟩ : ∃ more, place = before ++ more ∧
        key ++ line ++ rest = more ++ (key ++ (gap ++ (off ++ after))) := by
      rcases List.append_eq_append_iff.mp split with found | ⟨more, rfl, -⟩
      · exact found
      · rw [List.length_append] at longer
        omega
    rcases List.append_eq_append_iff.mp splitMore with ⟨inner, rfl, splitRest⟩ | ⟨tail, opened, -⟩
    · have lined : '\n' ∈ inner := by
        by_contra absent
        refine not_blank_append (c := 'e') (by decide) ?_ ?_ blank
        · simp only [List.mem_append, single, absent, or_self, not_false_eq_true]
        · simp [key_eq]
      rw [← List.append_assoc, lastPiece_append_of_mem lined] at blank
      exact ⟨inner, rfl, lined, splitRest, blank, filled, gapSpace, word⟩
    · cases more with
      | nil => simp at longer
      | cons c more =>
        obtain rfl : 'e' = c := (List.cons.inj opened).1
        have absent : '\n' ∉ 'e' :: more := fun mem => single (opened ▸ List.mem_append_left _ mem)
        exact (not_blank_append (by decide) absent List.mem_cons_self blank).elim
  · rintro ⟨inner, rfl, lined, ⟨rfl, blank, filled, gapSpace, word⟩⟩
    refine ⟨by simp only [List.append_assoc], ?_, filled, gapSpace, word⟩
    rwa [← List.append_assoc, lastPiece_append_of_mem lined]

theorem flag_earlier {place rest : Text} (blank : ∀ c ∈ lastPiece '\n' before, isSpace c)
    (shorter : place.length < before.length) (flag : Flag words (before ++ (key ++ rest)) place gap after) (rest' : Text) :
    ∃ after', Flag words (before ++ (key ++ rest')) place gap after' := by
  obtain ⟨split, blankPlace, filled, gapSpace, word⟩ := flag
  obtain ⟨more, rfl, splitMore⟩ : ∃ more, before = place ++ more ∧ key ++ (gap ++ (off ++ after)) = more ++ (key ++ rest) := by
    rcases List.append_eq_append_iff.mp split with ⟨more, rfl, -⟩ | found
    · rw [List.length_append] at shorter
      omega
    · exact found
  have visible {c : Char} {tail : Text} (front tail' : Text) (whole : more = front ++ c :: tail)
      (letter : isSpace c = false) (single : '\n' ∉ c :: tail ++ tail') : False := by
    rw [whole, ← List.append_assoc] at blank
    exact not_blank_append letter (fun mem => single (List.mem_append_left _ mem)) List.mem_cons_self blank
  -- the key, the gap and the word all stand in front of the line
  obtain ⟨more, rfl, splitGap⟩ : ∃ inner, more = key ++ inner ∧ gap ++ (off ++ after) = inner ++ (key ++ rest) := by
    rcases List.append_eq_append_iff.mp splitMore with found | ⟨tail, keyed, -⟩
    · exact found
    · cases more with
      | nil => simp at shorter
      | cons c more =>
        obtain rfl : 'e' = c := (List.cons.inj keyed).1
        exact (visible [] tail rfl (by decide) (by rw [← keyed]; decide)).elim
  obtain ⟨more, rfl, splitWord⟩ : ∃ inner, more = gap ++ inner ∧ off ++ after = inner ++ (key ++ rest) := by
    rcases List.append_eq_append_iff.mp splitGap with found | ⟨tail, rfl, keyed⟩
    · exact found
    · cases tail with
      | nil => exact ⟨[], by simp, by simpa using keyed.symm⟩
      | cons c tail =>
        have letter := key_head c (by rw [keyed]; rfl)
        rw [gapSpace c (by simp)] at letter
        cases letter
  obtain ⟨more, rfl, rfl⟩ : ∃ inner, more = off ++ inner ∧ after = inner ++ (key ++ rest) := by
    rcases List.append_eq_append_iff.mp splitWord with found | ⟨tail, offed, -⟩
    · exact found
    · cases more with
      | nil => simp [key_eq, off_eq] at splitWord
      | cons c more =>
        obtain rfl : 'f' = c := (List.cons.inj offed).1
        exact (visible (key ++ gap) tail (List.append_assoc ..).symm (by decide) (by rw [← offed]; decide)).elim
  refine ⟨more ++ (key ++ rest'), by simp, blankPlace, filled, gapSpace, ?_⟩
  intro c first
  refine word c ?_
  cases more with
  | nil => simpa [key_eq] using first
  | cons d more => simpa using first

theorem Flag.length_eq {before' gap' after' : Text} (flag : Flag words text before gap after)
    (flag' : Flag words text before' gap' after') (same : before.length = before'.length) : before = before' :=
  List.append_inj_left (flag.split.symm.trans flag'.split) same

theorem Flag.lines (flag : Flag words text before gap after) :
    text = before ++ (key ++ (gap ++ (off ++ after.takeWhile (· ≠ '\n'))) ++ after.dropWhile (· ≠ '\n')) := by
  conv_lhs => rw [flag.split, ← List.takeWhile_append_dropWhile (p := fun c => decide (c ≠ '\n')) (l := after)]
  simp only [List.append_assoc]

theorem flipped_lines : flipped before after = before ++ (key ++ ' ' :: on ++ after.dropWhile (· ≠ '\n')) := by
  rw [flipped, List.append_assoc]

theorem single_edited : '\n' ∉ key ++ ' ' :: on := by decide

theorem single_line (single : '\n' ∉ gap) : '\n' ∉ key ++ (gap ++ (off ++ after.takeWhile (· ≠ '\n'))) := by
  have line : '\n' ∉ after.takeWhile (· ≠ '\n') := fun mem => by simpa using List.mem_takeWhile_imp mem
  have words : '\n' ∉ key ∧ '\n' ∉ off := by decide
  simp only [List.mem_append, words.1, words.2, single, line, or_self, not_false_eq_true]

theorem Target.of_flipped {place gap' after' : Text} (target : Target words text before gap after) (single : '\n' ∉ gap)
    (again : Target words (flipped before after) place gap' after') :
    ∃ other gap'' after'', Target words text other gap'' after'' ∧ other ≠ before := by
  obtain ⟨flag, opened⟩ := target
  obtain ⟨found, below⟩ := again
  rcases lt_trichotomy place.length before.length with shorter | same | longer
  · obtain ⟨after'', earlier⟩ := flag_earlier flag.blank shorter found (gap ++ (off ++ after))
    rw [← flag.split] at earlier
    exact ⟨place, gap', after'', ⟨earlier, below⟩, fun same => by simp [same] at shorter⟩
  · obtain rfl := List.append_inj_left found.split same.symm
    have edited : [' '] ++ (on ++ after.dropWhile (· ≠ '\n')) = gap' ++ (off ++ after') :=
      List.append_cancel_left (List.append_cancel_left found.split)
    have values := (append_cancel_class space_blank found.gap_space on_head off_head edited).2
    have letters : 't' = 'f' := (List.cons.inj values).1
    exact absurd letters (by decide)
  · rw [flipped_lines] at found
    obtain ⟨inner, rfl, lined, later⟩ := (flag_later single_edited longer).mp found
    refine ⟨before ++ (key ++ (gap ++ (off ++ after.takeWhile (· ≠ '\n'))) ++ inner), gap', after', ⟨?_, ?_⟩, ?_⟩
    · rw [flag.lines]
      exact (flag_later (single_line single) (by simp [key_eq])).mpr ⟨inner, rfl, lined, later⟩
    · exact opened.trans (List.prefix_append _ _).isInfix
    · simp [key_eq]

theorem Target.after_flipped {place gap' after' : Text} (target : Target words text before gap after) (single : '\n' ∉ gap)
    (other : Target words text place gap' after') (longer : before.length < place.length) :
    ∃ place', Target words (flipped before after) place' gap' after' := by
  obtain ⟨flag, opened⟩ := target
  obtain ⟨found, -⟩ := other
  rw [flag.lines] at found
  obtain ⟨inner, -, lined, later⟩ := (flag_later (single_line single) longer).mp found
  refine ⟨before ++ (key ++ ' ' :: on ++ inner), ?_, opened.trans (List.prefix_append _ _).isInfix⟩
  rw [flipped_lines]
  exact (flag_later single_edited (by simp [key_eq])).mpr ⟨inner, rfl, lined, later⟩

theorem Target.not_fixed {file : Text} (target : Target words (universalNewlines file) before gap after) :
    enableHttps words file ≠ file := by
  rcases enableHttps_spec words file with ⟨-, none⟩ | ⟨before', gap', after', target', result, -⟩
  · exact absurd target (none before gap after)
  · intro same
    have less := target'.1.length_flipped.trans_le (length_universalNewlines_le file)
    rw [← result, same] at less
    omega

theorem Flag.not_mem_flipped {c : Char} (flag : Flag words text before gap after) (absent : c ∉ text)
    (other : c ∉ key ++ ' ' :: on) : c ∉ flipped before after := by
  rw [flipped_lines]
  rw [flag.split] at absent
  have suffix := List.dropWhile_suffix (fun c => decide (c ≠ '\n')) (l := after)
  simp only [List.mem_append, not_or] at absent other ⊢
  exact ⟨absent.1, other, fun mem => absent.2.2.2.2 (suffix.subset mem)⟩

theorem Target.not_mem_enableHttps {file : Text} (target : Target words (universalNewlines file) before gap after) :
    '\r' ∉ enableHttps words file := by
  rcases enableHttps_spec words file with ⟨-, none⟩ | ⟨before', gap', after', target', result, -⟩
  · exact absurd target (none before gap after)
  · rw [result]
    exact target'.1.not_mem_flipped (not_mem_universalNewlines file) (by decide)

example : enableHttps Words.ascii "; Dracon\r\nhttps \x7b\n    enabled false\n\x7d\n".toList =
    "; Dracon\nhttps \x7b\n    enabled true\n\x7d\n".toList := by
  decide +kernel

end

inductive Mode where
  | code
  | comment
  | quoted
  | escaped
  deriving DecidableEq

def scanStep : Nat × Mode → Char → Nat × Mode
  | (depth, .code), ';' => (depth, .comment)
  | (depth, .code), '"' => (depth, .quoted)
  | (depth, .code), '\x7b' => (depth + 1, .code)
  | (depth, .code), '\x7d' => (depth - 1, .code)
  | (depth, .comment), '\n' => (depth, .code)
  | (depth, .quoted), '"' => (depth, .code)
  | (depth, .quoted), '\\' => (depth, .escaped)
  | (depth, .escaped), _ => (depth, .quoted)
  | state, _ => state

def scan (depth : Nat) (text : Text) : Nat × Mode := text.foldl scanStep (depth, .code)

def isValue (c : Char) : Bool := !isSpace c && c != ';' && c != '\x7b' && c != '\x7d'

-- A section of the top level, written as `https {`.
structure HttpsSection (text outer body rest : Text) : Prop where
  split : text = outer ++ (httpsOpen ++ (body ++ rest))
  header : ∀ c ∈ lastPiece '\n' outer, isSpace c
  outside : scan 0 outer = (0, .code)
  inside : ∀ part, part <+: body → 1 ≤ (scan 1 part).1
  ended : scan 1 body = (1, .code)
  close : rest.head? = some '\x7d'

-- A line of the section itself, not of a section within it, that begins with `enabled`.
structure EnabledLine (body above gap value below : Text) : Prop where
  split : body = above ++ (key ++ (gap ++ (value ++ below)))
  own : scan 1 above = (1, .code)
  line : '\n' ∈ above
  blank : ∀ c ∈ lastPiece '\n' above, isSpace c
  gap_ne : gap ≠ []
  gap_space : ∀ c ∈ gap, isSpace c
  gap_line : '\n' ∉ gap
  value_ne : value ≠ []
  value_all : ∀ c ∈ value, isValue c
  ends : ∀ c ∈ below.head?, isValue c = false

structure OnlyEnabled (words : Words) (text outer body rest : Text) : Prop where
  value : enableHttps words text = text ∨ ∃ above gap value value' below, EnabledLine body above gap value below ∧
    value' ≠ [] ∧ (∀ c ∈ value', isValue c) ∧
    enableHttps words text = outer ++ (httpsOpen ++ (above ++ (key ++ (gap ++ (value' ++ (below ++ rest))))))
  enabled : (∃ above gap below, EnabledLine body above gap on below) → enableHttps words text = text
  twice : enableHttps words (enableHttps words text) = enableHttps words text

-- There is at most one place, its line is one of the section and has nothing but the value behind one blank, and there are no
-- carriage returns in a file that has such a place.
structure Harmless (words : Words) (text outer body : Text) : Prop where
  newlines : ∀ before gap after, Target words (universalNewlines text) before gap after → '\r' ∉ text
  own : ∀ before gap after, Target words (universalNewlines text) before gap after →
    ∃ above tail below, before = outer ++ (httpsOpen ++ above) ∧ EnabledLine body above [' '] (off ++ tail) ('\n' :: below)
  once : ∀ before gap after before' gap' after', Target words (universalNewlines text) before gap after →
    Target words (universalNewlines text) before' gap' after' → before = before'
  disabled : ∀ before gap after, Target words (universalNewlines text) before gap after →
    ¬ ∃ above gap below, EnabledLine body above gap on below

section

variable {words : Words} {text before gap after : Text}

theorem not_space_of_isValue {c : Char} (value : isValue c) : isSpace c = false := by
  cases space : isSpace c with
  | false => rfl
  | true => simp [isValue, space] at value

theorem newline_not_mem_of_isValue {value : Text} (all : ∀ c ∈ value, isValue c) : '\n' ∉ value :=
  fun mem => absurd (all '\n' mem) (by decide)

theorem head?_dropWhile_line (after : Text) : ∀ c ∈ (after.dropWhile (· ≠ '\n')).head?, c = '\n' := by
  intro c first
  have stops := List.head?_dropWhile_not (· ≠ '\n') after
  rw [Option.mem_def.mp first] at stops
  simpa using stops

theorem all_of_single (single : '\n' ∉ text) : ∀ c ∈ text, decide (c ≠ '\n') :=
  fun _ mem => decide_eq_true fun same => single (same ▸ mem)

theorem found_ne_edited (text : Text) (filled : gap ≠ []) : gap ++ (off ++ text) ≠ ' ' :: on := by
  intro same
  have sizes := congrArg List.length same
  have positive := List.length_pos_of_ne_nil filled
  have words : off.length = 5 ∧ on.length = 4 := by decide
  simp only [List.length_append, List.length_cons] at sizes
  omega

theorem not_mem_of_count {x y u v : Text} (same : x ++ y = u ++ v) (first : List.count '\n' x = List.count '\n' u)
    (single : '\n' ∉ v) : '\n' ∉ y := by
  have counts := congrArg (List.count '\n') same
  rw [List.count_append, List.count_append, first, List.count_eq_zero.mpr single] at counts
  exact List.count_eq_zero.mp (Nat.add_left_cancel counts)

theorem not_edited_above {front space value value' inner line : Text} (blank : ∀ c ∈ lastPiece '\n' before, isSpace c)
    (blank' : ∀ c ∈ lastPiece '\n' front, isSpace c) (filled : space ≠ []) (single : '\n' ∉ space)
    (all : ∀ c ∈ value, isValue c) (all' : ∀ c ∈ value', isValue c)
    (edge : before ++ key = front ++ (key ++ (space ++ (value ++ inner))))
    (same : value ++ (inner ++ ' ' :: on) = value' ++ (inner ++ line)) : line = ' ' :: on := by
  have unlined := newline_not_mem_of_isValue all
  have unlined' := newline_not_mem_of_isValue all'
  have keyLine : '\n' ∉ key := by decide
  have edited : '\n' ∉ ' ' :: on := by decide
  -- the two lines are different ones, as both begin with the key
  have lined : '\n' ∈ inner := by
    by_contra absent
    have last := congrArg (lastPiece '\n') edge
    rw [lastPiece_append_of_not_mem keyLine, lastPiece_append_of_not_mem (by
      simp only [List.mem_append, keyLine, single, unlined, absent, or_self, not_false_eq_true])] at last
    have keys := (append_cancel_class blank blank' (by simpa using @key_head []) key_head last).2
    rw [List.self_eq_append_right] at keys
    exact filled (List.append_eq_nil_iff.mp keys).1
  have single' : '\n' ∉ line := by
    refine not_mem_of_count (x := value' ++ inner) (u := value ++ inner) (by simpa using same.symm) ?_ edited
    rw [List.count_append, List.count_append, List.count_eq_zero.mpr unlined, List.count_eq_zero.mpr unlined']
  have last := congrArg (lastPiece '\n') same
  rw [← List.append_assoc, ← List.append_assoc, lastPiece_append_of_not_mem edited, lastPiece_append_of_not_mem single',
    lastPiece_append_of_mem lined, lastPiece_append_of_mem lined] at last
  exact (List.append_cancel_left last).symm

theorem not_edited_below (inner : Text) {value value' line : Text} (all : ∀ c ∈ value, isValue c) (all' : ∀ c ∈ value', isValue c)
    (same : line ++ ('\n' :: inner ++ value') = ' ' :: on ++ ('\n' :: inner ++ value)) : line = ' ' :: on := by
  have edited : '\n' ∉ ' ' :: on := by decide
  have single : '\n' ∉ line := by
    have counts := congrArg (List.count '\n') same
    rw [List.count_append, List.count_append, List.count_append, List.count_append, List.count_eq_zero.mpr edited,
      List.count_eq_zero.mpr (newline_not_mem_of_isValue all), List.count_eq_zero.mpr (newline_not_mem_of_isValue all')] at counts
    exact List.count_eq_zero.mp (by omega)
  exact (append_cancel_class (all_of_single single) (all_of_single edited) (by simp) (by simp) same).1

theorem on_value : ∀ c ∈ on, isValue c := by simp [on_eq, isValue, isSpace]

theorem value_head {value : Text} (all : ∀ c ∈ value, isValue c) : ∀ c ∈ value.head?, isSpace c = false :=
  fun c first => not_space_of_isValue (all c (List.mem_of_mem_head? first))

theorem edited_here {space value value' back below trailer : Text} (gapSpace : ∀ c ∈ gap, isSpace c)
    (spaces : ∀ c ∈ space, isSpace c) (all : ∀ c ∈ value, isValue c) (filled' : value' ≠ []) (all' : ∀ c ∈ value', isValue c)
    (ends : ∀ c ∈ back.head?, isValue c = false) (newline : ∀ c ∈ below.head?, c = '\n')
    (old : gap ++ (off ++ trailer) ++ below = space ++ (value ++ back)) (new : ' ' :: on ++ below = space ++ (value' ++ back)) :
    space = [' '] ∧ gap = [' '] ∧ value = off ++ trailer ∧ back = below := by
  have letter : ∀ c ∈ (value' ++ back).head?, isSpace c = false := by
    rw [List.head?_append_of_ne_nil _ filled']
    exact value_head all'
  obtain ⟨rfl, values⟩ := append_cancel_class space_blank spaces on_head letter (show [' '] ++ (on ++ below) = _ from new)
  have stops : ∀ c ∈ below.head?, isValue c = false := by
    intro c first
    rw [newline c first]
    decide
  obtain ⟨-, rfl⟩ := append_cancel_class on_value all' stops ends values
  have replaced : gap ++ (off ++ trailer) = [' '] ++ value :=
    (List.append_left_inj below).mp (by simpa only [List.append_assoc] using old)
  obtain ⟨rfl, rfl⟩ := append_cancel_class gapSpace space_blank off_head (value_head all) replaced
  exact ⟨rfl, rfl, rfl, rfl⟩

theorem edited_value {front space value value' back : Text} (flag : Flag words text before gap after)
    (blank : ∀ c ∈ lastPiece '\n' front, isSpace c) (filled : space ≠ []) (spaces : ∀ c ∈ space, isSpace c)
    (line : '\n' ∉ space) (all : ∀ c ∈ value, isValue c) (filled' : value' ≠ []) (all' : ∀ c ∈ value', isValue c)
    (ends : ∀ c ∈ back.head?, isValue c = false) (old : text = front ++ (key ++ (space ++ (value ++ back))))
    (new : flipped before after = front ++ (key ++ (space ++ (value' ++ back)))) :
    before = front ∧ space = [' '] ∧ gap = [' '] ∧ value = off ++ after.takeWhile (· ≠ '\n') ∧
      back = after.dropWhile (· ≠ '\n') := by
  have whole : before ++ key ++ (gap ++ (off ++ after.takeWhile (· ≠ '\n')) ++ after.dropWhile (· ≠ '\n')) =
      front ++ (key ++ space) ++ (value ++ back) := by
    rw [flag.lines] at old
    simpa only [List.append_assoc] using old
  have result : before ++ key ++ (' ' :: on ++ after.dropWhile (· ≠ '\n')) = front ++ (key ++ space) ++ (value' ++ back) := by
    rw [flipped_lines] at new
    simpa only [List.append_assoc] using new
  have newline : ∀ c ∈ (after.dropWhile (· ≠ '\n')).head?, c = '\n' := head?_dropWhile_line after
  have other := found_ne_edited (after.takeWhile (· ≠ '\n')) flag.gap_ne
  generalize after.dropWhile (· ≠ '\n') = below at *
  generalize after.takeWhile (· ≠ '\n') = trailer at *
  have keyLine : '\n' ∉ key := by decide
  rcases List.append_eq_append_iff.mp whole with ⟨more, edge, rest⟩ | ⟨more, edge, rest⟩
  · have edited : ' ' :: on ++ below = more ++ (value' ++ back) := by
      rw [edge, List.append_assoc (before ++ key)] at result
      exact List.append_cancel_left result
    by_cases lined : '\n' ∈ more
    · obtain ⟨inner, rfl, rfl⟩ : ∃ inner, more = ' ' :: on ++ inner ∧ below = inner ++ (value' ++ back) := by
        rcases List.append_eq_append_iff.mp edited with found | ⟨tail, same, -⟩
        · exact found
        · exact absurd (same ▸ List.mem_append_left _ lined) (by decide)
      cases inner with
      | nil => exact absurd lined (by decide)
      | cons c inner =>
        obtain rfl := newline c rfl
        refine absurd (not_edited_below inner all all' ?_) other
        refine (List.append_left_inj back).mp ?_
        simpa only [List.append_assoc] using rest
    · have edge' : before ++ (key ++ more) = front ++ (key ++ space) := by rw [edge, List.append_assoc]
      have last := congrArg (lastPiece '\n') edge'
      rw [lastPiece_append_of_not_mem (by simp [keyLine, lined]), lastPiece_append_of_not_mem (by simp [keyLine, line])] at last
      obtain rfl := List.append_cancel_left (append_cancel_class flag.blank blank key_head key_head last).2
      exact ⟨List.append_cancel_right edge', edited_here flag.gap_space spaces all filled' all' ends newline rest edited⟩
  · obtain ⟨inner, rfl, rfl⟩ : ∃ inner, more = value ++ inner ∧ back = inner ++ (gap ++ (off ++ trailer) ++ below) := by
      rcases List.append_eq_append_iff.mp rest with found | ⟨tail, rfl, found⟩
      · exact found
      · cases tail with
        | nil => exact ⟨[], by simp, found.symm⟩
        | cons c tail =>
          have letter := not_space_of_isValue (all c (by simp))
          cases gap with
          | nil => exact absurd rfl flag.gap_ne
          | cons d gap =>
            obtain rfl : d = c := (List.cons.inj found).1
            rw [flag.gap_space d List.mem_cons_self] at letter
            cases letter
    refine absurd (not_edited_above flag.blank blank filled line all all' (by simpa only [List.append_assoc] using edge) ?_) other
    rw [edge] at result
    refine (List.append_left_inj below).mp ((List.append_right_inj (front ++ (key ++ space))).mp ?_)
    simpa only [List.append_assoc] using result

variable {outer body rest : Text}

theorem EnabledLine.front_blank {above space value below : Text} (line : EnabledLine body above space value below)
    (outer : Text) :
    ∀ c ∈ lastPiece '\n' (outer ++ (httpsOpen ++ above)), isSpace c := by
  rw [← List.append_assoc, lastPiece_append_of_mem line.line]
  exact line.blank

theorem EnabledLine.flipped_eq {above tail below : Text} (https : HttpsSection text outer body rest)
    (flag : Flag words text (outer ++ (httpsOpen ++ above)) gap after)
    (line : EnabledLine body above [' '] (off ++ tail) ('\n' :: below)) :
    gap = [' '] ∧ flipped (outer ++ (httpsOpen ++ above)) after =
      outer ++ (httpsOpen ++ (above ++ (key ++ ([' '] ++ (on ++ ('\n' :: below ++ rest)))))) := by
  have same : gap ++ (off ++ after) = [' '] ++ (off ++ (tail ++ ('\n' :: below ++ rest))) := by
    refine (List.append_right_inj (outer ++ (httpsOpen ++ (above ++ key)))).mp ?_
    have both := flag.split.symm.trans https.split
    rw [line.split] at both
    simpa only [List.append_assoc] using both
  obtain ⟨rfl, words⟩ := append_cancel_class flag.gap_space space_blank off_head off_head same
  obtain rfl := List.append_cancel_left words
  have single : '\n' ∉ tail := fun mem => newline_not_mem_of_isValue line.value_all (List.mem_append_right _ mem)
  refine ⟨rfl, ?_⟩
  rw [flipped, List.dropWhile_append_of_pos (all_of_single single)]
  simp

theorem Harmless.onlyEnabled (https : HttpsSection text outer body rest) (harmless : Harmless words text outer body) :
    OnlyEnabled words text outer body rest := by
  rcases enableHttps_spec words text with ⟨same, -⟩ | ⟨before, gap, after, target, result, -⟩
  · exact ⟨.inl same, fun _ => same, by rw [same, same]⟩
  · have written := target.not_mem_enableHttps
    have plain := universalNewlines_of_not_mem (harmless.newlines before gap after target)
    obtain ⟨above, tail, below, rfl, line⟩ := harmless.own before gap after target
    obtain ⟨rfl, edited⟩ := line.flipped_eq https (plain ▸ target.1)
    refine ⟨.inr ⟨above, [' '], off ++ tail, on, '\n' :: below, line, by decide, on_value, result.trans edited⟩, ?_, ?_⟩
    · exact fun already => absurd already (harmless.disabled _ _ _ target)
    · rcases enableHttps_spec words (enableHttps words text) with ⟨same, -⟩ | ⟨place, gap', after', again, -, -⟩
      · exact same
      · rw [universalNewlines_of_not_mem written, result] at again
        obtain ⟨other, gap'', after'', target', ne⟩ := target.of_flipped line.gap_line again
        exact absurd (harmless.once _ _ _ _ _ _ target' target) ne

theorem OnlyEnabled.not_mem (https : HttpsSection text outer body rest) (only : OnlyEnabled words text outer body rest)
    (target : Target words (universalNewlines text) before gap after) : '\r' ∉ text := by
  obtain ⟨above, space, value, value', below, line, -, -, new⟩ := only.value.resolve_left target.not_fixed
  have written := target.not_mem_enableHttps
  have blank : '\r' ∉ value := fun mem => absurd (line.value_all '\r' mem) (by decide)
  rw [new] at written
  rw [https.split, line.split]
  simp only [List.mem_append, not_or] at written ⊢
  obtain ⟨outside, header, front, word, gap, -, back, behind⟩ := written
  exact ⟨outside, header, ⟨front, word, gap, blank, back⟩, behind⟩

theorem OnlyEnabled.harmless (https : HttpsSection text outer body rest) (only : OnlyEnabled words text outer body rest) :
    Harmless words text outer body := by
  rcases enableHttps_spec words text with ⟨-, none⟩ | ⟨before, gap, after, target, result, least⟩
  · refine ⟨fun _ _ _ target => absurd target (none _ _ _), fun _ _ _ target => absurd target (none _ _ _), ?_, ?_⟩
    · exact fun _ _ _ _ _ _ target _ => absurd target (none _ _ _)
    · exact fun _ _ _ target => absurd target (none _ _ _)
  · have changed := target.not_fixed
    have absent := only.not_mem https target
    have plain := universalNewlines_of_not_mem absent
    obtain ⟨above, space, value, value', below, line, filled, all, new⟩ := only.value.resolve_left changed
    have ends : ∀ c ∈ (below ++ rest).head?, isValue c = false := by
      cases below with
      | nil =>
        rw [List.nil_append, https.close]
        rintro c ⟨⟩
        decide
      | cons d below => exact line.ends
    obtain ⟨rfl, rfl, rfl, rfl, back⟩ := edited_value target.1 (line.front_blank outer) line.gap_ne line.gap_space
      line.gap_line line.value_all filled all ends
      (by rw [plain, https.split, line.split]; simp only [List.append_assoc])
      (by rw [← result, new]; simp only [List.append_assoc])
    obtain ⟨under, rfl⟩ : ∃ under, below = '\n' :: under := by
      have newline := head?_dropWhile_line after
      rw [← back] at newline
      cases below with
      | nil =>
        rw [List.nil_append, https.close] at newline
        exact absurd (newline '\x7d' rfl) (by decide)
      | cons d below => exact ⟨below, by rw [newline d rfl]⟩
    have once {place gap' after'} (other : Target words (universalNewlines text) place gap' after') :
        place = outer ++ (httpsOpen ++ above) := by
      rcases (least _ _ _ other).eq_or_lt with same | longer
      · exact (target.1.length_eq other.1 same).symm
      · obtain ⟨place', again⟩ := target.after_flipped line.gap_line other longer
        rw [← result, ← universalNewlines_of_not_mem target.not_mem_enableHttps] at again
        exact absurd only.twice again.not_fixed
    refine ⟨fun _ _ _ _ => absent, fun _ _ _ other => ⟨above, _, under, once other, line⟩, ?_, ?_⟩
    · exact fun _ _ _ _ _ _ first second => (once first).trans (once second).symm
    · exact fun _ _ _ _ already => changed (only.enabled already)

end

/-- The substitution edits the value of the section alone, and only once, exactly if what the expression
finds behind `https {` is nothing, or that one value. -/
theorem enable_https_only_enabled_iff (words : Words) {text outer body rest : Text}
    (https : HttpsSection text outer body rest) :
    OnlyEnabled words text outer body rest ↔ Harmless words text outer body :=
  ⟨fun only => only.harmless https, fun harmless => harmless.onlyEnabled https⟩

theorem inside_of_inits {body : Text} (checked : ∀ part ∈ body.inits, 1 ≤ (scan 1 part).1) :
    ∀ part, part <+: body → 1 ≤ (scan 1 part).1 :=
  fun part inits => checked part ((List.mem_inits part body).mpr inits)

def sampleConf : Text := "; Dracon\nhttps \x7b\n    enabled false\n    port 443 ; HTTPS Port\n\x7d\n".toList

def sampleBody : Text := "\n    enabled false\n    port 443 ; HTTPS Port\n".toList

theorem sample_section : HttpsSection sampleConf "; Dracon\n".toList sampleBody "\x7d\n".toList :=
  ⟨by decide +kernel, List.all_eq_true.mp (by decide +kernel), by decide +kernel, inside_of_inits (by decide +kernel),
    by decide +kernel, by decide +kernel⟩

theorem sample_line :
    EnabledLine sampleBody "\n    ".toList [' '] (off ++ []) ('\n' :: "    port 443 ; HTTPS Port\n".toList) :=
  ⟨by decide +kernel, by decide +kernel, by decide +kernel, List.all_eq_true.mp (by decide +kernel), by decide,
    space_blank, by decide, by decide, List.all_eq_true.mp (by decide +kernel), by rintro c ⟨⟩; decide⟩

theorem key_place {text before rest : Text} (n : Nat) (split : text = before ++ (key ++ rest))
    (checked : ∀ k ∈ List.range text.length, key <+: text.drop k → k = n) : before = text.take n ∧ rest = text.drop (n + 7) := by
  have size : key.length = 7 := by decide
  have below : before.length < text.length := by
    rw [split, List.length_append, List.length_append]
    omega
  have here : key <+: text.drop before.length := by
    rw [split, List.drop_left]
    exact List.prefix_append key rest
  obtain rfl := checked before.length (List.mem_range.mpr below) here
  rw [split, List.take_left, ← size, ← List.drop_drop, List.drop_left, List.drop_left]
  exact ⟨rfl, rfl⟩

theorem sample_harmless : Harmless Words.ascii sampleConf "; Dracon\n".toList sampleBody := by
  have plain : '\r' ∉ sampleConf := by decide +kernel
  have place {before gap after : Text} (target : Target Words.ascii (universalNewlines sampleConf) before gap after) :
      before = "; Dracon\n".toList ++ (httpsOpen ++ "\n    ".toList) := by
    rw [universalNewlines_of_not_mem plain] at target
    exact (key_place 21 target.1.split (by decide +kernel)).1.trans (by decide +kernel)
  refine ⟨fun _ _ _ _ => plain, fun before gap after target => ⟨_, _, _, place target, sample_line⟩, ?_, ?_⟩
  · exact fun _ _ _ _ _ _ first second => (place first).trans (place second).symm
  · rintro _ _ _ - ⟨above, gap, below, line⟩
    have behind : gap ++ (on ++ below) = [' '] ++ (off ++ "\n    port 443 ; HTTPS Port\n".toList) :=
      (key_place 5 line.split (by decide +kernel)).2.trans (by decide +kernel)
    have values := (append_cancel_class line.gap_space space_blank on_head off_head behind).2
    have letters : 't' = 'f' := (List.cons.inj values).1
    exact absurd letters (by decide)

theorem enable_https_only_enabled_iff_disabled :
    HttpsSection sampleConf "; Dracon\n".toList sampleBody "\x7d\n".toList ∧
      Harmless Words.ascii sampleConf "; Dracon\n".toList sampleBody ∧
      OnlyEnabled Words.ascii sampleConf "; Dracon\n".toList sampleBody "\x7d\n".toList ∧
      enableHttps Words.ascii sampleConf =
        "; Dracon\nhttps \x7b\n    enabled true\n    port 443 ; HTTPS Port\n\x7d\n".toList :=
  ⟨sample_section, sample_harmless, (enable_https_only_enabled_iff Words.ascii sample_section).mpr sample_harmless,
    by decide +kernel⟩

/-- HTTPS is enabled already, and so the flag of the next section is set. -/
theorem next_section_enabled :
    HttpsSection "https \x7b\n    enabled true\n\x7d\nstatus \x7b\n    enabled false\n\x7d\n".toList [] "\n    enabled true\n".toList
        "\x7d\nstatus \x7b\n    enabled false\n\x7d\n".toList ∧
      enableHttps Words.ascii "https \x7b\n    enabled true\n\x7d\nstatus \x7b\n    enabled false\n\x7d\n".toList =
        "https \x7b\n    enabled true\n\x7d\nstatus \x7b\n    enabled true\n\x7d\n".toList ∧
      ¬ OnlyEnabled Words.ascii "https \x7b\n    enabled true\n\x7d\nstatus \x7b\n    enabled false\n\x7d\n".toList []
        "\n    enabled true\n".toList "\x7d\nstatus \x7b\n    enabled false\n\x7d\n".toList := by
  have result : enableHttps Words.ascii "https \x7b\n    enabled true\n\x7d\nstatus \x7b\n    enabled false\n\x7d\n".toList =
      "https \x7b\n    enabled true\n\x7d\nstatus \x7b\n    enabled true\n\x7d\n".toList := by decide +kernel
  refine ⟨⟨by decide +kernel, List.all_eq_true.mp (by decide +kernel), by decide +kernel,
    inside_of_inits (by decide +kernel), by decide +kernel, by decide +kernel⟩, result, fun only => ?_⟩
  have line : EnabledLine "\n    enabled true\n".toList "\n    ".toList [' '] on ['\n'] :=
    ⟨by decide +kernel, by decide +kernel, by decide +kernel, List.all_eq_true.mp (by decide +kernel), by decide,
      space_blank, by decide, by decide, on_value, by rintro c ⟨⟩; decide⟩
  have same := only.enabled ⟨_, _, _, line⟩
  rw [result] at same
  exact absurd same (by decide +kernel)

end Dracon.Certbot
