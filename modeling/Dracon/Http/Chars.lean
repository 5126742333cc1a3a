import Mathlib
import Dracon.Shared.Cut

set_option autoImplicit false

namespace Dracon

open Shared

abbrev Byte := UInt8

abbrev Bytes := List Byte

def ch (c : Char) : Byte := c.toNat.toUInt8

def bytes (text : String) : Bytes := text.toList.map ch

abbrev lf : Byte := 10
abbrev cr : Byte := 13
abbrev sp : Byte := 32
abbrev htab : Byte := 9
abbrev crlf : Bytes := [cr, lf]

abbrev sizeMod : Nat := 2 ^ 64

def chunkedData : Nat := sizeMod - 1

inductive CharClass where
  | tokenChar
  | targetChar
  | valueChar
  | hexChar
  deriving DecidableEq, Repr

def isAlpha (c : Byte) : Bool := (ch 'a' ≤ c && c ≤ ch 'z') || (ch 'A' ≤ c && c ≤ ch 'Z')

def isDigit (c : Byte) : Bool := ch '0' ≤ c && c ≤ ch '9'

def charTable (c : Byte) : CharClass → Bool
  | .tokenChar => isAlpha c || isDigit c || (bytes "!#$%&'*+-.^_`|~").contains c
  | .targetChar => 0x20 < c && c < 0x7f
  | .valueChar => c == htab || (0x20 ≤ c && c != 0x7f)
  | .hexChar => isDigit c || (ch 'a' ≤ c && c ≤ ch 'f') || (ch 'A' ≤ c && c ≤ ch 'F')

def allChars (str : Bytes) (charClass : CharClass) : Bool :=
  str.all fun c => charTable c charClass

def toLowerAscii (c : Byte) : Byte := if ch 'A' ≤ c ∧ c ≤ ch 'Z' then c + 32 else c

def toUpperAscii (c : Byte) : Byte := if ch 'a' ≤ c ∧ c ≤ ch 'z' then c - 32 else c

def hexValue (c : Byte) : Nat :=
  if c ≤ ch '9' then (c - ch '0').toNat else (toLowerAscii c - ch 'a' + 10).toNat

def iequals (a b : Bytes) : Bool := a.map toLowerAscii == b.map toLowerAscii

def isOws (c : Byte) : Bool := c == sp || c == htab

def trimOws (str : Bytes) : Bytes := (str.dropWhile isOws).rdropWhile isOws

-- The calls `for_each_token` makes, in order: one for every non empty, comma separated token.
def forEachToken {σ : Type} (fn : σ → Bytes → σ) (acc : σ) (value : Bytes) : σ :=
  match _found : cut (ch ',') value with
  | none => if trimOws value = [] then acc else fn acc (trimOws value)
  | some (token, rest) =>
      forEachToken fn (if trimOws token = [] then acc else fn acc (trimOws token)) rest
termination_by value.length
decreasing_by
  obtain ⟨rfl, -⟩ := cut_eq_some.mp _found
  simp
  omega

theorem forEachToken_induction {σ : Type} {fn : σ → Bytes → σ} {P : σ → Prop}
    (visit : ∀ s token, P s → P (fn s token)) {s : σ} (start : P s) (value : Bytes) :
    P (forEachToken fn s value) := by
  fun_induction forEachToken fn s value with
  | case1 => exact start
  | case2 => exact visit _ _ start
  | case3 s value token rest found ih =>
    apply ih
    split_ifs
    · exact start
    · exact visit _ _ start

def canonicalFrom : Bool → Bytes → Bytes
  | _, [] => []
  | upper, c :: rest =>
      (if upper then toUpperAscii c else toLowerAscii c) :: canonicalFrom (c == ch '-') rest

def canonicalName (name : Bytes) : Bytes := canonicalFrom true name

structure Line where
  -- without the line terminator
  text : Bytes
  -- position of the next line
  next : Nat

def stripCr (text : Bytes) : Bytes := if text.getLast? = some cr then text.dropLast else text

def nextLine (data : Bytes) : Option Line :=
  (cut lf data).map fun parts => { text := stripCr parts.1, next := parts.1.length + 1 }

def digitValue (c : Byte) : Nat := (c - ch '0').toNat

-- `std::from_chars` for `size_t`: the value of the leading digits and what follows them.
def fromChars (value : Bytes) : Option (Nat × Bytes) :=
  let digits := value.takeWhile isDigit
  let length := digits.foldl (fun acc c => 10 * acc + digitValue c) 0
  if digits = [] ∨ sizeMod ≤ length then none else some (length, value.dropWhile isDigit)

end Dracon
