import Mathlib
import Dracon.Http.BodyGrammar
import Dracon.Http.Url

set_option autoImplicit false

namespace Dracon

open Shared

inductive FormEncoding : Bytes → Bytes → Prop
  | nil : FormEncoding [] []
  | escape {c high low : Byte} {text encoded : Bytes} : HexDigit high → HexDigit low → c.toNat = hexNumber [high, low] →
      FormEncoding text encoded → FormEncoding (c :: text) (ch '%' :: high :: low :: encoded)
  | space {text encoded : Bytes} : FormEncoding text encoded → FormEncoding (sp :: text) (ch '+' :: encoded)
  | plain {c : Byte} {text encoded : Bytes} : c ≠ ch '%' → c ≠ ch '+' → FormEncoding text encoded →
      FormEncoding (c :: text) (c :: encoded)

theorem fromHex_of_hexDigit {c : Byte} (hex : HexDigit c) : ∃ value, fromHex c = .ok value ∧ value.toNat = hexValue c := by
  simp only [fromHex, hexValue, toLowerAscii]
  rcases hex with decimal | lower | upper
  · have range : ch '0' ≤ c ∧ c ≤ ch '9' := decimal
    rw [if_pos range, if_pos range.2]
    exact ⟨_, rfl, rfl⟩
  · simp only [ch_values] at lower ⊢
    rw [if_neg (by grind), if_pos lower, if_neg (by grind), if_neg (by grind)]
    have same : 10 + c - 97 = c - 97 + 10 := by grind
    exact ⟨_, rfl, congrArg UInt8.toNat same⟩
  · simp only [ch_values] at upper ⊢
    rw [if_neg (by grind), if_neg (by grind), if_pos upper, if_neg (by grind), if_pos (by grind)]
    have same : 10 + c - 65 = c + 32 - 97 + 10 := by grind
    exact ⟨_, rfl, congrArg UInt8.toNat same⟩

theorem fromHex_eq_ok {c value : Byte} : fromHex c = .ok value ↔ HexDigit c ∧ value.toNat = hexValue c := by
  constructor
  · intro decoded
    have hex : HexDigit c := by
      unfold fromHex at decoded
      split_ifs at decoded with decimal lower upper
      · exact .inl decimal
      · exact .inr (.inl lower)
      · exact .inr (.inr upper)
    obtain ⟨value', decoded', same⟩ := fromHex_of_hexDigit hex
    cases decoded.symm.trans decoded'
    exact ⟨hex, same⟩
  · rintro ⟨hex, same⟩
    obtain ⟨value', decoded, same'⟩ := fromHex_of_hexDigit hex
    rw [decoded, UInt8.toNat_inj.mp (same.trans same'.symm)]

theorem unescaped_byte {c high low first second : Byte} (isHigh : HexDigit high) (isLow : HexDigit low)
    (firstValue : first.toNat = hexValue high) (secondValue : second.toNat = hexValue low) :
    first <<< 4 ||| second = c ↔ c.toNat = hexNumber [high, low] := by
  have number : hexNumber [high, low] = 16 * hexValue high + hexValue low := by simp [hexNumber]
  have joined : (first <<< 4 ||| second).toNat = hexNumber [high, low] := by
    rw [number, nibbles_toNat (firstValue ▸ hexValue_lt isHigh) (secondValue ▸ hexValue_lt isLow), firstValue,
      secondValue]
  rw [← UInt8.toNat_inj, joined, eq_comm]

theorem formEncoding_escape {text encoded : Bytes} {high low : Byte} :
    FormEncoding text (ch '%' :: high :: low :: encoded) ↔
      ∃ c rest, text = c :: rest ∧ HexDigit high ∧ HexDigit low ∧ c.toNat = hexNumber [high, low] ∧
        FormEncoding rest encoded := by
  constructor
  · intro encoding
    cases encoding with
    | escape first second value rest => exact ⟨_, _, rfl, first, second, value, rest⟩
    | plain differs => exact absurd rfl differs
  · rintro ⟨c, rest, rfl, first, second, value, encoding⟩
    exact .escape first second value encoding

theorem formEncoding_short {text rest : Bytes} (short : rest.length < 2) : ¬ FormEncoding text (ch '%' :: rest) := by
  intro encoding
  cases encoding with
  | escape =>
    simp only [List.length_cons] at short
    omega
  | plain differs => exact absurd rfl differs

theorem formEncoding_cons {text encoded : Bytes} {c : Byte} (other : c ≠ ch '%') :
    FormEncoding text (c :: encoded) ↔
      ∃ rest, text = (if c = ch '+' then sp else c) :: rest ∧ FormEncoding rest encoded := by
  constructor
  · intro encoding
    cases encoding with
    | escape => exact absurd rfl other
    | space rest => exact ⟨_, by simp, rest⟩
    | plain _ differs rest => exact ⟨_, by simp [differs], rest⟩
  · rintro ⟨rest, rfl, encoding⟩
    split_ifs with plus
    · rw [plus]
      exact .space encoding
    · exact .plain other plus encoding

theorem unescapeUrl_eq_ok {encoded text : Bytes} : unescapeUrl encoded = .ok text ↔ FormEncoding text encoded := by
  fun_induction unescapeUrl encoded generalizing text with
  | case1 =>
    constructor
    · intro decoded
      cases decoded
      exact .nil
    · intro encoding
      cases encoding
      rfl
  | case2 high low rest ih =>
    rw [formEncoding_escape]
    simp only [bind_eq_ok, pure, Except.pure, Except.ok.injEq, ih, fromHex_eq_ok]
    constructor
    · rintro ⟨first, ⟨isHigh, firstValue⟩, second, ⟨isLow, secondValue⟩, out, encoding, rfl⟩
      exact ⟨_, out, rfl, isHigh, isLow, (unescaped_byte isHigh isLow firstValue secondValue).mp rfl, encoding⟩
    · rintro ⟨c, out, rfl, isHigh, isLow, value, encoding⟩
      obtain ⟨first, -, firstValue⟩ := fromHex_of_hexDigit isHigh
      obtain ⟨second, -, secondValue⟩ := fromHex_of_hexDigit isLow
      have joined := (unescaped_byte isHigh isLow firstValue secondValue).mpr value
      exact ⟨first, ⟨isHigh, firstValue⟩, second, ⟨isLow, secondValue⟩, out, encoding, by rw [joined]⟩
  | case3 rest short =>
    refine iff_of_false ?_ (formEncoding_short (length_of_not_pair short))
    rintro ⟨⟩
  | case4 c rest differs ih =>
    rw [formEncoding_cons differs]
    simp only [bind_eq_ok, pure, Except.pure, Except.ok.injEq, ih]
    constructor
    · rintro ⟨out, encoding, rfl⟩
      exact ⟨out, rfl, encoding⟩
    · rintro ⟨out, rfl, encoding⟩
      exact ⟨out, encoding, rfl⟩

/-- `unescape_url` reads back every form encoding, and refuses every other text. -/
theorem unescape_url_inverts :
    (∀ text encoded, FormEncoding text encoded → unescapeUrl encoded = .ok text) ∧
    ∀ input, (unescapeUrl input = .error (.stdException (bytes "Bad hex value")) ∨
        unescapeUrl input = .error (.stdException (bytes "Malformed URL"))) ↔
      ¬ ∃ text, FormEncoding text input := by
  refine ⟨fun text encoded encoding => unescapeUrl_eq_ok.mpr encoding, fun input => ?_⟩
  simp only [← unescapeUrl_eq_ok]
  cases result : unescapeUrl input with
  | ok text => simp
  | error exc => simpa using unescapeUrl_invalid result

end Dracon
