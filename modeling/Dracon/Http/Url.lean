import Dracon.Http.Message
import Dracon.Shared.Outcomes

set_option autoImplicit false

namespace Dracon

open Shared

def fromHex (c : Byte) : Except Exc Byte :=
  if ch '0' ≤ c ∧ c ≤ ch '9' then .ok (c - ch '0')
  else if ch 'a' ≤ c ∧ c ≤ ch 'f' then .ok (10 + c - ch 'a')
  else if ch 'A' ≤ c ∧ c ≤ ch 'F' then .ok (10 + c - ch 'A')
  else .error (.stdException (bytes "Bad hex value"))

def unescapeUrl : Bytes → Except Exc Bytes
  | [] => .ok []
  | c :: rest =>
      if c = ch '%' then
        match rest with
        | high :: low :: rest => do
            let high ← fromHex high
            let low ← fromHex low
            let out ← unescapeUrl rest
            return (high <<< 4 ||| low) :: out
        | _ => .error (.stdException (bytes "Malformed URL"))
      else do
        let out ← unescapeUrl rest
        return (if c = ch '+' then sp else c) :: out

theorem fromHex_error {c : Byte} {exc : Exc} (thrown : fromHex c = .error exc) :
    exc = .stdException (bytes "Bad hex value") := by
  unfold fromHex at thrown
  split_ifs at thrown
  cases thrown
  rfl

theorem length_of_not_pair {rest : Bytes} (short : ∀ high low more, rest = high :: low :: more → False) :
    rest.length < 2 := by
  rcases rest with _ | ⟨high, _ | ⟨low, more⟩⟩
  · decide
  · simp
  · exact (short high low more rfl).elim

theorem unescapeUrl_invalid {text : Bytes} {exc : Exc} (thrown : unescapeUrl text = .error exc) :
    exc = .stdException (bytes "Bad hex value") ∨ exc = .stdException (bytes "Malformed URL") := by
  fun_induction unescapeUrl text with
  | case1 => cases thrown
  | case2 high low rest ih =>
    rcases bind_eq_error thrown with bad | ⟨_, thrown⟩
    · exact .inl (fromHex_error bad)
    rcases bind_eq_error thrown with bad | ⟨_, thrown⟩
    · exact .inl (fromHex_error bad)
    rcases bind_eq_error thrown with bad | ⟨_, thrown⟩
    · exact ih bad
    · cases thrown
  | case3 =>
    cases thrown
    exact .inr rfl
  | case4 c rest differs ih =>
    rcases bind_eq_error thrown with bad | ⟨_, thrown⟩
    · exact ih bad
    · cases thrown

theorem unescapeUrl_error {text : Bytes} {exc : Exc} (thrown : unescapeUrl text = .error exc) :
    ∃ what, exc = .stdException what := by
  rcases unescapeUrl_invalid thrown with rfl | rfl <;> exact ⟨_, rfl⟩

def escapeAll (text : Bytes) : Bytes :=
  text.flatMap fun c => [ch '%', ch (Nat.digitChar (c.toNat / 16)), ch (Nat.digitChar (c.toNat % 16))]

theorem fromHex_digitChar : ∀ d < 16, fromHex (ch (Nat.digitChar d)) = .ok d.toUInt8 := by decide

theorem nibbles_toNat {high low : Byte} (first : high.toNat < 16) (second : low.toNat < 16) :
    (high <<< 4 ||| low).toNat = 16 * high.toNat + low.toNat := by
  have shifted : high.toNat * 2 ^ 4 % 2 ^ 8 = 2 ^ 4 * high.toNat := by omega
  calc (high <<< 4 ||| low).toNat
      = high.toNat <<< 4 % 2 ^ 8 ||| low.toNat := by
        rw [UInt8.toNat_or, UInt8.toNat_shiftLeft]
        rfl
    _ = 2 ^ 4 * high.toNat ||| low.toNat := by rw [Nat.shiftLeft_eq, shifted]
    _ = 2 ^ 4 * high.toNat + low.toNat := (Nat.two_pow_add_eq_or_of_lt second _).symm

theorem nibbles_join (c : Byte) : (c.toNat / 16).toUInt8 <<< 4 ||| (c.toNat % 16).toUInt8 = c := by
  have bound := c.toNat_lt
  have high : (c.toNat / 16).toUInt8.toNat = c.toNat / 16 := by
    simp
    omega
  have low : (c.toNat % 16).toUInt8.toNat = c.toNat % 16 := by
    simp
    omega
  apply UInt8.toNat_inj.mp
  rw [nibbles_toNat (by omega) (by omega), high, low]
  omega

theorem unescapeUrl_escapeAll (text : Bytes) : unescapeUrl (escapeAll text) = .ok text := by
  induction text with
  | nil => rfl
  | cons c text ih =>
    have high := fromHex_digitChar (c.toNat / 16) (by have := c.toNat_lt; omega)
    have low := fromHex_digitChar (c.toNat % 16) (by omega)
    have step : unescapeUrl (escapeAll (c :: text)) =
        .ok (((c.toNat / 16).toUInt8 <<< 4 ||| (c.toNat % 16).toUInt8) :: text) := by
      simp only [escapeAll, List.flatMap_cons, List.cons_append, List.nil_append, unescapeUrl, high, low,
        if_true] at ih ⊢
      rw [ih]
      rfl
    rw [step, nibbles_join]

end Dracon
