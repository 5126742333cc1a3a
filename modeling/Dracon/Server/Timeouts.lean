import Mathlib
import Dracon.Http.Message

set_option autoImplicit false

namespace Dracon

-- The session timeout of a request in `io_loop`. Its sum has an unsigned operand, so it is an unsigned one.
def requestTimeout (keepAliveTimeout : Int64) (contentLength : Nat) : Int64 :=
  if contentLength ≠ chunkedData then
    (keepAliveTimeout.toUInt64 + 1 * (UInt64.ofNat contentLength / (512 * 1024))).toInt64
  else 5 * 60

-- The time point of `set_session_timeout`; the epoch stands for no deadline.
def sessionDeadline (now seconds : Int64) : Int64 := if seconds ≠ 0 then now + seconds * 1000000000 else 0

def loopTimeout (earliest now : Int64) : Int64 :=
  if earliest = Int64.maxValue then -1
  else
    let timeout := (earliest - now) / 1000000 + 50
    if 1 < timeout then timeout else 1

def epollTimeout (earliest now : Int64) : Int32 := (loopTimeout earliest now).toInt32

theorem toInt_of_range {x : Int64} {value : Int} (wrapped : x.toInt = value.bmod (2 ^ 64)) (low : -2 ^ 63 ≤ value)
    (high : value < 2 ^ 63) : x.toInt = value := by
  rw [wrapped, Int.bmod_eq_of_le (by omega) (by omega)]

theorem toInt_toInt64 (x : UInt64) : x.toInt64.toInt = (x.toNat : Int).bmod (2 ^ 64) :=
  x.toBitVec.toInt_eq_toNat_bmod

theorem requestTimeout_toInt {keepAliveTimeout : Int64} {contentLength : Nat} (accepted : contentLength < chunkedData)
    (day : keepAliveTimeout.toInt ≤ 86400) :
    (requestTimeout keepAliveTimeout contentLength).toInt = keepAliveTimeout.toInt + contentLength / 524288 := by
  have small : contentLength < 2 ^ 64 - 1 := accepted
  have blocks : (UInt64.ofNat contentLength / (512 * 1024)).toNat = contentLength / 524288 := by
    rw [UInt64.toNat_div, UInt64.toNat_ofNat', Nat.mod_eq_of_lt (by omega)]
    rfl
  have signed : (UInt64.ofNat contentLength / (512 * 1024)).toInt64.toInt = contentLength / 524288 := by
    rw [toInt_of_range (toInt_toInt64 _) (by omega) (by omega), blocks]
    rfl
  have bound := keepAliveTimeout.le_toInt
  rw [requestTimeout, if_pos (Nat.ne_of_lt accepted), UInt64.one_mul, UInt64.toInt64_add, Int64.toInt64_toUInt64]
  refine toInt_of_range (by rw [Int64.toInt_add, signed]) (by omega) (by omega)

theorem sessionDeadline_toInt {now seconds : Int64} (nonzero : seconds ≠ 0) :
    (sessionDeadline now seconds).toInt = (now.toInt + seconds.toInt * 1000000000).bmod (2 ^ 64) := by
  rw [sessionDeadline, if_pos nonzero, Int64.toInt_add, Int64.toInt_mul, Int.add_bmod_bmod]
  rfl

theorem milliseconds_range {nanoseconds : Int} (low : -2 ^ 63 ≤ nanoseconds) (high : nanoseconds < 2 ^ 63) :
    -2 ^ 44 ≤ nanoseconds.tdiv 1000000 ∧ nanoseconds.tdiv 1000000 ≤ 2 ^ 44 := by
  have sign : Int.sign 1000000 = 1 := rfl
  rw [Int.tdiv_eq_ediv, sign]
  split_ifs <;> omega

theorem milliseconds_le {nanoseconds bound : Int} (within : nanoseconds ≤ bound) (positive : 0 ≤ bound) :
    nanoseconds.tdiv 1000000 ≤ bound / 1000000 := by
  have sign : Int.sign 1000000 = 1 := rfl
  rw [Int.tdiv_eq_ediv, sign]
  split_ifs <;> omega

theorem loopTimeout_toInt {earliest now : Int64} (known : earliest ≠ Int64.maxValue) (past : 0 ≤ earliest.toInt)
    (epoch : 0 ≤ now.toInt) :
    (loopTimeout earliest now).toInt = max 1 ((earliest.toInt - now.toInt).tdiv 1000000 + 50) := by
  have high := earliest.toInt_lt
  have late := now.toInt_lt
  have difference : (earliest - now).toInt = earliest.toInt - now.toInt :=
    toInt_of_range (Int64.toInt_sub _ _) (by omega) (by omega)
  obtain ⟨least, most⟩ : -2 ^ 44 ≤ (earliest.toInt - now.toInt).tdiv 1000000 ∧
      (earliest.toInt - now.toInt).tdiv 1000000 ≤ 2 ^ 44 := milliseconds_range (by omega) (by omega)
  have quotient : ((earliest - now) / 1000000).toInt = (earliest.toInt - now.toInt).tdiv 1000000 := by
    refine toInt_of_range ?_ (by omega) (by omega)
    rw [Int64.toInt_div, difference]
    rfl
  have timeout : ((earliest - now) / 1000000 + 50).toInt = (earliest.toInt - now.toInt).tdiv 1000000 + 50 := by
    refine toInt_of_range ?_ (by omega) (by omega)
    rw [Int64.toInt_add, quotient]
    rfl
  have one : (1 : Int64).toInt = 1 := rfl
  rw [loopTimeout, if_neg known]
  simp only [Int64.lt_iff_toInt_lt, one]
  split_ifs with more
  · rw [timeout] at more ⊢
    exact (max_eq_right more.le).symm
  · rw [timeout] at more
    exact (max_eq_left (not_lt.mp more)).symm

structure DeadlineExact (keepAliveTimeout : Int64) (contentLength : Nat) (now current : Int64) : Prop where
  sum : (sessionDeadline now (requestTimeout keepAliveTimeout contentLength)).toInt =
    now.toInt + (keepAliveTimeout.toInt + contentLength / 524288) * 1000000000
  future : now < sessionDeadline now (requestTimeout keepAliveTimeout contentLength)
  positive : 0 < epollTimeout (sessionDeadline now (requestTimeout keepAliveTimeout contentLength)) current
  bounded : (epollTimeout (sessionDeadline now (requestTimeout keepAliveTimeout contentLength)) current).toInt ≤
    max 1 (((sessionDeadline now (requestTimeout keepAliveTimeout contentLength)).toInt - current.toInt).tdiv 1000000 + 50)

theorem epollTimeout_toInt {earliest now : Int64} (known : earliest ≠ Int64.maxValue) (past : 0 ≤ earliest.toInt)
    (epoch : 0 ≤ now.toInt) :
    (epollTimeout earliest now).toInt =
      (max 1 ((earliest.toInt - now.toInt).tdiv 1000000 + 50)).bmod (2 ^ 32) := by
  rw [epollTimeout, Int64.toInt_toInt32, loopTimeout_toInt known past epoch]

theorem narrowed_of_lt {milliseconds : Int} (positive : 1 ≤ milliseconds) (fits : milliseconds < 2 ^ 31) :
    milliseconds.bmod (2 ^ 32) = milliseconds :=
  Int.bmod_eq_of_le (by omega) (by omega)

theorem DeadlineExact.positive_seconds {keepAliveTimeout now current : Int64} {contentLength : Nat}
    (exact_ : DeadlineExact keepAliveTimeout contentLength now current) :
    0 < keepAliveTimeout.toInt + contentLength / 524288 := by
  have future := Int64.lt_iff_toInt_lt.mp exact_.future
  rw [exact_.sum] at future
  omega

/-- The deadline is exact, and the timeouts up to it as well, whatever the loop reads from the clock from `since` on,
if the seconds are positive and the milliseconds fit an `int`. -/
theorem deadline_exact_iff (since : Int64) {keepAliveTimeout now : Int64} {contentLength : Nat}
    (accepted : contentLength < chunkedData) (day : keepAliveTimeout.toInt ≤ 86400)
    (century : 946684800000000000 ≤ now.toInt ∧ now.toInt < 4133980800000000000)
    (epoch : 0 ≤ since.toInt) (earlier : since ≤ now) :
    (∀ current, since ≤ current → DeadlineExact keepAliveTimeout contentLength now current) ↔
      0 < keepAliveTimeout.toInt + contentLength / 524288 ∧
      (now.toInt - since.toInt + (keepAliveTimeout.toInt + contentLength / 524288) * 1000000000) / 1000000 + 50 <
        2 ^ 31 := by
  have timeout := requestTimeout_toInt accepted day
  have order := Int64.le_iff_toInt_le.mp earlier
  constructor
  · intro exact_
    have positive := (exact_ since Int64.le_rfl).positive_seconds
    refine ⟨positive, ?_⟩
    by_contra late
    have sum := (exact_ since Int64.le_rfl).sum
    have limit := (sessionDeadline now (requestTimeout keepAliveTimeout contentLength)).toInt_lt
    -- the reading at which the timeout is one more than the largest `int`
    set reading : Int64 := Int64.ofInt
      (now.toInt + (keepAliveTimeout.toInt + contentLength / 524288) * 1000000000 - (2 ^ 31 - 50) * 1000000)
      with isReading
    have value : reading.toInt =
        now.toInt + (keepAliveTimeout.toInt + contentLength / 524288) * 1000000000 - (2 ^ 31 - 50) * 1000000 :=
      Int64.toInt_ofInt_of_le (by omega) (by omega)
    have exactThere := exact_ reading (Int64.le_iff_toInt_le.mpr (by omega))
    have positive := Int32.lt_iff_toInt_lt.mp exactThere.positive
    by_cases last : sessionDeadline now (requestTimeout keepAliveTimeout contentLength) = Int64.maxValue
    · rw [last, epollTimeout, loopTimeout, if_pos rfl] at positive
      exact absurd positive (by decide)
    · rw [epollTimeout_toInt last (by omega) (by omega), sum, value, sub_sub_cancel] at positive
      exact absurd positive (by decide)
  · rintro ⟨positive, fits⟩ current reading
    have later := Int64.le_iff_toInt_le.mp reading
    have nonzero : requestTimeout keepAliveTimeout contentLength ≠ 0 := by
      intro zero
      rw [zero] at timeout
      have : (0 : Int64).toInt = 0 := rfl
      omega
    have sum : (sessionDeadline now (requestTimeout keepAliveTimeout contentLength)).toInt =
        now.toInt + (keepAliveTimeout.toInt + contentLength / 524288) * 1000000000 := by
      refine toInt_of_range ?_ (by omega) (by omega)
      rw [sessionDeadline_toInt nonzero, timeout]
    have known : sessionDeadline now (requestTimeout keepAliveTimeout contentLength) ≠ Int64.maxValue := by
      intro last
      rw [last, Int64.toInt_maxValue] at sum
      omega
    have narrowed := epollTimeout_toInt known (by omega) (by omega : 0 ≤ current.toInt)
    have most := milliseconds_le (by omega : (sessionDeadline now (requestTimeout keepAliveTimeout contentLength)).toInt -
      current.toInt ≤ now.toInt - since.toInt + (keepAliveTimeout.toInt + contentLength / 524288) * 1000000000) (by omega)
    rw [narrowed_of_lt (le_max_left _ _) (max_lt (by norm_num) (by omega))] at narrowed
    refine ⟨sum, Int64.lt_iff_toInt_lt.mpr (by omega), Int32.lt_iff_toInt_lt.mpr ?_, narrowed.le⟩
    rw [narrowed]
    exact lt_of_lt_of_le Int.zero_lt_one (le_max_left _ _)

theorem deadline_exact_iff_ten_seconds :
    DeadlineExact 10 0 1700000000000000000 1700000001000000000 :=
  (deadline_exact_iff 1700000000000000000 (by decide) (by decide) (by decide) (by decide) (by decide)).mpr
    (by decide) 1700000001000000000 (by decide)

/-- A length of 1.2 terabytes: the timeout is negative, which for `epoll_wait` is none at all. -/
theorem terabyte_waits_forever :
    (sessionDeadline 1700000000000000000 (requestTimeout 10 1200000000000)).toInt =
      1700000000000000000 + (10 + 1200000000000 / 524288) * 1000000000 ∧
    (epollTimeout (sessionDeadline 1700000000000000000 (requestTimeout 10 1200000000000)) 1700000000000000000).toInt =
      -2006139246 := by
  decide +kernel

end Dracon
