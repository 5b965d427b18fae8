import Mathlib.Algebra.Order.Field.Rat
import Mathlib.Algebra.Order.Field.Power
import Mathlib.Algebra.Order.Ring.Abs
import Mathlib.Tactic.Linarith
import Mathlib.Tactic.Ring
import Parlance.Decimal.Parse

/-! Reading whole numbers as binary ones: up to half a step beyond the greatest finite number the
result is as near as a finite number can be, and from there on it is infinite. -/

namespace Parlance.Decimal

theorem roundDiv_bounds (numerator : Nat) {denominator : Nat} (positive : 0 < denominator) :
    2 * numerator ≤ 2 * (roundDiv numerator denominator * denominator) + denominator ∧
      2 * (roundDiv numerator denominator * denominator) ≤ 2 * numerator + denominator := by
  have whole := Nat.div_add_mod numerator denominator
  have small := Nat.mod_lt numerator positive
  rw [Nat.mul_comm] at whole
  simp only [roundDiv]
  split_ifs with below above
  · omega
  · rw [Nat.add_mul, Nat.one_mul]
    omega
  · obtain even | odd := Nat.mod_two_eq_zero_or_one (numerator / denominator)
    · rw [even, Nat.add_zero]
      omega
    · rw [odd, Nat.add_mul, Nat.one_mul]
      omega

theorem roundDiv_nearest (numerator : Nat) {denominator : Nat} (positive : 0 < denominator)
    (multiple : Int) :
    |(numerator : Int) - roundDiv numerator denominator * denominator| ≤
      |(numerator : Int) - multiple * denominator| := by
  obtain ⟨low, high⟩ := roundDiv_bounds numerator positive
  generalize roundDiv numerator denominator = quotient at low high ⊢
  zify at low high positive
  have close : 2 * |(numerator : Int) - quotient * denominator| ≤ denominator := by
    rw [← abs_two, ← abs_mul, abs_le]
    constructor <;> linarith
  rcases lt_trichotomy multiple quotient with less | rfl | more
  · have apart : multiple * denominator ≤ (quotient - 1) * denominator :=
      mul_le_mul_of_nonneg_right (by omega) positive.le
    have distance := le_abs_self ((numerator : Int) - multiple * denominator)
    linarith
  · exact le_rfl
  · have apart : (quotient + 1 : Int) * denominator ≤ multiple * denominator :=
      mul_le_mul_of_nonneg_right (by omega) positive.le
    have distance := neg_abs_le ((numerator : Int) - multiple * denominator)
    linarith

theorem even_le_roundDiv_iff (numerator bound : Nat) {half : Nat} (positive : 0 < half)
    (even : bound % 2 = 0) :
    bound ≤ roundDiv numerator (2 * half) ↔ 2 * bound * half ≤ numerator + half := by
  have whole := Nat.div_add_mod numerator (2 * half)
  have small : numerator % (2 * half) < 2 * half := Nat.mod_lt _ (by omega)
  have steps (count : Nat) : 2 * count * half = 2 * (count * half) := Nat.mul_assoc 2 count half
  rw [Nat.mul_assoc, Nat.mul_comm half] at whole
  simp only [roundDiv, steps]
  generalize numerator / (2 * half) = quotient at whole ⊢
  generalize numerator % (2 * half) = remainder at whole small ⊢
  by_cases below : bound ≤ quotient
  · have less : bound * half ≤ quotient * half := Nat.mul_le_mul_right half below
    constructor
    · omega
    · intro
      split_ifs <;> omega
  by_cases next : bound = quotient + 1
  · have product : bound * half = quotient * half + half := by rw [next, Nat.succ_mul]
    constructor
    · split_ifs <;> omega
    · intro
      split_ifs <;> omega
  · have more : (quotient + 2) * half ≤ bound * half := Nat.mul_le_mul_right half (by omega)
    rw [Nat.add_mul] at more
    constructor
    · split_ifs <;> omega
    · omega

theorem twoTo_add (first second : Nat) : twoTo (first + second) = twoTo first * twoTo second :=
  Nat.pow_add 2 first second

theorem twoTo_le_twoTo {first second : Nat} (le : first ≤ second) : twoTo first ≤ twoTo second :=
  Nat.pow_le_pow_right (by decide) le

theorem twoTo_le_tenTo (exponent : Nat) : twoTo (3 * exponent) ≤ tenTo exponent := by
  have power : twoTo (3 * exponent) = (2 ^ 3) ^ exponent := Nat.pow_mul 2 3 exponent
  rw [power]
  exact Nat.pow_le_pow_left (by decide) exponent

theorem toNat_ofMagnitude {magnitude : Nat} (within : magnitude ≤ infiniteMagnitude) :
    (Binary.ofMagnitude false magnitude).bits.toNat = magnitude := by
  have bound : infiniteMagnitude < 2 ^ 64 := by decide
  simp only [Binary.ofMagnitude, Bool.false_eq_true, if_false, Nat.zero_add]
  exact UInt64.toNat_ofNat_of_lt (Nat.lt_of_le_of_lt within bound)

theorem reading_infinite :
    (Binary.ofMagnitude false infiniteMagnitude).reading = .infinite false := by decide

theorem reading_normal {biased fraction : Nat} (least : 0 < biased) (most : biased < 2047)
    (within : fraction < twoTo 52) :
    (Binary.ofMagnitude false (biased * twoTo 52 + fraction)).reading =
      .finite false (fraction + twoTo 52) ((biased : Int) - 1075) := by
  have base : twoTo 52 = 4503599627370496 := rfl
  have power : twoTo 11 = 2048 := rfl
  have top : twoTo 63 = 9223372036854775808 := rfl
  have finite : biased * twoTo 52 + fraction ≤ infiniteMagnitude := by
    rw [infiniteMagnitude, base]
    omega
  have sign : (biased * twoTo 52 + fraction) / twoTo 63 = 0 := by
    rw [base, top]
    omega
  have exponent : (biased * twoTo 52 + fraction) / twoTo 52 % twoTo 11 = biased := by
    rw [base, power]
    omega
  have rest : (biased * twoTo 52 + fraction) % twoTo 52 = fraction := by
    rw [base]
    omega
  simp only [Binary.reading, toNat_ofMagnitude finite]
  rw [sign, exponent, rest, if_neg (by omega), if_neg (by omega)]
  rfl

theorem reading_bounds {number : Binary} {negative : Bool} {significand : Nat} {exponent : Int}
    (reading : number.reading = .finite negative significand exponent) :
    significand < twoTo 53 ∧ -1074 ≤ exponent := by
  have base : twoTo 52 = 4503599627370496 := rfl
  have double : twoTo 53 = 9007199254740992 := rfl
  have small : number.bits.toNat % twoTo 52 < twoTo 52 := Nat.mod_lt _ (twoTo_pos 52)
  simp only [Binary.reading] at reading
  split_ifs at reading <;> cases reading
  · constructor <;> omega
  · constructor <;> omega

/-- The rational number that a finite number stands for. -/
def Binary.value? (number : Binary) : Option ℚ :=
  match number.reading with
  | .finite negative significand exponent =>
      some ((if negative then -1 else 1) * significand * 2 ^ exponent)
  | .infinite _ | .notNumber => none

/-- No finite number is nearer to what is wanted. -/
def Binary.IsNearest (number : Binary) (wanted : ℚ) : Prop :=
  ∃ value, number.value? = some value ∧ ∀ (other : Binary) (held : ℚ), other.value? = some held →
    |wanted - value| ≤ |wanted - held|

theorem Binary.isFinite_of_value? {number : Binary} {value : ℚ}
    (held : number.value? = some value) : number.isFinite = true := by
  unfold Binary.value? at held
  unfold Binary.isFinite
  split at held
  next reading => rw [reading]
  next => cases held
  next => cases held

def cut (number : Nat) : Nat := Nat.log2 number - 52

theorem le_number {number : Nat} (large : twoTo 52 ≤ number) :
    twoTo 52 * twoTo (cut number) ≤ number := by
  have positive : number ≠ 0 := Nat.ne_of_gt (Nat.lt_of_lt_of_le (twoTo_pos 52) large)
  have digits : 52 ≤ Nat.log2 number := (Nat.le_log2 positive).mpr large
  rw [← twoTo_add, cut, Nat.add_sub_cancel' digits]
  exact Nat.log2_self_le positive

theorem number_lt {number : Nat} (large : twoTo 52 ≤ number) :
    number < twoTo 53 * twoTo (cut number) := by
  have positive : number ≠ 0 := Nat.ne_of_gt (Nat.lt_of_lt_of_le (twoTo_pos 52) large)
  have digits : 52 ≤ Nat.log2 number := (Nat.le_log2 positive).mpr large
  rw [← twoTo_add, cut, show 53 + (Nat.log2 number - 52) = Nat.log2 number + 1 by omega]
  exact Nat.lt_log2_self

def kept (number : Nat) : Nat := roundDiv number (twoTo (cut number))

theorem kept_bounds {number : Nat} (large : twoTo 52 ≤ number) :
    twoTo 52 ≤ kept number ∧ kept number ≤ twoTo 53 := by
  have positive := twoTo_pos (cut number)
  obtain ⟨low, high⟩ := roundDiv_bounds number positive
  have least := le_number large
  have most := number_lt large
  change 2 * number ≤ 2 * (kept number * twoTo (cut number)) + twoTo (cut number) at low
  change 2 * (kept number * twoTo (cut number)) ≤ 2 * number + twoTo (cut number) at high
  constructor
  · by_contra less
    have product : (kept number + 1) * twoTo (cut number) ≤ twoTo 52 * twoTo (cut number) :=
      Nat.mul_le_mul_right _ (by omega)
    rw [Nat.succ_mul] at product
    omega
  · by_contra more
    have product : (twoTo 53 + 1) * twoTo (cut number) ≤ kept number * twoTo (cut number) :=
      Nat.mul_le_mul_right _ (by omega)
    rw [Nat.succ_mul] at product
    omega

theorem nearestMagnitude_one {number : Nat} (large : twoTo 52 ≤ number) :
    nearestMagnitude number 1 =
      min ((cut number + 1074) * twoTo 52 + kept number) infiniteMagnitude := by
  have positive : number ≠ 0 := Nat.ne_of_gt (Nat.lt_of_lt_of_le (twoTo_pos 52) large)
  have digits : 52 ≤ Nat.log2 number := (Nat.le_log2 positive).mpr large
  have one : Nat.log2 1 = 0 := by decide
  have guess : (Nat.log2 number : Int) - (Nat.log2 1 : Nat) - 52 = (cut number : Int) := by
    rw [one, cut]
    omega
  have below : (-(cut number : Int)).toNat = 0 := by omega
  have unit : twoTo 0 = 1 := rfl
  have tight : ¬ number < twoTo (cut number) * twoTo 52 := by
    rw [Nat.mul_comm]
    exact Nat.not_lt.mpr (le_number large)
  have exponent : max (cut number : Int) (-1074) = cut number := by omega
  have shifted : ((cut number : Int) + 1074).toNat = cut number + 1074 := by omega
  simp only [nearestMagnitude, guess, below, unit, Nat.mul_one, Nat.one_mul, Int.toNat_natCast,
    if_neg tight, exponent, shifted, kept]

/-- Half a step beyond the greatest finite number. -/
def finiteBound : Nat := twoTo 1024 - twoTo 970

theorem lt_finiteBound_iff {number : Nat} (large : twoTo 52 ≤ number) :
    number < finiteBound ↔ (cut number + 1074) * twoTo 52 + kept number < infiniteMagnitude := by
  obtain ⟨least, most⟩ := kept_bounds large
  have base : twoTo 53 = 2 * twoTo 52 := rfl
  have small := twoTo_pos 52
  have last : finiteBound + twoTo 970 = twoTo 1024 := by
    rw [finiteBound]
    exact Nat.sub_add_cancel (twoTo_le_twoTo (by omega))
  rcases Nat.lt_trichotomy (cut number) 971 with less | same | more
  · have product : (cut number + 1074) * twoTo 52 ≤ 2044 * twoTo 52 :=
      Nat.mul_le_mul_right _ (by omega)
    have below : number < twoTo 1023 := by
      have power : twoTo 53 * twoTo (cut number) ≤ twoTo 1023 := by
        rw [← twoTo_add]
        exact twoTo_le_twoTo (by omega)
      exact Nat.lt_of_lt_of_le (number_lt large) power
    have double : twoTo 1024 = twoTo 1023 * 2 := twoTo_succ 1023
    have half : twoTo 970 ≤ twoTo 1023 := twoTo_le_twoTo (by omega)
    rw [infiniteMagnitude]
    constructor <;> omega
  · have rounds := even_le_roundDiv_iff number (twoTo 53) (twoTo_pos 970) (by decide)
    have double : 2 * twoTo 970 = twoTo (cut number) := by
      rw [same, Nat.mul_comm, ← twoTo_succ 970]
    have power : 2 * twoTo 53 * twoTo 970 = twoTo 1024 := by
      rw [Nat.mul_assoc, ← twoTo_add, Nat.mul_comm, ← twoTo_succ]
    rw [double, power] at rounds
    change twoTo 53 ≤ kept number ↔ _ at rounds
    rw [infiniteMagnitude, same]
    constructor <;> omega
  · have product : 2046 * twoTo 52 ≤ (cut number + 1074) * twoTo 52 :=
      Nat.mul_le_mul_right _ (by omega)
    have above : twoTo 1024 ≤ number := by
      have power : twoTo 1024 ≤ twoTo 52 * twoTo (cut number) := by
        rw [← twoTo_add]
        exact twoTo_le_twoTo (by omega)
      exact Nat.le_trans power (le_number large)
    rw [infiniteMagnitude]
    constructor <;> omega

theorem infiniteMagnitude_le {number : Nat} (large : twoTo 52 ≤ number)
    (beyond : finiteBound ≤ number) :
    infiniteMagnitude ≤ (cut number + 1074) * twoTo 52 + kept number := by
  by_contra finite
  have below := (lt_finiteBound_iff large).mpr (Nat.not_le.mp finite)
  omega

theorem digitCount_le {number : Nat} (count : Nat) (positive : 0 < count) (less : number < tenTo count) :
    digitCount number ≤ count :=
  (Nat.length_toDigits_le_iff (by decide) positive).mpr less

theorem ofDecimal_number {number : Nat} (large : twoTo 52 ≤ number) :
    Binary.ofDecimal false number 0 = .ofMagnitude false
      (min ((cut number + 1074) * twoTo 52 + kept number) infiniteMagnitude) := by
  have positive : number ≠ 0 := Nat.ne_of_gt (Nat.lt_of_lt_of_le (twoTo_pos 52) large)
  have one : tenTo 0 = 1 := rfl
  have low : ¬ (0 + (digitCount number : Int) < -400) := by omega
  simp only [Binary.ofDecimal, if_neg positive, if_neg low]
  split_ifs with long
  · have many : tenTo 400 ≤ number := by
      by_contra less
      have few := digitCount_le 400 (by decide) (Nat.not_le.mp less)
      omega
    have beyond : finiteBound ≤ tenTo 400 := by
      calc finiteBound ≤ twoTo 1024 := Nat.sub_le _ _
        _ ≤ twoTo (3 * 400) := twoTo_le_twoTo (by omega)
        _ ≤ tenTo 400 := twoTo_le_tenTo 400
    rw [Nat.min_eq_right (infiniteMagnitude_le large (beyond.trans many))]
  · simp only [Int.toNat_zero, Int.neg_zero, one, Nat.mul_one, nearestMagnitude_one large]

theorem ofDecimal_infinite {number : Nat} (beyond : finiteBound ≤ number) :
    (Binary.ofDecimal false number 0).isFinite = false := by
  have large : twoTo 52 ≤ number := by
    have first : twoTo 52 ≤ finiteBound := by decide +kernel
    exact Nat.le_trans first beyond
  rw [ofDecimal_number large, Nat.min_eq_right (infiniteMagnitude_le large beyond), Binary.isFinite,
    reading_infinite]

theorem value?_ofDecimal {number : Nat} (large : twoTo 52 ≤ number) (below : number < finiteBound) :
    (Binary.ofDecimal false number 0).value? = some (kept number * 2 ^ cut number : ℚ) := by
  have finite := (lt_finiteBound_iff large).mp below
  obtain ⟨least, most⟩ := kept_bounds large
  have base : twoTo 53 = 2 * twoTo 52 := rfl
  have powers : (twoTo 52 : ℚ) = 2 ^ 52 := by norm_num [twoTo]
  rw [ofDecimal_number large, Nat.min_eq_left finite.le, Binary.value?]
  rw [infiniteMagnitude] at finite
  by_cases carried : kept number = twoTo 53
  · have pattern : (cut number + 1074) * twoTo 52 + kept number =
        (cut number + 1076) * twoTo 52 + 0 := by
      rw [carried, base, Nat.add_mul, Nat.add_mul]
      omega
    have within : cut number + 1076 < 2047 := by
      by_contra most
      have product : 2047 * twoTo 52 ≤ (cut number + 1076) * twoTo 52 :=
        Nat.mul_le_mul_right _ (by omega)
      omega
    have exponent : ((cut number + 1076 : Nat) : Int) - 1075 = (cut number + 1 : Nat) := by omega
    rw [pattern, reading_normal (by omega) within (twoTo_pos 52), exponent, carried, base]
    simp only [Bool.false_eq_true, if_false, Nat.zero_add, zpow_natCast, pow_succ]
    push_cast
    ring_nf
  · have pattern : (cut number + 1074) * twoTo 52 + kept number =
        (cut number + 1075) * twoTo 52 + (kept number - twoTo 52) := by
      rw [Nat.add_mul, Nat.add_mul]
      omega
    have within : cut number + 1075 < 2047 := by
      by_contra most
      have product : 2047 * twoTo 52 ≤ (cut number + 1075) * twoTo 52 :=
        Nat.mul_le_mul_right _ (by omega)
      omega
    have exponent : ((cut number + 1075 : Nat) : Int) - 1075 = (cut number : Nat) := by omega
    rw [pattern, reading_normal (by omega) within (by omega), exponent, Nat.sub_add_cancel least]
    simp only [Bool.false_eq_true, if_false, zpow_natCast, one_mul]

theorem kept_nearest (number : Nat) (multiple : Int) :
    |(number : ℚ) - kept number * 2 ^ cut number| ≤
      |(number : ℚ) - multiple * 2 ^ cut number| := by
  have nearest := roundDiv_nearest number (twoTo_pos (cut number)) multiple
  have power : (twoTo (cut number) : ℚ) = 2 ^ cut number := Nat.cast_pow 2 (cut number)
  rw [← power, kept]
  exact_mod_cast nearest

/-- What is finer than the digits that are kept, and has no more of them, does not even reach the
power of two below the number. -/
theorem finer_le {number significand : Nat} {exponent : Int} (few : significand < twoTo 53)
    (finer : exponent < cut number) :
    (significand : ℚ) * 2 ^ exponent ≤ twoTo 52 * 2 ^ cut number := by
  have digits : (significand : ℚ) ≤ twoTo 53 := by exact_mod_cast few.le
  have double : (twoTo 53 : ℚ) = twoTo 52 * 2 := by norm_num [twoTo]
  have scale : (2 : ℚ) ^ (exponent + 1) ≤ 2 ^ (cut number : Int) :=
    zpow_le_zpow_right₀ (by norm_num) (by omega)
  calc (significand : ℚ) * 2 ^ exponent ≤ twoTo 53 * 2 ^ exponent := by gcongr
    _ = twoTo 52 * 2 ^ (exponent + 1) := by rw [double, zpow_add_one₀ two_ne_zero]; ring
    _ ≤ twoTo 52 * 2 ^ (cut number : Int) := by gcongr
    _ = twoTo 52 * 2 ^ cut number := by rw [zpow_natCast]

theorem kept_nearest_finite {number significand : Nat} (large : twoTo 52 ≤ number)
    (few : significand < twoTo 53) (negative : Bool) (exponent : Int) :
    |(number : ℚ) - kept number * 2 ^ cut number| ≤
      |(number : ℚ) - (if negative then -1 else 1) * significand * 2 ^ exponent| := by
  by_cases finer : exponent < cut number
  · have corner : (twoTo 52 * 2 ^ cut number : ℚ) ≤ number := by
      have least := le_number large
      rw [twoTo.eq_def (cut number)] at least
      exact_mod_cast least
    have small := finer_le few finer
    have positive : (0 : ℚ) ≤ significand * 2 ^ exponent := by positivity
    have nearest := kept_nearest number (twoTo 52)
    rw [Int.cast_natCast, abs_of_nonneg (a := (number : ℚ) - twoTo 52 * _) (by linarith)] at nearest
    have distance := le_abs_self ((number : ℚ) -
      (if negative then -1 else 1) * significand * 2 ^ exponent)
    cases negative
    · simp only [Bool.false_eq_true, if_false, one_mul] at distance ⊢
      linarith
    · simp only [if_true] at distance ⊢
      linarith
  · have shift : exponent = ((exponent - cut number).toNat : Int) + cut number := by omega
    have multiple := kept_nearest number
      ((if negative then -1 else 1) * significand * 2 ^ (exponent - cut number).toNat)
    rw [shift, zpow_add₀ two_ne_zero, zpow_natCast, zpow_natCast, ← mul_assoc]
    push_cast at multiple
    exact multiple

/-- Below the bound, whole numbers are read as the nearest finite number. -/
theorem ofDecimal_isNearest {number : Nat} (large : twoTo 52 ≤ number)
    (below : number < finiteBound) : (Binary.ofDecimal false number 0).IsNearest number := by
  refine ⟨_, value?_ofDecimal large below, fun other held stands => ?_⟩
  unfold Binary.value? at stands
  split at stands
  next negative significand exponent reading =>
    obtain ⟨few, -⟩ := reading_bounds reading
    cases stands
    exact kept_nearest_finite large few negative exponent
  next => cases stands
  next => cases stands

end Parlance.Decimal
