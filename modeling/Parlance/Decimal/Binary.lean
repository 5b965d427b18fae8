import Parlance.Decimal.Power

/-! Binary floating-point numbers of sixty-four bits, held as their bit pattern: what a pattern
stands for, and the number nearest to a decimal. All arithmetic is exact and in `Nat`. -/

namespace Parlance.Decimal

structure Binary where
  bits : UInt64
  deriving DecidableEq, Inhabited

/-- What a bit pattern stands for; a finite one is `±significand * 2 ^ exponent`. -/
inductive Reading where
  | finite (negative : Bool) (significand : Nat) (exponent : Int)
  | infinite (negative : Bool)
  | notNumber
  deriving DecidableEq

def Binary.reading (number : Binary) : Reading :=
  let pattern := number.bits.toNat
  let negative := pattern / twoTo 63 == 1
  let biased : Nat := pattern / twoTo 52 % twoTo 11
  let fraction : Nat := pattern % twoTo 52
  if biased = 2047 then
    if fraction = 0 then .infinite negative else .notNumber
  else if biased = 0 then .finite negative fraction (-1074)
  else .finite negative (fraction + twoTo 52) ((biased : Int) - 1075)

def Binary.isFinite (number : Binary) : Bool :=
  match number.reading with
  | .finite .. => true
  | _ => false

def Binary.ofMagnitude (negative : Bool) (magnitude : Nat) : Binary :=
  ⟨UInt64.ofNat ((if negative then twoTo 63 else 0) + magnitude)⟩

/-- The pattern of positive infinity; smaller patterns are the finite magnitudes in order. -/
def infiniteMagnitude : Nat := 2047 * twoTo 52

/-- The quotient rounded to the nearest integer, a half going to the even neighbour. -/
def roundDiv (numerator denominator : Nat) : Nat :=
  let quotient := numerator / denominator
  let remainder := numerator % denominator
  if 2 * remainder < denominator then quotient
  else if denominator < 2 * remainder then quotient + 1
  else quotient + quotient % 2

/-- The pattern of the magnitude nearest to `numerator / denominator`. The significand is rounded
at the exponent where the quotient has fifty-three binary digits, or at the least exponent there
is; a significand rounded up to the next power of two carries into the exponent field. -/
def nearestMagnitude (numerator denominator : Nat) : Nat :=
  let guess : Int := (Nat.log2 numerator : Int) - Nat.log2 denominator - 52
  let scaled (exponent : Int) : Nat × Nat :=
    (numerator * twoTo (-exponent).toNat, denominator * twoTo exponent.toNat)
  let tight := scaled guess
  let exponent := max (if tight.1 < tight.2 * twoTo 52 then guess - 1 else guess) (-1074)
  let ratio := scaled exponent
  min ((exponent + 1074).toNat * twoTo 52 + roundDiv ratio.1 ratio.2) infiniteMagnitude

def digitCount (number : Nat) : Nat := (Nat.toDigits 10 number).length

/-- The number nearest to `±significand * 10 ^ exponent`; beyond the range it is infinite or zero.
-/
def Binary.ofDecimal (negative : Bool) (significand : Nat) (exponent : Int) : Binary :=
  if significand = 0 then ofMagnitude negative 0
  else
    let scale := exponent + digitCount significand
    if 400 < scale then ofMagnitude negative infiniteMagnitude
    else if scale < -400 then ofMagnitude negative 0
    else
      ofMagnitude negative <|
        nearestMagnitude (significand * tenTo exponent.toNat) (tenTo (-exponent).toNat)

end Parlance.Decimal
