import Parlance.Decimal.Binary

/-! The shortest decimal that reads back as a given binary number, and of several shortest ones
the nearest to it. -/

namespace Parlance.Decimal

/-- The decimal `digits * 10 ^ exponent`; `digits` does not end in zero unless it is zero. -/
structure Digits where
  digits : Nat
  exponent : Int
  deriving DecidableEq

def Digits.count (decimal : Digits) : Nat := digitCount decimal.digits

/-- How many digits stand before the point when the decimal is written out; negative when zeros
follow the point. -/
def Digits.point (decimal : Digits) : Int := decimal.count + decimal.exponent

def decimalLe (left : Nat) (leftPower : Int) (right : Nat) (rightPower : Int) : Bool :=
  left * tenTo leftPower.toNat * twoTo (-rightPower).toNat ≤
    right * twoTo rightPower.toNat * tenTo (-leftPower).toNat

def decimalLt (left : Nat) (leftPower : Int) (right : Nat) (rightPower : Int) : Bool :=
  left * tenTo leftPower.toNat * twoTo (-rightPower).toNat <
    right * twoTo rightPower.toNat * tenTo (-leftPower).toNat

/-- The reals that round to one binary number, in quarters of its last place. The ends belong to
it when the significand is even. -/
structure Interval where
  low : Nat
  middle : Nat
  high : Nat
  power : Int
  closed : Bool

/-- Below a power of two the numbers lie twice as dense, so the interval is narrower there. -/
def Interval.of (significand : Nat) (exponent : Int) : Interval where
  low := 4 * significand - (if significand = twoTo 52 ∧ -1074 < exponent then 1 else 2)
  middle := 4 * significand
  high := 4 * significand + 2
  power := exponent - 2
  closed := significand % 2 == 0

def Interval.holds (interval : Interval) (digits : Nat) (power : Int) : Bool :=
  if interval.closed then
    !decimalLt digits power interval.low interval.power &&
      decimalLe digits power interval.high interval.power
  else
    !decimalLe digits power interval.low interval.power &&
      decimalLt digits power interval.high interval.power

def Interval.floorAt (interval : Interval) (power : Int) : Nat :=
  (interval.middle * twoTo interval.power.toNat * tenTo (-power).toNat) /
    (tenTo power.toNat * twoTo (-interval.power).toNat)

/-- Of the two neighbours of the middle on the grid of `10 ^ power`, the nearer one that lies in
the interval; a tie goes to the even one. -/
def Interval.pick (interval : Interval) (power : Int) : Option Nat :=
  let below := interval.floorAt power
  let above := below + 1
  match interval.holds below power, interval.holds above power with
  | true, true =>
      let twice := 2 * below + 1
      if decimalLt twice power (2 * interval.middle) interval.power then some above
      else if decimalLe twice power (2 * interval.middle) interval.power then
        some (if below % 2 = 0 then below else above)
      else some below
  | true, false => some below
  | false, true => some above
  | false, false => none

def Interval.scale (interval : Interval) : Int :=
  let guess := ((Nat.log2 interval.middle + interval.power) * 30103).fdiv 100000
  if decimalLe 1 (guess + 1) interval.middle interval.power then guess + 2
  else if decimalLe 1 guess interval.middle interval.power then guess + 1
  else guess

def stripZeros : Nat → Nat → Int → Digits
  | 0, digits, exponent => ⟨digits, exponent⟩
  | fuel + 1, digits, exponent =>
      if digits ≠ 0 ∧ digits % 10 = 0 then stripZeros fuel (digits / 10) (exponent + 1)
      else ⟨digits, exponent⟩

/-- The coarsest grid with a point in the interval decides; seventeen digits always have one. -/
def Interval.shortest (interval : Interval) : Digits :=
  let tried := (List.range 17).findSome? fun (extra : Nat) =>
    let power := interval.scale - (extra + 1)
    (interval.pick power).map fun digits => stripZeros 20 digits power
  tried.getD ⟨interval.middle, 0⟩

def shortest (significand : Nat) (exponent : Int) : Digits :=
  if significand = 0 then ⟨0, 0⟩ else (Interval.of significand exponent).shortest

end Parlance.Decimal
