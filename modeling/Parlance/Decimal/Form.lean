import Parlance.Decimal.Shortest

/-! Written forms of binary numbers. All forms use the shortest digits; a `Form` says where
positional writing ends and how an exponent is written. -/

namespace Parlance.Decimal

structure Form where
  /-- A number is written positionally when its point lies between these bounds, inclusive. -/
  firstPoint : Int
  lastPoint : Int
  integerSuffix : String
  positiveExponent : String
  notNumber : String
  infinite : String

namespace Form

def zeros (count : Int) : String := String.ofList (List.replicate count.toNat '0')

def positional (form : Form) (decimal : Digits) : String :=
  let digits := toString decimal.digits
  let point := decimal.point
  if decimal.digits = 0 then "0" ++ form.integerSuffix
  else if 0 ≤ decimal.exponent then digits ++ zeros decimal.exponent ++ form.integerSuffix
  else if 0 < point then
    (digits.take point.toNat).toString ++ "." ++ (digits.drop point.toNat).toString
  else "0." ++ zeros (-point) ++ digits

def scientific (form : Form) (decimal : Digits) : String :=
  let digits := toString decimal.digits
  let exponent := decimal.point - 1
  let tail := if digits.length ≤ 1 then "" else "." ++ (digits.drop 1).toString
  (digits.take 1).toString ++ tail ++ "e" ++
    (if 0 ≤ exponent then form.positiveExponent else "") ++ toString exponent

def write (form : Form) (number : Binary) : String :=
  match number.reading with
  | .notNumber => form.notNumber
  | .infinite negative => (if negative then "-" else "") ++ form.infinite
  | .finite negative significand exponent =>
      let decimal := shortest significand exponent
      (if negative then "-" else "") ++
        if decimal.digits = 0 ∨ (form.firstPoint ≤ decimal.point ∧ decimal.point ≤ form.lastPoint)
        then form.positional decimal
        else form.scientific decimal

end Form

end Parlance.Decimal
