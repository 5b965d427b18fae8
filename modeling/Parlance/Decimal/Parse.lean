import Parlance.Decimal.Binary

/-! Reading numbers from text. -/

namespace Parlance.Decimal

def digitValue (digits : List Char) : Nat :=
  digits.foldl (fun total char => 10 * total + (char.toNat - '0'.toNat)) 0

def splitSign : List Char → Bool × List Char
  | '-' :: rest => (true, rest)
  | '+' :: rest => (false, rest)
  | text => (false, text)

def parseExponent? : List Char → Option Int
  | [] => some 0
  | mark :: rest =>
      if mark = 'e' ∨ mark = 'E' then
        let (negative, digits) := splitSign rest
        if digits.isEmpty ∨ !digits.all Char.isDigit then none
        else some (if negative then -(digitValue digits : Int) else digitValue digits)
      else none

/-- A decimal with digits before or after its point and an exponent that may be missing, rounded to
the nearest number. -/
def parseDigits? (negative : Bool) (text : List Char) : Option Binary :=
  let whole := text.takeWhile Char.isDigit
  let afterWhole := text.dropWhile Char.isDigit
  let (fraction, rest) := match afterWhole with
    | '.' :: tail => (tail.takeWhile Char.isDigit, tail.dropWhile Char.isDigit)
    | _ => ([], afterWhole)
  if whole.isEmpty ∧ fraction.isEmpty then none
  else
    (parseExponent? rest).map fun exponent =>
      .ofDecimal negative (digitValue (whole ++ fraction)) (exponent - fraction.length)

/-- Also reads the words for infinite and undefined results, in letters of any case. -/
def parse? (text : String) : Option Binary :=
  let (negative, body) := splitSign text.toList
  let word := String.ofList (body.map Char.toLower)
  if word = "inf" ∨ word = "infinity" then some (.ofMagnitude negative infiniteMagnitude)
  else if word = "nan" then some (.ofMagnitude negative (infiniteMagnitude + twoTo 51))
  else parseDigits? negative body

def radixDigit? (radix : Nat) (char : Char) : Option Nat :=
  let value :=
    if char.isDigit then some (char.toNat - '0'.toNat)
    else if 'a' ≤ char ∧ char ≤ 'f' then some (char.toNat - 'a'.toNat + 10)
    else if 'A' ≤ char ∧ char ≤ 'F' then some (char.toNat - 'A'.toNat + 10)
    else none
  value.filter (· < radix)

def radixValue? (radix : Nat) (digits : List Char) : Option Nat :=
  digits.foldlM (fun total char => (radixDigit? radix char).map (radix * total + ·)) 0

def parseInteger? (radix : Nat) (text : List Char) : Option Int :=
  let (negative, digits) := splitSign text
  if digits.isEmpty then none
  else (radixValue? radix digits).map fun value => if negative then -(value : Int) else value

end Parlance.Decimal
