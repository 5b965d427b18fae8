import Parlance.Settings.Value
import Parlance.Settings.Toml.Text
import Parlance.Decimal.Parse

/-! Numbers and truth values of TOML documents. Each is a single word. -/

namespace Parlance.Settings.Toml

def digitRun? (isDigit : Char → Bool) : Text → Option Text
  | [] => none
  | [char] => if isDigit char then some [char] else none
  | first :: '_' :: rest =>
      if isDigit first then (digitRun? isDigit rest).map (first :: ·) else none
  | first :: rest => if isDigit first then (digitRun? isDigit rest).map (first :: ·) else none

/-- Integers have sixty-four bits. -/
def integerOf (value : Int) : Option Value :=
  if Decimal.fitsSigned 64 value then some (.integer value) else none

def radixInteger? (radix : Nat) (digits : Text) : Option Value :=
  match digitRun? (fun char => (Decimal.radixDigit? radix char).isSome) digits with
  | none => none
  | some digits => ((Decimal.radixValue? radix digits).map Int.ofNat).bind integerOf

/-- Decimal digits of which the first is a zero only if it is the only one. -/
def wholePart? (text : Text) : Option Text :=
  match digitRun? Char.isDigit text with
  | some ('0' :: _ :: _) => none
  | other => other

def exponentDigits? (text : Text) : Option Int :=
  let (negative, digits) := Decimal.splitSign text
  (digitRun? Char.isDigit digits).map fun digits =>
    if negative then -(Decimal.digitValue digits : Int) else Decimal.digitValue digits

/-- A decimal may round to negative infinity, but not to infinity. -/
def floatOf (value : Decimal.Binary) : Option Value :=
  if value = .ofMagnitude false Decimal.infiniteMagnitude then none else some (.float value)

def decimalNumber? (text : Text) : Option Value :=
  let (negative, body) := Decimal.splitSign text
  if body = ['i', 'n', 'f'] then
    some (.float (.ofMagnitude negative Decimal.infiniteMagnitude))
  else if body = ['n', 'a', 'n'] then
    some (.float (.ofMagnitude negative (Decimal.infiniteMagnitude + Decimal.twoTo 51)))
  else
    let isMark := fun char => char == 'e' || char == 'E'
    let mantissa := body.takeWhile (!isMark ·)
    let exponentText := body.dropWhile (!isMark ·)
    let whole := mantissa.takeWhile (· != '.')
    let fractionText := mantissa.dropWhile (· != '.')
    match wholePart? whole with
    | none => none
    | some whole =>
        if exponentText.isEmpty ∧ fractionText.isEmpty then
          let value : Int := Decimal.digitValue whole
          integerOf (if negative then -value else value)
        else
          let fraction? := if fractionText.isEmpty then some []
            else digitRun? Char.isDigit (fractionText.drop 1)
          let exponent? := if exponentText.isEmpty then some 0
            else exponentDigits? (exponentText.drop 1)
          match fraction?, exponent? with
          | some fraction, some exponent =>
              floatOf (.ofDecimal negative (Decimal.digitValue (whole ++ fraction))
                (exponent - fraction.length))
          | _, _ => none

def scalarOfWord? : Text → Option Value
  | ['t', 'r', 'u', 'e'] => some (.bool true)
  | ['f', 'a', 'l', 's', 'e'] => some (.bool false)
  | '0' :: 'x' :: digits => radixInteger? 16 digits
  | '0' :: 'o' :: digits => radixInteger? 8 digits
  | '0' :: 'b' :: digits => radixInteger? 2 digits
  | word => decimalNumber? word

end Parlance.Settings.Toml
