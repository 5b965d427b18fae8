import Mathlib.Tactic.SplitIfs
import Parlance.Text.Json

/-! Texts without a line feed. Truth values and numbers are such texts in JSON. -/

namespace Parlance.Text

def OneLine (text : String) : Prop := '\n' ∉ text.toList

instance (text : String) : Decidable (OneLine text) :=
  inferInstanceAs (Decidable ('\n' ∉ text.toList))

theorem OneLine.append {first second : String} (before : OneLine first) (after : OneLine second) :
    OneLine (first ++ second) := by
  rw [OneLine, String.toList_append, List.mem_append, not_or]
  exact ⟨before, after⟩

theorem OneLine.take {text : String} (oneLine : OneLine text) (count : Nat) :
    OneLine (text.take count).toString := by
  intro member
  have same : (text.take count).toString.toList = text.toList.take count :=
    String.toList_copy_take
  rw [same] at member
  exact oneLine (List.mem_of_mem_take member)

theorem OneLine.drop {text : String} (oneLine : OneLine text) (count : Nat) :
    OneLine (text.drop count).toString := by
  intro member
  have same : (text.drop count).toString.toList = text.toList.drop count :=
    String.toList_copy_drop
  rw [same] at member
  exact oneLine (List.mem_of_mem_drop member)

theorem oneLine_natural (number : Nat) : OneLine (toString number) := by
  intro member
  rw [Nat.toString_eq_repr, Nat.repr, String.toList_ofList] at member
  have digit := Nat.isDigit_of_mem_toDigits (by decide) (by decide) member
  exact absurd digit (by decide)

theorem oneLine_integer (value : Int) : OneLine (toString value) := by
  cases value with
  | ofNat number => exact oneLine_natural number
  | negSucc number => exact OneLine.append (by decide) (oneLine_natural (number + 1))

theorem oneLine_zeros (count : Int) : OneLine (Decimal.Form.zeros count) := by
  intro member
  rw [Decimal.Form.zeros, String.toList_ofList] at member
  exact absurd (List.eq_of_mem_replicate member) (by decide)

section Forms

variable {form : Decimal.Form} (decimal : Decimal.Digits)

theorem oneLine_positional (suffix : OneLine form.integerSuffix) :
    OneLine (form.positional decimal) := by
  have digits := oneLine_natural decimal.digits
  simp only [Decimal.Form.positional]
  split_ifs
  · exact OneLine.append (by decide) suffix
  · exact (digits.append (oneLine_zeros _)).append suffix
  · exact ((digits.take _).append (by decide)).append (digits.drop _)
  · exact (OneLine.append (by decide) (oneLine_zeros _)).append digits

theorem oneLine_scientific (sign : OneLine form.positiveExponent) :
    OneLine (form.scientific decimal) := by
  have digits := oneLine_natural decimal.digits
  have tail : OneLine (if (toString decimal.digits).length ≤ 1 then ""
      else "." ++ ((toString decimal.digits).drop 1).toString) := by
    split_ifs
    · decide
    · exact OneLine.append (by decide) (digits.drop 1)
  have signed : OneLine (if 0 ≤ decimal.point - 1 then form.positiveExponent else "") := by
    split_ifs
    · exact sign
    · decide
  have head := ((digits.take 1).append tail).append (show OneLine "e" by decide)
  exact (head.append signed).append (oneLine_integer _)

end Forms

theorem oneLine_float (value : Decimal.Binary) : OneLine (jsonNumbers.write value) := by
  have sign (negative : Bool) : OneLine (if negative then "-" else "") := by
    cases negative <;> decide
  unfold Decimal.Form.write
  split
  next => decide
  next negative _ => exact (sign negative).append (by decide)
  next negative significand exponent _ =>
    apply (sign negative).append
    split_ifs
    · exact oneLine_positional _ (by decide)
    · exact oneLine_scientific _ (by decide)

theorem oneLine_number (value : Number) : OneLine (numberText jsonNumbers value) := by
  cases value with
  | integer value => exact oneLine_integer value
  | float value => exact oneLine_float value

theorem oneLine_bool (value : Bool) : OneLine (jsonBool value) := by
  cases value <;> decide

end Parlance.Text
