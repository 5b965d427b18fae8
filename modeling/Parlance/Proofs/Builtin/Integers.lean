import Parlance.Builtin.Folds
import Parlance.Proofs.Decimal.Rounding
import Parlance.Proofs.Decimal.Spelling
import Parlance.Proofs.Token.LongestMatch

/-! Integer literals. What the scanner takes for an integer spells a natural number, in decimal or in
hexadecimal. Both spellings carry the number itself as long as it fits in sixty-four bits with a
sign; a greater one is carried by its decimal spellings, as the nearest floating-point number. -/

namespace Parlance.Builtin

open Decimal
open Lexeme (isHexDigit)

/-- The decimal digits of a number, with any number of zeros before them. -/
def DecimalSpelling (number : Nat) (text : String) : Prop := Spells 10 number text.toList

/-- A marker, and the hexadecimal digits of a number in either case, with any number of zeros before
them. -/
def HexadecimalSpelling (number : Nat) (text : String) : Prop :=
  ∃ mark digits, text.toList = '0' :: mark :: digits ∧ (mark = 'x' ∨ mark = 'X') ∧
    Spells 16 number (digits.map Char.toLower)

/-- A text that the scanner takes whole for a number, with neither a fraction nor an exponent. -/
structure IntegerLiteral (text : String) : Prop where
  scanned : Lexeme.scan? text.toList = some (.number, text.toList.length)
  integer : (∀ char ∈ text.toList, char.isDigit = true) ∨ Lexeme.Hexadecimal text.toList

variable {number : Nat} {text : String}

theorem isHexDigit_iff {char : Char} :
    isHexDigit char = true ↔ ∃ digit, radixDigit? 16 char = some digit := by
  have same {char : Char} (small : char.toNat < 103) :
      isHexDigit char = (radixDigit? 16 char).isSome :=
    forall_lt_code (fun char => isHexDigit char = (radixDigit? 16 char).isSome)
      (by decide +kernel) small
  constructor
  · intro digit
    have small : char.toNat < 103 := by
      simp only [isHexDigit, Char.isDigit, Bool.or_eq_true, Bool.and_eq_true,
        decide_eq_true_eq] at digit
      rcases digit with (⟨-, nine⟩ | ⟨-, lower⟩) | ⟨-, upper⟩
      · exact toNat_lt_of_le '9' nine (by decide)
      · exact toNat_lt_of_le 'f' lower (by decide)
      · exact toNat_lt_of_le 'F' upper (by decide)
    rw [same small] at digit
    exact Option.isSome_iff_exists.mp digit
  · rintro ⟨digit, read⟩
    rw [same (toNat_of_radixDigit? read), read]
    rfl

theorem hexDigits_iff {digits : List Char} :
    (∀ char ∈ digits, isHexDigit char = true) ↔ ∃ number, radixValue? 16 digits = some number := by
  induction digits using List.reverseRecOn with
  | nil => exact ⟨fun _ => ⟨0, rfl⟩, fun _ _ member => nomatch member⟩
  | append_singleton digits char ih =>
      rw [radixValue?_append, List.forall_mem_append, ih, List.forall_mem_singleton, isHexDigit_iff]
      constructor
      · rintro ⟨⟨total, before⟩, digit, last⟩
        exact ⟨16 * total + digit, by rw [before, Option.bind_some, last, Option.map_some]⟩
      · rintro ⟨_, read⟩
        obtain ⟨total, before, last⟩ := Option.bind_eq_some_iff.mp read
        obtain ⟨digit, here, -⟩ := Option.map_eq_some_iff.mp last
        exact ⟨⟨total, before⟩, digit, here⟩

theorem radixValue?_of_lower {digits : List Char}
    (spells : Spells 16 number (digits.map Char.toLower)) : radixValue? 16 digits = some number := by
  rw [← radixValue?_map_toLower]
  exact spells.value (by decide) (by decide)

theorem ne_nil_of_lower {digits : List Char}
    (spells : Spells 16 number (digits.map Char.toLower)) : digits ≠ [] := by
  rintro rfl
  exact spells.ne_nil rfl

theorem IntegerLiteral.spells (literal : IntegerLiteral text) :
    ∃ number, DecimalSpelling number text ∨ HexadecimalSpelling number text := by
  rcases literal.integer with all | ⟨mark, digits, chars, marks, some, all⟩
  · have nonempty : text.toList ≠ [] := by
      intro none
      have scanned := literal.scanned
      rw [none] at scanned
      cases scanned
    have spells := spells_of_value (by decide) (by decide) nonempty (radixValue?_digits all)
    rw [List.map_congr_left fun char member => toLower_of_isDigit (all char member),
      List.map_id'] at spells
    exact ⟨_, .inl spells⟩
  · obtain ⟨number, read⟩ := hexDigits_iff.mp all
    exact ⟨number, .inr ⟨mark, digits, chars, marks,
      spells_of_value (by decide) (by decide) some read⟩⟩

theorem HexadecimalSpelling.hexadecimal (spelling : HexadecimalSpelling number text) :
    Lexeme.Hexadecimal text.toList := by
  obtain ⟨mark, digits, chars, marks, spells⟩ := spelling
  exact ⟨mark, digits, chars, marks, ne_nil_of_lower spells,
    hexDigits_iff.mpr ⟨number, radixValue?_of_lower spells⟩⟩

theorem DecimalSpelling.literal (spelling : DecimalSpelling number text) : IntegerLiteral text := by
  have all := Spells.isDigit spelling
  obtain ⟨first, more, chars⟩ := List.exists_cons_of_ne_nil (Spells.ne_nil spelling)
  refine ⟨?_, .inl all⟩
  rw [chars] at all ⊢
  apply Lexeme.Matches.scan?_self
  apply Lexeme.Matches.number (all first (List.mem_cons_self ..))
  exact .inr ⟨first :: more, [], [], by simp, all, .inl rfl, .inl rfl⟩

theorem HexadecimalSpelling.literal (spelling : HexadecimalSpelling number text) :
    IntegerLiteral text := by
  have hexadecimal := spelling.hexadecimal
  refine ⟨?_, .inr hexadecimal⟩
  obtain ⟨mark, digits, chars, -⟩ := spelling
  rw [chars] at hexadecimal ⊢
  apply Lexeme.Matches.scan?_self
  exact .number (by decide) (.inl hexadecimal)

theorem fitsSigned_natCast : fitsSigned 64 number = decide (number < twoTo 63) := by
  have positive : -(twoTo 63 : Int) ≤ number := by omega
  simp only [fitsSigned, Nat.add_one_sub_one, positive, decide_true, Bool.true_and, Nat.cast_lt]

theorem integer?_of_value {radix : Nat} {digits : List Char} (nonempty : digits ≠ [])
    (read : radixValue? radix digits = some number) :
    ((parseInteger? radix digits).filter (fitsSigned 64)).map Number.integer =
      if number < twoTo 63 then some (.integer number) else none := by
  rw [parseInteger?_of_value nonempty read, Option.filter_some, fitsSigned_natCast]
  simp only [decide_eq_true_eq]
  split_ifs <;> rfl

theorem parseNumber?_hexadecimal (spelling : HexadecimalSpelling number text) :
    parseNumber? text = if number < twoTo 63 then some (.integer number) else none := by
  obtain ⟨mark, digits, chars, marks, spells⟩ := spelling
  have integer := integer?_of_value (ne_nil_of_lower spells) (radixValue?_of_lower spells)
  rcases marks with rfl | rfl
  · rw [parseNumber?, chars]
    exact integer
  · rw [parseNumber?, chars]
    exact integer

theorem parseNumber?_decimal (spelling : DecimalSpelling number text) :
    parseNumber? text =
      if number < twoTo 63 then some (.integer number)
      else Number.ofBinary? (.ofDecimal false number 0) := by
  have all := Spells.isDigit spelling
  have value := Spells.value spelling (by decide) (by decide)
  have integer := integer?_of_value (Spells.ne_nil spelling) value
  have same : digitValue text.toList = number :=
    Option.some.inj ((radixValue?_digits all).symm.trans value)
  have float := parse?_digits (Spells.ne_nil spelling) all
  rw [same] at float
  -- A letter is no digit, so that no marker stands behind a first zero.
  have unmarked (mark : Char) (letter : mark.isDigit = false) (rest : List Char) :
      text.toList ≠ '0' :: mark :: rest := by
    intro chars
    have digit := all mark (by simp [chars])
    rw [letter] at digit
    cases digit
  unfold parseNumber?
  split
  next rest chars => exact absurd chars (unmarked 'x' (by decide) rest)
  next rest chars => exact absurd chars (unmarked 'X' (by decide) rest)
  next =>
    dsimp only
    rw [integer, float]
    split_ifs <;> rfl

/-- The node of a number that is written as the text. -/
def carrying (value : Tree) (text : String) : Tree :=
  .node "NumericLiteral" [("value", value), ("raw", .text text)]

theorem numericLiteral_carrying :
    numericLiteral (.text text) = carrying ((parseNumber? text).elim .null .number) text := by
  simp only [numericLiteral, carrying, Tree.text?, Option.getD_some]
  cases parseNumber? text <;> rfl

theorem numericLiteral_integer (fits : number < twoTo 63)
    (spelling : DecimalSpelling number text ∨ HexadecimalSpelling number text) :
    numericLiteral (.text text) = carrying (.number (.integer number)) text := by
  have read : parseNumber? text = some (.integer number) := by
    rcases spelling with decimal | hexadecimal
    · rw [parseNumber?_decimal decimal, if_pos fits]
    · rw [parseNumber?_hexadecimal hexadecimal, if_pos fits]
  rw [numericLiteral_carrying, read]
  rfl

theorem numericLiteral_float (beyond : twoTo 63 ≤ number) (below : number < finiteBound) :
    ∃ float : Binary, float.IsNearest number ∧ ∀ text, DecimalSpelling number text →
      numericLiteral (.text text) = carrying (.number (.float float)) text := by
  have large : twoTo 52 ≤ number := Nat.le_trans (twoTo_le_twoTo (by omega)) beyond
  have nearest := ofDecimal_isNearest large below
  obtain ⟨value, held, -⟩ := id nearest
  refine ⟨_, nearest, fun text spelling => ?_⟩
  rw [numericLiteral_carrying, parseNumber?_decimal spelling, if_neg (Nat.not_lt.mpr beyond),
    Number.ofBinary?, if_pos (Binary.isFinite_of_value? held)]
  rfl

theorem numericLiteral_infinite (beyond : finiteBound ≤ number)
    (spelling : DecimalSpelling number text) :
    numericLiteral (.text text) = carrying .null text := by
  have great : ¬ number < twoTo 63 := by
    have first : twoTo 63 ≤ finiteBound := by decide +kernel
    exact Nat.not_lt.mpr (Nat.le_trans first beyond)
  rw [numericLiteral_carrying, parseNumber?_decimal spelling, if_neg great, Number.ofBinary?,
    ofDecimal_infinite beyond]
  rfl

/-- Integer literals are the spellings of natural numbers. Both spellings of a number carry it where
it fits in sixty-four bits with a sign; the decimal ones of any greater number carry the one
floating-point number nearest to it, and nothing from the bound of these on. -/
theorem integer_spellings_agree :
    (∀ text, IntegerLiteral text ↔
      ∃ number, DecimalSpelling number text ∨ HexadecimalSpelling number text) ∧
    ∀ number,
      (number < twoTo 63 →
        ∀ text, DecimalSpelling number text ∨ HexadecimalSpelling number text →
          numericLiteral (.text text) = carrying (.number (.integer number)) text) ∧
      (twoTo 63 ≤ number → number < twoTo 1024 - twoTo 970 →
        ∃ float : Binary, float.IsNearest number ∧ ∀ text, DecimalSpelling number text →
          numericLiteral (.text text) = carrying (.number (.float float)) text) ∧
      (twoTo 1024 - twoTo 970 ≤ number →
        ∀ text, DecimalSpelling number text →
          numericLiteral (.text text) = carrying .null text) := by
  constructor
  · intro text
    constructor
    · exact IntegerLiteral.spells
    · rintro ⟨number, decimal | hexadecimal⟩
      · exact decimal.literal
      · exact hexadecimal.literal
  · intro number
    refine ⟨fun fits text => numericLiteral_integer fits, fun beyond below => ?_, fun beyond text => ?_⟩
    · exact numericLiteral_float beyond below
    · exact numericLiteral_infinite beyond

theorem integer_spellings_agree_twelve :
    numericLiteral (.text "0012") = carrying (.number (.integer 12)) "0012" ∧
      numericLiteral (.text "0X0c") = carrying (.number (.integer 12)) "0X0c" := by
  have agree := (integer_spellings_agree.2 12).1 (by decide)
  constructor
  · exact agree "0012" (.inl ⟨2, by decide⟩)
  · exact agree "0X0c" (.inr ⟨'X', ['0', 'c'], by decide, .inr rfl, 1, by decide⟩)

/-- At the bound of the signed integers the two spellings part: the decimal one carries a number, the
hexadecimal one nothing. A decimal literal long enough carries nothing either. -/
theorem integer_spellings_part :
    (DecimalSpelling (twoTo 63) "9223372036854775808" ∧
      HexadecimalSpelling (twoTo 63) "0x8000000000000000" ∧
      numericLiteral (.text "9223372036854775808") =
        carrying (.number (.float ⟨0x43e0000000000000⟩)) "9223372036854775808" ∧
      numericLiteral (.text "0x8000000000000000") = carrying .null "0x8000000000000000") ∧
    IntegerLiteral (String.ofList ('1' :: List.replicate 309 '0')) ∧
      numericLiteral (.text (String.ofList ('1' :: List.replicate 309 '0'))) =
        carrying .null (String.ofList ('1' :: List.replicate 309 '0')) := by
  have decimal : DecimalSpelling (twoTo 63) "9223372036854775808" := ⟨0, by decide +kernel⟩
  have hexadecimal : HexadecimalSpelling (twoTo 63) "0x8000000000000000" :=
    ⟨'x', "8000000000000000".toList, by decide +kernel, .inl rfl, 0, by decide +kernel⟩
  have long : DecimalSpelling (tenTo 309) (String.ofList ('1' :: List.replicate 309 '0')) :=
    ⟨0, by rw [String.toList_ofList]; decide +kernel⟩
  have beyond : finiteBound ≤ tenTo 309 := by decide +kernel
  have rounded : Number.ofBinary? (.ofDecimal false (twoTo 63) 0) =
      some (.float ⟨0x43e0000000000000⟩) := by decide +kernel
  refine ⟨⟨decimal, hexadecimal, ?_, ?_⟩, long.literal, numericLiteral_infinite beyond long⟩
  · rw [numericLiteral_carrying, parseNumber?_decimal decimal, if_neg (Nat.lt_irrefl _), rounded]
    rfl
  · rw [numericLiteral_carrying, parseNumber?_hexadecimal hexadecimal, if_neg (Nat.lt_irrefl _)]
    rfl

end Parlance.Builtin
