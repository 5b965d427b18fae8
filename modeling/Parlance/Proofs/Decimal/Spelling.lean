import Mathlib.Data.List.Basic
import Mathlib.Data.List.Induction
import Mathlib.Data.List.TakeWhile
import Parlance.Decimal.Parse

/-! What digits spell. Whatever zeros stand before them and whatever case their letters have, the
digits of a natural number are read as that number; and all digits are the digits of some number. -/

namespace Parlance.Decimal

/-- The digits of a number, with any number of zeros before them. -/
def Spells (radix number : Nat) (digits : List Char) : Prop :=
  ∃ zeros, digits = List.replicate zeros '0' ++ Nat.toDigits radix number

theorem forall_lt_code (property : Char → Prop) {bound : Nat}
    (each : ∀ code < bound, property (Char.ofNat code)) {char : Char} (small : char.toNat < bound) :
    property char := by
  have here := each char.toNat small
  rwa [Char.ofNat_toNat] at here

theorem toNat_lt_of_le {char : Char} {bound : Nat} (last : Char) (le : char ≤ last)
    (small : last.toNat < bound) : char.toNat < bound :=
  Nat.lt_of_le_of_lt (Char.le_def.mp le) small

theorem radixDigit?_digitChar {radix digit : Nat} (within : radix ≤ 16) (small : digit < radix) :
    radixDigit? radix (Nat.digitChar digit) = some digit := by
  have each : ∀ radix ≤ 16, ∀ digit < radix,
      radixDigit? radix (Nat.digitChar digit) = some digit := by decide +kernel
  exact each radix within digit small

theorem radixDigit?_sixteen {radix digit : Nat} {char : Char} (within : radix ≤ 16)
    (read : radixDigit? radix char = some digit) :
    digit < radix ∧ radixDigit? 16 char = some digit := by
  obtain ⟨held, small⟩ := Option.filter_eq_some_iff.mp read
  have less : digit < radix := by simpa using small
  exact ⟨less, Option.filter_eq_some_iff.mpr ⟨held, by simpa using Nat.lt_of_lt_of_le less within⟩⟩

theorem toNat_of_radixDigit? {radix digit : Nat} {char : Char}
    (read : radixDigit? radix char = some digit) : char.toNat < 103 := by
  obtain ⟨held, -⟩ := Option.filter_eq_some_iff.mp read
  split at held
  next digit =>
    simp only [Char.isDigit, Bool.and_eq_true, decide_eq_true_eq] at digit
    exact toNat_lt_of_le '9' digit.2 (by decide)
  split at held
  next lower => exact toNat_lt_of_le 'f' lower.2 (by decide)
  split at held
  next upper => exact toNat_lt_of_le 'F' upper.2 (by decide)
  next => cases held

theorem digitChar_of_radixDigit? {radix digit : Nat} {char : Char} (within : radix ≤ 16)
    (read : radixDigit? radix char = some digit) :
    digit < radix ∧ Nat.digitChar digit = char.toLower := by
  have lower := forall_lt_code
    (fun char => ∀ digit ∈ radixDigit? 16 char, Nat.digitChar digit = char.toLower)
    (by decide +kernel) (toNat_of_radixDigit? read)
  obtain ⟨small, hexadecimal⟩ := radixDigit?_sixteen within read
  exact ⟨small, lower digit hexadecimal⟩

theorem toLower_of_not_upper {char : Char} (other : ¬ (char.val ≥ 'A'.val ∧ char.val ≤ 'Z'.val)) :
    char.toLower = char := dif_neg other

theorem radixDigit?_toLower (char : Char) : radixDigit? 16 char.toLower = radixDigit? 16 char := by
  by_cases upper : char.val ≥ 'A'.val ∧ char.val ≤ 'Z'.val
  · have small : char.toNat < 91 := Nat.lt_succ_of_le (UInt32.le_iff_toNat_le.mp upper.2)
    exact forall_lt_code (fun char => radixDigit? 16 char.toLower = radixDigit? 16 char)
      (by decide +kernel) small
  · rw [toLower_of_not_upper upper]

theorem radixValue?_append (radix : Nat) (digits : List Char) (char : Char) :
    radixValue? radix (digits ++ [char]) = (radixValue? radix digits).bind fun total =>
      (radixDigit? radix char).map (radix * total + ·) := by
  rw [radixValue?, List.foldlM_append]
  exact congrArg (Option.bind _) (funext fun total => by simp)

theorem radixValue?_map_toLower (digits : List Char) :
    radixValue? 16 (digits.map Char.toLower) = radixValue? 16 digits := by
  simp only [radixValue?, List.foldlM_map, radixDigit?_toLower]

theorem radixValue?_toDigits {radix : Nat} (least : 1 < radix) (within : radix ≤ 16) (number : Nat) :
    radixValue? radix (Nat.toDigits radix number) = some number := by
  induction number using Nat.strongRecOn with
  | ind number ih =>
      by_cases small : number < radix
      · rw [Nat.toDigits_of_lt_base small]
        simp [radixValue?, radixDigit?_digitChar within small]
      · have last : number % radix < radix := Nat.mod_lt _ (by omega)
        have less : number / radix < number := Nat.div_lt_self (by omega) least
        rw [Nat.toDigits_of_base_le least (by omega), radixValue?_append, ih _ less,
          radixDigit?_digitChar within last]
        exact congrArg some (Nat.div_add_mod number radix)

theorem radixValue?_zeros {radix : Nat} (least : 1 < radix) (within : radix ≤ 16) (zeros : Nat)
    (digits : List Char) :
    radixValue? radix (List.replicate zeros '0' ++ digits) = radixValue? radix digits := by
  have zero : radixDigit? radix '0' = some 0 :=
    radixDigit?_digitChar within (Nat.zero_lt_of_lt least)
  induction zeros with
  | zero => rfl
  | succ zeros ih =>
      rw [List.replicate_succ, List.cons_append, radixValue?, List.foldlM_cons, zero]
      exact ih

theorem Spells.value {radix number : Nat} {digits : List Char} (spells : Spells radix number digits)
    (least : 1 < radix) (within : radix ≤ 16) : radixValue? radix digits = some number := by
  obtain ⟨zeros, rfl⟩ := spells
  rw [radixValue?_zeros least within, radixValue?_toDigits least within]

theorem Spells.ne_nil {radix number : Nat} {digits : List Char}
    (spells : Spells radix number digits) : digits ≠ [] := by
  obtain ⟨zeros, rfl⟩ := spells
  exact List.append_ne_nil_of_right_ne_nil _ Nat.toDigits_ne_nil

theorem Spells.snoc {radix number digit : Nat} {digits : List Char}
    (spells : Spells radix number digits) (least : 1 < radix) (small : digit < radix) :
    Spells radix (radix * number + digit) (digits ++ [Nat.digitChar digit]) := by
  obtain ⟨zeros, rfl⟩ := spells
  by_cases positive : 0 < number
  · refine ⟨zeros, ?_⟩
    rw [List.append_assoc, ← Nat.toDigits_of_lt_base small,
      Nat.toDigits_append_toDigits least positive small]
  · -- The zero that stood alone becomes one of those in front.
    obtain rfl : number = 0 := by omega
    refine ⟨zeros + 1, ?_⟩
    have zero : Nat.toDigits radix 0 = ['0'] := Nat.toDigits_of_lt_base (Nat.zero_lt_of_lt least)
    rw [zero, Nat.mul_zero, Nat.zero_add, Nat.toDigits_of_lt_base small, List.replicate_succ']

/-- All that is read as a number spells it. -/
theorem spells_of_value {radix number : Nat} {digits : List Char} (least : 1 < radix)
    (within : radix ≤ 16) (nonempty : digits ≠ [])
    (read : radixValue? radix digits = some number) :
    Spells radix number (digits.map Char.toLower) := by
  induction digits using List.reverseRecOn generalizing number with
  | nil => exact absurd rfl nonempty
  | append_singleton digits char ih =>
      rw [radixValue?_append] at read
      obtain ⟨total, before, last⟩ := Option.bind_eq_some_iff.mp read
      obtain ⟨digit, here, rfl⟩ := Option.map_eq_some_iff.mp last
      obtain ⟨small, lower⟩ := digitChar_of_radixDigit? within here
      rw [List.map_append, List.map_singleton, ← lower]
      by_cases alone : digits = []
      · subst alone
        cases before
        refine ⟨0, ?_⟩
        simp [Nat.toDigits_of_lt_base small]
      · exact (ih alone before).snoc least small

theorem parseInteger?_of_value {radix number : Nat} {digits : List Char} (nonempty : digits ≠ [])
    (read : radixValue? radix digits = some number) :
    parseInteger? radix digits = some (number : Int) := by
  obtain ⟨first, rest, rfl⟩ := List.exists_cons_of_ne_nil nonempty
  have unsigned : splitSign (first :: rest) = (false, first :: rest) := by
    have noSign (sign : Char) (signs : sign = '-' ∨ sign = '+') : first ≠ sign := by
      rintro rfl
      have nothing : radixDigit? radix first = none := by rcases signs with rfl | rfl <;> rfl
      rw [radixValue?, List.foldlM_cons, nothing] at read
      cases read
    unfold splitSign
    split
    next same => exact absurd (List.cons.inj same).1 (noSign '-' (.inl rfl))
    next same => exact absurd (List.cons.inj same).1 (noSign '+' (.inr rfl))
    next => rfl
  simp only [parseInteger?, unsigned, List.isEmpty_cons, Bool.false_eq_true, if_false, read]
  rfl

theorem Spells.isDigit {number : Nat} {digits : List Char} (spells : Spells 10 number digits) :
    ∀ char ∈ digits, char.isDigit = true := by
  obtain ⟨zeros, rfl⟩ := spells
  intro char member
  rcases List.mem_append.mp member with member | member
  · rw [List.eq_of_mem_replicate member]
    decide
  · exact Nat.isDigit_of_mem_toDigits (by decide) (by decide) member

theorem radixDigit?_of_isDigit {char : Char} (digit : char.isDigit = true) :
    radixDigit? 10 char = some (char.toNat - '0'.toNat) := by
  have bound : char.toNat ≤ '9'.toNat := by
    simp only [Char.isDigit, Bool.and_eq_true, decide_eq_true_eq] at digit
    exact Char.le_def.mp digit.2
  have small : char.toNat - '0'.toNat < 10 := by
    have nine : '9'.toNat = 57 := rfl
    have zero : '0'.toNat = 48 := rfl
    omega
  rw [radixDigit?, if_pos digit]
  exact Option.filter_eq_some_iff.mpr ⟨rfl, by simpa using small⟩

theorem radixValue?_digits {digits : List Char} (all : ∀ char ∈ digits, char.isDigit = true) :
    radixValue? 10 digits = some (digitValue digits) := by
  induction digits using List.reverseRecOn with
  | nil => rfl
  | append_singleton digits char ih =>
      have before := ih fun char member => all char (List.mem_append_left _ member)
      have last := radixDigit?_of_isDigit (all char (by simp))
      have longer : digitValue (digits ++ [char]) =
          10 * digitValue digits + (char.toNat - '0'.toNat) := List.foldl_append
      rw [radixValue?_append, before, last, longer]
      rfl

theorem toLower_of_isDigit {char : Char} (digit : char.isDigit = true) : char.toLower = char := by
  apply toLower_of_not_upper
  rintro ⟨letter, -⟩
  simp only [Char.isDigit, Bool.and_eq_true, decide_eq_true_eq] at digit
  exact absurd (UInt32.le_trans letter digit.2) (by decide)

theorem parse?_digits {text : String} (nonempty : text.toList ≠ [])
    (all : ∀ char ∈ text.toList, char.isDigit = true) :
    parse? text = some (.ofDecimal false (digitValue text.toList) 0) := by
  obtain ⟨first, rest, chars⟩ := List.exists_cons_of_ne_nil nonempty
  have digit : first.isDigit = true := all first (by simp [chars])
  have unsigned : splitSign text.toList = (false, text.toList) := by
    rw [chars]
    unfold splitSign
    split
    next same => cases (List.cons.inj same).1; cases digit
    next same => cases (List.cons.inj same).1; cases digit
    next => rfl
  have lower : String.ofList (text.toList.map Char.toLower) = text := by
    rw [List.map_congr_left fun char member => toLower_of_isDigit (all char member), List.map_id',
      String.ofList_toList]
  -- The words for what is no finite number begin with letters.
  have noWord (word : String) (letter : word.toList.head?.any Char.isDigit = false) : text ≠ word := by
    rintro rfl
    simp [chars, digit] at letter
  have whole : text.toList.takeWhile Char.isDigit = text.toList := List.takeWhile_eq_self_iff.mpr all
  have nothing : text.toList.dropWhile Char.isDigit = [] := List.dropWhile_eq_nil_iff.mpr all
  simp only [parse?, unsigned, lower, noWord "inf" (by decide), noWord "infinity" (by decide),
    noWord "nan" (by decide), or_self, if_false, parseDigits?, whole, nothing]
  simp [nonempty, parseExponent?]

end Parlance.Decimal
