import Mathlib.Data.List.Basic
import Parlance.Token.Lexeme

/-! Where a lexeme ends. A lexeme that some text begins with is also what it begins with when other
text follows, so long as that text does not go on with it. -/

namespace Parlance.Lexeme

/-- The text is at its end, or begins with a character of another kind. -/
def Stops (kind : Char → Bool) (text : List Char) : Prop := ∀ char ∈ text.head?, kind char = false

theorem stops_nil (kind : Char → Bool) : Stops kind [] := fun _ none => nomatch none

theorem stops_cons {kind : Char → Bool} {char : Char} {rest : List Char} :
    Stops kind (char :: rest) ↔ kind char = false := by
  simp [Stops]

theorem Stops.mono {kind wider : Char → Bool} {text : List Char} (stops : Stops wider text)
    (sub : ∀ char, kind char = true → wider char = true) : Stops kind text := by
  intro char first
  have outside := stops char first
  by_contra inside
  have := sub char (by simpa using inside)
  simp_all

theorem takeWhile_eq_nil {kind : Char → Bool} {text : List Char} (stops : Stops kind text) :
    text.takeWhile kind = [] := by
  cases text with
  | nil => rfl
  | cons char rest => simp [stops_cons.mp stops]

theorem takeWhile_append {kind : Char → Bool} {run following : List Char}
    (all : ∀ char ∈ run, kind char = true) (stops : Stops kind following) :
    (run ++ following).takeWhile kind = run := by
  rw [List.takeWhile_append_of_pos all, takeWhile_eq_nil stops, List.append_nil]

theorem mem_takeWhile {kind : Char → Bool} {text : List Char} :
    ∀ char ∈ text.takeWhile kind, kind char = true :=
  fun _ member => List.all_eq_true.mp (List.all_takeWhile) _ member

theorem run_split (kind : Char → Bool) (text : List Char) : ∃ run rest, text = run ++ rest ∧
    (text.takeWhile kind).length = run.length ∧ ∀ char ∈ run, kind char = true :=
  ⟨text.takeWhile kind, text.dropWhile kind, List.takeWhile_append_dropWhile.symm, rfl,
    mem_takeWhile⟩

theorem stringLength_append {quote : Char} (quotes : quote ≠ '\\') {text : List Char} {length : Nat}
    (closed : stringLength quote text = some length) (following : List Char) :
    stringLength quote (text.take length ++ following) = some length ∧ length ≤ text.length := by
  fun_induction stringLength quote text generalizing length with
  | case1 => cases closed
  | case2 next rest ih =>
      obtain ⟨inner, closedInner, rfl⟩ := Option.map_eq_some_iff.mp closed
      obtain ⟨same, within⟩ := ih closedInner
      constructor
      · simp [List.take_succ_cons, stringLength, same]
      · simp only [List.length_cons]
        omega
  | case3 rest unescaped =>
      cases closed
      constructor
      · rw [List.take_succ_cons, List.cons_append, stringLength, if_pos rfl]
        exact fun _ _ backslash => absurd backslash quotes
      · simp
  | case4 => cases closed
  | case5 char rest unescaped other plain ih =>
      obtain ⟨inner, closedInner, rfl⟩ := Option.map_eq_some_iff.mp closed
      obtain ⟨same, within⟩ := ih closedInner
      constructor
      · rw [List.take_succ_cons, List.cons_append, stringLength, if_neg other, if_neg plain, same]
        · rfl
        · exact fun _ _ backslash => absurd (Or.inl backslash) plain
      · simp only [List.length_cons]
        omega

def Fraction (part : List Char) : Prop :=
  part = [] ∨ ∃ digits, part = '.' :: digits ∧ ∀ char ∈ digits, char.isDigit = true

def Exponent (part : List Char) : Prop :=
  part = [] ∨ ∃ mark sign digits, part = mark :: (sign ++ digits) ∧ (mark = 'e' ∨ mark = 'E') ∧
    (sign = [] ∨ sign = ['+'] ∨ sign = ['-']) ∧ digits ≠ [] ∧ ∀ char ∈ digits, char.isDigit = true

structure Decimal (whole fraction exponent : List Char) : Prop where
  whole : ∀ char ∈ whole, char.isDigit = true
  fraction : Fraction fraction
  exponent : Exponent exponent

def Hexadecimal (numeral : List Char) : Prop :=
  ∃ mark digits, numeral = '0' :: mark :: digits ∧ (mark = 'x' ∨ mark = 'X') ∧ digits ≠ [] ∧
    ∀ char ∈ digits, isHexDigit char = true

def Numeral (numeral : List Char) : Prop :=
  Hexadecimal numeral ∨ ∃ whole fraction exponent, numeral = whole ++ (fraction ++ exponent) ∧
    Decimal whole fraction exponent

theorem isWordPart_of_isDigit {char : Char} (digit : char.isDigit = true) :
    isWordPart char = true := by
  simp [isWordPart, digit]

theorem digitsLength_append {digits following : List Char}
    (all : ∀ char ∈ digits, char.isDigit = true) (stops : Stops Char.isDigit following) :
    digitsLength (digits ++ following) = digits.length := by
  rw [digitsLength, takeWhile_append all stops]

theorem digits_split (text : List Char) : ∃ digits rest, text = digits ++ rest ∧
    digitsLength text = digits.length ∧ ∀ char ∈ digits, char.isDigit = true :=
  run_split Char.isDigit text

theorem fraction_split (text : List Char) : ∃ part rest, text = part ++ rest ∧
    fractionLength text = part.length ∧ Fraction part := by
  unfold fractionLength
  split
  next rest =>
    obtain ⟨digits, after, rfl, length, all⟩ := digits_split rest
    refine ⟨'.' :: digits, after, rfl, ?_, .inr ⟨digits, rfl, all⟩⟩
    simp only [length, List.length_cons]
    omega
  next => exact ⟨[], text, rfl, rfl, .inl rfl⟩

theorem fractionLength_append {part following : List Char} (fraction : Fraction part)
    (stops : Stops Char.isDigit following) (apart : part = [] → following.head? ≠ some '.') :
    fractionLength (part ++ following) = part.length := by
  rcases fraction with rfl | ⟨digits, rfl, all⟩
  · have differs := apart rfl
    unfold fractionLength
    split
    next rest same => simp_all
    next => rfl
  · simp only [List.cons_append, fractionLength, digitsLength_append all stops, List.length_cons]
    omega

def Sign (sign after : List Char) : Prop :=
  sign = [] ∧ Stops (fun char => char = '+' ∨ char = '-') after ∨ sign = ['+'] ∨ sign = ['-']

theorem sign_split (text : List Char) : ∃ sign after, text = sign ++ after ∧ Sign sign after := by
  cases text with
  | nil => exact ⟨[], [], rfl, .inl ⟨rfl, stops_nil _⟩⟩
  | cons sign after =>
      by_cases plus : sign = '+'
      · exact ⟨[sign], after, rfl, .inr (.inl (by rw [plus]))⟩
      · by_cases minus : sign = '-'
        · exact ⟨[sign], after, rfl, .inr (.inr (by rw [minus]))⟩
        · exact ⟨[], sign :: after, rfl, .inl ⟨rfl, stops_cons.mpr (by simp [plus, minus])⟩⟩

theorem exponentLength_mark {mark : Char} (marks : mark = 'e' ∨ mark = 'E')
    {sign after : List Char} (signs : Sign sign after) :
    exponentLength (mark :: (sign ++ after)) =
      if digitsLength after = 0 then 0 else 1 + sign.length + digitsLength after := by
  rcases signs with ⟨rfl, stops⟩ | rfl | rfl
  · cases after with
    | nil => simp [exponentLength, marks]
    | cons first rest =>
        have unsigned : ¬ (first = '+' ∨ first = '-') := by
          simpa using stops_cons.mp stops
        simp [exponentLength, marks, unsigned]
  · simp [exponentLength, marks]
  · simp [exponentLength, marks]

theorem exponent_split (text : List Char) : ∃ part rest, text = part ++ rest ∧
    exponentLength text = part.length ∧ Exponent part := by
  have nothing (zero : exponentLength text = 0) : ∃ part rest, text = part ++ rest ∧
      exponentLength text = part.length ∧ Exponent part := ⟨[], text, rfl, zero, .inl rfl⟩
  cases text with
  | nil => exact nothing rfl
  | cons mark rest =>
      by_cases marks : mark = 'e' ∨ mark = 'E'
      · obtain ⟨sign, after, rfl, signs⟩ := sign_split rest
        obtain ⟨digits, last, rfl, counted, all⟩ := digits_split after
        have length := exponentLength_mark marks signs
        rw [counted] at length
        by_cases none : digits.length = 0
        · exact nothing (by rw [length, if_pos none])
        · rw [if_neg none] at length
          refine ⟨mark :: (sign ++ digits), last, by simp, ?_,
            .inr ⟨mark, sign, digits, rfl, marks, ?_, fun empty => none (by simp [empty]), all⟩⟩
          · rw [length, List.length_cons, List.length_append]
            omega
          · rcases signs with ⟨rfl, -⟩ | rfl | rfl <;> simp
      · exact nothing (by simp [exponentLength, marks])

theorem exponentLength_append {part following : List Char} (exponent : Exponent part)
    (stops : Stops isWordPart following) : exponentLength (part ++ following) = part.length := by
  rcases exponent with rfl | ⟨mark, sign, digits, rfl, marks, signs, some, all⟩
  · cases following with
    | nil => rfl
    | cons mark rest =>
        have outside := stops_cons.mp stops
        have differs : ¬ (mark = 'e' ∨ mark = 'E') := by
          rintro (rfl | rfl) <;> revert outside <;> decide
        simp [exponentLength, differs]
  · have counted := digitsLength_append all (stops.mono fun _ => isWordPart_of_isDigit)
    have unsigned : Stops (fun char => char = '+' ∨ char = '-') (digits ++ following) := by
      obtain ⟨first, rest, rfl⟩ := List.exists_cons_of_ne_nil some
      have digit : first.isDigit = true := all first (List.mem_cons_self ..)
      refine stops_cons.mpr (decide_eq_false ?_)
      rintro (rfl | rfl) <;> revert digit <;> decide
    have placed : Sign sign (digits ++ following) := by
      rcases signs with rfl | rfl | rfl
      · exact .inl ⟨rfl, unsigned⟩
      · exact .inr (.inl rfl)
      · exact .inr (.inr rfl)
    have positive : digits.length ≠ 0 := fun none => some (List.eq_nil_of_length_eq_zero none)
    rw [List.cons_append, List.append_assoc, exponentLength_mark marks placed, counted,
      if_neg positive, List.length_cons, List.length_append]
    omega

theorem decimal_split (text : List Char) : ∃ whole fraction exponent rest,
    text = whole ++ (fraction ++ (exponent ++ rest)) ∧
    decimalLength text = whole.length + (fraction.length + exponent.length) ∧
    Decimal whole fraction exponent := by
  obtain ⟨whole, afterWhole, rfl, wholeLength, digits⟩ := digits_split text
  obtain ⟨fraction, afterFraction, rfl, fractionLength, isFraction⟩ := fraction_split afterWhole
  obtain ⟨exponent, rest, rfl, exponentLength, isExponent⟩ := exponent_split afterFraction
  refine ⟨whole, fraction, exponent, rest, rfl, ?_, digits, isFraction, isExponent⟩
  have behind : List.drop (whole.length + fraction.length)
      (whole ++ (fraction ++ (exponent ++ rest))) = exponent ++ rest := by
    rw [List.drop_length_add_append, List.drop_left]
  simp only [decimalLength, wholeLength, List.drop_left, fractionLength, behind, exponentLength]
  omega

theorem Decimal.length_append {whole fraction exponent following : List Char}
    (decimal : Decimal whole fraction exponent) (stops : Stops isWordPart following)
    (apart : fraction = [] → exponent = [] → following.head? ≠ some '.') :
    decimalLength (whole ++ (fraction ++ (exponent ++ following))) =
      whole.length + (fraction.length + exponent.length) := by
  have afterExponent : Stops Char.isDigit following := stops.mono fun _ => isWordPart_of_isDigit
  have afterFraction : Stops Char.isDigit (exponent ++ following) := by
    rcases decimal.exponent with rfl | ⟨mark, sign, digits, rfl, rfl | rfl, -⟩
    · exact afterExponent
    · exact stops_cons.mpr (by decide)
    · exact stops_cons.mpr (by decide)
  have afterWhole : Stops Char.isDigit (fraction ++ (exponent ++ following)) := by
    rcases decimal.fraction with rfl | ⟨digits, rfl, -⟩
    · exact afterFraction
    · exact stops_cons.mpr (by decide)
  have noDot : fraction = [] → (exponent ++ following).head? ≠ some '.' := by
    intro none
    rcases decimal.exponent with rfl | ⟨mark, sign, digits, rfl, rfl | rfl, -⟩
    · exact apart none rfl
    · simp
    · simp
  have wholeLength := digitsLength_append decimal.whole afterWhole
  have fractionLength := fractionLength_append decimal.fraction afterFraction noDot
  have exponentLength := exponentLength_append decimal.exponent stops
  have behind : List.drop (whole.length + fraction.length)
      (whole ++ (fraction ++ (exponent ++ following))) = exponent ++ following := by
    rw [List.drop_length_add_append, List.drop_left]
  simp only [decimalLength, wholeLength, List.drop_left, fractionLength, behind, exponentLength]
  omega

theorem Decimal.unmarked {whole fraction exponent : List Char}
    (decimal : Decimal whole fraction exponent) :
    ∀ char ∈ whole ++ (fraction ++ exponent), ¬ (char = 'x' ∨ char = 'X') := by
  have digits {char : Char} (digit : char.isDigit = true) : ¬ (char = 'x' ∨ char = 'X') := by
    rintro (rfl | rfl) <;> revert digit <;> decide
  intro char member
  rcases List.mem_append.mp member with member | member
  · exact digits (decimal.whole char member)
  rcases List.mem_append.mp member with member | member
  · rcases decimal.fraction with rfl | ⟨all, rfl, allDigits⟩
    · cases member
    · rcases List.mem_cons.mp member with rfl | member
      · decide
      · exact digits (allDigits char member)
  · rcases decimal.exponent with rfl | ⟨mark, sign, all, rfl, marks, signs, -, allDigits⟩
    · cases member
    · rcases List.mem_cons.mp member with rfl | member
      · rcases marks with rfl | rfl <;> decide
      rcases List.mem_append.mp member with member | member
      · rcases signs with rfl | rfl | rfl
        · cases member
        · cases List.mem_singleton.mp member; decide
        · cases List.mem_singleton.mp member; decide
      · exact digits (allDigits char member)

theorem isAlpha_iff {char : Char} :
    char.isAlpha = true ↔ ('A' ≤ char ∧ char ≤ 'Z') ∨ ('a' ≤ char ∧ char ≤ 'z') := by
  change (decide ('A' ≤ char ∧ char ≤ 'Z') || decide ('a' ≤ char) && decide (char ≤ 'z')) = true ↔ _
  rw [Bool.or_eq_true, Bool.and_eq_true, decide_eq_true_iff, decide_eq_true_iff, decide_eq_true_iff]

theorem isWordPart_of_isHexDigit {char : Char} (digit : isHexDigit char = true) :
    isWordPart char = true := by
  simp only [isHexDigit, Bool.or_eq_true, Bool.and_eq_true, decide_eq_true_eq] at digit
  simp only [isWordPart, isWordStart, Bool.or_eq_true, isAlpha_iff]
  rcases digit with (digit | ⟨lower, upper⟩) | ⟨lower, upper⟩
  · exact .inr digit
  · exact .inl (.inl (.inl (.inr ⟨lower, Char.le_trans upper (by decide)⟩)))
  · exact .inl (.inl (.inl (.inl ⟨lower, Char.le_trans upper (by decide)⟩)))

theorem isDigit_of_isWordStart {char : Char} (start : isWordStart char = true) :
    char.isDigit = false := by
  by_contra digit
  simp only [isWordStart, isAlpha_iff, Bool.or_eq_true, decide_eq_true_eq] at start
  simp only [Char.isDigit, Bool.and_eq_true, decide_eq_true_eq, Bool.not_eq_false] at digit
  have upper : char ≤ '9' := digit.2
  rcases start with ((⟨upperCase, -⟩ | ⟨lowerCase, -⟩) | rfl) | rfl
  · exact absurd (Char.le_trans upperCase upper) (by decide)
  · exact absurd (Char.le_trans lowerCase upper) (by decide)
  · exact absurd upper (by decide)
  · exact absurd digit.1 (by decide)

theorem numberLength_of_decimal {text : List Char}
    (unmarked : ∀ mark rest, text = '0' :: mark :: rest → ¬ (mark = 'x' ∨ mark = 'X')) :
    numberLength text = decimalLength text := by
  unfold numberLength
  split
  next mark rest => simp [unmarked mark rest rfl]
  next => rfl

theorem number_split (text : List Char) : ∃ numeral rest, text = numeral ++ rest ∧
    numberLength text = numeral.length ∧ Numeral numeral := by
  have decimal (same : numberLength text = decimalLength text) : ∃ numeral rest,
      text = numeral ++ rest ∧ numberLength text = numeral.length ∧ Numeral numeral := by
    obtain ⟨whole, fraction, exponent, rest, whole_text, length, decimal⟩ := decimal_split text
    refine ⟨whole ++ (fraction ++ exponent), rest, by simpa using whole_text, ?_,
      .inr ⟨whole, fraction, exponent, rfl, decimal⟩⟩
    rw [same, length, List.length_append, List.length_append]
  by_cases marked : ∃ mark rest, text = '0' :: mark :: rest ∧ (mark = 'x' ∨ mark = 'X')
  · obtain ⟨mark, rest, rfl, marks⟩ := marked
    by_cases none : (rest.takeWhile isHexDigit).length = 0
    · exact decimal (by simp [numberLength, none])
    · refine ⟨'0' :: mark :: rest.takeWhile isHexDigit, rest.dropWhile isHexDigit, ?_, ?_,
        .inl ⟨mark, _, rfl, marks, fun empty => none (by rw [empty]; rfl), mem_takeWhile⟩⟩
      · simp
      · simp only [numberLength, marks, none, ne_eq, not_false_eq_true, and_self, if_true,
          List.length_cons]
        omega
  · refine decimal (numberLength_of_decimal fun mark rest same marks => ?_)
    exact marked ⟨mark, rest, same, marks⟩

/-- A number is read as far as it was written, unless it consists of digits and a dot follows. -/
theorem Numeral.length_append {numeral following : List Char} (isNumeral : Numeral numeral)
    (stops : Stops isWordPart following)
    (apart : (∀ char ∈ numeral, char.isDigit = true) → following.head? ≠ some '.') :
    numberLength (numeral ++ following) = numeral.length := by
  rcases isNumeral with
    ⟨mark, digits, rfl, marks, some, all⟩ | ⟨whole, fraction, exponent, rfl, decimal⟩
  · have run : (digits ++ following).takeWhile isHexDigit = digits :=
      takeWhile_append all (stops.mono fun _ => isWordPart_of_isHexDigit)
    have positive : digits.length ≠ 0 := fun none => some (List.eq_nil_of_length_eq_zero none)
    simp only [List.cons_append, numberLength, run, marks, positive, ne_eq, not_false_eq_true,
      and_self, if_true, List.length_cons]
    omega
  · have plain : fraction = [] → exponent = [] → following.head? ≠ Option.some '.' := by
      rintro rfl rfl
      exact apart (by simpa using decimal.whole)
    rw [numberLength_of_decimal]
    · rw [List.append_assoc, List.append_assoc, decimal.length_append stops plain,
        List.length_append, List.length_append]
    · intro mark rest same marks
      have unmarked := decimal.unmarked
      generalize whole ++ (fraction ++ exponent) = numeral at same unmarked
      have outside (char : Char) (first : following.head? = Option.some char) :
          isWordPart char = false := stops char (by simp [first])
      match numeral, same with
      | [], same =>
          have := outside '0' (by simpa using congrArg List.head? same)
          revert this
          decide
      | [zero], same =>
          have := outside mark (by simpa using congrArg (fun text => text.tail.head?) same)
          rcases marks with rfl | rfl <;> revert this <;> decide
      | zero :: second :: more, same =>
          have isSecond : second = mark := by
            simpa using congrArg (fun text => text.tail.head?) same
          exact unmarked second (by simp) (isSecond ▸ marks)

theorem numberLength_pos {first : Char} (digit : first.isDigit = true) (rest : List Char) :
    0 < numberLength (first :: rest) := by
  have decimal : 0 < decimalLength (first :: rest) := by
    simp only [decimalLength, digitsLength, List.takeWhile_cons, digit, if_true, List.length_cons]
    omega
  unfold numberLength
  split
  · dsimp only
    split
    · omega
    · exact decimal
  · exact decimal

theorem scan?_cons {first : Char} (slash : first ≠ '/') (rest : List Char) :
    scan? (first :: rest) =
      if isWhitespace first then
        some (.whitespace, ((first :: rest).takeWhile isWhitespace).length)
      else if first.isDigit then some (.number, numberLength (first :: rest))
      else if isWordStart first then some (.word, 1 + (rest.takeWhile isWordPart).length)
      else if first = '"' ∨ first = '\'' then
        (stringLength first rest).map fun length => (.string, 1 + length)
      else none := by
  unfold scan?
  split <;> simp_all

theorem scan?_digit {first : Char} (digit : first.isDigit = true) (rest : List Char) :
    scan? (first :: rest) = some (.number, numberLength (first :: rest)) := by
  have slash : first ≠ '/' := by rintro rfl; revert digit; decide
  have blank : isWhitespace first = false := by
    simp only [isWhitespace, Bool.or_eq_false_iff, decide_eq_false_iff_not]
    refine ⟨⟨⟨⟨?_, ?_⟩, ?_⟩, ?_⟩, ?_⟩ <;> rintro rfl <;> revert digit <;> decide
  rw [scan?_cons slash, blank, digit]
  rfl

theorem scan?_wordStart {first : Char} (start : isWordStart first = true) (rest : List Char) :
    scan? (first :: rest) = some (.word, 1 + (rest.takeWhile isWordPart).length) := by
  have slash : first ≠ '/' := by rintro rfl; revert start; decide
  have blank : isWhitespace first = false := by
    simp only [isWhitespace, Bool.or_eq_false_iff, decide_eq_false_iff_not]
    refine ⟨⟨⟨⟨?_, ?_⟩, ?_⟩, ?_⟩, ?_⟩ <;> rintro rfl <;> revert start <;> decide
  rw [scan?_cons slash, blank, isDigit_of_isWordStart start, start]
  rfl

theorem scan?_hard {first : Char} {rest : List Char} {lexemeClass : LexemeClass} {length : Nat}
    (scanned : scan? (first :: rest) = some (lexemeClass, length))
    (hard : lexemeClass.isEther = false) :
    first ≠ '/' ∧ isWhitespace first = false ∧
      (lexemeClass = .number ∧ first.isDigit = true ∧ length = numberLength (first :: rest) ∨
        lexemeClass = .word ∧ first.isDigit = false ∧ isWordStart first = true ∧
          length = 1 + (rest.takeWhile isWordPart).length ∨
        lexemeClass = .string ∧ first.isDigit = false ∧ isWordStart first = false ∧
          (first = '"' ∨ first = '\'') ∧
          ∃ inner, stringLength first rest = some inner ∧ length = 1 + inner) := by
  have slash : first ≠ '/' := by
    rintro rfl
    unfold scan? at scanned
    split at scanned
    next same => cases same
    next => cases scanned; cases hard
    next => cases scanned; cases hard
    next same =>
      cases same
      have blank : isWhitespace '/' = false := by decide
      have digit : '/'.isDigit = false := by decide
      have start : isWordStart '/' = false := by decide
      simp [blank, digit, start] at scanned
  rw [scan?_cons slash] at scanned
  refine ⟨slash, ?_⟩
  split at scanned
  next => cases scanned; cases hard
  next blank =>
    refine ⟨by simpa using blank, ?_⟩
    split at scanned
    next digit => cases scanned; exact .inl ⟨rfl, digit, rfl⟩
    next noDigit =>
      have noDigit : first.isDigit = false := by simpa using noDigit
      split at scanned
      next start => cases scanned; exact .inr (.inl ⟨rfl, noDigit, start, rfl⟩)
      next noStart =>
        have noStart : isWordStart first = false := by simpa using noStart
        split at scanned
        next quotes =>
          obtain ⟨inner, closed, same⟩ := Option.map_eq_some_iff.mp scanned
          cases same
          exact .inr (.inr ⟨rfl, noDigit, noStart, quotes, inner, closed, rfl⟩)
        next => cases scanned

end Parlance.Lexeme
