import Parlance.Proofs.Token.Lexemes

/-! The classes of lexemes as languages, and the scanner as the reader of their longest match: it
recognises a text just when a lexeme begins it, and then takes the longest that does. A lexeme alone
is therefore scanned as what it was among other text. -/

namespace Parlance.Lexeme

/-- What follows the opening of a block comment: nothing stands behind its first end. -/
def CommentBody (body : List Char) : Prop :=
  ∀ before after, body = before ++ '*' :: '/' :: after → after = []

inductive Quoted (quote : Char) : List Char → Prop where
  | close : Quoted quote [quote]
  | plain {char : Char} {rest : List Char} (other : char ≠ quote)
      (allowed : ¬ (char = '\\' ∨ char = '\n')) (later : Quoted quote rest) :
      Quoted quote (char :: rest)
  | escaped (char : Char) {rest : List Char} (later : Quoted quote rest) :
      Quoted quote ('\\' :: char :: rest)

/-- The texts of each class. -/
inductive Matches : LexemeClass → List Char → Prop where
  | whitespace {run : List Char} (some : run ≠ []) (blank : ∀ char ∈ run, isWhitespace char = true) :
      Matches .whitespace run
  | lineComment {line : List Char} (oneLine : ∀ char ∈ line, (!isNewline char) = true) :
      Matches .lineComment ('/' :: '/' :: line)
  | blockComment {body : List Char} (inner : CommentBody body) :
      Matches .blockComment ('/' :: '*' :: body)
  | number {first : Char} {more : List Char} (digit : first.isDigit = true)
      (numeral : Numeral (first :: more)) : Matches .number (first :: more)
  | string {quote : Char} {body : List Char} (quotes : quote = '"' ∨ quote = '\'')
      (quoted : Quoted quote body) : Matches .string (quote :: body)
  | word {first : Char} {more : List Char} (start : isWordStart first = true)
      (parts : ∀ char ∈ more, isWordPart char = true) : Matches .word (first :: more)

theorem length_le_takeWhile {kind : Char → Bool} {run : List Char}
    (all : ∀ char ∈ run, kind char = true) (following : List Char) :
    run.length ≤ ((run ++ following).takeWhile kind).length := by
  rw [List.takeWhile_append_of_pos all, List.length_append]
  omega

theorem take_takeWhile (kind : Char → Bool) (text : List Char) :
    text.take (text.takeWhile kind).length = text.takeWhile kind :=
  (List.prefix_iff_eq_take.mp (List.takeWhile_prefix kind)).symm

theorem length_takeWhile_le (kind : Char → Bool) (text : List Char) :
    (text.takeWhile kind).length ≤ text.length :=
  (List.takeWhile_prefix kind).length_le

theorem commentBody_take (text : List Char) :
    CommentBody (text.take (blockCommentLength text)) ∧ blockCommentLength text ≤ text.length := by
  fun_induction blockCommentLength text with
  | case1 rest =>
      refine ⟨fun before after same => ?_, by simp⟩
      have lengths := congrArg List.length same
      simp only [List.take_succ_cons, List.take_zero, List.length_cons, List.length_append,
        List.length_nil] at lengths
      exact List.eq_nil_of_length_eq_zero (by omega)
  | case2 char rest unclosed ih =>
      refine ⟨fun before after same => ?_, by simpa using ih.2⟩
      cases before with
      | cons other before =>
          rw [List.take_succ_cons, List.cons_append] at same
          exact ih.1 before after (List.cons.inj same).2
      | nil =>
          -- Then the comment would have ended here.
          rw [List.take_succ_cons, List.nil_append] at same
          obtain ⟨star, slash⟩ := List.cons.inj same
          cases rest with
          | nil => simp at slash
          | cons next later =>
              cases length : blockCommentLength (next :: later) with
              | zero => simp [length] at slash
              | succ length =>
                  rw [length, List.take_succ_cons] at slash
                  exact absurd (by rw [(List.cons.inj slash).1]) (unclosed later star)
  | case3 => exact ⟨fun before after same => by simp at same, by simp⟩

theorem CommentBody.length_le {body : List Char} (inner : CommentBody body)
    (following : List Char) : body.length ≤ blockCommentLength (body ++ following) := by
  induction body with
  | nil => exact Nat.zero_le _
  | cons char rest ih =>
      have innerToo : CommentBody rest := fun before after same =>
        inner (char :: before) after (by rw [same, List.cons_append])
      by_cases closes : ∃ more, char :: rest ++ following = '*' :: '/' :: more
      · obtain ⟨more, same⟩ := closes
        rw [same]
        cases rest with
        | nil => simp [blockCommentLength]
        | cons next rest =>
            obtain ⟨star, tail⟩ := List.cons.inj same
            have slash : next = '/' := (List.cons.inj tail).1
            rw [inner [] rest (by rw [star, slash, List.nil_append])]
            simp [blockCommentLength]
      · have continues : blockCommentLength (char :: rest ++ following) =
            blockCommentLength (rest ++ following) + 1 := by
          rw [List.cons_append, blockCommentLength]
          intro more star slash
          exact closes ⟨more, by rw [List.cons_append, star, slash]⟩
        rw [continues, List.length_cons]
        exact Nat.succ_le_succ (ih innerToo)

theorem quoted_take {quote : Char} {text : List Char} {length : Nat}
    (closed : stringLength quote text = some length) :
    Quoted quote (text.take length) ∧ length ≤ text.length := by
  fun_induction stringLength quote text generalizing length with
  | case1 => cases closed
  | case2 next rest ih =>
      obtain ⟨inner, closedInner, rfl⟩ := Option.map_eq_some_iff.mp closed
      obtain ⟨quoted, within⟩ := ih closedInner
      exact ⟨.escaped next quoted, by simpa using within⟩
  | case3 rest unescaped =>
      cases closed
      exact ⟨.close, by simp⟩
  | case4 => cases closed
  | case5 char rest unescaped other allowed ih =>
      obtain ⟨inner, closedInner, rfl⟩ := Option.map_eq_some_iff.mp closed
      obtain ⟨quoted, within⟩ := ih closedInner
      exact ⟨.plain other allowed quoted, by simpa using within⟩

theorem Quoted.stringLength_append {quote : Char} {body : List Char} (quoted : Quoted quote body)
    (quotes : quote ≠ '\\') (following : List Char) :
    stringLength quote (body ++ following) = some body.length := by
  induction quoted with
  | close =>
      rw [List.singleton_append, stringLength, if_pos rfl]
      · rfl
      · exact fun _ _ backslash => absurd backslash quotes
  | plain other allowed later ih =>
      rw [List.cons_append, stringLength, if_neg other, if_neg allowed, ih]
      · rfl
      · exact fun _ _ backslash => absurd (Or.inl backslash) allowed
  | escaped char later ih =>
      rw [List.cons_append, List.cons_append, stringLength, ih]
      rfl

theorem length_le_digitsLength {digits : List Char} (all : ∀ char ∈ digits, char.isDigit = true)
    (following : List Char) : digits.length ≤ digitsLength (digits ++ following) :=
  length_le_takeWhile all following

theorem Exponent.stops {exponent following : List Char} (isExponent : Exponent exponent)
    (some : exponent ≠ []) : Stops Char.isDigit (exponent ++ following) := by
  rcases isExponent with rfl | ⟨mark, sign, digits, rfl, rfl | rfl, -⟩
  · exact absurd rfl some
  · exact stops_cons.mpr (by decide)
  · exact stops_cons.mpr (by decide)

theorem Exponent.length_le {exponent : List Char} (isExponent : Exponent exponent)
    (following : List Char) : exponent.length ≤ exponentLength (exponent ++ following) := by
  rcases isExponent with rfl | ⟨mark, sign, digits, rfl, marks, signs, some, all⟩
  · exact Nat.zero_le _
  · have counted := length_le_digitsLength all following
    have positive : digits.length ≠ 0 := fun none => some (List.eq_nil_of_length_eq_zero none)
    have signed : Sign sign (digits ++ following) := by
      obtain ⟨first, rest, rfl⟩ := List.exists_cons_of_ne_nil some
      have digit : first.isDigit = true := all first (List.mem_cons_self ..)
      rcases signs with rfl | rfl | rfl
      · refine .inl ⟨rfl, stops_cons.mpr (decide_eq_false ?_)⟩
        rintro (rfl | rfl) <;> revert digit <;> decide
      · exact .inr (.inl rfl)
      · exact .inr (.inr rfl)
    rw [List.cons_append, List.append_assoc, exponentLength_mark marks signed, if_neg (by omega),
      List.length_cons, List.length_append]
    omega

theorem Fraction.length_le {fraction : List Char} (isFraction : Fraction fraction)
    (following : List Char) : fraction.length ≤ fractionLength (fraction ++ following) := by
  rcases isFraction with rfl | ⟨digits, rfl, all⟩
  · exact Nat.zero_le _
  · have counted := length_le_digitsLength all following
    rw [List.cons_append, fractionLength, List.length_cons]
    omega

theorem Decimal.length_le {whole fraction exponent : List Char}
    (decimal : Decimal whole fraction exponent) (following : List Char) :
    whole.length + (fraction.length + exponent.length) ≤
      decimalLength (whole ++ (fraction ++ (exponent ++ following))) := by
  have wholeCounted := length_le_digitsLength decimal.whole (fraction ++ (exponent ++ following))
  -- What stands behind the digits is reached only if there is any of it.
  by_cases alone : fraction = [] ∧ exponent = []
  · obtain ⟨rfl, rfl⟩ := alone
    simp only [decimalLength, List.length_nil]
    omega
  · have stops : Stops Char.isDigit (fraction ++ (exponent ++ following)) := by
      rcases decimal.fraction with rfl | ⟨digits, rfl, -⟩
      · exact decimal.exponent.stops fun none => alone ⟨rfl, none⟩
      · exact stops_cons.mpr (by decide)
    have wholeLength := digitsLength_append decimal.whole stops
    have fractionCounted := decimal.fraction.length_le (exponent ++ following)
    simp only [decimalLength, wholeLength, List.drop_left]
    by_cases last : exponent = []
    · rw [last] at fractionCounted ⊢
      simp only [List.length_nil]
      omega
    · have fractionLength : fractionLength (fraction ++ (exponent ++ following)) =
          fraction.length := by
        refine fractionLength_append decimal.fraction (decimal.exponent.stops last) fun _ => ?_
        rcases decimal.exponent with rfl | ⟨mark, sign, digits, rfl, rfl | rfl, -⟩
        · exact absurd rfl last
        · simp
        · simp
      have behind : List.drop (whole.length + fraction.length)
          (whole ++ (fraction ++ (exponent ++ following))) = exponent ++ following := by
        rw [List.drop_length_add_append, List.drop_left]
      have exponentCounted := decimal.exponent.length_le following
      rw [fractionLength, behind]
      omega

theorem Numeral.length_le {numeral : List Char} (isNumeral : Numeral numeral)
    (following : List Char) : numeral.length ≤ numberLength (numeral ++ following) := by
  rcases isNumeral with
    ⟨mark, digits, rfl, marks, some, all⟩ | ⟨whole, fraction, exponent, rfl, decimal⟩
  · have counted := length_le_takeWhile all following
    have positive : digits.length ≠ 0 := fun none => some (List.eq_nil_of_length_eq_zero none)
    have hexadecimal : ((digits ++ following).takeWhile isHexDigit).length ≠ 0 := by omega
    simp only [List.cons_append, numberLength, marks, hexadecimal, ne_eq, not_false_eq_true,
      and_self, if_true, List.length_cons]
    omega
  · have counted := decimal.length_le following
    have unmarked := decimal.unmarked
    rw [← List.append_assoc fraction, ← List.append_assoc whole, ← List.length_append,
      ← List.length_append] at counted
    generalize whole ++ (fraction ++ exponent) = numeral at counted unmarked ⊢
    unfold numberLength
    split
    next mark rest same =>
        dsimp only
        split_ifs with hexadecimal
        · rcases numeral with _ | ⟨first, _ | ⟨second, more⟩⟩
          · exact Nat.zero_le _
          · simp only [List.length_cons, List.length_nil]
            omega
          · have isSecond : second = mark := by
              simpa using congrArg (fun text => text.tail.head?) same
            exact absurd hexadecimal.1 (isSecond ▸ unmarked second (by simp))
        · exact counted
    next => exact counted

theorem scan?_blank {first : Char} (blank : isWhitespace first = true) (rest : List Char) :
    scan? (first :: rest) =
      some (.whitespace, ((first :: rest).takeWhile isWhitespace).length) := by
  have slash : first ≠ '/' := by rintro rfl; revert blank; decide
  rw [scan?_cons slash, if_pos blank]

theorem scan?_quote {quote : Char} (quotes : quote = '"' ∨ quote = '\'') (rest : List Char) :
    scan? (quote :: rest) = (stringLength quote rest).map fun length => (.string, 1 + length) := by
  rcases quotes with rfl | rfl
  · rw [scan?_cons (by decide)]; rfl
  · rw [scan?_cons (by decide)]; rfl

theorem matches_take {text : List Char} {lexemeClass : LexemeClass} {length : Nat}
    (scanned : scan? text = some (lexemeClass, length)) :
    Matches lexemeClass (text.take length) ∧ length ≤ text.length := by
  unfold scan? at scanned
  split at scanned
  next => cases scanned
  next rest =>
      cases scanned
      rw [Nat.add_comm, List.take_succ_cons, List.take_succ_cons, take_takeWhile]
      exact ⟨.lineComment mem_takeWhile, Nat.add_le_add_right (length_takeWhile_le _ rest) 2⟩
  next rest =>
      cases scanned
      rw [Nat.add_comm, List.take_succ_cons, List.take_succ_cons]
      obtain ⟨inner, within⟩ := commentBody_take rest
      exact ⟨.blockComment inner, Nat.add_le_add_right within 2⟩
  next first rest noLine noBlock =>
      split at scanned
      next blank =>
        cases scanned
        rw [take_takeWhile]
        refine ⟨.whitespace ?_ mem_takeWhile, length_takeWhile_le _ _⟩
        rw [List.takeWhile_cons_of_pos blank]
        exact List.cons_ne_nil _ _
      split at scanned
      next digit =>
        cases scanned
        obtain ⟨numeral, after, whole, length, isNumeral⟩ := number_split (first :: rest)
        have positive := numberLength_pos digit rest
        rw [length, whole, List.take_left]
        refine ⟨?_, by simp⟩
        cases numeral with
        | nil => simp [length] at positive
        | cons char more =>
            cases (List.cons.inj whole).1
            exact .number digit isNumeral
      split at scanned
      next start =>
        cases scanned
        rw [Nat.add_comm, List.take_succ_cons, take_takeWhile]
        exact ⟨.word start mem_takeWhile, Nat.add_le_add_right (length_takeWhile_le _ rest) 1⟩
      split at scanned
      next quotes =>
        obtain ⟨inner, closed, same⟩ := Option.map_eq_some_iff.mp scanned
        cases same
        obtain ⟨quoted, within⟩ := quoted_take closed
        rw [Nat.add_comm, List.take_succ_cons]
        exact ⟨.string quotes quoted, Nat.add_le_add_right within 1⟩
      next => cases scanned

theorem Matches.scanned {lexemeClass : LexemeClass} {run : List Char}
    (lexeme : Matches lexemeClass run) (following : List Char) :
    ∃ length, scan? (run ++ following) = some (lexemeClass, length) ∧ run.length ≤ length := by
  cases lexeme with
  | whitespace some blank =>
      obtain ⟨first, more, rfl⟩ := List.exists_cons_of_ne_nil some
      exact ⟨_, scan?_blank (blank first (List.mem_cons_self ..)) _,
        length_le_takeWhile blank following⟩
  | @lineComment line oneLine =>
      have counted := length_le_takeWhile oneLine following
      refine ⟨2 + ((line ++ following).takeWhile (!isNewline ·)).length, rfl, ?_⟩
      simp only [List.length_cons]
      omega
  | @blockComment body inner =>
      have counted := inner.length_le following
      refine ⟨2 + blockCommentLength (body ++ following), rfl, ?_⟩
      simp only [List.length_cons]
      omega
  | number digit numeral =>
      exact ⟨_, scan?_digit digit _, numeral.length_le following⟩
  | @string quote body quotes quoted =>
      have plain : quote ≠ '\\' := by rcases quotes with rfl | rfl <;> decide
      refine ⟨1 + body.length, ?_, by simp only [List.length_cons]; omega⟩
      rw [List.cons_append, scan?_quote quotes, quoted.stringLength_append plain following]
      rfl
  | @word first more start parts =>
      have counted := length_le_takeWhile parts following
      refine ⟨_, scan?_wordStart start (more ++ following), ?_⟩
      simp only [List.length_cons]
      omega

/-- The scanner reports the longest lexeme that a text begins with. -/
theorem scan?_eq_some_iff {text : List Char} {lexemeClass : LexemeClass} {length : Nat} :
    scan? text = some (lexemeClass, length) ↔
      (Matches lexemeClass (text.take length) ∧ length ≤ text.length) ∧
        ∀ other run, run <+: text → Matches other run → run.length ≤ length := by
  have longest {lexemeClass other : LexemeClass} {length : Nat} {run : List Char}
      (scanned : scan? text = some (lexemeClass, length)) (begins : run <+: text)
      (lexeme : Matches other run) : other = lexemeClass ∧ run.length ≤ length := by
    obtain ⟨following, rfl⟩ := begins
    obtain ⟨found, scannedToo, within⟩ := lexeme.scanned following
    rw [scannedToo] at scanned
    cases scanned
    exact ⟨rfl, within⟩
  constructor
  · intro scanned
    exact ⟨matches_take scanned, fun other run begins lexeme => (longest scanned begins lexeme).2⟩
  · rintro ⟨⟨lexeme, within⟩, most⟩
    obtain ⟨found, scanned, atLeast⟩ := lexeme.scanned (text.drop length)
    rw [List.take_append_drop] at scanned
    rw [List.length_take, Nat.min_eq_left within] at atLeast
    obtain ⟨lexemeToo, withinToo⟩ := matches_take scanned
    have atMost := most _ _ (List.take_prefix found text) lexemeToo
    rw [List.length_take, Nat.min_eq_left withinToo] at atMost
    rw [scanned, Nat.le_antisymm atMost atLeast]

theorem Matches.scan?_self {lexemeClass : LexemeClass} {run : List Char}
    (lexeme : Matches lexemeClass run) : scan? run = some (lexemeClass, run.length) := by
  obtain ⟨length, scanned, atLeast⟩ := lexeme.scanned []
  rw [List.append_nil] at scanned
  rw [scanned, Nat.le_antisymm (matches_take scanned).2 atLeast]

/-- It recognises nothing just where no lexeme begins. -/
theorem scan?_eq_none_iff {text : List Char} :
    scan? text = none ↔ ∀ lexemeClass run, run <+: text → ¬ Matches lexemeClass run := by
  constructor
  · rintro none lexemeClass run ⟨following, rfl⟩ lexeme
    obtain ⟨length, scanned, -⟩ := lexeme.scanned following
    rw [scanned] at none
    cases none
  · intro nothing
    cases scanned : scan? text with
    | none => rfl
    | some found => exact absurd (matches_take scanned).1 (nothing _ _ (List.take_prefix _ _))

theorem scan?_take {text : List Char} {lexemeClass : LexemeClass} {length : Nat}
    (scanned : scan? text = some (lexemeClass, length)) :
    scan? (text.take length) = some (lexemeClass, length) := by
  obtain ⟨⟨lexeme, within⟩, most⟩ := scan?_eq_some_iff.mp scanned
  have whole : (text.take length).length = length := by rw [List.length_take, Nat.min_eq_left within]
  apply scan?_eq_some_iff.mpr
  refine ⟨⟨?_, Nat.le_of_eq whole.symm⟩, fun other run begins matches_ => ?_⟩
  · rwa [List.take_take, Nat.min_self]
  · exact most other run (begins.trans (List.take_prefix length text)) matches_

theorem scan?_prefix {text run : List Char} (none : scan? text = none) (begins : run <+: text) :
    scan? run = Option.none := by
  apply scan?_eq_none_iff.mpr
  intro lexemeClass part beginsToo
  exact scan?_eq_none_iff.mp none lexemeClass part (beginsToo.trans begins)

end Parlance.Lexeme
