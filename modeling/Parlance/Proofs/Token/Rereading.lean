import Parlance.Proofs.Token.Lexing

/-! When tokens that are written one after another are read as the same tokens. What matters of each
is what stands behind it; the one class of tokens that may be spoilt without running into a letter or
a digit is that of whole numbers, which take a dot behind them for their own. -/

namespace Parlance

namespace Token

@[simp] theorem isHard_hard (kind text : String) : (hard kind text).isHard = true := rfl

@[simp] theorem isHard_literal (word : String) : (literal word).isHard = true := rfl

@[simp] theorem isHard_soft (text : String) : (soft text).isHard = false := rfl

def numeral? : Token → Option String
  | .hard kind text => if kind = Lexicon.numberClass then some text else none
  | .soft _ => none

def numerals (tokens : List Token) : List String := tokens.filterMap numeral?

@[simp] theorem numerals_append (first second : List Token) :
    numerals (first ++ second) = numerals first ++ numerals second :=
  List.filterMap_append

@[simp] theorem numerals_nil : numerals [] = [] := rfl

@[simp] theorem numerals_soft (text : String) (tokens : List Token) :
    numerals (.soft text :: tokens) = numerals tokens := rfl

theorem numerals_literal {word : String} (other : word ≠ Lexicon.numberClass)
    (tokens : List Token) : numerals (.literal word :: tokens) = numerals tokens := by
  simp [numerals, literal, numeral?, other]

theorem numerals_hard (tokens : List Token) :
    numerals (tokens.filter isHard) = numerals tokens := by
  induction tokens with
  | nil => rfl
  | cons token rest ih =>
      cases token with
      | hard kind text =>
          rw [List.filter_cons_of_pos rfl]
          simp only [numerals, List.filterMap_cons] at ih ⊢
          rw [ih]
      | soft text =>
          rw [List.filter_cons_of_neg (by simp [isHard])]
          exact ih

theorem numerals_congr {tokens more : List Token}
    (same : tokens.filter isHard = more.filter isHard) : numerals tokens = numerals more := by
  rw [← numerals_hard tokens, same, numerals_hard]

def isWhole : Token → Bool
  | .hard kind text => kind = Lexicon.numberClass && text.toList.all Char.isDigit
  | .soft _ => false

def clashes : List Token → Bool
  | [] => false
  | token :: rest => token.isWhole && (chars rest).head? == some '.' || clashes rest

@[simp] theorem isWhole_literal (word : String) : (literal word).isWhole = false := by
  by_cases same : word = Lexicon.numberClass
  · rw [same]
    decide
  · simp [literal, isWhole, same]

@[simp] theorem clashes_nil : clashes [] = false := rfl

theorem clashes_cons {token : Token} (plain : token.isWhole = false) (rest : List Token) :
    clashes (token :: rest) = clashes rest := by
  rw [clashes, plain, Bool.false_and, Bool.false_or]

@[simp] theorem clashes_soft (text : String) (rest : List Token) :
    clashes (.soft text :: rest) = clashes rest := clashes_cons rfl rest

@[simp] theorem clashes_literal (word : String) (rest : List Token) :
    clashes (.literal word :: rest) = clashes rest := clashes_cons (isWhole_literal word) rest

theorem clashes_append {first second : List Token} (apart : (chars second).head? ≠ some '.') :
    clashes (first ++ second) = (clashes first || clashes second) := by
  induction first with
  | nil => rfl
  | cons token rest ih =>
      have same : ((chars (rest ++ second)).head? == some '.') =
          ((chars rest).head? == some '.') := by
        rw [chars_append]
        cases chars rest with
        | nil => simpa using apart
        | cons => rfl
      rw [List.cons_append, clashes, clashes, same, ih, Bool.or_assoc]

theorem clashes_of_numerals {tokens : List Token} (none : numerals tokens = []) :
    clashes tokens = false := by
  induction tokens with
  | nil => rfl
  | cons token rest ih =>
      cases token with
      | soft text => rw [clashes_soft, ih none]
      | hard kind text =>
          by_cases isNumber : kind = Lexicon.numberClass
          · simp [numerals, numeral?, isNumber] at none
          · rw [clashes_cons (by simp [isWhole, isNumber])]
            refine ih ?_
            simpa [numerals, numeral?, isNumber] using none

end Token

namespace Lexicon

open Lexeme Token

variable {lexicon : Lexicon}

/-- Some text begins with the token. -/
def Reads (lexicon : Lexicon) (token : Token) : Prop :=
  ∃ first rest, lexicon.next lexicon.trie first rest = token

/-- The token is read as it is where `following` stands behind it. -/
def Holds (lexicon : Lexicon) (token : Token) (following : List Char) : Prop :=
  ∃ first more, token.text.toList = first :: more ∧
    lexicon.next lexicon.trie first (more ++ following) = token

theorem Holds.tokensFrom {token : Token} {following : List Char}
    (holds : lexicon.Holds token following) :
    lexicon.tokensFrom lexicon.trie 0 (token.text.toList ++ following) =
      token :: lexicon.tokensFrom lexicon.trie 0 following := by
  obtain ⟨first, more, text, next⟩ := holds
  have length : token.text.length - 1 = more.length := by
    rw [← String.length_toList, text]
    rfl
  rw [text, List.cons_append, Lexicon.tokensFrom]
  simp only [next, length]
  rw [tokensFrom_drop, List.drop_left]

theorem Holds.reads {token : Token} {following : List Char}
    (holds : lexicon.Holds token following) : lexicon.Reads token := by
  obtain ⟨first, more, -, next⟩ := holds
  exact ⟨first, _, next⟩

theorem reads_tokensFrom (skip : Nat) (text : List Char) :
    ∀ token ∈ lexicon.tokensFrom lexicon.trie skip text, lexicon.Reads token := by
  induction text generalizing skip with
  | nil => simp [Lexicon.tokensFrom]
  | cons first rest ih =>
      cases skip with
      | succ skip => exact ih skip
      | zero =>
          intro token member
          rcases List.mem_cons.mp member with rfl | member
          · exact ⟨first, rest, rfl⟩
          · exact ih _ token member

theorem reads_of_tokenize {source : String} {token : Token}
    (member : token ∈ lexicon.tokenize source) : lexicon.Reads token :=
  reads_tokensFrom 0 source.toList token (lexicon.tokenize_eq source ▸ member)

theorem next_of_scan {first : Char} {rest : List Char} {lexemeClass : LexemeClass} {length : Nat}
    (scanned : scan? (first :: rest) = some (lexemeClass, length)) :
    lexicon.next lexicon.trie first rest =
      lexicon.classify lexemeClass (String.ofList ((first :: rest).take length)) := by
  simp only [next, scanned]

theorem next_word {first : Char} {more following : List Char} (start : isWordStart first = true)
    (parts : ∀ char ∈ more, isWordPart char = true) (stops : Stops isWordPart following) :
    lexicon.next lexicon.trie first (more ++ following) =
      lexicon.classify .word (String.ofList (first :: more)) := by
  have run : (more ++ following).takeWhile isWordPart = more := takeWhile_append parts stops
  have scanned : scan? (first :: (more ++ following)) = some (.word, 1 + more.length) := by
    rw [scan?_wordStart start, run]
  rw [next_of_scan scanned, Nat.add_comm, List.take_succ_cons, List.take_left]

theorem holds_blank {text : String} {following : List Char} (some : text.toList ≠ [])
    (blank : ∀ char ∈ text.toList, isWhitespace char = true)
    (stops : Stops isWhitespace following) : lexicon.Holds (.soft text) following := by
  obtain ⟨first, more, same⟩ := List.exists_cons_of_ne_nil some
  refine ⟨first, more, same, ?_⟩
  rw [same] at blank
  have slash : first ≠ '/' := by
    rintro rfl
    exact absurd (blank '/' (List.mem_cons_self ..)) (by decide)
  have run : (first :: (more ++ following)).takeWhile isWhitespace = first :: more :=
    takeWhile_append blank stops
  have scanned : scan? (first :: (more ++ following)) =
      Option.some (.whitespace, (first :: more).length) := by
    rw [scan?_cons slash, if_pos (blank first (List.mem_cons_self ..)), run]
  rw [next_of_scan scanned, ← List.cons_append, List.take_left, ← same, String.ofList_toList]
  rfl

/-- The form of a class, by what its tokens begin with. -/
inductive Formed (lexicon : Lexicon) (kind text : String) (first : Char) (more : List Char) : Prop where
  | number (isNumber : kind = numberClass) (digit : first.isDigit = true)
      (numeral : Numeral (first :: more))
  | word (start : isWordStart first = true) (parts : ∀ char ∈ more, isWordPart char = true)
      (classified : lexicon.classify .word text = .hard kind text)
  | string (isString : kind = stringClass) (quotes : first = '"' ∨ first = '\'')
      (closed : stringLength first more = some more.length)

def IsClass (kind : String) : Prop :=
  kind = identifierClass ∨ kind = numberClass ∨ kind = stringClass

instance (kind : String) : Decidable (IsClass kind) := inferInstanceAs (Decidable (_ ∨ _ ∨ _))

theorem IsClass.scanned {kind : String} (isClass : IsClass kind) {first : Char} {rest more : List Char}
    (begins : kind = String.ofList (first :: more)) : scan? (first :: rest) ≠ none := by
  have word {char : Char} (start : isWordStart char = true) : scan? (char :: rest) ≠ none := by
    rw [scan?_wordStart start]
    exact nofun
  have chars : kind.toList = first :: more := by rw [begins, String.toList_ofList]
  have head : kind.toList.head? = some first := by rw [chars]; rfl
  rcases isClass with rfl | rfl | rfl
  · cases (show some 'I' = some first from head)
    exact word (by decide)
  · cases (show some 'N' = some first from head)
    exact word (by decide)
  · cases (show some 'S' = some first from head)
    exact word (by decide)

theorem munch_head {trie : Trie} {first char : Char} {rest more : List Char}
    (munched : trie.munch (first :: rest) = char :: more) : char = first := by
  simp only [Trie.munch] at munched
  split at munched
  · exact (List.cons.inj munched).1.symm
  · cases munched

theorem Reads.formed {kind text : String} (reads : lexicon.Reads (.hard kind text))
    (isClass : IsClass kind) :
    ∃ first more, text.toList = first :: more ∧ lexicon.Formed kind text first more := by
  obtain ⟨first, rest, read⟩ := reads
  cases scanned : scan? (first :: rest) with
  | none =>
      simp only [next, scanned, recovered] at read
      cases munched : lexicon.trie.munch (first :: rest) with
      | nil => simp [munched] at read
      | cons char more =>
          simp only [munched, Token.literal, Token.hard.injEq] at read
          obtain rfl := munch_head munched
          exact absurd scanned (isClass.scanned read.1.symm)
  | some found =>
      obtain ⟨lexemeClass, length⟩ := found
      rw [next_of_scan scanned] at read
      by_cases hard : lexemeClass.isEther = false
      · obtain ⟨-, -, cases⟩ := scan?_hard scanned hard
        rcases cases with
          ⟨rfl, digit, rfl⟩ | ⟨rfl, -, start, rfl⟩ | ⟨rfl, -, -, quotes, inner, closed, rfl⟩
        · obtain ⟨numeral, after, whole, length, isNumeral⟩ := number_split (first :: rest)
          have positive := numberLength_pos digit rest
          rw [length, whole, List.take_left] at read
          simp only [classify, Token.hard.injEq] at read
          cases numeral with
          | nil => simp [length] at positive
          | cons char more =>
              cases (List.cons.inj whole).1
              refine ⟨first, more, ?_, .number read.1.symm digit isNumeral⟩
              rw [← read.2, String.toList_ofList]
        · obtain ⟨run, after, rfl, length, all⟩ := run_split isWordPart rest
          rw [length, Nat.add_comm, List.take_succ_cons, List.take_left] at read
          refine ⟨first, run, ?_, .word start all ?_⟩
          · have same : text = (lexicon.classify .word (String.ofList (first :: run))).text := by
              rw [read]
              rfl
            rw [same]
            simp only [classify]
            split <;> exact String.toList_ofList
          · have same : String.ofList (first :: run) = text := by
              simp only [classify] at read
              split at read <;> cases read <;> rfl
            subst same
            exact read
        · rw [Nat.add_comm, List.take_succ_cons] at read
          simp only [classify, Token.hard.injEq] at read
          have plain : first ≠ '\\' := by rcases quotes with rfl | rfl <;> decide
          obtain ⟨closed, within⟩ := stringLength_append plain closed []
          refine ⟨first, rest.take inner, ?_, .string read.1.symm quotes ?_⟩
          · rw [← read.2, String.toList_ofList]
          · rw [List.append_nil] at closed
            rw [closed, List.length_take, Nat.min_eq_left within]
      · cases lexemeClass <;> simp_all [LexemeClass.isEther, classify]

theorem Reads.cases {kind text : String} (reads : lexicon.Reads (.hard kind text)) :
    IsClass kind ∨ text = kind ∧ (lexicon.isLiteral kind = true ∨
      ∃ first rest more, kind.toList = first :: more ∧ scan? (first :: rest) = none) := by
  obtain ⟨first, rest, read⟩ := reads
  cases scanned : scan? (first :: rest) with
  | none =>
      simp only [next, scanned, recovered] at read
      cases munched : lexicon.trie.munch (first :: rest) with
      | nil => simp [munched] at read
      | cons char more =>
          obtain rfl := munch_head munched
          simp only [munched, Token.literal, Token.hard.injEq] at read
          obtain ⟨rfl, rfl⟩ := read
          exact .inr ⟨rfl, .inr ⟨char, rest, more, String.toList_ofList, scanned⟩⟩
  | some found =>
      rw [next_of_scan scanned] at read
      cases isClass : found.1 with
      | whitespace | lineComment | blockComment => simp [isClass, classify] at read
      | number =>
          simp only [isClass, classify, Token.hard.injEq] at read
          exact .inl (.inr (.inl read.1.symm))
      | string =>
          simp only [isClass, classify, Token.hard.injEq] at read
          exact .inl (.inr (.inr read.1.symm))
      | word =>
          simp only [isClass, classify] at read
          split at read
          next literal =>
            cases read
            exact .inr ⟨rfl, .inl literal⟩
          next => exact .inl (.inl (Token.hard.inj read).1.symm)

theorem Reads.text_eq {kind text : String} (reads : lexicon.Reads (.hard kind text))
    (other : ¬ IsClass kind) : text = kind :=
  (reads.cases.resolve_left other).1

theorem Reads.isLiteral {kind text : String} (reads : lexicon.Reads (.hard kind text))
    (other : ¬ IsClass kind) (start : kind.toList.head?.any isWordStart = true) :
    lexicon.isLiteral kind = true := by
  obtain ⟨-, literal | ⟨first, rest, more, chars, scanned⟩⟩ := reads.cases.resolve_left other
  · exact literal
  · rw [chars] at start
    rw [scan?_wordStart start] at scanned
    cases scanned

theorem Formed.holds {kind text : String} {first : Char} {more following : List Char}
    (formed : lexicon.Formed kind text first more) (chars : text.toList = first :: more)
    (stops : Stops isWordPart following)
    (apart : (Token.hard kind text).isWhole = true → following.head? ≠ some '.') :
    lexicon.Holds (.hard kind text) following := by
  have same : String.ofList (first :: more) = text := by rw [← chars, String.ofList_toList]
  refine ⟨first, more, chars, ?_⟩
  cases formed with
  | number isNumber digit numeral =>
      have length : numberLength (first :: (more ++ following)) = (first :: more).length := by
        refine numeral.length_append stops fun digits => apart ?_
        rw [Token.isWhole, chars, isNumber]
        simpa using digits
      have scanned : scan? (first :: (more ++ following)) =
          some (.number, (first :: more).length) := by
        rw [scan?_digit digit, length]
      rw [next_of_scan scanned, ← List.cons_append, List.take_left, same, isNumber]
      rfl
  | word start parts classified => rw [next_word start parts stops, same, classified]
  | string isString quotes closed =>
      have plain : first ≠ '\\' := by rcases quotes with rfl | rfl <;> decide
      have length := (stringLength_append plain closed following).1
      rw [List.take_length] at length
      have scanned : scan? (first :: (more ++ following)) =
          some (.string, 1 + more.length) := by
        rcases quotes with rfl | rfl
        · rw [scan?_cons (by decide), length]
          rfl
        · rw [scan?_cons (by decide), length]
          rfl
      rw [next_of_scan scanned, Nat.add_comm, List.take_succ_cons, List.take_left, same, isString]
      rfl

theorem Reads.holds {kind text : String} (reads : lexicon.Reads (.hard kind text))
    (isClass : IsClass kind) {following : List Char} (stops : Stops isWordPart following)
    (apart : (Token.hard kind text).isWhole = true → following.head? ≠ some '.') :
    lexicon.Holds (.hard kind text) following := by
  obtain ⟨first, more, chars, formed⟩ := reads.formed isClass
  exact formed.holds chars stops apart

def isSymbol (char : Char) : Bool :=
  !(isWhitespace char || char.isDigit || isWordStart char || char = '"' || char = '\'')

theorem scan?_symbol {first : Char} (symbol : isSymbol first = true) {rest : List Char}
    (comment : first = '/' → rest.head? ≠ some '/' ∧ rest.head? ≠ some '*') :
    scan? (first :: rest) = none := by
  simp only [isSymbol, Bool.not_eq_true', Bool.or_eq_false_iff, decide_eq_false_iff_not] at symbol
  obtain ⟨⟨⟨⟨blank, digit⟩, start⟩, double⟩, single⟩ := symbol
  unfold scan?
  split
  next same => cases same
  next same => cases same; exact absurd rfl (comment rfl).1
  next same => cases same; exact absurd rfl (comment rfl).2
  next same =>
    cases same
    simp [blank, digit, start, double, single]

theorem munch_append {trie node : Trie} {run following : List Char}
    (followed : trie.follow? run = some node)
    (stops : Stops (fun char => (node.get? char).isSome) following) :
    trie.munch (run ++ following) = run := by
  induction run generalizing trie with
  | nil =>
      cases followed
      cases following with
      | nil => rfl
      | cons char rest =>
          have outside := stops_cons.mp stops
          simp only [Option.isSome_eq_false_iff, Option.isNone_iff_eq_none] at outside
          simp [Trie.munch, outside]
  | cons char run ih =>
      simp only [Trie.follow?] at followed
      cases found : trie.get? char with
      | none => simp [found] at followed
      | some branch =>
          rw [found, Option.bind_some] at followed
          simp [Trie.munch, found, ih followed]

theorem holds_punctuator {word : String} {first : Char} {more following : List Char} {node : Trie}
    (chars : word.toList = first :: more) (symbol : isSymbol first = true)
    (comment : first = '/' →
      (more ++ following).head? ≠ some '/' ∧ (more ++ following).head? ≠ some '*')
    (followed : lexicon.trie.follow? word.toList = some node)
    (stops : Stops (fun char => (node.get? char).isSome) following) :
    lexicon.Holds (.literal word) following := by
  refine ⟨first, more, chars, ?_⟩
  rw [chars] at followed
  have munched : lexicon.trie.munch (first :: (more ++ following)) = first :: more :=
    munch_append followed stops
  have same : String.ofList (first :: more) = word := by rw [← chars, String.ofList_toList]
  simp only [next, scan?_symbol symbol comment, recovered, munched, same]

/-- Each token is read as it is where it stands, but for whole numbers before dots. -/
def Rereads (lexicon : Lexicon) : List Token → List Char → Prop
  | [], _ => True
  | token :: rest, following =>
      (lexicon.Holds token (chars rest ++ following) ∨
        lexicon.Reads token ∧ token.isWhole = true ∧
          (chars rest ++ following).head? = some '.') ∧
      lexicon.Rereads rest following

theorem rereads_append {first second : List Token} {following : List Char} :
    lexicon.Rereads (first ++ second) following ↔
      lexicon.Rereads first (chars second ++ following) ∧ lexicon.Rereads second following := by
  induction first with
  | nil => simp [Rereads]
  | cons token rest ih =>
      simp only [List.cons_append, Rereads, ih, chars_append, List.append_assoc, and_assoc]

/-- Tokens that are written next to each other are read as the same tokens. -/
theorem tokenize_join {tokens : List Token} (rereads : lexicon.Rereads tokens [])
    (apart : clashes tokens = false) : lexicon.tokenize (join tokens) = tokens := by
  rw [tokenize_eq, toList_join]
  induction tokens with
  | nil => rfl
  | cons token rest ih =>
      obtain ⟨here, later⟩ := rereads
      simp only [clashes, Bool.or_eq_false_iff] at apart
      rw [List.append_nil] at here
      rcases here with holds | ⟨-, whole, dot⟩
      · rw [chars_cons, holds.tokensFrom, ih later apart.2]
      · simp [whole, dot] at apart

/-- A whole number with a dot behind it is read as a longer number. -/
theorem Reads.takes_dot {token : Token} (reads : lexicon.Reads token)
    (whole : token.isWhole = true) {following : List Char} (dot : following.head? = some '.') :
    ∃ longer rest, longer ≠ token.text ∧
      lexicon.tokensFrom lexicon.trie 0 (token.text.toList ++ following) =
        .hard numberClass longer :: rest := by
  cases token with
  | soft => cases whole
  | hard kind text =>
      simp only [Token.isWhole, Bool.and_eq_true, decide_eq_true_eq, List.all_eq_true] at whole
      obtain ⟨rfl, digits⟩ := whole
      obtain ⟨first, more, same, -⟩ := reads.formed (.inr (.inl rfl))
      obtain ⟨rest, rfl⟩ : ∃ rest, following = '.' :: rest := by
        cases following with
        | nil => cases dot
        | cons char rest => cases dot; exact ⟨rest, rfl⟩
      simp only [Token.text]
      rw [same] at digits ⊢
      have digit : first.isDigit = true := digits first (List.mem_cons_self ..)
      have run : digitsLength (first :: (more ++ '.' :: rest)) = (first :: more).length :=
        digitsLength_append digits (stops_cons.mpr (by decide))
      have unmarked : ∀ mark after, first :: (more ++ '.' :: rest) = '0' :: mark :: after →
          ¬ (mark = 'x' ∨ mark = 'X') := by
        intro mark after same
        cases more with
        | nil => cases same; decide
        | cons second more =>
            have isSecond : second = mark := (List.cons.inj (List.cons.inj same).2).1
            have digit := digits second (by simp)
            rw [← isSecond]
            rintro (rfl | rfl) <;> revert digit <;> decide
      have length : (first :: more).length < numberLength (first :: (more ++ '.' :: rest)) := by
        rw [numberLength_of_decimal unmarked, decimalLength, run, ← List.cons_append, List.drop_left,
          fractionLength]
        omega
      generalize count : numberLength (first :: (more ++ '.' :: rest)) = size at length
      have scanned : scan? (first :: (more ++ '.' :: rest)) = some (.number, size) := by
        rw [scan?_digit digit, count]
      refine ⟨_, _, ?_, by rw [List.cons_append, Lexicon.tokensFrom, next_of_scan scanned]; rfl⟩
      intro equal
      have lengths := congrArg (fun text => text.toList.length) equal
      simp only [String.toList_ofList, same, List.length_take, List.length_cons,
        List.length_append] at lengths length
      omega

theorem numerals_tokenize_ne {tokens : List Token} (rereads : lexicon.Rereads tokens [])
    (clash : clashes tokens = true) :
    numerals (lexicon.tokenize (join tokens)) ≠ numerals tokens := by
  rw [tokenize_eq, toList_join]
  induction tokens with
  | nil => cases clash
  | cons token rest ih =>
      obtain ⟨here, later⟩ := rereads
      rw [List.append_nil] at here
      rw [chars_cons]
      intro same
      by_cases dotted : token.isWhole = true ∧ (chars rest).head? = some '.'
      · have reads : lexicon.Reads token := here.elim Holds.reads And.left
        obtain ⟨longer, after, differs, read⟩ := reads.takes_dot dotted.1 dotted.2
        rw [read] at same
        cases token with
        | soft => cases dotted.1
        | hard kind text =>
            have whole := dotted.1
            simp only [Token.isWhole, Bool.and_eq_true, decide_eq_true_eq] at whole
            simp [numerals, Token.numeral?, whole.1] at same
            exact differs same.1
      · have holds : lexicon.Holds token (chars rest) :=
          here.elim id fun clashes => absurd clashes.2 dotted
        have apart : clashes rest = true := by
          simpa [clashes, dotted] using clash
        rw [holds.tokensFrom] at same
        refine ih later apart ?_
        simp only [numerals, List.filterMap_cons] at same ⊢
        cases isNumber : token.numeral? with
        | none => simpa [isNumber] using same
        | some text => simpa [isNumber] using same

end Lexicon

end Parlance
