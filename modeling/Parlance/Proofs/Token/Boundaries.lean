import Parlance.Proofs.Token.LongestMatch
import Parlance.Proofs.Token.Lossless
import Parlance.Proofs.Token.Trie

/-! Where tokens begin and end. Keywords have no say in it: they only turn words into tokens of
another kind. And a token does not depend on what stands around it: its text alone is the same
token. -/

namespace Parlance

namespace Token

def outline (token : Token) : String × Bool := (token.text, token.isHard)

theorem outline_eq_soft_iff {token : Token} {text : String} :
    token.outline = (text, false) ↔ token = .soft text := by
  cases token <;> simp [outline, Token.text, isHard]

end Token

namespace Lexicon

open Lexeme (scan? scan?_take scan?_prefix)
open Token (chars)

/-- What is left of a source where its token of an index begins. -/
def leftAt (lexicon : Lexicon) (source : String) (index : Nat) : List Char :=
  source.toList.drop (chars ((lexicon.tokenize source).take index)).length

def classAt (lexicon : Lexicon) (source : String) (index : Nat) : Option LexemeClass :=
  (scan? (lexicon.leftAt source index)).map Prod.fst

def withKeywords (lexicon : Lexicon) (keywords : List String) : Lexicon := { lexicon with keywords }

/-- The text is the longest that both what is left and a punctuator begin with. -/
structure LongestPunctuator (punctuators : List String) (text left : List Char) : Prop where
  begins : text <+: left
  punctuates : Trie.BeginsWord punctuators text
  longest : ∀ path, path <+: left → Trie.BeginsWord punctuators path → path.length ≤ text.length

variable {lexicon : Lexicon}

theorem chars_take_append_leftAt (lexicon : Lexicon) (source : String) (index : Nat) :
    source.toList = chars ((lexicon.tokenize source).take index) ++ lexicon.leftAt source index := by
  have whole : chars (lexicon.tokenize source) = source.toList :=
    lexicon.chars_tokenize source
  rw [← List.take_append_drop index (lexicon.tokenize source), Token.chars_append] at whole
  rw [leftAt, ← whole, List.drop_left]

theorem next_of_getElem? {source : String} {index : Nat} {token : Token}
    (here : (lexicon.tokenize source)[index]? = some token) :
    ∃ first rest, lexicon.leftAt source index = first :: rest ∧
      token = lexicon.next lexicon.trie first rest := by
  rw [← List.head?_drop, tokenize_rest (lexicon.chars_take_append_leftAt source index)]
    at here
  cases left : lexicon.leftAt source index with
  | nil => simp [left, tokensFrom] at here
  | cons first rest =>
      rw [left, tokensFrom] at here
      exact ⟨first, rest, rfl, (Option.some.inj here).symm⟩

theorem classify_withKeywords (others : List String) (lexemeClass : LexemeClass) (text : String)
    (differ : lexicon.classify lexemeClass text ≠
      (lexicon.withKeywords others).classify lexemeClass text) :
    lexemeClass = .word ∧ ¬ (text ∈ lexicon.keywords ↔ text ∈ others) ∧
      text ∉ lexicon.punctuators := by
  cases lexemeClass with
  | whitespace | lineComment | blockComment | number | string => exact absurd rfl differ
  | word =>
      have listed : lexicon.isLiteral text ≠ (lexicon.withKeywords others).isLiteral text := by
        intro same
        apply differ
        rw [classify, classify, same]
      refine ⟨rfl, fun same => listed ?_, fun member => listed ?_⟩
      · rw [Bool.eq_iff_iff]
        simp [isLiteral, withKeywords, same]
      · simp [isLiteral, withKeywords, member]

theorem isHard_classify (others : List String) (lexemeClass : LexemeClass) (text : String) :
    ((lexicon.withKeywords others).classify lexemeClass text).isHard =
      (lexicon.classify lexemeClass text).isHard := by
  cases lexemeClass with
  | whitespace | lineComment | blockComment | number | string => rfl
  | word =>
      rw [classify, classify]
      split_ifs <;> rfl

theorem next_withKeywords (others : List String) (trie : Trie) (first : Char) (rest : List Char) :
    let token := lexicon.next trie first rest
    let other := (lexicon.withKeywords others).next trie first rest
    other.text = token.text ∧ other.isHard = token.isHard ∧
      (token ≠ other → (scan? (first :: rest)).map Prod.fst = some .word ∧
        ¬ (token.text ∈ lexicon.keywords ↔ token.text ∈ others) ∧
          token.text ∉ lexicon.punctuators) := by
  cases scanned : scan? (first :: rest) with
  | none => simp [next, scanned]
  | some found =>
      obtain ⟨lexemeClass, length⟩ := found
      simp only [next, scanned, text_classify, isHard_classify, true_and, Option.map_some]
      intro differ
      obtain ⟨rfl, kinds⟩ := classify_withKeywords others lexemeClass _ differ
      exact ⟨rfl, kinds⟩

/-- The two token lists keep in step: what the tokens take and whether they are hard is the same. -/
theorem outlines_tokensFrom (others : List String) (trie : Trie) (skip : Nat) (text : List Char) :
    ((lexicon.withKeywords others).tokensFrom trie skip text).map Token.outline =
      (lexicon.tokensFrom trie skip text).map Token.outline := by
  induction text generalizing skip with
  | nil => simp [tokensFrom]
  | cons first rest ih =>
      cases skip with
      | succ skip => exact ih skip
      | zero =>
          obtain ⟨texts, hardness, -⟩ := lexicon.next_withKeywords others trie first rest
          simp only [tokensFrom, List.map_cons, Token.outline, texts, hardness]
          exact congrArg _ (ih _)

theorem outlines_tokenize (others : List String) (source : String) :
    ((lexicon.withKeywords others).tokenize source).map Token.outline =
      (lexicon.tokenize source).map Token.outline := by
  rw [tokenize_eq, tokenize_eq]
  exact lexicon.outlines_tokensFrom others lexicon.trie 0 source.toList

theorem texts_withKeywords (others : List String) (source : String) :
    ((lexicon.withKeywords others).tokenize source).map Token.text =
      (lexicon.tokenize source).map Token.text := by
  have texts := congrArg (List.map Prod.fst) (lexicon.outlines_tokenize others source)
  rwa [List.map_map, List.map_map] at texts

theorem leftAt_withKeywords (others : List String) (source : String) (index : Nat) :
    (lexicon.withKeywords others).leftAt source index = lexicon.leftAt source index := by
  have same (tokens : List Token) : chars tokens = (tokens.map Token.text).flatMap String.toList := by
    rw [chars, List.flatMap_map]
  simp only [leftAt, same, List.map_take, texts_withKeywords]

/-- A hard token that is no word is a number, a string, or as much of a punctuator as there is. -/
theorem next_cases {first : Char} {rest : List Char} {kind text : String}
    (read : lexicon.next lexicon.trie first rest = .hard kind text) :
    (scan? (first :: rest)).map Prod.fst = some .word ∨
      (scan? (first :: rest)).map Prod.fst = some .number ∧ kind = numberClass ∨
      (scan? (first :: rest)).map Prod.fst = some .string ∧ kind = stringClass ∨
      (scan? (first :: rest)).map Prod.fst = none ∧ kind = text ∧
        LongestPunctuator lexicon.punctuators text.toList (first :: rest) := by
  cases scanned : scan? (first :: rest) with
  | some found =>
      obtain ⟨lexemeClass, length⟩ := found
      rw [next_of_scan scanned] at read
      cases lexemeClass with
      | whitespace | lineComment | blockComment => cases read
      | word => exact .inl rfl
      | number => exact .inr (.inl ⟨rfl, (Token.hard.inj read).1.symm⟩)
      | string => exact .inr (.inr (.inl ⟨rfl, (Token.hard.inj read).1.symm⟩))
  | none =>
      refine .inr (.inr (.inr ⟨rfl, ?_⟩))
      simp only [next, scanned, recovered] at read
      have begins := lexicon.trie.munch_prefix (first :: rest)
      have followed := lexicon.trie.follow?_munch_isSome (first :: rest)
      cases munched : lexicon.trie.munch (first :: rest) with
      | nil => rw [munched] at read; cases read
      | cons char more =>
          rw [munched] at read begins followed
          obtain ⟨rfl, rfl⟩ := Token.hard.inj read
          refine ⟨rfl, ?_⟩
          rw [String.toList_ofList]
          refine ⟨begins, (Trie.follow?_ofWords_isSome (List.cons_ne_nil _ _)).mp followed, ?_⟩
          intro path beginsToo punctuates
          by_cases empty : path = []
          · rw [empty]
            exact Nat.zero_le _
          · rw [← munched]
            apply List.IsPrefix.length_le
            exact Trie.prefix_munch beginsToo ((Trie.follow?_ofWords_isSome empty).mpr punctuates)

/-- With other keywords a source has as many tokens, of the same texts and with the same ether; those
that differ are words which are keywords on one side only and no punctuators. And each hard token is a
word, a number, a string, or the longest text that what is left and a punctuator both begin with. -/
theorem keywords_keep_boundaries (lexicon : Lexicon) (others : List String) (source : String) :
    let tokens := lexicon.tokenize source
    let changed := (lexicon.withKeywords others).tokenize source
    changed.map Token.text = tokens.map Token.text ∧
      (∀ (index : Nat) (text : String),
        changed[index]? = some (.soft text) ↔ tokens[index]? = some (.soft text)) ∧
      (∀ (index : Nat) (token other : Token), tokens[index]? = some token →
        changed[index]? = some other → token ≠ other →
          lexicon.classAt source index = some .word ∧
            ¬ (token.text ∈ lexicon.keywords ↔ token.text ∈ others) ∧
              token.text ∉ lexicon.punctuators) ∧
      ∀ (index : Nat) (kind text : String), tokens[index]? = some (.hard kind text) →
        lexicon.classAt source index = some .word ∨
          lexicon.classAt source index = some .number ∧ kind = numberClass ∨
          lexicon.classAt source index = some .string ∧ kind = stringClass ∨
          lexicon.classAt source index = none ∧ kind = text ∧
            LongestPunctuator lexicon.punctuators text.toList (lexicon.leftAt source index) := by
  intro tokens changed
  refine ⟨lexicon.texts_withKeywords others source, fun index text => ?_, ?_, ?_⟩
  · have outlines : changed.map Token.outline = tokens.map Token.outline :=
      lexicon.outlines_tokenize others source
    have soft (list : List Token) : list[index]? = some (.soft text) ↔
        (list.map Token.outline)[index]? = some (text, false) := by
      rw [List.getElem?_map, Option.map_eq_some_iff]
      simp only [Token.outline_eq_soft_iff, exists_eq_right]
    rw [soft, soft, outlines]
  · intro index token other here there differ
    -- Tokens of one index begin in one place.
    obtain ⟨first, rest, left, rfl⟩ := next_of_getElem? here
    obtain ⟨firstToo, restToo, leftToo, rfl⟩ := next_of_getElem? there
    rw [leftAt_withKeywords, left] at leftToo
    obtain ⟨rfl, rfl⟩ := List.cons.inj leftToo
    rw [classAt, left]
    exact (lexicon.next_withKeywords others lexicon.trie first rest).2.2 differ
  · intro index kind text here
    obtain ⟨first, rest, left, read⟩ := next_of_getElem? here
    rw [classAt, left]
    exact next_cases read.symm

theorem next_alone {first : Char} {more after : List Char}
    (taken : (lexicon.next lexicon.trie first (more ++ after)).text.toList = first :: more) :
    lexicon.next lexicon.trie first more = lexicon.next lexicon.trie first (more ++ after) := by
  cases scanned : scan? (first :: (more ++ after)) with
  | some found =>
      obtain ⟨lexemeClass, length⟩ := found
      rw [next_of_scan scanned, text_classify, String.toList_ofList] at taken
      have alone := scan?_take scanned
      rw [taken] at alone
      have whole : (first :: more).take length = first :: more := by
        rw [← taken, List.take_take, Nat.min_self]
      rw [next_of_scan alone, next_of_scan scanned, taken, whole]
  | none =>
      have begins : first :: more <+: first :: (more ++ after) := ⟨after, rfl⟩
      have munched : lexicon.trie.munch (first :: (more ++ after)) <+: first :: more := by
        simp only [next, scanned, recovered] at taken
        cases run : lexicon.trie.munch (first :: (more ++ after)) with
        | nil => exact List.nil_prefix
        | cons char rest =>
            rw [run] at taken
            rw [← taken]
            simp [Token.literal, Token.text]
      simp only [next, scanned, scan?_prefix scanned begins, recovered,
        Trie.munch_of_prefix munched begins]

/-- Every token stands on its own: its text alone is tokenized as just that token. -/
theorem token_stands_alone (lexicon : Lexicon) (source : String) (token : Token)
    (member : token ∈ lexicon.tokenize source) : lexicon.tokenize token.text = [token] := by
  obtain ⟨first, rest, rfl⟩ := reads_of_tokenize member
  obtain ⟨more, after, taken, rfl⟩ := lexicon.text_next lexicon.trie first rest
  exact tokenize_of_next taken (next_alone taken) rfl

/-- The beginning of a punctuator, before a string that is not closed. -/
theorem token_stands_alone_unended :
    let lexicon : Lexicon := ⟨["if"], ["...", "\"..."]⟩
    Token.literal ".." ∈ lexicon.tokenize "if/* */..\"x" ∧
      lexicon.tokenize ".." = [.literal ".."] := by
  intro lexicon
  have member : Token.literal ".." ∈ lexicon.tokenize "if/* */..\"x" := by decide
  exact ⟨member, token_stands_alone lexicon _ _ member⟩

end Lexicon

end Parlance
