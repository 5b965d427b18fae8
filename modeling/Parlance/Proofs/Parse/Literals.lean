import Parlance.Proofs.Evaluation.BigStep
import Parlance.Proofs.Token.Lossless

/-! What token patterns match. Tokens are told apart by their kinds alone, and the names of the classes
stand among the kinds beside the texts of keywords and punctuators. So a keyword that has the name of a
class is matched by all tokens of the class, and it passes for one of them itself; apart from that a
word matches its own text only, and no class matches a keyword or a punctuator. -/

namespace Parlance

namespace Lexicon

open Lexeme (isWordStart isWordPart scan? scan?_wordStart stops_nil)
open Token (chars)

variable {lexicon : Lexicon}

/-- The text of the next token is taken for a keyword or a punctuator, where it begins so. -/
inductive TakesLiteral (lexicon : Lexicon) (first : Char) (rest : List Char) : Prop where
  | word {length : Nat} (scanned : scan? (first :: rest) = some (.word, length))
      (listed : lexicon.isLiteral (String.ofList ((first :: rest).take length)) = true)
  | punctuator (unscanned : scan? (first :: rest) = none)
      (munched : lexicon.trie.munch (first :: rest) ≠ [])

/-- The token at an index was read as a keyword or as a punctuator. -/
def LiteralAt (lexicon : Lexicon) (source : String) (index : Nat) : Prop :=
  ∃ first rest, source.toList = chars ((lexicon.tokenize source).take index) ++ first :: rest ∧
    lexicon.TakesLiteral first rest

/-- A token that was read as a keyword or as a punctuator has its text for its kind, and if that is
the name of a class, the name is among the words. -/
theorem LiteralAt.token {source : String} {index : Nat} (literal : lexicon.LiteralAt source index) :
    ∃ word, (lexicon.tokenize source)[index]? = some (.literal word) ∧
      (IsClass word → lexicon.isLiteral word = true) := by
  obtain ⟨first, rest, split, takes⟩ := literal
  have here : (lexicon.tokenize source)[index]? = some (lexicon.next lexicon.trie first rest) := by
    rw [← List.head?_drop, tokenize_rest split]
    rfl
  rw [here]
  cases takes with
  | word scanned listed =>
      rw [next_of_scan scanned, classify, if_pos listed]
      exact ⟨_, rfl, fun _ => listed⟩
  | punctuator unscanned munched =>
      obtain ⟨char, more, run⟩ := List.exists_cons_of_ne_nil munched
      obtain rfl := munch_head run
      refine ⟨String.ofList (char :: more), ?_, fun isClass => ?_⟩
      · simp only [next, unscanned, recovered, run]
      · exact absurd unscanned (isClass.scanned rfl)

theorem exists_identifier (lexicon : Lexicon) :
    ∃ word, word ≠ identifierClass ∧ lexicon.tokenize word = [.hard identifierClass word] := by
  -- A word that is longer than all that are listed, and longer than the name of the class.
  let listed := identifierClass :: (lexicon.keywords ++ lexicon.punctuators)
  have listing : listed.map String.length ≠ [] := List.cons_ne_nil _ _
  let more := List.replicate ((listed.map String.length).max listing) 'a'
  let word := String.ofList ('a' :: more)
  have new : word ∉ listed := by
    intro member
    have le := List.le_max_of_mem (List.mem_map_of_mem (f := String.length) member)
    simp only [word, more, String.length_ofList, List.length_cons, List.length_replicate] at le
    omega
  have other : lexicon.isLiteral word = false := by
    simp only [listed, List.mem_cons, List.mem_append, not_or] at new
    simp [isLiteral, new]
  have parts : ∀ char ∈ more, isWordPart char = true := by
    intro char member
    rw [List.eq_of_mem_replicate member]
    decide
  have read : lexicon.next lexicon.trie 'a' (more ++ []) = lexicon.classify .word word :=
    next_word (by decide) parts (stops_nil isWordPart)
  rw [List.append_nil, classify, if_neg (Bool.eq_false_iff.mp other)] at read
  exact ⟨word, fun same => new (same ▸ List.mem_cons_self),
    tokenize_of_next String.toList_ofList read rfl⟩

theorem exists_token_of_class (lexicon : Lexicon) {className : String} (isClass : IsClass className) :
    ∃ source, source ≠ className ∧ lexicon.tokenize source = [.hard className source] := by
  rcases isClass with rfl | rfl | rfl
  · exact lexicon.exists_identifier
  · exact ⟨"0", by decide, rfl⟩
  · have scanned : scan? ['\'', '\''] = some (.string, 2) := by decide
    exact ⟨"''", by decide, tokenize_of_next rfl (next_of_scan scanned) rfl⟩

theorem tokenize_className {className : String} (isClass : IsClass className)
    (listed : lexicon.isLiteral className = true) :
    lexicon.tokenize className = [.literal className] ∧ lexicon.LiteralAt className 0 := by
  have scanned : ∃ first rest, className.toList = first :: rest ∧
      scan? (first :: rest) = some (.word, (first :: rest).length) := by
    rcases isClass with rfl | rfl | rfl <;> exact ⟨_, _, rfl, rfl⟩
  obtain ⟨first, rest, begins, scanned⟩ := scanned
  have same : String.ofList ((first :: rest).take (first :: rest).length) = className := by
    rw [List.take_length, ← begins, String.ofList_toList]
  constructor
  · refine tokenize_of_next begins ?_ rfl
    rw [next_of_scan scanned, same, classify, if_pos listed]
  · exact ⟨first, rest, begins, .word scanned (same ▸ listed)⟩

end Lexicon

/-- A pattern of a word yields the word wherever it matches a token of some source. -/
def Lexicon.YieldsOwnText (lexicon : Lexicon) (word : String) (role : Role) : Prop :=
  ∀ (source : String) (context : ParseContext) (state after : ParseState) (value : Tree),
    context.tokens = (lexicon.tokenize source).toArray →
      Evaluates context (.pattern (.token word (some role))) state (.matched value) after →
        value = .text word

/-- The pattern of a class matches no token that was read as a keyword or as a punctuator. -/
def Lexicon.SparesLiterals (lexicon : Lexicon) (className : String) : Prop :=
  ∀ (source : String) (context : ParseContext) (state after : ParseState) (value : Tree),
    context.tokens = (lexicon.tokenize source).toArray → lexicon.LiteralAt source state.position →
      ¬ Evaluates context (.pattern (.tokenClass className)) state (.matched value) after

theorem evaluates_token_iff {context : ParseContext} {kind : String} {role : Option Role}
    {state after : ParseState} {value : Tree} :
    Evaluates context (.pattern (.token kind role)) state (.matched value) after ↔
      ∃ text, context.tokens[state.position]? = some (.hard kind text) ∧ value = .text text ∧
        after = state.advance context.tokens := by
  have peeks : state.cursor.peek? context.tokens = context.tokens[state.position]? := rfl
  constructor
  · intro evaluates
    generalize same : Outcome.matched value = outcome at evaluates
    cases evaluates with
    | token =>
        unfold ParseContext.matchKind at same ⊢
        rw [peeks] at same ⊢
        cases here : context.tokens[state.position]? with
        | none => simp only [here] at same; cases same
        | some token =>
            cases token with
            | soft text => simp only [here, Token.kind?] at same; cases same
            | hard other text =>
                by_cases fits : other = kind
                · subst fits
                  simp only [here, Token.kind?, if_true] at same ⊢
                  obtain rfl := Outcome.matched.inj same
                  exact ⟨text, rfl, rfl, trivial⟩
                · simp only [here, Token.kind?, Option.some.injEq, if_neg fits] at same
                  cases same
  · rintro ⟨text, here, rfl, rfl⟩
    have matched : context.matchKind kind state =
        (.matched (.text text), state.advance context.tokens) := by
      simp only [ParseContext.matchKind, peeks, here, Token.kind?, if_true, Token.text]
    have ran : Evaluates context (.pattern (.token kind role)) state
        (context.matchKind kind state).1 (context.matchKind kind state).2 := .token
    rwa [matched] at ran

namespace Lexicon

variable {lexicon : Lexicon}

def alone (tokens : List Token) : ParseContext × ParseState :=
  (⟨[], tokens.toArray, none⟩, ⟨⟨0, 0, none⟩, 0⟩)

theorem evaluates_alone (kind text : String) (role : Option Role) :
    ∃ after, Evaluates (alone [.hard kind text]).1 (.pattern (.token kind role))
      (alone [.hard kind text]).2 (.matched (.text text)) after :=
  ⟨_, evaluates_token_iff.mpr ⟨text, rfl, rfl, rfl⟩⟩

theorem yieldsOwnText_iff {word : String} {role : Role} :
    lexicon.YieldsOwnText word role ↔ ¬ IsClass word := by
  constructor
  · intro own isClass
    obtain ⟨source, differs, read⟩ := lexicon.exists_token_of_class isClass
    obtain ⟨after, matched⟩ := evaluates_alone word source (some role)
    have same := own source _ _ after _ (by rw [read]; rfl) matched
    exact differs (Tree.text.inj same)
  · intro other source context state after value tokens matched
    obtain ⟨text, here, rfl, -⟩ := evaluates_token_iff.mp matched
    rw [tokens, List.getElem?_toArray] at here
    have reads := reads_of_tokenize (List.mem_of_getElem? here)
    rw [reads.text_eq other]

theorem sparesLiterals_iff {className : String} (isClass : IsClass className) :
    lexicon.SparesLiterals className ↔ lexicon.isLiteral className = false := by
  constructor
  · intro spares
    by_contra listed
    obtain ⟨read, literal⟩ := tokenize_className isClass (Bool.of_not_eq_false listed)
    obtain ⟨after, matched⟩ := evaluates_alone className className none
    exact spares className (alone [.literal className]).1 (alone [.literal className]).2 after _
      (by rw [read]; rfl) literal matched
  · intro unlisted source context state after value tokens literal matched
    obtain ⟨text, here, -, -⟩ := evaluates_token_iff.mp matched
    rw [tokens, List.getElem?_toArray] at here
    obtain ⟨word, there, listed⟩ := literal.token
    rw [there] at here
    obtain ⟨rfl, -⟩ := Token.hard.inj (Option.some.inj here)
    rw [listed isClass] at unlisted
    cases unlisted

/-- Whatever the keywords and punctuators, a pattern of a word yields just that word wherever it
matches, unless the word is the name of a class: then it matches tokens of the class too. And the
pattern of a class matches no token that was read as a keyword or as a punctuator, unless the name of
the class is among them. -/
theorem literals_apart_iff (lexicon : Lexicon) :
    (∀ word role, lexicon.YieldsOwnText word role ↔ ¬ IsClass word) ∧
      ∀ className, IsClass className →
        (lexicon.SparesLiterals className ↔ lexicon.isLiteral className = false) :=
  ⟨fun _ _ => yieldsOwnText_iff, fun _ => sparesLiterals_iff⟩

/-- With the keyword `Identifier`, the pattern of the keyword matches the identifier `x`, and the
pattern of identifiers matches the keyword. -/
theorem identifier_keyword_clashes :
    let lexicon : Lexicon := ⟨["Identifier"], []⟩
    lexicon.tokenize "x" = [.hard "Identifier" "x"] ∧
      (∃ after, Evaluates (alone (lexicon.tokenize "x")).1 (.pattern (.keywordValue "Identifier"))
        (alone (lexicon.tokenize "x")).2 (.matched (.text "x")) after) ∧
      lexicon.LiteralAt "Identifier" 0 ∧
      ∃ after, Evaluates (alone (lexicon.tokenize "Identifier")).1
        (.pattern (.tokenClass "Identifier")) (alone (lexicon.tokenize "Identifier")).2
          (.matched (.text "Identifier")) after := by
  intro lexicon
  have read : lexicon.tokenize "x" = [.hard "Identifier" "x"] := by decide
  obtain ⟨readToo, literal⟩ := @tokenize_className lexicon _ (.inl rfl) (by decide)
  refine ⟨read, ?_, literal, ?_⟩
  · rw [read]
    exact evaluates_alone ..
  · rw [show lexicon.tokenize "Identifier" = _ from readToo]
    exact evaluates_alone ..

end Lexicon

end Parlance
