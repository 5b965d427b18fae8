import Parlance.Proofs.Builtin.Phrases
import Parlance.Proofs.Token.Rereading

/-! The words of the built-in dialects, and what may stand behind each of them. -/

namespace Parlance.Builtin

open Lexeme (Stops stops_cons isWhitespace isWordPart isWordStart)
open Lexicon (IsClass isSymbol)

/-- What `sugar`, or `base`, reads source text with. -/
def lexicon (sugar : Bool) : Lexicon :=
  let grammar := Grammar.ofRules (rules sugar)
  .ofWords (grammar.words .keyword) (grammar.words .punctuator)

def keywords (sugar : Bool) : List String :=
  ["const", "else", "false", "if", "let", "null", "return", "true"] ++
    (if sugar then ["unless"] else []) ++ ["var", "while"]

def punctuators : List String := [
  "!", "!=", "!==", "%", "&&", "(", ")", "*", "+", "+=", ",", "-", "-=", ".", "/", ";", "<", "<=",
  "=", "==", "===", ">", ">=", "[", "]", "\x7b", "||", "\x7d"]

theorem lexicon_eq (sugar : Bool) : lexicon sugar = ⟨keywords sugar, punctuators⟩ := by
  cases sugar with
  | false => decide
  | true => decide

variable {sugar : Bool} {word : String} {following : List Char}

def punctuation : Trie := Trie.ofWords punctuators

theorem lexicon_trie (sugar : Bool) : (lexicon sugar).trie = punctuation := by
  rw [lexicon_eq]
  rfl

/-- The characters that would be read as more of the punctuator, or with it as a comment. -/
def continuations (word : String) : List Char :=
  ((punctuation.follow? word.toList).elim [] fun node => node.branches.map Prod.fst) ++
    if word = "/" then ['/', '*'] else []

theorem punctuator_symbols : ∀ word ∈ punctuators,
    (punctuation.follow? word.toList).isSome = true ∧
      word.toList.head?.any isSymbol = true ∧ (word.toList.head? = some '/' → word = "/") ∧
        ' ' ∉ continuations word := by
  decide

theorem findBranch_eq_none {char : Char} {branches : List (Char × Trie)}
    (absent : char ∉ branches.map Prod.fst) : Trie.findBranch char branches = none := by
  induction branches with
  | nil => rfl
  | cons branch rest ih =>
      simp only [List.map_cons, List.mem_cons, not_or] at absent
      rw [Trie.findBranch, if_neg absent.1, ih absent.2]

theorem holds_punctuation (listed : word ∈ punctuators)
    (apart : ∀ char ∈ following.head?, char ∉ continuations word) :
    (lexicon sugar).Holds (.literal word) following := by
  obtain ⟨known, symbol, alone, -⟩ := punctuator_symbols word listed
  obtain ⟨node, followed⟩ := Option.isSome_iff_exists.mp known
  cases chars : word.toList with
  | nil => simp [chars] at symbol
  | cons first more =>
      rw [chars] at symbol alone
      have stops : Stops (fun char => (node.get? char).isSome) following := by
        intro char head
        have outside := apart char head
        simp only [continuations, followed, Option.elim, List.mem_append, not_or] at outside
        show (Trie.findBranch char node.branches).isSome = false
        rw [findBranch_eq_none outside.1]
        rfl
      refine Lexicon.holds_punctuator chars symbol ?_ (lexicon_trie sugar ▸ followed) stops
      rintro rfl
      have slash := alone rfl
      subst slash
      cases chars
      have outside (char : Char) (comments : char ∈ ['/', '*']) : following.head? ≠ some char := by
        intro head
        refine apart char head ?_
        rw [continuations, if_pos rfl]
        exact List.mem_append_right _ comments
      exact ⟨outside '/' (by decide), outside '*' (by decide)⟩

def brackets : List String := ["(", ")", "[", "]", "\x7b", "\x7d", ",", ".", ";"]

theorem continuations_eq :
    (∀ word ∈ brackets, word ∈ punctuators ∧ continuations word = []) ∧
      ∀ word ∈ prefixOperators, word ∈ punctuators ∧ continuations word = ['='] := by
  decide

theorem holds_bracket (listed : word ∈ brackets) (following : List Char) :
    (lexicon sugar).Holds (.literal word) following := by
  obtain ⟨known, nothing⟩ := continuations_eq.1 word listed
  exact holds_punctuation known (by simp [nothing])

theorem holds_operator (listed : word ∈ punctuators) (rest : List Char) :
    (lexicon sugar).Holds (.literal word) (' ' :: rest) := by
  obtain ⟨-, -, -, apart⟩ := punctuator_symbols word listed
  refine holds_punctuation listed fun char head => ?_
  cases head
  exact apart

theorem holds_prefixOperator (listed : word ∈ prefixOperators)
    (apart : following.head? ≠ some '=') :
    (lexicon sugar).Holds (.literal word) following := by
  obtain ⟨known, equals⟩ := continuations_eq.2 word listed
  refine holds_punctuation known fun char head => ?_
  rw [equals, List.mem_singleton]
  rintro rfl
  exact apart head

theorem holds_keyword (listed : word ∈ keywords sugar) (stops : Stops isWordPart following) :
    (lexicon sugar).Holds (.literal word) following := by
  have all : ∀ word ∈ keywords sugar,
      word.toList.head?.any isWordStart = true ∧ word.toList.all isWordPart = true := by
    cases sugar <;> decide
  obtain ⟨start, parts⟩ := all word listed
  cases chars : word.toList with
  | nil => simp [chars] at start
  | cons first more =>
      rw [chars] at start parts
      rw [List.all_cons, Bool.and_eq_true, List.all_eq_true] at parts
      have isKeyword : (lexicon sugar).isLiteral word = true := by
        rw [lexicon_eq, Lexicon.isLiteral, Bool.or_eq_true]
        exact .inl (List.contains_iff_mem.mpr listed)
      refine ⟨first, more, chars, ?_⟩
      rw [Lexicon.next_word start parts.2 stops, ← chars, String.ofList_toList, Lexicon.classify,
        if_pos isKeyword]

theorem isLiteral_sugar (literal : (lexicon false).isLiteral word = true) :
    (lexicon true).isLiteral word = true := by
  have all : ∀ word ∈ keywords false, word ∈ keywords true := by decide
  simp only [lexicon_eq, Lexicon.isLiteral, Bool.or_eq_true, List.contains_iff_mem] at literal ⊢
  exact literal.imp_left (all word)

theorem reads_base {kind text : String} (reads : (lexicon true).Reads (.hard kind text))
    (isClass : IsClass kind) : (lexicon false).Reads (.hard kind text) := by
  obtain ⟨first, more, chars, formed⟩ := reads.formed isClass
  have formedToo : (lexicon false).Formed kind text first more := by
    cases formed with
    | number isNumber digit numeral => exact .number isNumber digit numeral
    | string isString quotes closed => exact .string isString quotes closed
    | word start parts classified =>
        refine .word start parts ?_
        simp only [Lexicon.classify] at classified ⊢
        split at classified
        next literal =>
          have other : ∀ word ∈ keywords true ++ punctuators, ¬ IsClass word := by decide
          cases classified
          rw [lexicon_eq, Lexicon.isLiteral, Bool.or_eq_true, List.contains_iff_mem,
            List.contains_iff_mem, ← List.mem_append] at literal
          exact absurd isClass (other _ literal)
        next free => rw [if_neg fun literal => free (isLiteral_sugar literal), classified]
  exact (formedToo.holds chars (Lexeme.stops_nil _) (fun _ => Option.some_ne_none _ ∘ Eq.symm)).reads

end Parlance.Builtin
