import Parlance.Proofs.Token.Rereading

/-! Every token of a text is a part of it that is not empty, and the tokens join to the text again. -/

namespace Parlance

namespace Lexicon

variable (lexicon : Lexicon)

theorem tokensFrom_lossless (trie : Trie) (text : List Char) :
    (∀ token ∈ lexicon.tokensFrom trie 0 text, token.text.toList ≠ []) ∧
      Token.chars (lexicon.tokensFrom trie 0 text) = text := by
  have enough := Nat.lt_succ_self (Text.byteSize text)
  have same := lexicon.turns_tokensFrom trie (fun _ => 0) Seat.behind_nil enough
  obtain ⟨tokens, ran, lossless⟩ :=
    lexicon.turns_lossless trie (Lexeme.lawful_lexer fun _ => 0) Seat.behind_nil enough
  cases same.symm.trans ran
  exact lossless

theorem chars_tokenize (source : String) :
    Token.chars (lexicon.tokenize source) = source.toList := by
  rw [tokenize_eq]
  exact (lexicon.tokensFrom_lossless lexicon.trie source.toList).2

section

variable {lexicon}

/-- After some tokens of a text, the others are those of what is left of it. -/
theorem tokensFrom_rest {text rest : List Char} {index : Nat}
    (split : text = Token.chars ((lexicon.tokensFrom lexicon.trie 0 text).take index) ++ rest) :
    (lexicon.tokensFrom lexicon.trie 0 text).drop index =
      lexicon.tokensFrom lexicon.trie 0 rest := by
  induction index generalizing text with
  | zero => rw [split]; rfl
  | succ index ih =>
      cases text with
      | nil =>
          obtain ⟨-, rfl⟩ := List.append_eq_nil_iff.mp split.symm
          rfl
      | cons first more =>
          obtain ⟨run, after, taken, rfl⟩ := lexicon.text_next lexicon.trie first more
          have holds : lexicon.Holds (lexicon.next lexicon.trie first (run ++ after)) after :=
            ⟨first, run, taken, rfl⟩
          have read := holds.tokensFrom
          rw [taken, List.cons_append] at read
          rw [read, List.take_succ_cons, Token.chars_cons, taken, List.append_assoc, List.cons_append]
            at split
          rw [read, List.drop_succ_cons]
          exact ih (List.append_cancel_left (List.cons.inj split).2)

theorem tokenize_rest {source : String} {rest : List Char} {index : Nat}
    (split : source.toList = Token.chars ((lexicon.tokenize source).take index) ++ rest) :
    (lexicon.tokenize source).drop index = lexicon.tokensFrom lexicon.trie 0 rest := by
  rw [tokenize_eq] at split ⊢
  exact tokensFrom_rest split

theorem tokenize_of_next {text : String} {first : Char} {rest : List Char} {token : Token}
    (begins : text.toList = first :: rest) (next : lexicon.next lexicon.trie first rest = token)
    (whole : token.text = text) : lexicon.tokenize text = [token] := by
  have holds : lexicon.Holds token [] :=
    ⟨first, rest, by rw [whole, begins], by rw [List.append_nil, next]⟩
  have read := holds.tokensFrom
  rw [List.append_nil, whole] at read
  rw [tokenize_eq, read, tokensFrom]

end

/-- Whatever the keywords and punctuators, and whatever lexer there is, the loop ends, every token has
some text, and the texts of the tokens, one after another, are the source. The lexer of the lexemes is
one of them however far its unrecognised spans go, and its tokens do not depend on that. -/
theorem tokenize_lossless (source : String) :
    (∀ lexer : Lexer, lexer.Lawful → ∃ tokens, lexicon.tokenizeWith lexer source = some tokens ∧
      (∀ token ∈ tokens, token.text ≠ "") ∧ Token.join tokens = source) ∧
    ∀ lost, (Lexeme.lexer lost).Lawful ∧
      lexicon.tokenizeWith (Lexeme.lexer lost) source = some (lexicon.tokenize source) := by
  constructor
  · intro lexer lawful
    have enough := Nat.lt_succ_self (Text.byteSize source.toList)
    obtain ⟨tokens, ran, nonempty, whole⟩ :=
      lexicon.turns_lossless lexicon.trie lawful Seat.behind_nil enough
    refine ⟨tokens, ran, fun token member empty => ?_, ?_⟩
    · exact nonempty token member (by rw [empty]; rfl)
    · rw [← String.toList_inj, Token.toList_join, whole]
  · intro lost
    exact ⟨Lexeme.lawful_lexer lost, by rw [tokenizeWith_lexer, tokenize_eq]⟩

/-- The span of the string that is not closed goes on to the end, and only its quote is taken; that of
the first dot stops before the second, and both are taken. -/
theorem tokenize_lossless_reseated :
    let lexicon : Lexicon := ⟨["if"], ["..."]⟩
    let lexer := Lexeme.lexer fun text =>
      if text.head? = some '"' then Text.byteSize text else Text.byteSize (text.take 1)
    let tokens : List Token := [.soft "\"", .soft "é", .literal "..", .literal "if"]
    lexer.Lawful ∧ lexicon.tokenizeWith lexer "\"é..if" = some tokens ∧
      (∀ token ∈ tokens, token.text ≠ "") ∧ Token.join tokens = "\"é..if" := by
  intro lexicon lexer tokens
  have lawful : lexer.Lawful := Lexeme.lawful_lexer _
  have read : lexicon.tokenizeWith lexer "\"é..if" = some tokens := by decide
  obtain ⟨found, ran, lossless⟩ := (tokenize_lossless lexicon "\"é..if").1 lexer lawful
  cases ran.symm.trans read
  exact ⟨lawful, read, lossless⟩

end Lexicon

end Parlance
