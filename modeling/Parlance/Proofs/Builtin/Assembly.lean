import Parlance.Proofs.Builtin.Accepting
import Parlance.Proofs.Builtin.Dissection

/-! Statements put together. At most one kind of statement begins with the next item, so the parts
that make a statement of that kind are read as that statement: the rules for statements are closed
here as they were opened before. -/

namespace Parlance.Builtin

open Derives Statements

variable {sugar : Bool} {input middle rest : List Item} {value : Tree}

def expressionStarts : List String := primaryStarts ++ prefixOperators

def kindStarts : String → List String
  | "BlockStatement" => ["\x7b"]
  | "VariableDeclaration" => declarationKinds
  | "IfStatement" => ["if"]
  | "WhileStatement" => ["while"]
  | "ReturnStatement" => ["return"]
  | "EmptyStatement" => [";"]
  | "UnlessStatement" => ["unless"]
  | _ => expressionStarts

def statementStarts : List String :=
  ["\x7b", "var", "let", "const", "if", "while", "return", ";", "unless"] ++ expressionStarts

theorem expression_fails (lacks : Lacks (peg sugar) expressionStarts input) :
    Derives (peg sugar) (.pattern (.rule "Expression")) input none := by
  rw [expression_iff, onlyAlternative_iff]
  exact assignment_fails lacks

theorem kind_fails {kind : String} (listed : kind ∈ statementKinds sugar)
    (lacks : Lacks (peg sugar) (kindStarts kind) input) :
    Derives (peg sugar) (.pattern (.rule kind)) input none := by
  rcases List.mem_append.mp listed with listed | listed
  · simp only [kinds, List.mem_cons, List.not_mem_nil, or_false] at listed
    rcases listed with rfl | rfl | rfl | rfl | rfl | rfl | rfl
    · rw [block_iff, onlyAlternative_iff]
      exact .noFilter (.noSequence (ignoredToken_none lacks))
    · rw [declaration_iff, onlyAlternative_iff]
      exact .noFilter (.noSequence (.termFails (tokenChoice_none lacks)))
    · rw [conditional_iff, onlyAlternative_iff]
      exact .noFilter (.noSequence (ignoredToken_none lacks))
    · rw [loop_iff, onlyAlternative_iff]
      exact .noFilter (.noSequence (ignoredToken_none lacks))
    · rw [returning_iff, onlyAlternative_iff]
      exact .noFilter (.noSequence (ignoredToken_none lacks))
    · rw [emptyStatement_iff, onlyAlternative_iff]
      exact .noFilter (.noIgnore (token_none lacks))
    · rw [expressionStatement_iff, onlyAlternative_iff]
      exact .noFilter (.noSequence (.termFails (expression_fails lacks)))
  · cases sugar with
    | false => cases listed
    | true =>
        cases List.mem_singleton.mp listed
        rw [unless_iff, onlyAlternative_iff]
        exact .noFilter (.noSequence (ignoredToken_none lacks))

theorem statementKinds_subset {kind : String} (member : kind ∈ statementKinds sugar) :
    kind ∈ statementKinds true := by
  cases sugar with
  | false => exact List.mem_append_left _ (by simpa [statementKinds] using member)
  | true => exact member

/-- The one kind that the next item allows decides. -/
theorem statement_matched {kind : String} (listed : kind ∈ statementKinds sugar)
    (matched : Derives (peg sugar) (.pattern (.rule kind)) input (some (value, rest)))
    (others : ∀ other ∈ statementKinds sugar, other ≠ kind →
      Lacks (peg sugar) (kindStarts other) input) :
    Derives (peg sugar) (.pattern (.rule "Statement")) input (some (value, rest)) := by
  have fails : ∀ other ∈ statementKinds sugar, other ≠ kind →
      Derives (peg sugar) (.pattern (.rule other)) input none :=
    fun other member differs => kind_fails member (others other member differs)
  rw [statement_iff]
  generalize statementKinds sugar = all at listed fails
  induction all with
  | nil => cases listed
  | cons first later ih =>
      by_cases same : first = kind
      · exact .decided (same ▸ matched)
      · have listed : kind ∈ later := (List.mem_cons.mp listed).resolve_left (Ne.symm same)
        exact .nextAlternative (fails first (List.mem_cons_self ..) same)
          (ih listed fun other member => fails other (List.mem_cons_of_mem _ member))

theorem lacks_of_kind {item : Item} {kind : String} {kinds : List String}
    (fits : item.token.kind? = some kind) (other : kind ∉ kinds) :
    Lacks (peg sugar) kinds (item :: rest) :=
  lacks_cons (token_of_kind fits) other

theorem statement_begun (kind : String) {word : String} {item : Item}
    (listed : kind ∈ statementKinds sugar) (fits : item.token.kind? = some word)
    (alone : ∀ other ∈ statementKinds true, other ≠ kind → word ∉ kindStarts other)
    (matched : Derives (peg sugar) (.pattern (.rule kind)) (item :: input) (some (value, rest))) :
    Derives (peg sugar) (.pattern (.rule "Statement")) (item :: input) (some (value, rest)) :=
  statement_matched listed matched fun other member differs =>
    lacks_of_kind fits (alone other (statementKinds_subset member) differs)

theorem statement_fails (lacks : Lacks (peg sugar) statementStarts input) :
    Derives (peg sugar) (.pattern (.rule "Statement")) input none := by
  have all : ∀ kind ∈ statementKinds true, ∀ word ∈ kindStarts kind, word ∈ statementStarts := by
    decide
  have fails : ∀ kind ∈ statementKinds sugar,
      Derives (peg sugar) (.pattern (.rule kind)) input none :=
    fun kind member => kind_fails member (lacks.mono (all kind (statementKinds_subset member)))
  rw [statement_iff]
  generalize statementKinds sugar = kinds at fails
  induction kinds with
  | nil => exact .noAlternatives
  | cons first later ih =>
      exact .nextAlternative (fails first (List.mem_cons_self ..))
        (ih fun kind member => fails kind (List.mem_cons_of_mem _ member))

theorem lacks_of_matched {rule : String} {starts kinds : List String}
    (fails : Lacks (peg sugar) starts input → Derives (peg sugar) (.pattern (.rule rule)) input none)
    (matched : Derives (peg sugar) (.pattern (.rule rule)) input (some (value, rest)))
    (apart : ∀ kind ∈ kinds, kind ∉ starts) : Lacks (peg sugar) kinds input := by
  intro item here kind member fits
  have none : Lacks (peg sugar) starts input := by
    intro other there start memberToo fitsToo
    cases here.symm.trans there
    cases fits.symm.trans fitsToo
    exact apart kind member memberToo
  cases (fails none).unique matched

theorem mem_statementKinds {kind : String} (member : kind ∈ kinds) :
    kind ∈ statementKinds sugar := List.mem_append_left _ member

theorem Terminated.derives (ends : Terminated input rest) (serial : Nat) :
    Derives (peg sugar) (.terms [Terminator.pattern serial]) input (some (.list [], rest)) := by
  have reads : Terminator.reads input = some (.null, rest) := by
    cases ends with
    | closed closes => exact if_pos closes
    | unclosed other mayEnd =>
        cases input with
        | nil => rfl
        | cons item later =>
            have mayEnd : item.token.kind? = some "\x7d" ∨ item.fresh = true := mayEnd
            rw [Terminator.reads, if_neg (other item rfl), if_pos (by simpa using mayEnd)]
  exact nextTerm_some.mpr ⟨.null, rest, [], custom_iff.mpr reads, .noTerms, rfl⟩

theorem DissectedDeclarator.derives (dissected : DissectedDeclarator sugar value input rest) :
    Derives (peg sugar) (.pattern (.rule "VariableDeclarator")) input (some (value, rest)) := by
  rw [declarator_iff, onlyAlternative_iff]
  cases dissected with
  | @bare named _ _ names lacks =>
      refine filter_some.mpr ⟨_, sequence_some.mpr ⟨[named, .null], ?_, rfl⟩, rfl⟩
      exact (usedTerm_some rfl).mpr ⟨_, _, _, names,
        (usedTerm_some rfl).mpr ⟨_, _, _, option_some.mpr (.inr ⟨lacks, rfl, rfl⟩), .noTerms, rfl⟩,
        rfl⟩
  | @initialized named init item _ _ _ names equals source =>
      have assigned : Derives (peg sugar) (.pattern initialization) (item :: _)
          (some (init, rest)) :=
        sequence_some.mpr ⟨[init], ignoredToken_some.mpr ⟨_, _, rfl, equals,
          (usedTerm_some rfl).mpr ⟨_, _, _, source, .noTerms, rfl⟩⟩, rfl⟩
      refine filter_some.mpr ⟨_, sequence_some.mpr ⟨[named, init], ?_, rfl⟩, rfl⟩
      exact (usedTerm_some rfl).mpr ⟨_, _, _, names,
        (usedTerm_some rfl).mpr ⟨_, _, _, option_some.mpr (.inl assigned), .noTerms, rfl⟩, rfl⟩

theorem Headed.derives {word : String} {test body : Tree} {behind : List Item}
    {terms : List Pattern} {others : List Tree} (headed : Headed sugar word test input behind)
    (follows : Derives (peg sugar) (.pattern (.rule "Statement")) behind (some (body, middle)))
    (left : Derives (peg sugar) (.terms terms) middle (some (.list others, rest))) :
    Derives (peg sugar) (.terms (guarded word ++ terms)) input
      (some (.list (test :: body :: others), rest)) := by
  obtain ⟨words, opens, tested, closes⟩ := headed
  exact ignoredToken_some.mpr ⟨_, _, rfl, words,
    ignoredToken_some.mpr ⟨_, _, rfl, opens,
      (usedTerm_some rfl).mpr ⟨_, _, _, tested,
        ignoredToken_some.mpr ⟨_, _, rfl, closes,
          (usedTerm_some rfl).mpr ⟨_, _, _, follows, left, rfl⟩⟩, rfl⟩⟩⟩

theorem elseClause_derives {alternate : Tree} {item : Item} {later : List Item}
    (words : item.token.kind? = some "else")
    (otherwise : Derives (peg sugar) (.pattern (.rule "Statement")) later (some (alternate, rest))) :
    Derives (peg sugar) (.pattern elseClause) (item :: later) (some (alternate, rest)) :=
  sequence_some.mpr ⟨[alternate], ignoredToken_some.mpr ⟨_, _, rfl, words,
    (usedTerm_some rfl).mpr ⟨_, _, _, otherwise, .noTerms, rfl⟩⟩, rfl⟩

theorem conditional_derives {test consequent alternate : Tree}
    (guarded : Guarded sugar "if" test consequent input middle)
    (optional : Derives (peg sugar) (.pattern (.option 14 elseClause)) middle
      (some (alternate, rest))) :
    Derives (peg sugar) (.pattern (.rule "Statement")) input
      (some (branch test consequent alternate, rest)) := by
  obtain ⟨headed, follows⟩ := guarded
  have terms := headed.derives follows
    ((usedTerm_some rfl).mpr ⟨_, _, _, optional, .noTerms, rfl⟩)
  obtain ⟨words, -⟩ := headed
  refine statement_begun "IfStatement" (mem_statementKinds (by decide)) words (by decide) ?_
  rw [conditional_iff, onlyAlternative_iff]
  exact filter_some.mpr ⟨_, sequence_some.mpr ⟨_, terms, rfl⟩, rfl⟩

theorem loop_derives {test body : Tree} (guarded : Guarded sugar "while" test body input rest) :
    Derives (peg sugar) (.pattern (.rule "Statement")) input
      (some (loopNode test body, rest)) := by
  obtain ⟨headed, follows⟩ := guarded
  have terms := headed.derives follows .noTerms
  obtain ⟨words, -⟩ := headed
  refine statement_begun "WhileStatement" (mem_statementKinds (by decide)) words (by decide) ?_
  rw [loop_iff, onlyAlternative_iff]
  exact filter_some.mpr ⟨_, sequence_some.mpr ⟨_, terms, rfl⟩, rfl⟩

theorem inverted_derives {test body : Tree} (guarded : Guarded true "unless" test body input rest) :
    Derives (peg true) (.pattern (.rule "Statement")) input
      (some (unlessNode test body, rest)) := by
  obtain ⟨headed, follows⟩ := guarded
  have terms := headed.derives follows .noTerms
  obtain ⟨words, -⟩ := headed
  refine statement_begun "UnlessStatement" (by decide) words (by decide) ?_
  rw [unless_iff, onlyAlternative_iff]
  exact filter_some.mpr ⟨_, sequence_some.mpr ⟨_, terms, rfl⟩, rfl⟩

theorem block_derives {body : Tree} {opening closing : Item} {inside : List Item}
    (opens : opening.token.kind? = some "\x7b")
    (inner : Derives (peg sugar) (.pattern (.star (.rule "Statement") none)) inside
      (some (body, closing :: rest)))
    (closes : closing.token.kind? = some "\x7d") :
    Derives (peg sugar) (.pattern (.rule "Statement")) (opening :: inside)
      (some (.node "BlockStatement" [("body", body)], rest)) := by
  refine statement_begun "BlockStatement" (mem_statementKinds (by decide)) opens (by decide) ?_
  rw [block_iff, onlyAlternative_iff]
  refine filter_some.mpr ⟨_, sequence_some.mpr ⟨[body], ?_, rfl⟩, rfl⟩
  exact ignoredToken_some.mpr ⟨_, _, rfl, opens, (usedTerm_some rfl).mpr ⟨_, _, _, inner,
    ignoredToken_some.mpr ⟨_, _, rfl, closes, .noTerms⟩, rfl⟩⟩

theorem empty_derives {item : Item} (fits : item.token.kind? = some ";") (rest : List Item) :
    Derives (peg sugar) (.pattern (.rule "Statement")) (item :: rest)
      (some (.node "EmptyStatement" [], rest)) := by
  refine statement_begun "EmptyStatement" (mem_statementKinds (by decide)) fits (by decide) ?_
  rw [emptyStatement_iff, onlyAlternative_iff]
  exact filter_some.mpr ⟨_, .ignore (.token fits), rfl⟩

theorem Clause.derives {after : List Item} (clause : Clause sugar value input after)
    (ends : Terminated after rest) :
    Derives (peg sugar) (.pattern (.rule "Statement")) input (some (value, rest)) := by
  cases clause with
  | @declaration item kind first values _ _ _ isKind fits begins more =>
      have alone : ∀ kind ∈ declarationKinds, ∀ other ∈ statementKinds true,
          other ≠ "VariableDeclaration" → kind ∉ kindStarts other := by decide
      have repeated : Derives (peg sugar)
          (.pattern (.plus (.rule "VariableDeclarator") (some (.ignoredToken ",")))) _
          (some (.list (first :: values), after)) := .repetition begins more
      refine statement_begun "VariableDeclaration" (mem_statementKinds (by decide)) fits
        (alone kind isKind) ?_
      rw [declaration_iff, onlyAlternative_iff]
      refine filter_some.mpr ⟨_, sequence_some.mpr ⟨[.text item.token.text, _], ?_, rfl⟩, rfl⟩
      exact (usedTerm_some rfl).mpr ⟨_, _, _, tokenChoice isKind fits _,
        (usedTerm_some rfl).mpr ⟨_, _, _, repeated, ends.derives _, rfl⟩, rfl⟩
  | returning words lacks =>
      refine statement_begun "ReturnStatement" (mem_statementKinds (by decide)) words (by decide) ?_
      rw [returning_iff, onlyAlternative_iff]
      refine filter_some.mpr ⟨_, sequence_some.mpr ⟨[.null], ?_, rfl⟩, rfl⟩
      exact ignoredToken_some.mpr ⟨_, _, rfl, words, (usedTerm_some rfl).mpr ⟨_, _, _,
        option_some.mpr (.inr ⟨lacks, rfl, rfl⟩), ends.derives _, rfl⟩⟩
  | @returningValue tree _ _ _ words given =>
      refine statement_begun "ReturnStatement" (mem_statementKinds (by decide)) words (by decide) ?_
      rw [returning_iff, onlyAlternative_iff]
      refine filter_some.mpr ⟨_, sequence_some.mpr ⟨[tree], ?_, rfl⟩, rfl⟩
      exact ignoredToken_some.mpr ⟨_, _, rfl, words, (usedTerm_some rfl).mpr ⟨_, _, _,
        option_some.mpr (.inl given), ends.derives _, rfl⟩⟩
  | @expression tree _ _ given =>
      have apart : ∀ other ∈ statementKinds true, other ≠ "ExpressionStatement" →
          ∀ word ∈ kindStarts other, word ∉ expressionStarts := by decide
      refine statement_matched (mem_statementKinds (by decide)) ?_ fun other member differs =>
        lacks_of_matched expression_fails given (apart other (statementKinds_subset member) differs)
      rw [expressionStatement_iff, onlyAlternative_iff]
      refine filter_some.mpr ⟨_, sequence_some.mpr ⟨[tree], ?_, rfl⟩, rfl⟩
      exact (usedTerm_some rfl).mpr ⟨_, _, _, given, ends.derives _, rfl⟩

/-- What is taken apart as a statement is what is read as one. -/
theorem statement_iff_dissected :
    Derives (peg sugar) (.pattern (.rule "Statement")) input (some (value, rest)) ↔
      Dissected sugar value input rest := by
  refine ⟨statement_dissected, fun dissected => ?_⟩
  cases dissected with
  | block opens inner closes => exact block_derives opens inner closes
  | conditional guarded lacks =>
      exact conditional_derives guarded (option_some.mpr (.inr ⟨lacks, rfl, rfl⟩))
  | conditionalElse guarded words otherwise =>
      exact conditional_derives guarded (option_some.mpr (.inl (elseClause_derives words otherwise)))
  | loop guarded => exact loop_derives guarded
  | inverted sweet guarded =>
      cases sweet
      exact inverted_derives guarded
  | empty fits => exact empty_derives fits rest
  | terminated clause ends => exact clause.derives ends

end Parlance.Builtin
