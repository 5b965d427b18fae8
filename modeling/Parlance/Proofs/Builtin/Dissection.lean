import Parlance.Proofs.Builtin.Written

/-! What is read as a statement, taken apart: the tokens that its rule asks for, and what is read
between them. The rules for statements are opened here, and whatever holds of all statements follows
case by case. -/

namespace Parlance.Builtin

open Derives Statements

variable {sugar : Bool} {input middle rest : List Item} {value : Tree} {values : List Tree}

/-- Nothing is left, or the next token is a closing brace or has a line break before it. -/
def MayEnd : List Item → Prop
  | [] => True
  | item :: _ => item.token.kind? = some "\x7d" ∨ item.fresh = true

/-- What ends a statement: a semicolon, or a place without one where it may end. -/
inductive Terminated : List Item → List Item → Prop where
  | closed {item : Item} (closes : item.token.kind? = some ";") (rest : List Item) :
      Terminated (item :: rest) rest
  | unclosed {rest : List Item} (other : ∀ item ∈ rest.head?, item.token.kind? ≠ some ";")
      (mayEnd : MayEnd rest) : Terminated rest rest

def initialization : Pattern := .sequence [.ignoredToken "=", .rule "AssignmentExpression"]

inductive DissectedDeclarator (sugar : Bool) : Tree → List Item → List Item → Prop where
  | bare {named : Tree} {input rest : List Item}
      (names : Derives (peg sugar) (.pattern (.rule "Identifier")) input (some (named, rest)))
      (lacks : Derives (peg sugar) (.pattern initialization) rest none) :
      DissectedDeclarator sugar
        (.node "VariableDeclarator" [("id", named), ("init", .null)]) input rest
  | initialized {named init : Tree} {item : Item} {input behind rest : List Item}
      (names : Derives (peg sugar) (.pattern (.rule "Identifier")) input
        (some (named, item :: behind)))
      (equals : item.token.kind? = some "=")
      (source : Derives (peg sugar) (.pattern (.rule "AssignmentExpression")) behind
        (some (init, rest))) :
      DissectedDeclarator sugar
        (.node "VariableDeclarator" [("id", named), ("init", init)]) input rest

inductive Headed (sugar : Bool) (word : String) (test : Tree) : List Item → List Item → Prop where
  | intro {first second last : Item} {inside behind : List Item}
      (words : first.token.kind? = some word) (opens : second.token.kind? = some "(")
      (tested : Derives (peg sugar) (.pattern (.rule "Expression")) inside
        (some (test, last :: behind)))
      (closes : last.token.kind? = some ")") :
      Headed sugar word test (first :: second :: inside) behind

inductive Guarded (sugar : Bool) (word : String) (test body : Tree) (input rest : List Item) :
    Prop where
  | intro {behind : List Item} (headed : Headed sugar word test input behind)
      (follows : Derives (peg sugar) (.pattern (.rule "Statement")) behind (some (body, rest)))

/-- A statement that a terminator ends, up to there. -/
inductive Clause (sugar : Bool) : Tree → List Item → List Item → Prop where
  | declaration {item : Item} {kind : String} {first : Tree} {values : List Tree}
      {behind between after : List Item} (isKind : kind ∈ declarationKinds)
      (fits : item.token.kind? = some kind)
      (begins : Derives (peg sugar) (.pattern (.rule "VariableDeclarator")) behind
        (some (first, between)))
      (more : Derives (peg sugar) (.rounds (.rule "VariableDeclarator") (some (.ignoredToken ",")))
        between (some (.list values, after))) :
      Clause sugar (.node "VariableDeclaration"
        [("kind", .text item.token.text), ("declarations", .list (first :: values))])
        (item :: behind) after
  | returning {item : Item} {behind : List Item} (words : item.token.kind? = some "return")
      (lacks : Derives (peg sugar) (.pattern (.rule "Expression")) behind none) :
      Clause sugar (.node "ReturnStatement" [("argument", .null)]) (item :: behind) behind
  | returningValue {tree : Tree} {item : Item} {behind after : List Item}
      (words : item.token.kind? = some "return")
      (given : Derives (peg sugar) (.pattern (.rule "Expression")) behind (some (tree, after))) :
      Clause sugar (.node "ReturnStatement" [("argument", tree)]) (item :: behind) after
  | expression {tree : Tree} {input after : List Item}
      (given : Derives (peg sugar) (.pattern (.rule "Expression")) input (some (tree, after))) :
      Clause sugar (.node "ExpressionStatement" [("expression", tree)]) input after

/-- A statement, the items that it is read from up to the rest, and the parts that are read there. -/
inductive Dissected (sugar : Bool) : Tree → List Item → List Item → Prop where
  | block {body : Tree} {opening closing : Item} {inside rest : List Item}
      (opens : opening.token.kind? = some "\x7b")
      (inner : Derives (peg sugar) (.pattern (.star (.rule "Statement") none)) inside
        (some (body, closing :: rest)))
      (closes : closing.token.kind? = some "\x7d") :
      Dissected sugar (.node "BlockStatement" [("body", body)]) (opening :: inside) rest
  | conditional {test consequent : Tree} {input rest : List Item}
      (guarded : Guarded sugar "if" test consequent input rest)
      (lacks : Derives (peg sugar) (.pattern elseClause) rest none) :
      Dissected sugar (branch test consequent .null) input rest
  | conditionalElse {test consequent alternate : Tree} {item : Item} {input later rest : List Item}
      (guarded : Guarded sugar "if" test consequent input (item :: later))
      (words : item.token.kind? = some "else")
      (otherwise : Derives (peg sugar) (.pattern (.rule "Statement")) later
        (some (alternate, rest))) :
      Dissected sugar (branch test consequent alternate) input rest
  | loop {test body : Tree} {input rest : List Item}
      (guarded : Guarded sugar "while" test body input rest) :
      Dissected sugar (loopNode test body) input rest
  | inverted {test body : Tree} {input rest : List Item} (sweet : sugar = true)
      (guarded : Guarded sugar "unless" test body input rest) :
      Dissected sugar (unlessNode test body) input rest
  | empty {item : Item} (fits : item.token.kind? = some ";") (rest : List Item) :
      Dissected sugar (.node "EmptyStatement" []) (item :: rest) rest
  | terminated {value : Tree} {input after rest : List Item}
      (clause : Clause sugar value input after) (ends : Terminated after rest) :
      Dissected sugar value input rest

theorem terminator_ends {serial : Nat}
    (derives : Derives (peg sugar) (.terms [Terminator.pattern serial]) input
      (some (.list values, rest))) : values = [] ∧ Terminated input rest := by
  obtain ⟨value, middle, more, matched, done, rfl⟩ := nextTerm_some.mp derives
  obtain ⟨rfl, rfl⟩ := noTerms_some.mp done
  have reads : Terminator.reads input = some (value, rest) := custom_iff.mp matched
  refine ⟨rfl, ?_⟩
  cases input with
  | nil =>
      cases reads
      exact .unclosed nofun trivial
  | cons item rest =>
      simp only [Terminator.reads] at reads
      split at reads
      next closes =>
        cases reads
        exact .closed closes rest
      next other =>
        split at reads
        next mayEnd =>
          cases reads
          exact .unclosed (by simpa using other) (by simpa [MayEnd] using mayEnd)
        next => cases reads

theorem declarator_dissected
    (derives : Derives (peg sugar) (.pattern (.rule "VariableDeclarator")) input
      (some (value, rest))) : DissectedDeclarator sugar value input rest := by
  rw [declarator_iff, onlyAlternative_iff] at derives
  obtain ⟨inner, matched, rfl⟩ := filter_some.mp derives
  obtain ⟨values, terms, rfl⟩ := sequence_some.mp matched
  obtain ⟨named, middle, more, names, others, rfl⟩ := (usedTerm_some rfl).mp terms
  obtain ⟨init, after, none, optional, done, rfl⟩ := (usedTerm_some rfl).mp others
  obtain ⟨rfl, rfl⟩ := noTerms_some.mp done
  rcases option_some.mp optional with assigned | ⟨lacks, rfl, rfl⟩
  · obtain ⟨given, assignment, rfl⟩ := sequence_some.mp assigned
    obtain ⟨item, behind, rfl, equals, last⟩ := ignoredToken_some.mp assignment
    obtain ⟨tree, after, none, source, done, rfl⟩ := (usedTerm_some rfl).mp last
    obtain ⟨rfl, rfl⟩ := noTerms_some.mp done
    exact .initialized names equals source
  · exact .bare names lacks

theorem guarded_dissected {word : String} {terms : List Pattern}
    (derives : Derives (peg sugar) (.terms (guarded word ++ terms)) input
      (some (.list values, rest))) :
    ∃ test body others middle, values = test :: body :: others ∧
      Guarded sugar word test body input middle ∧
      Derives (peg sugar) (.terms terms) middle (some (.list others, rest)) := by
  obtain ⟨first, opened, rfl, words, more⟩ := ignoredToken_some.mp derives
  obtain ⟨second, inside, rfl, opens, condition⟩ := ignoredToken_some.mp more
  obtain ⟨test, tested, others, matched, ending, rfl⟩ := (usedTerm_some rfl).mp condition
  obtain ⟨last, behind, rfl, closes, statement⟩ := ignoredToken_some.mp ending
  obtain ⟨body, middle, most, follows, left, rfl⟩ := (usedTerm_some rfl).mp statement
  exact ⟨test, body, most, middle, rfl, .intro (.intro words opens matched closes) follows, left⟩

theorem block_dissected
    (derives : Derives (peg sugar) (.pattern (.rule "BlockStatement")) input (some (value, rest))) :
    Dissected sugar value input rest := by
  rw [block_iff, onlyAlternative_iff] at derives
  obtain ⟨inner, matched, rfl⟩ := filter_some.mp derives
  obtain ⟨values, terms, rfl⟩ := sequence_some.mp matched
  obtain ⟨opening, middle, rfl, opens, inside⟩ := ignoredToken_some.mp terms
  obtain ⟨body, after, none, starred, ending, rfl⟩ := (usedTerm_some rfl).mp inside
  obtain ⟨closing, rest, rfl, closes, done⟩ := ignoredToken_some.mp ending
  obtain ⟨rfl, rfl⟩ := noTerms_some.mp done
  exact .block opens starred closes

theorem declaration_dissected
    (derives : Derives (peg sugar) (.pattern (.rule "VariableDeclaration")) input
      (some (value, rest))) : Dissected sugar value input rest := by
  rw [declaration_iff, onlyAlternative_iff] at derives
  obtain ⟨inner, matched, rfl⟩ := filter_some.mp derives
  obtain ⟨values, terms, rfl⟩ := sequence_some.mp matched
  obtain ⟨kind, middle, more, chosen, others, rfl⟩ := (usedTerm_some rfl).mp terms
  obtain ⟨given, after, none, repeated, ending, rfl⟩ := (usedTerm_some rfl).mp others
  obtain ⟨item, kind, rfl, isKind, fits, rfl⟩ := tokenChoice_some chosen
  obtain ⟨rfl, ends⟩ := terminator_ends ending
  rcases repetition_some.mp repeated with
    ⟨first, between, values, begins, more, rfl⟩ | ⟨never, -⟩
  · exact .terminated (.declaration isKind fits begins more) ends
  · cases never

theorem conditional_dissected
    (derives : Derives (peg sugar) (.pattern (.rule "IfStatement")) input (some (value, rest))) :
    Dissected sugar value input rest := by
  rw [conditional_iff, onlyAlternative_iff] at derives
  obtain ⟨inner, matched, rfl⟩ := filter_some.mp derives
  obtain ⟨values, terms, rfl⟩ := sequence_some.mp matched
  obtain ⟨test, consequent, others, middle, rfl, guarded, last⟩ := guarded_dissected terms
  obtain ⟨alternate, after, none, optional, done, rfl⟩ := (usedTerm_some rfl).mp last
  obtain ⟨rfl, rfl⟩ := noTerms_some.mp done
  rcases option_some.mp optional with otherwise | ⟨lacks, rfl, rfl⟩
  · obtain ⟨given, clause, rfl⟩ := sequence_some.mp otherwise
    obtain ⟨item, later, rfl, words, statement⟩ := ignoredToken_some.mp clause
    obtain ⟨tree, after, none, again, done, rfl⟩ := (usedTerm_some rfl).mp statement
    obtain ⟨rfl, rfl⟩ := noTerms_some.mp done
    exact .conditionalElse guarded words again
  · exact .conditional guarded lacks

theorem loop_dissected
    (derives : Derives (peg sugar) (.pattern (.rule "WhileStatement")) input (some (value, rest))) :
    Dissected sugar value input rest := by
  rw [loop_iff, onlyAlternative_iff] at derives
  obtain ⟨inner, matched, rfl⟩ := filter_some.mp derives
  obtain ⟨values, terms, rfl⟩ := sequence_some.mp matched
  obtain ⟨test, body, others, middle, rfl, guarded, done⟩ := guarded_dissected terms
  obtain ⟨rfl, rfl⟩ := noTerms_some.mp done
  exact .loop guarded

theorem unless_dissected
    (derives : Derives (peg true) (.pattern (.rule "UnlessStatement")) input (some (value, rest))) :
    Dissected true value input rest := by
  rw [unless_iff, onlyAlternative_iff] at derives
  obtain ⟨inner, matched, rfl⟩ := filter_some.mp derives
  obtain ⟨values, terms, rfl⟩ := sequence_some.mp matched
  obtain ⟨test, body, others, middle, rfl, guarded, done⟩ := guarded_dissected terms
  obtain ⟨rfl, rfl⟩ := noTerms_some.mp done
  exact .inverted rfl guarded

theorem returning_dissected
    (derives : Derives (peg sugar) (.pattern (.rule "ReturnStatement")) input
      (some (value, rest))) : Dissected sugar value input rest := by
  rw [returning_iff, onlyAlternative_iff] at derives
  obtain ⟨inner, matched, rfl⟩ := filter_some.mp derives
  obtain ⟨values, terms, rfl⟩ := sequence_some.mp matched
  obtain ⟨item, middle, rfl, words, others⟩ := ignoredToken_some.mp terms
  obtain ⟨argument, after, none, optional, ending, rfl⟩ := (usedTerm_some rfl).mp others
  obtain ⟨rfl, ends⟩ := terminator_ends ending
  rcases option_some.mp optional with given | ⟨lacks, rfl, rfl⟩
  · exact .terminated (.returningValue words given) ends
  · exact .terminated (.returning words lacks) ends

theorem empty_dissected
    (derives : Derives (peg sugar) (.pattern (.rule "EmptyStatement")) input (some (value, rest))) :
    Dissected sugar value input rest := by
  rw [emptyStatement_iff, onlyAlternative_iff] at derives
  obtain ⟨inner, matched, rfl⟩ := filter_some.mp derives
  obtain ⟨-, text, matched⟩ := ignore_some.mp matched
  obtain ⟨item, rfl, fits, -⟩ := token_some.mp matched
  exact .empty fits rest

theorem expression_dissected
    (derives : Derives (peg sugar) (.pattern (.rule "ExpressionStatement")) input
      (some (value, rest))) : Dissected sugar value input rest := by
  rw [expressionStatement_iff, onlyAlternative_iff] at derives
  obtain ⟨inner, matched, rfl⟩ := filter_some.mp derives
  obtain ⟨values, terms, rfl⟩ := sequence_some.mp matched
  obtain ⟨tree, after, none, given, ending, rfl⟩ := (usedTerm_some rfl).mp terms
  obtain ⟨rfl, ends⟩ := terminator_ends ending
  exact .terminated (.expression given) ends

theorem statement_dissected
    (derives : Derives (peg sugar) (.pattern (.rule "Statement")) input (some (value, rest))) :
    Dissected sugar value input rest := by
  obtain ⟨kind, listed, derives⟩ := ruleChoice_some (statement_iff.mp derives)
  rcases List.mem_append.mp listed with listed | listed
  · simp only [kinds, List.mem_cons, List.not_mem_nil, or_false] at listed
    rcases listed with rfl | rfl | rfl | rfl | rfl | rfl | rfl
    · exact block_dissected derives
    · exact declaration_dissected derives
    · exact conditional_dissected derives
    · exact loop_dissected derives
    · exact returning_dissected derives
    · exact empty_dissected derives
    · exact expression_dissected derives
  · cases sugar with
    | false => cases listed
    | true =>
        cases List.mem_singleton.mp listed
        exact unless_dissected derives

theorem statements_some
    (derives : Derives (peg sugar) (.pattern (.star (.rule "Statement") none)) input
      (some (value, rest))) :
    (∃ first middle values, value = .list (first :: values) ∧
      Derives (peg sugar) (.pattern (.rule "Statement")) input (some (first, middle)) ∧
      Laps (peg sugar) (.rule "Statement") .empty middle values rest) ∨
      value = .list [] ∧ rest = input := by
  rcases repetition_laps rfl rfl derives with
    ⟨first, middle, values, begins, laps, rfl⟩ | ⟨-, rfl, rfl⟩
  · exact .inl ⟨first, middle, values, rfl, begins, laps⟩
  · exact .inr ⟨rfl, rfl⟩

theorem program_some
    (derives : Derives (peg sugar) (.pattern (.rule "Program")) input (some (value, rest))) :
    ∃ body, value = .node "Program" [("body", body)] ∧
      Derives (peg sugar) (.pattern (.star (.rule "Statement") none)) input (some (body, rest)) := by
  rw [program_iff, onlyAlternative_iff] at derives
  obtain ⟨body, starred, rfl⟩ := filter_some.mp derives
  exact ⟨body, rfl, starred⟩

end Parlance.Builtin
