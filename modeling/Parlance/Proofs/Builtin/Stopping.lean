import Parlance.Proofs.Builtin.Assembly
import Parlance.Proofs.Builtin.Reading
import Parlance.Proofs.Builtin.Totality

/-! Where expressions stop. An expression that was read to its end left nothing behind that it could
have gone on with: no suffix, and no operator with an operand. What stands behind a statement of an
accepted program is another statement, an `else` with a statement, a closing brace or the end of
input. Of these only a statement may begin with a token that also goes on with an expression, and such
a statement would have been read as a suffix or as an operand. -/

namespace Parlance.Builtin

open Derives Expressions Statements

variable {sugar : Bool} {input middle rest : List Item} {value : Tree} {values : List Tree}
  {result : Tree × List Item}

theorem moves_of_mayIdle {body : Pattern} (moves : body.mayIdle ["Program"] = false)
    (input : List Item) (value : Tree) :
    ¬ Derives (peg sugar) (.pattern body) input (some (value, input)) :=
  fun stays => Nat.lt_irrefl _ ((layered sugar).consumes stays rfl moves)

/-- Neither a suffix nor an operation of the first `n` levels can be read. -/
structure Ceases (sugar : Bool) (n : Nat) (rest : List Item) : Prop where
  suffix : Derives (peg sugar) (.pattern (.rule "PostfixSuffix")) rest none
  operation : ∀ m level, m < n → tiers[m]? = some level →
    Derives (peg sugar) (.pattern (operationPattern level)) rest none

theorem postfix_ceases
    (derives : Derives (peg sugar) (.pattern (.rule "PostfixExpression")) input
      (some (value, rest))) :
    Ceases sugar 0 rest := by
  obtain ⟨primary, suffixes, middle, -, starred, -⟩ := postfix_some derives
  exact ⟨star_stops (moves_of_mayIdle rfl) starred, fun _ _ none => absurd none (Nat.not_lt_zero _)⟩

theorem unary_ceases
    (derives : Derives (peg sugar) (.pattern (.rule "UnaryExpression")) input
      (some (value, rest))) :
    Ceases sugar 0 rest := by
  induction length : input.length using Nat.strong_induction_on generalizing input value with
  | _ size ih =>
      rcases unary_some derives with ⟨item, behind, operator, argument, rfl, -, -, operand, -⟩ | derives
      · exact ih behind.length (length ▸ Nat.lt_succ_self _) operand rfl
      · exact postfix_ceases derives

theorem operations_cease {n : Nat} {level : BinaryLevel} (here : tiers[n]? = some level)
    (operands : ∀ {input value rest},
      Derives (peg sugar) (.pattern (.rule (tierRule n))) input (some (value, rest)) →
      Ceases sugar n rest)
    (laps : Laps (peg sugar) (operationPattern level) .empty input values rest)
    (ceases : Ceases sugar n input) : Ceases sugar n rest := by
  induction laps with
  | done => exact ceases
  | lap parted again moved _ ih =>
      obtain ⟨item, behind, operator, right, -, -, -, operand, -⟩ := operation_some here again
      exact ih (operands operand)

theorem tier_ceases {n : Nat} (within : n ≤ 6)
    (derives : Derives (peg sugar) (.pattern (.rule (tierRule n))) input (some (value, rest))) :
    Ceases sugar n rest := by
  induction n generalizing input value rest with
  | zero => exact unary_ceases derives
  | succ n ih =>
      obtain ⟨level, here⟩ := tiers_at within
      obtain ⟨left, pairs, middle, first, starred, -⟩ := tier_some here derives
      have operands {input value rest}
          (derives : Derives (peg sugar) (.pattern (.rule (tierRule n))) input
            (some (value, rest))) : Ceases sugar n rest := ih (by omega) derives
      have all : ∀ level ∈ tiers, (operationPattern level).mayIdle ["Program"] = false := by decide
      have moves := @moves_of_mayIdle sugar _ (all level (List.mem_of_getElem? here))
      obtain ⟨values, rfl, laps⟩ := star_laps (operation_used level) moves starred
      have below := operations_cease here operands laps (operands first)
      have stops := star_stops moves starred
      refine ⟨below.suffix, fun m other less foundToo => ?_⟩
      rcases Nat.lt_succ_iff_lt_or_eq.mp less with less | rfl
      · exact below.operation m other less foundToo
      · cases here.symm.trans foundToo
        exact stops

theorem assignment_ceases
    (derives : Derives (peg sugar) (.pattern (.rule "AssignmentExpression")) input
      (some (value, rest))) : Ceases sugar 6 rest := by
  induction length : input.length using Nat.strong_induction_on generalizing input value with
  | _ size ih =>
      rcases assignment_some derives with
        ⟨target, item, behind, operator, source, first, -, -, again, -⟩ | derives
      · have shorter := (layered sugar).length_le first
        exact ih behind.length (length ▸ shorter) again rfl
      · exact tier_ceases (Nat.le_refl 6) derives

theorem unprefixed_matched
    (derives : Derives (peg sugar) (.pattern (.rule "PostfixExpression")) input (some result)) :
    Derives (peg sugar) (.pattern (.rule "UnaryExpression")) input (some result) := by
  have lacks : Lacks (peg sugar) prefixOperators input :=
    lacks_of_matched postfix_fails derives (by decide)
  rw [unary_iff]
  exact .nextAlternative (.noFilter (.noSequence (.termFails (tokenChoice_none lacks))))
    (.decided derives)

theorem tier_begins {n : Nat} (within : n ≤ 6)
    (derives : Derives (peg sugar) (.pattern (.rule (tierRule n))) input (some result)) :
    ∃ first, Derives (peg sugar) (.pattern (.rule "UnaryExpression")) input (some first) := by
  induction n generalizing result with
  | zero => exact ⟨result, derives⟩
  | succ n ih =>
      obtain ⟨value, rest⟩ := result
      obtain ⟨level, here⟩ := tiers_at within
      obtain ⟨left, pairs, middle, first, -⟩ := tier_some here derives
      exact ih (by omega) first

theorem assignment_begins
    (derives : Derives (peg sugar) (.pattern (.rule "AssignmentExpression")) input (some result)) :
    ∃ first, Derives (peg sugar) (.pattern (.rule "UnaryExpression")) input (some first) := by
  obtain ⟨value, rest⟩ := result
  rcases assignment_some derives with ⟨target, item, behind, operator, source, first, -⟩ | derives
  · exact ⟨_, unprefixed_matched first⟩
  · exact tier_begins (Nat.le_refl 6) derives

theorem primary_of_parenthesis {item : Item} (opens : item.token.kind? = some "(")
    (derives : Derives (peg sugar) (.pattern (.rule "UnaryExpression")) (item :: middle)
      (some result)) :
    ∃ first, Derives (peg sugar) (.pattern (.rule "PrimaryExpression")) (item :: middle)
      (some first) := by
  obtain ⟨value, rest⟩ := result
  rcases unary_some derives with
    ⟨other, behind, operator, argument, same, isPrefix, fits, -⟩ | derives
  · cases same
    cases opens.symm.trans fits
    exact absurd isPrefix (by decide)
  · obtain ⟨primary, suffixes, between, first, -⟩ := postfix_some derives
    exact ⟨_, first⟩

theorem parenthesized_some {item : Item} (opens : item.token.kind? = some "(")
    (derives : Derives (peg sugar) (.pattern (.rule "PrimaryExpression")) (item :: middle)
      (some result)) :
    ∃ tree last behind, last.token.kind? = some ")" ∧
      Derives (peg sugar) (.pattern (.rule "AssignmentExpression")) middle
        (some (tree, last :: behind)) := by
  have word : Lacks (peg sugar) (primaryStarts.erase "(") (item :: middle) :=
    lacks_of_kind opens (by decide)
  rw [primary_iff] at derives
  have derives := otherAlternatives_some (.noFilter (token_none (word.mono (by decide)))) derives
  have derives := otherAlternatives_some (.noFilter (token_none (word.mono (by decide)))) derives
  have derives := otherAlternatives_some (.noFilter (tokenChoice_none (word.mono (by decide))))
    derives
  have derives := otherAlternatives_some (.noFilter (.noIgnore (token_none (word.mono (by decide)))))
    derives
  have derives := otherAlternatives_some (identifier_fails (word.mono (by decide))) derives
  obtain ⟨inner, matched, -⟩ := filter_some.mp (onlyAlternative_iff.mp derives)
  obtain ⟨values, terms, -⟩ := sequence_some.mp matched
  obtain ⟨first, inside, same, -, terms⟩ := ignoredToken_some.mp terms
  cases same
  obtain ⟨tree, after, more, inner, ending, -⟩ := (usedTerm_some rfl).mp terms
  obtain ⟨last, behind, rfl, closes, -⟩ := ignoredToken_some.mp ending
  exact ⟨tree, last, behind, closes, expression_some inner⟩

theorem suffix_of_parenthesis {item : Item} (opens : item.token.kind? = some "(")
    (derives : Derives (peg sugar) (.pattern (.rule "AssignmentExpression")) (item :: middle)
      (some result)) :
    ∃ suffix, Derives (peg sugar) (.pattern (.rule "PostfixSuffix")) (item :: middle)
      (some suffix) := by
  obtain ⟨unary, begins⟩ := assignment_begins derives
  obtain ⟨primary, begins⟩ := primary_of_parenthesis opens begins
  obtain ⟨tree, last, behind, closes, argument⟩ := parenthesized_some opens begins
  have comma : Lacks (peg sugar) [","] (last :: behind) := lacks_of_kind closes (by decide)
  have starred : Derives (peg sugar)
      (.pattern (.star (.rule "AssignmentExpression") (some (.ignoredToken ",")))) middle
      (some (.list [tree], last :: behind)) :=
    .repetition argument (.lastSeparator (.noIgnore (token_none comma)))
  refine ⟨(call (.list [tree]), behind), ?_⟩
  rw [suffix_iff]
  refine .decided (filter_some.mpr ⟨_, sequence_some.mpr ⟨[.list [tree]], ?_, rfl⟩, rfl⟩)
  exact ignoredToken_some.mpr ⟨_, _, rfl, opens, (usedTerm_some rfl).mpr ⟨_, _, _, starred,
    ignoredToken_some.mpr ⟨_, _, rfl, closes, .noTerms⟩, rfl⟩⟩

theorem tier_of_operand {n : Nat} {level : BinaryLevel} (here : tiers[n]? = some level)
    (derives : Derives (peg sugar) (.pattern (.rule (tierRule n))) input (some result)) :
    ∃ first, Derives (peg sugar) (.pattern (.rule (tierRule (n + 1)))) input (some first) := by
  obtain ⟨left, middle⟩ := result
  have authored : ∀ level ∈ tiers, level.operand ∈ Index.names (authored sugar) := by
    cases sugar <;> decide
  have known : Peg.Layered.Known (peg sugar) (.star (operationPattern level) none) := by
    intro called member
    have only : ∀ level ∈ tiers, ∀ called ∈ (Pattern.star (operationPattern level) none).ruleNames,
        called = level.operand := by decide
    rw [only level (List.mem_of_getElem? here) called member]
    exact isSome_of_authored (authored level (List.mem_of_getElem? here))
  obtain ⟨_ | ⟨pairs, rest⟩, starred⟩ := (layered sugar).ends known middle
  · cases starred
  · rw [tierRule_succ here]
    rw [← operand_eq here] at derives
    refine ⟨(_, rest), (tier_iff here).mpr (.decided
      (filter_some.mpr ⟨_, sequence_some.mpr ⟨[left, pairs], ?_, rfl⟩, rfl⟩))⟩
    exact (usedTerm_some rfl).mpr ⟨_, _, _, derives,
      (usedTerm_some rfl).mpr ⟨_, _, _, starred, .noTerms, rfl⟩, rfl⟩

theorem operand_of_minus {item : Item} (fits : item.token.kind? = some "-")
    (derives : Derives (peg sugar) (.pattern (.rule "UnaryExpression")) (item :: middle)
      (some result)) :
    ∃ operand, Derives (peg sugar) (.pattern (.rule "UnaryExpression")) middle (some operand) := by
  obtain ⟨value, rest⟩ := result
  rcases unary_some derives with ⟨other, behind, operator, argument, same, -, -, operand, -⟩ | derives
  · cases same
    exact ⟨_, operand⟩
  · have none : Lacks (peg sugar) primaryStarts (item :: middle) := lacks_of_kind fits (by decide)
    cases (postfix_fails none).unique derives

theorem operation_of_minus {item : Item} (fits : item.token.kind? = some "-")
    (derives : Derives (peg sugar) (.pattern (.rule "AssignmentExpression")) (item :: middle)
      (some result)) {level : BinaryLevel} (here : tiers[1]? = some level) :
    ∃ operation, Derives (peg sugar) (.pattern (operationPattern level)) (item :: middle)
      (some operation) := by
  obtain ⟨unary, begins⟩ := assignment_begins derives
  obtain ⟨operand, begins⟩ := operand_of_minus fits begins
  have lowest : tiers[0]? = some ⟨6, "MultiplicativeExpression", "UnaryExpression", ["*", "/", "%"],
    "BinaryExpression"⟩ := rfl
  obtain ⟨⟨right, rest⟩, begins⟩ := tier_of_operand lowest begins
  have isOperator : "-" ∈ level.operators := by
    cases here
    decide
  rw [← operand_eq here] at begins
  refine ⟨(_, rest), sequence_some.mpr ⟨[.text item.token.text, right], ?_, rfl⟩⟩
  exact (usedTerm_some (operators_used here)).mpr ⟨_, _, _, tokenChoice isOperator fits _,
    (usedTerm_some rfl).mpr ⟨_, _, _, begins, .noTerms, rfl⟩, rfl⟩

/-- Nothing is left, or what is left begins with a closing brace, with an `else` and a statement, or
with a statement. -/
inductive Meets (sugar : Bool) : List Item → Prop where
  | nothing : Meets sugar []
  | brace {item : Item} (closes : item.token.kind? = some "\x7d") (rest : List Item) :
      Meets sugar (item :: rest)
  | clause {item : Item} {later : List Item} {result : Tree × List Item}
      (words : item.token.kind? = some "else")
      (otherwise : Derives (peg sugar) (.pattern (.rule "Statement")) later (some result)) :
      Meets sugar (item :: later)
  | statement {input : List Item} {result : Tree × List Item}
      (follows : Derives (peg sugar) (.pattern (.rule "Statement")) input (some result)) :
      Meets sugar input

def meetingStarts : List String := ["\x7d", "else"] ++ statementStarts

theorem Meets.lacks {kinds : List String} (meets : Meets sugar input)
    (apart : ∀ kind ∈ kinds, kind ∉ meetingStarts) : Lacks (peg sugar) kinds input := by
  cases meets with
  | nothing => exact lacks_nil _ _
  | brace closes => exact lacks_of_kind closes fun member => apart _ member (by decide)
  | clause words => exact lacks_of_kind words fun member => apart _ member (by decide)
  | statement follows =>
      exact lacks_of_matched statement_fails follows fun kind member starts =>
        apart kind member (List.mem_append_right _ starts)

theorem expression_of_statement {item : Item} {kind : String} (fits : item.token.kind? = some kind)
    (starts : kind ∈ expressionStarts)
    (follows : Derives (peg sugar) (.pattern (.rule "Statement")) (item :: rest) (some result)) :
    ∃ first, Derives (peg sugar) (.pattern (.rule "AssignmentExpression")) (item :: rest)
      (some first) := by
  obtain ⟨value, left⟩ := result
  have apart : ∀ other ∈ statementKinds true, other ≠ "ExpressionStatement" →
      ∀ word ∈ expressionStarts, word ∉ kindStarts other := by decide
  obtain ⟨rule, listed, derives⟩ := ruleChoice_some (statement_iff.mp follows)
  by_cases same : rule = "ExpressionStatement"
  · subst same
    rw [expressionStatement_iff, onlyAlternative_iff] at derives
    obtain ⟨inner, matched, -⟩ := filter_some.mp derives
    obtain ⟨values, terms, -⟩ := sequence_some.mp matched
    obtain ⟨tree, after, more, given, -⟩ := (usedTerm_some rfl).mp terms
    exact ⟨_, expression_some given⟩
  · have lacks : Lacks (peg sugar) (kindStarts rule) (item :: rest) :=
      lacks_of_kind fits (apart rule (statementKinds_subset listed) same kind starts)
    have none := kind_fails listed lacks
    cases none.unique derives

theorem Meets.expression {item : Item} {kind : String} (meets : Meets sugar (item :: rest))
    (fits : item.token.kind? = some kind) (starts : kind ∈ expressionStarts) :
    ∃ first, Derives (peg sugar) (.pattern (.rule "AssignmentExpression")) (item :: rest)
      (some first) := by
  have apart : ∀ word ∈ ["\x7d", "else"], word ∉ expressionStarts := by decide
  cases meets with
  | brace closes =>
      cases fits.symm.trans closes
      exact absurd starts (apart _ (by decide))
  | clause words =>
      cases fits.symm.trans words
      exact absurd starts (apart _ (by decide))
  | statement follows => exact expression_of_statement fits starts follows

theorem Meets.lacks_expression (meets : Meets sugar rest)
    (fails : Derives (peg sugar) (.pattern (.rule "Expression")) rest none) :
    Lacks (peg sugar) expressionStarts rest := by
  intro item here kind starts fits
  obtain ⟨later, rfl⟩ := List.head?_eq_some_iff.mp here
  obtain ⟨⟨value, left⟩, begins⟩ := meets.expression fits starts
  rw [← onlyAlternative_iff, ← expression_iff] at begins
  cases fails.unique begins

/-- Behind an expression that was read to its end nothing goes on with it. -/
theorem Meets.lacks_goesOn (meets : Meets sugar rest)
    (derives : Derives (peg sugar) (.pattern (.rule "AssignmentExpression")) input
      (some (value, rest))) : Lacks (peg sugar) goesOnAny rest := by
  intro item here kind member fits
  obtain ⟨later, rfl⟩ := List.head?_eq_some_iff.mp here
  have ceases := assignment_ceases derives
  have shared : ∀ kind ∈ goesOnAny, kind = "(" ∨ kind = "-" ∨ kind ∉ meetingStarts := by decide
  rcases shared kind member with rfl | rfl | apart
  · obtain ⟨first, begins⟩ := meets.expression fits (by decide)
    obtain ⟨suffix, matched⟩ := suffix_of_parenthesis fits begins
    cases ceases.suffix.unique matched
  · obtain ⟨first, begins⟩ := meets.expression fits (by decide)
    obtain ⟨level, second⟩ := @tiers_at 1 (by decide)
    obtain ⟨operation, matched⟩ := operation_of_minus fits begins second
    cases (ceases.operation 1 level (by decide) second).unique matched
  · exact meets.lacks (by simpa using apart) item here kind (List.mem_singleton_self kind) fits

end Parlance.Builtin
