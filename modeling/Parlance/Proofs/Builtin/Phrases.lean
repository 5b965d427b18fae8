import Mathlib.Tactic.IntervalCases
import Parlance.Proofs.Builtin.Rules
import Parlance.Proofs.Peg.Inversion

/-! Each rule of the built-in dialects as the alternatives that it stands for. -/

namespace Parlance.Builtin

open Expressions Statements

section Expressions

variable {α : Type} {grammar : Peg α} [Expresses grammar] {input : List α}
  {result : Option (Tree × List α)}

/-- A rule for expressions stands for its authored productions; `n` is its place among them. -/
theorem expressionRule_iff (n : Nat) {name : String} {edits : List RuleEdit}
    {alternatives : List Pattern} (authored : expressionEdits[n]? = some (name, edits))
    (same : (RuleSet.editing edits []).map Production.expression = alternatives) :
    Derives grammar (.pattern (.rule name)) input result ↔
      Derives grammar (.alternatives alternatives) input result := by
  rw [← same]
  exact Derives.rule_iff (Expresses.found (List.mem_of_getElem? authored))

theorem expression_iff :
    Derives grammar (.pattern (.rule "Expression")) input result ↔
      Derives grammar (.alternatives [.rule "AssignmentExpression"]) input result :=
  expressionRule_iff 0 rfl rfl

def assignmentOperators : List String := ["=", "+=", "-="]

theorem assignment_iff :
    Derives grammar (.pattern (.rule "AssignmentExpression")) input result ↔
      Derives grammar (.alternatives [
        .filter (.sequence [.rule "PostfixExpression",
            .choice (assignmentOperators.map .punctuator), .rule "AssignmentExpression"])
          (.construct ⟨"AssignmentExpression", ["left", "operator", "right"]⟩) none,
        .rule "LogicalOrExpression"]) input result :=
  expressionRule_iff 1 rfl rfl

def tiers : List BinaryLevel := binaryLevels.reverse

/-- The rule whose expressions have operators of the first `n` levels. -/
def tierRule : Nat → String
  | 0 => "UnaryExpression"
  | n + 1 => (tiers[n]?.map BinaryLevel.rule).getD ""

theorem tiers_at {n : Nat} (within : n < 6) : ∃ level, tiers[n]? = some level :=
  ⟨_, List.getElem?_eq_getElem (show n < tiers.length from within)⟩

theorem tierRule_succ {n : Nat} {level : BinaryLevel} (here : tiers[n]? = some level) :
    tierRule (n + 1) = level.rule := by
  rw [tierRule, here]
  rfl

theorem operand_eq {n : Nat} {level : BinaryLevel} (here : tiers[n]? = some level) :
    level.operand = tierRule n := by
  have bound : n < 6 := (List.getElem?_eq_some_iff.mp here).1
  interval_cases n <;> cases here <;> rfl

theorem operators_used {n : Nat} {level : BinaryLevel} (here : tiers[n]? = some level) :
    (Pattern.choice (level.operators.map .punctuator)).usesValue = true := by
  have all : ∀ level ∈ tiers,
      (Pattern.choice (level.operators.map .punctuator)).usesValue = true := by decide
  exact all level (List.mem_of_getElem? here)

def operationPattern (level : BinaryLevel) : Pattern :=
  .sequence [.choice (level.operators.map .punctuator), .rule level.operand]

theorem operation_used (level : BinaryLevel) : (operationPattern level).usesValue = true := by
  simp [operationPattern, Pattern.usesValue, Pattern.usesValue.anyUsesValue]

theorem tier_iff {n : Nat} {level : BinaryLevel} (here : tiers[n]? = some level) :
    Derives grammar (.pattern (.rule level.rule)) input result ↔
      Derives grammar (.alternatives [
        .filter (.sequence [.rule level.operand,
            .star (operationPattern level) none])
          (.handle ⟨level.identity, foldBinary level.typeName⟩) none]) input result := by
  have bound : n < 6 := (List.getElem?_eq_some_iff.mp here).1
  interval_cases n <;> cases here
  · exact expressionRule_iff 7 rfl rfl
  · exact expressionRule_iff 6 rfl rfl
  · exact expressionRule_iff 5 rfl rfl
  · exact expressionRule_iff 4 rfl rfl
  · exact expressionRule_iff 3 rfl rfl
  · exact expressionRule_iff 2 rfl rfl

def prefixOperators : List String := ["!", "-"]

theorem unary_iff :
    Derives grammar (.pattern (.rule "UnaryExpression")) input result ↔
      Derives grammar (.alternatives [
        .filter (.sequence [.choice (prefixOperators.map .punctuator), .rule "UnaryExpression"])
          (.construct ⟨"UnaryExpression", ["operator", "argument"]⟩) none,
        .rule "PostfixExpression"]) input result :=
  expressionRule_iff 8 rfl rfl

theorem postfix_iff :
    Derives grammar (.pattern (.rule "PostfixExpression")) input result ↔
      Derives grammar (.alternatives [
        .filter (.sequence [.rule "PrimaryExpression", .star (.rule "PostfixSuffix") none])
          (.handle ⟨7, foldPostfix⟩) none]) input result :=
  expressionRule_iff 9 rfl rfl

theorem suffix_iff :
    Derives grammar (.pattern (.rule "PostfixSuffix")) input result ↔
      Derives grammar (.alternatives [
        .filter (.sequence [.ignoredToken "(",
            .star (.rule "AssignmentExpression") (some (.ignoredToken ",")), .ignoredToken ")"])
          (.handle ⟨8, fun arguments => call (firstOf arguments)⟩) none,
        .filter (.sequence [.ignoredToken ".", .rule "Identifier"])
          (.handle ⟨9, fun arguments => member false (firstOf arguments)⟩) none,
        .filter (.sequence [.ignoredToken "[", .rule "Expression", .ignoredToken "]"])
          (.handle ⟨10, fun arguments => member true (firstOf arguments)⟩) none]) input result :=
  expressionRule_iff 10 rfl rfl

theorem primary_iff :
    Derives grammar (.pattern (.rule "PrimaryExpression")) input result ↔
      Derives grammar (.alternatives [
        .filter (.tokenClass "NumericLiteral")
          (.handle ⟨11, fun arguments => numericLiteral (firstOf arguments)⟩) none,
        .filter (.tokenClass "StringLiteral") (.construct ⟨"StringLiteral", ["raw"]⟩) none,
        .filter (.choice (["true", "false"].map .keywordValue))
          (.handle ⟨12, fun arguments => booleanLiteral (firstOf arguments)⟩) none,
        .filter (.keyword "null") (.construct ⟨"NullLiteral", []⟩) none,
        .rule "Identifier",
        .filter (.sequence [.ignoredToken "(", .rule "Expression", .ignoredToken ")"])
          (.construct ⟨"ParenthesizedExpression", ["expression"]⟩) none]) input result :=
  expressionRule_iff 11 rfl rfl

theorem identifier_iff :
    Derives grammar (.pattern (.rule "Identifier")) input result ↔
      Derives grammar (.alternatives [
        .filter (.tokenClass "Identifier") (.construct ⟨"Identifier", ["name"]⟩) none])
        input result :=
  expressionRule_iff 12 rfl rfl

end Expressions

variable {sugar : Bool} {input : List Item} {result : Option (Tree × List Item)}

theorem statementRule_iff (n : Nat) {name : String} {edits : List RuleEdit}
    {alternatives : List Pattern}
    (authored : statementEdits[n]? = some (name, edits))
    (common : name ∉ Index.names unlessEdits)
    (same : (RuleSet.editing edits []).map Production.expression = alternatives) :
    Derives (peg sugar) (.pattern (.rule name)) input result ↔
      Derives (peg sugar) (.alternatives alternatives) input result := by
  have found := get?_rules sugar (List.mem_append_right _ (List.mem_of_getElem? authored)) common
  rw [← same]
  exact Derives.rule_iff found

theorem program_iff :
    Derives (peg sugar) (.pattern (.rule "Program")) input result ↔
      Derives (peg sugar) (.alternatives [
        .filter (.star (.rule "Statement") none) (.construct ⟨"Program", ["body"]⟩) none])
        input result :=
  statementRule_iff 0 rfl (by decide) rfl

theorem statement_iff :
    Derives (peg sugar) (.pattern (.rule "Statement")) input result ↔
      Derives (peg sugar) (.alternatives ((statementKinds sugar).map .rule)) input result := by
  rw [Derives.rule_iff (get?_statement sugar), List.map_map]
  rfl

theorem block_iff :
    Derives (peg sugar) (.pattern (.rule "BlockStatement")) input result ↔
      Derives (peg sugar) (.alternatives [
        .filter (.sequence [.ignoredToken "\x7b", .star (.rule "Statement") none,
            .ignoredToken "\x7d"])
          (.construct ⟨"BlockStatement", ["body"]⟩) none]) input result :=
  statementRule_iff 2 rfl (by decide) rfl

def declarationKinds : List String := ["var", "let", "const"]

theorem declaration_iff :
    Derives (peg sugar) (.pattern (.rule "VariableDeclaration")) input result ↔
      Derives (peg sugar) (.alternatives [
        .filter (.sequence [.choice (declarationKinds.map .keywordValue),
            .plus (.rule "VariableDeclarator") (some (.ignoredToken ",")), Terminator.pattern 1])
          (.construct ⟨"VariableDeclaration", ["kind", "declarations"]⟩) none]) input result :=
  statementRule_iff 3 rfl (by decide) rfl

theorem declarator_iff :
    Derives (peg sugar) (.pattern (.rule "VariableDeclarator")) input result ↔
      Derives (peg sugar) (.alternatives [
        .filter (.sequence [.rule "Identifier",
            .option 13 (.sequence [.ignoredToken "=", .rule "AssignmentExpression"])])
          (.construct ⟨"VariableDeclarator", ["id", "init"]⟩) none]) input result :=
  statementRule_iff 4 rfl (by decide) rfl

def elseClause : Pattern := .sequence [.keyword "else", .rule "Statement"]

theorem conditional_iff :
    Derives (peg sugar) (.pattern (.rule "IfStatement")) input result ↔
      Derives (peg sugar) (.alternatives [
        .filter (.sequence (guarded "if" ++ [.option 14 elseClause]))
          (.construct ⟨"IfStatement", ["test", "consequent", "alternate"]⟩) none]) input result :=
  statementRule_iff 5 rfl (by decide) rfl

theorem loop_iff :
    Derives (peg sugar) (.pattern (.rule "WhileStatement")) input result ↔
      Derives (peg sugar) (.alternatives [
        .filter (.sequence (guarded "while"))
          (.construct ⟨"WhileStatement", ["test", "body"]⟩) none]) input result :=
  statementRule_iff 6 rfl (by decide) rfl

theorem returning_iff :
    Derives (peg sugar) (.pattern (.rule "ReturnStatement")) input result ↔
      Derives (peg sugar) (.alternatives [
        .filter (.sequence [.keyword "return", .option 15 (.rule "Expression"),
            Terminator.pattern 2])
          (.construct ⟨"ReturnStatement", ["argument"]⟩) none]) input result :=
  statementRule_iff 7 rfl (by decide) rfl

theorem emptyStatement_iff :
    Derives (peg sugar) (.pattern (.rule "EmptyStatement")) input result ↔
      Derives (peg sugar) (.alternatives [
        .filter (.ignoredToken ";") (.construct ⟨"EmptyStatement", []⟩) none]) input result :=
  statementRule_iff 8 rfl (by decide) rfl

theorem expressionStatement_iff :
    Derives (peg sugar) (.pattern (.rule "ExpressionStatement")) input result ↔
      Derives (peg sugar) (.alternatives [
        .filter (.sequence [.rule "Expression", Terminator.pattern 3])
          (.construct ⟨"ExpressionStatement", ["expression"]⟩) none]) input result :=
  statementRule_iff 9 rfl (by decide) rfl

theorem unless_iff :
    Derives (peg true) (.pattern (.rule "UnlessStatement")) input result ↔
      Derives (peg true) (.alternatives [
        .filter (.sequence (guarded "unless"))
          (.construct ⟨"UnlessStatement", ["test", "body"]⟩) none]) input result :=
  @Derives.rule_iff _ (peg true) _ _ _ _ get?_unless

end Parlance.Builtin
