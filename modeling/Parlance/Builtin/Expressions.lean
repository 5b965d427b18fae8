import Parlance.Grammar.Rule
import Parlance.Builtin.Folds

/-! The rules for expressions, loosest first: assignment to the right, six levels of binary
operators that fold to the left, prefix operators, suffixes, and primaries. -/

namespace Parlance.Builtin.Expressions

def fragmentName : String := "expressions"

/-- A level of binary operators: the identity of its handler, its rule, the rule of its operands,
and the node type it makes. -/
structure BinaryLevel where
  identity : Nat
  rule : String
  operand : String
  operators : List String
  typeName : String

def binaryLevels : List BinaryLevel := [
  ⟨1, "LogicalOrExpression", "LogicalAndExpression", ["||"], "LogicalExpression"⟩,
  ⟨2, "LogicalAndExpression", "EqualityExpression", ["&&"], "LogicalExpression"⟩,
  ⟨3, "EqualityExpression", "RelationalExpression", ["==", "!=", "===", "!=="], "BinaryExpression"⟩,
  ⟨4, "RelationalExpression", "AdditiveExpression", ["<", ">", "<=", ">="], "BinaryExpression"⟩,
  ⟨5, "AdditiveExpression", "MultiplicativeExpression", ["+", "-"], "BinaryExpression"⟩,
  ⟨6, "MultiplicativeExpression", "UnaryExpression", ["*", "/", "%"], "BinaryExpression"⟩]

def handler (identity : Nat) (run : List Tree → Tree) : RuleEdit :=
  .setAction (.handle ⟨identity, run⟩)

def constructor (typeName : String) (fields : List String) : RuleEdit :=
  .setAction (.construct ⟨typeName, fields⟩)

def BinaryLevel.edits (level : BinaryLevel) : String × List RuleEdit :=
  (level.rule, [
    .add (.sequence [
      .rule level.operand,
      .star (.sequence [.choice (level.operators.map .punctuator), .rule level.operand]) none]),
    handler level.identity (foldBinary level.typeName)])

def assignment : String × List RuleEdit :=
  ("AssignmentExpression", [
    .add (.sequence [
      .rule "PostfixExpression",
      .choice (["=", "+=", "-="].map .punctuator),
      .rule "AssignmentExpression"]),
    constructor "AssignmentExpression" ["left", "operator", "right"],
    .add (.rule "LogicalOrExpression")])

def unary : String × List RuleEdit :=
  ("UnaryExpression", [
    .add (.sequence [.choice [.punctuator "!", .punctuator "-"], .rule "UnaryExpression"]),
    constructor "UnaryExpression" ["operator", "argument"],
    .add (.rule "PostfixExpression")])

def postfixChain : String × List RuleEdit :=
  ("PostfixExpression", [
    .add (.sequence [.rule "PrimaryExpression", .star (.rule "PostfixSuffix") none]),
    handler 7 foldPostfix])

def suffix : String × List RuleEdit :=
  ("PostfixSuffix", [
    .add (.sequence [
      .ignoredToken "(",
      .star (.rule "AssignmentExpression") (some (.ignoredToken ",")),
      .ignoredToken ")"]),
    handler 8 fun arguments => call (firstOf arguments),
    .add (.sequence [.ignoredToken ".", .rule "Identifier"]),
    handler 9 fun arguments => member false (firstOf arguments),
    .add (.sequence [.ignoredToken "[", .rule "Expression", .ignoredToken "]"]),
    handler 10 fun arguments => member true (firstOf arguments)])

def primary : String × List RuleEdit :=
  ("PrimaryExpression", [
    .add (.tokenClass "NumericLiteral"),
    handler 11 fun arguments => numericLiteral (firstOf arguments),
    .add (.tokenClass "StringLiteral"),
    constructor "StringLiteral" ["raw"],
    .add (.choice [.keywordValue "true", .keywordValue "false"]),
    handler 12 fun arguments => booleanLiteral (firstOf arguments),
    .add (.keyword "null"),
    constructor "NullLiteral" [],
    .add (.rule "Identifier"),
    .add (.sequence [.ignoredToken "(", .rule "Expression", .ignoredToken ")"]),
    constructor "ParenthesizedExpression" ["expression"]])

def rules : RuleSet :=
  RuleSet.ofEdits (
    ("Expression", [.add (.rule "AssignmentExpression")]) :: assignment ::
      binaryLevels.map BinaryLevel.edits ++
      [unary, postfixChain, suffix, primary,
        ("Identifier",
          [.add (.tokenClass "Identifier"), constructor "Identifier" ["name"]])])

end Parlance.Builtin.Expressions
