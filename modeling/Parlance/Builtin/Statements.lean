import Parlance.Builtin.Expressions
import Parlance.Builtin.Terminator

/-! The rules for statements and programs. `Statement` is open: other fragments add alternatives,
which are tried after these. -/

namespace Parlance.Builtin.Statements

open Expressions (constructor)

def fragmentName : String := "statements"

def kinds : List String := [
  "BlockStatement", "VariableDeclaration", "IfStatement", "WhileStatement", "ReturnStatement",
  "EmptyStatement", "ExpressionStatement"]

def program : String × List RuleEdit :=
  ("Program", [.add (.star (.rule "Statement") none), constructor "Program" ["body"]])

def statement : String × List RuleEdit :=
  ("Statement", kinds.map fun kind => .add (.rule kind))

def block : String × List RuleEdit :=
  ("BlockStatement", [
    .add (.sequence [.ignoredToken "\x7b", .star (.rule "Statement") none, .ignoredToken "\x7d"]),
    constructor "BlockStatement" ["body"]])

def declaration : String × List RuleEdit :=
  ("VariableDeclaration", [
    .add (.sequence [
      .choice (["var", "let", "const"].map .keywordValue),
      .plus (.rule "VariableDeclarator") (some (.ignoredToken ",")),
      Terminator.pattern 1]),
    constructor "VariableDeclaration" ["kind", "declarations"]])

def declarator : String × List RuleEdit :=
  ("VariableDeclarator", [
    .add (.sequence [
      .rule "Identifier",
      .option 13 (.sequence [.ignoredToken "=", .rule "AssignmentExpression"])]),
    constructor "VariableDeclarator" ["id", "init"]])

def guarded (word : String) : List Pattern :=
  [.keyword word, .ignoredToken "(", .rule "Expression", .ignoredToken ")", .rule "Statement"]

def conditional : String × List RuleEdit :=
  ("IfStatement", [
    .add (.sequence (guarded "if" ++
      [.option 14 (.sequence [.keyword "else", .rule "Statement"])])),
    constructor "IfStatement" ["test", "consequent", "alternate"]])

def loop : String × List RuleEdit :=
  ("WhileStatement",
    [.add (.sequence (guarded "while")), constructor "WhileStatement" ["test", "body"]])

def returning : String × List RuleEdit :=
  ("ReturnStatement", [
    .add (.sequence [
      .keyword "return", .option 15 (.rule "Expression"), Terminator.pattern 2]),
    constructor "ReturnStatement" ["argument"]])

def rules : RuleSet :=
  RuleSet.ofEdits [
    program, statement, block, declaration, declarator, conditional, loop, returning,
    ("EmptyStatement", [.add (.ignoredToken ";"), constructor "EmptyStatement" []]),
    ("ExpressionStatement", [
      .add (.sequence [.rule "Expression", Terminator.pattern 3]),
      constructor "ExpressionStatement" ["expression"]])]

end Parlance.Builtin.Statements
