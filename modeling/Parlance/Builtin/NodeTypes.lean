import Parlance.Node.Types

/-! How the nodes of expressions and statements are written. -/

namespace Parlance.Builtin

def plainType (name : String) (layout : List Instruction) : NodeType := ⟨name, layout, none⟩

def operatorLayout : List Instruction :=
  [.field "left", .write " ", .text "operator", .write " ", .field "right"]

def expressionTypes : NodeTypes := .ofList [
  plainType "NumericLiteral" [.text "raw"],
  plainType "StringLiteral" [.text "raw"],
  plainType "BooleanLiteral" [.field "value"],
  plainType "NullLiteral" [.write "null"],
  plainType "Identifier" [.text "name"],
  plainType "ParenthesizedExpression" [.write "(", .field "expression", .write ")"],
  plainType "CallExpression" [.field "callee", .write "(", .items "arguments" ", ", .write ")"],
  plainType "MemberExpression" [
    .field "object",
    .ifTrue "computed" [.write "[", .field "property", .write "]"]
      [.write ".", .field "property"]],
  plainType "UnaryExpression" [.text "operator", .field "argument"],
  plainType "BinaryExpression" operatorLayout,
  plainType "LogicalExpression" operatorLayout,
  plainType "AssignmentExpression" operatorLayout]

def statementTypes : NodeTypes := .ofList [
  plainType "Program" [.lines "body"],
  plainType "BlockStatement" [.block "body"],
  plainType "VariableDeclaration"
    [.text "kind", .write " ", .items "declarations" ", ", .write ";"],
  plainType "VariableDeclarator"
    [.field "id", .unlessNull "init" [.write " = ", .field "init"]],
  plainType "IfStatement" [
    .write "if (", .field "test", .write ") ", .field "consequent",
    .unlessNull "alternate" [.write " else ", .field "alternate"]],
  plainType "WhileStatement" [.write "while (", .field "test", .write ") ", .field "body"],
  plainType "ReturnStatement" [
    .write "return", .unlessNull "argument" [.write " ", .field "argument"], .write ";"],
  plainType "EmptyStatement" [.write ";"],
  plainType "ExpressionStatement" [.field "expression", .write ";"]]

end Parlance.Builtin
