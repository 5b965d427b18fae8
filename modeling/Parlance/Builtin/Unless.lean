import Parlance.Builtin.Statements
import Parlance.Builtin.NodeTypes

/-! The `unless` statement. It is translated to an `if` with the test negated, so it never reaches a
dialect that does not define it. -/

namespace Parlance.Builtin.Unless

def fragmentName : String := "unless"

def rules : RuleSet :=
  RuleSet.ofEdits [
    ("Statement", [.add (.rule "UnlessStatement")]),
    ("UnlessStatement", [
      .add (.sequence (Statements.guarded "unless")),
      Expressions.constructor "UnlessStatement" ["test", "body"]])]

def negation : Template :=
  .node "UnaryExpression" [
    ("operator", .literal (.text "!")),
    ("argument", .node "ParenthesizedExpression" [("expression", .translated "test")])]

def nodeType : NodeType where
  name := "UnlessStatement"
  layout := [.write "unless (", .field "test", .write ") ", .field "body"]
  translation := some (.node "IfStatement" [
    ("test", negation), ("consequent", .translated "body"), ("alternate", .literal .null)])

end Parlance.Builtin.Unless
