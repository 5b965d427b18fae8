import Parlance.Dialect.Registry
import Parlance.Builtin.Unless

/-! The built-in dialects: `base`, a small language of expressions and statements, and `sugar`,
which adds `unless` to it. -/

namespace Parlance.Builtin

def baseName : String := "base"

def sugarName : String := "sugar"

def fragments : List Fragment := [
  .make Expressions.fragmentName (some Expressions.rules) expressionTypes,
  .make Statements.fragmentName (some Statements.rules) statementTypes,
  .make Unless.fragmentName (some Unless.rules) (.ofList [Unless.nodeType])]

def dialects : List Dialect := [
  .define baseName none [Expressions.fragmentName, Statements.fragmentName],
  .define sugarName (some baseName) [Unless.fragmentName]]

def install (registry : Registry) : Registry :=
  dialects.foldl Registry.registerDialect (fragments.foldl Registry.registerFragment registry)

def registry (settings : Settings) : Registry := install (.empty settings)

end Parlance.Builtin
