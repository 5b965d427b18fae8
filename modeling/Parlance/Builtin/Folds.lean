import Parlance.Tree.Basic
import Parlance.Decimal.Parse

/-! How the values of expression rules become nodes. -/

namespace Parlance.Builtin

def firstOf (arguments : List Tree) : Tree := arguments.head?.getD .null

def tailOf (arguments : List Tree) : List Tree := ((arguments[1]?).bind Tree.list?).getD []

def foldPair (typeName : String) (left pair : Tree) : Tree :=
  match pair with
  | .list items =>
      .node typeName
        [("operator", items[0]?.getD .null), ("left", left), ("right", items[1]?.getD .null)]
  | _ => left

def foldBinary (typeName : String) (arguments : List Tree) : Tree :=
  (tailOf arguments).foldl (foldPair typeName) (firstOf arguments)

def foldSuffix (target suffix : Tree) : Tree :=
  match suffix with
  | .record members =>
      let slot := if Index.contains "callee" members then "callee" else "object"
      .record (Index.insert slot target members)
  | other => other

/-- A primary and a list of suffixes, each applied to all before it. -/
def foldPostfix (arguments : List Tree) : Tree :=
  (tailOf arguments).foldl foldSuffix (firstOf arguments)

def call (arguments : Tree) : Tree :=
  .node "CallExpression" [("callee", .null), ("arguments", arguments)]

def member (computed : Bool) (property : Tree) : Tree :=
  .node "MemberExpression"
    [("object", .null), ("property", property), ("computed", .bool computed)]

def booleanLiteral (raw : Tree) : Tree :=
  .node "BooleanLiteral" [("value", .bool (raw.text? == some "true"))]

/-- A hexadecimal number is an integer or nothing; a decimal one that is no integer is the nearest
floating-point number, if that is finite. -/
def parseNumber? (text : String) : Option Number :=
  let integer? (radix : Nat) (digits : List Char) : Option Number :=
    ((Decimal.parseInteger? radix digits).filter (Decimal.fitsSigned 64)).map .integer
  match text.toList with
  | '0' :: 'x' :: digits => integer? 16 digits
  | '0' :: 'X' :: digits => integer? 16 digits
  | digits =>
      match integer? 10 digits with
      | some number => some number
      | none => (Decimal.parse? text).bind Number.ofBinary?

def numericLiteral (raw : Tree) : Tree :=
  let value : Tree :=
    match parseNumber? (raw.text?.getD "") with
    | some number => .number number
    | none => .null
  .node "NumericLiteral" [("value", value), ("raw", raw)]

end Parlance.Builtin
