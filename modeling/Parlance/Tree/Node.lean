import Parlance.Tree.Basic
import Parlance.Tree.Fault

/-! Reading the members of a node. -/

namespace Parlance.Members

/-- The type shown in messages; a record without one is shown as a question mark. -/
def shownType (members : Members) : String := members.typeName?.getD "?"

def require {α : Type} (members : Members) (table : List (String × α)) (field : String) :
    Except TreeFault α :=
  match Index.get? field table with
  | some value => .ok value
  | none => .error (.missingField members.shownType field)

def field (members : Members) (name : String) : Except TreeFault Tree :=
  members.require members name

def listField (members : Members) (name : String) : Except TreeFault (List Tree) := do
  match ← members.field name with
  | .list items => pure items
  | _ => throw (.unexpectedValue members.shownType name .list)

def textField (members : Members) (name : String) : Except TreeFault String := do
  match ← members.field name with
  | .text value => pure value
  | _ => throw (.unexpectedValue members.shownType name .text)

/-- The name and the registered type of a node: it must name a type, and the dialect must know it.
-/
def resolve {α : Type} (members : Members) (types : List (String × α)) :
    Except TreeFault (String × α) :=
  match members.typeName? with
  | none => .error .untypedObject
  | some name =>
      match Index.get? name types with
      | none => .error (.unknownNodeType name)
      | some nodeType => .ok (name, nodeType)

end Parlance.Members
