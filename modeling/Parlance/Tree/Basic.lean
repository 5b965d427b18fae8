import Parlance.Index
import Parlance.Decimal.Binary

/-! Trees: the values that parsing yields and that translation and writing consume. A record keeps
its members in the order of their names; a node is a record whose `type` member names its kind. -/

namespace Parlance

inductive Number where
  | integer (value : Int)
  | float (value : Decimal.Binary)
  deriving DecidableEq, Inhabited

/-- Infinite and undefined results are no numbers of a tree. -/
def Number.ofBinary? (value : Decimal.Binary) : Option Number :=
  if value.isFinite then some (.float value) else none

inductive Tree where
  | null
  | bool (value : Bool)
  | number (value : Number)
  | text (value : String)
  | list (items : List Tree)
  | record (members : List (String × Tree))
  deriving Inhabited

abbrev Members := List (String × Tree)

namespace Tree

def isNull : Tree → Bool
  | .null => true
  | _ => false

def text? : Tree → Option String
  | .text value => some value
  | _ => none

def list? : Tree → Option (List Tree)
  | .list items => some items
  | _ => none

def record? : Tree → Option Members
  | .record members => some members
  | _ => none

/-- A node of the given type; a field named like an earlier one, or `type`, replaces it. -/
def node (typeName : String) (fields : List (String × Tree)) : Tree :=
  .record (Index.merge [("type", .text typeName)] fields)

end Tree

def Members.typeName? (members : Members) : Option String :=
  (Index.get? "type" members).bind Tree.text?

def Tree.nodeType? (tree : Tree) : Option String := tree.record?.bind Members.typeName?

end Parlance
