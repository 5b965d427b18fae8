import Parlance.Index
import Parlance.Node.Layout
import Parlance.Node.Template
import Parlance.Text.Quoted

/-! Node types and tables of them. -/

namespace Parlance

/-- A type without a translation of its own is translated member by member. -/
structure NodeType where
  name : String
  layout : List Instruction
  translation : Option Template

abbrev NodeTypes := List (String × NodeType)

namespace NodeTypes

def register (types : NodeTypes) (nodeType : NodeType) : NodeTypes :=
  Index.insert nodeType.name nodeType types

def ofList (list : List NodeType) : NodeTypes := list.foldl register []

def describe (types : NodeTypes) : String := Text.braced ((Index.names types).map Text.quoted)

end NodeTypes

end Parlance
