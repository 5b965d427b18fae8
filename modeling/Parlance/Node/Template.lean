import Parlance.Tree.Node

/-! Templates: what a node is translated to, built from its fields. -/

namespace Parlance

inductive Template where
  | literal (value : Tree)
  | keep (field : String)
  | translated (field : String)
  | node (typeName : String) (fields : List (String × Template))

namespace Template

/-- Fills in the fields in order; `translations` holds what translating each member comes to. -/
def fill (members : Members) (translations : List (String × Except TreeFault Tree)) :
    Template → Except TreeFault Tree
  | .literal value => .ok value
  | .keep field => members.field field
  | .translated field =>
      match members.require translations field with
      | .error fault => .error fault
      | .ok translation => translation
  | .node typeName fields =>
      match fillFields fields with
      | .error fault => .error fault
      | .ok filled => .ok (.node typeName filled)
where
  fillFields : List (String × Template) → Except TreeFault (List (String × Tree))
    | [] => .ok []
    | (name, template) :: rest =>
        match fill members translations template with
        | .error fault => .error fault
        | .ok value =>
            match fillFields rest with
            | .error fault => .error fault
            | .ok others => .ok ((name, value) :: others)

end Template

end Parlance
