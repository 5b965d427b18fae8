import Parlance.Node.Types

/-! Translating trees: each node becomes what its type makes of it, all else is copied. -/

namespace Parlance.Tree

/-- The members with the results of translating them; the first fault in their order is the fault of
the whole. -/
def copyMembers : List (String × Except TreeFault Tree) → Except TreeFault Members
  | [] => .ok []
  | (_, .error fault) :: _ => .error fault
  | (name, .ok value) :: rest =>
      match copyMembers rest with
      | .error fault => .error fault
      | .ok others => .ok ((name, value) :: others)

def translate (types : NodeTypes) : Tree → Except TreeFault Tree
  | .list items =>
      match translateItems items with
      | .error fault => .error fault
      | .ok translated => .ok (.list translated)
  | .record members =>
      match Members.resolve members types with
      | .error fault => .error fault
      | .ok (_, nodeType) =>
          match nodeType.translation with
          | some template => template.fill members (translateMembers members)
          | none =>
              match copyMembers (translateMembers members) with
              | .error fault => .error fault
              | .ok copied => .ok (.record copied)
  | primitive => .ok primitive
where
  translateItems : List Tree → Except TreeFault (List Tree)
    | [] => .ok []
    | item :: rest =>
        match translate types item with
        | .error fault => .error fault
        | .ok first =>
            match translateItems rest with
            | .error fault => .error fault
            | .ok others => .ok (first :: others)
  /-- The type of a node is no part to translate. -/
  translateMembers : Members → List (String × Except TreeFault Tree)
    | [] => []
    | (name, value) :: rest =>
        (name, if name = "type" then .ok value else translate types value) ::
          translateMembers rest

end Parlance.Tree
