import Parlance.Tree.Node

/-! The outline of a tree: what a walk that dispatches on the kind of each value meets, in order. -/

namespace Parlance

inductive Sight where
  | list (length : Nat)
  | primitive (value : Tree)
  | node (typeName : String)

namespace Tree

variable {α : Type}

/-- Lists are noted before their items and nodes before their members; the `type` member is not
entered. The walk ends at the first record without a registered type. -/
def outline (types : List (String × α)) : Tree → Trail Sight
  | .list items => Trail.one (.list items.length) ++ outlineItems items
  | .record members =>
      match Members.resolve members types with
      | .ok (name, _) => Trail.one (.node name) ++ outlineMembers members
      | .error fault => .stop fault
  | primitive => .one (.primitive primitive)
where
  outlineItems : List Tree → Trail Sight
    | [] => .done
    | item :: rest => outline types item ++ outlineItems rest
  outlineMembers : Members → Trail Sight
    | [] => .done
    | (name, value) :: rest =>
        if name = "type" then outlineMembers rest else outline types value ++ outlineMembers rest

end Tree

end Parlance
