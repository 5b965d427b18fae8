import Parlance.Node.Writer
import Parlance.Proofs.Tree.Occurs

/-! What the instructions of a layout draw, by the fields that the node was made of. -/

namespace Parlance

open Drawing (mark separated)

namespace Tree

variable {types : NodeTypes} {typeName : String} {fields : List (String × Tree)} {name : String}
  {value : Tree} {items : List Tree}

def view (types : NodeTypes) : Tree → FieldView
  | .list items =>
      ⟨.list items, separated (mark (.write "")) (draw.drawItems types items),
        draw.drawItems types items⟩
  | value => ⟨value, value.draw types, []⟩

theorem get?_viewMembers (members : Members) : Index.get? name (draw.viewMembers types members) =
    (Index.get? name members).map (view types) := by
  induction members with
  | nil => rfl
  | cons entry rest ih =>
      obtain ⟨other, value⟩ := entry
      have head : draw.viewMembers types ((other, value) :: rest) =
          (other, view types value) :: draw.viewMembers types rest := by
        cases value <;> rfl
      rw [head, Index.get?, Index.get?, ih]
      split_ifs <;> rfl

def scope (types : NodeTypes) (typeName : String) (fields : List (String × Tree)) :
    Instruction.Scope :=
  ⟨nodeMembers typeName fields, draw.viewMembers types (nodeMembers typeName fields)⟩

theorem draw_node (distinct : Distinct fields) {style : NodeType}
    (known : Index.get? typeName types = some style) :
    (node typeName fields).draw types =
      Instruction.draw.drawAll (scope types typeName fields) style.layout := by
  rw [node_eq, draw, resolve_node known distinct]
  rfl

theorem view_scope (distinct : Distinct fields)
    (found : Index.get? name (("type", .text typeName) :: fields) = some value) :
    (scope types typeName fields).view name = .ok (view types value) := by
  have member : Index.get? name (nodeMembers typeName fields) = some value := by
    rw [get?_node distinct, found]
  simp only [scope, Instruction.Scope.view, Members.require, get?_viewMembers, member,
    Option.map_some]

theorem draw_field (distinct : Distinct fields)
    (found : Index.get? name (("type", .text typeName) :: fields) = some value) :
    Instruction.draw (scope types typeName fields) (.field name) = value.draw types := by
  show Trail.ofExcept (((scope types typeName fields).view name).map FieldView.whole) = _
  rw [view_scope distinct found]
  cases value <;> rfl

theorem draw_text (distinct : Distinct fields) {text : String}
    (found : Index.get? name (("type", .text typeName) :: fields) = some (.text text)) :
    Instruction.draw (scope types typeName fields) (.text name) = mark (.write text) := by
  have member : Index.get? name (nodeMembers typeName fields) = some (.text text) := by
    rw [get?_node distinct, found]
  have read : Members.textField (nodeMembers typeName fields) name = .ok text := by
    simp only [Members.textField, Members.field, Members.require, member]
    rfl
  show Trail.ofExcept ((Members.textField (nodeMembers typeName fields) name).map _) = _
  rw [read]
  rfl

theorem listItems_scope (distinct : Distinct fields)
    (found : Index.get? name (("type", .text typeName) :: fields) = some (.list items)) :
    (scope types typeName fields).listItems name = .ok (draw.drawItems types items) := by
  rw [Instruction.Scope.listItems, view_scope distinct found]
  rfl

theorem ofExcept_listItems (distinct : Distinct fields)
    (found : Index.get? name (("type", .text typeName) :: fields) = some (.list items))
    (drawn : List Drawing → Drawing) :
    Trail.ofExcept (((scope types typeName fields).listItems name).map drawn) =
      drawn (draw.drawItems types items) := by
  rw [listItems_scope distinct found]
  rfl

theorem draw_items (distinct : Distinct fields) {separator : String}
    (found : Index.get? name (("type", .text typeName) :: fields) = some (.list items)) :
    Instruction.draw (scope types typeName fields) (.items name separator) =
      separated (mark (.write separator)) (draw.drawItems types items) :=
  ofExcept_listItems distinct found (separated (mark (.write separator)))

theorem draw_lines (distinct : Distinct fields)
    (found : Index.get? name (("type", .text typeName) :: fields) = some (.list items)) :
    Instruction.draw (scope types typeName fields) (.lines name) =
      separated (mark .newline) (draw.drawItems types items) :=
  ofExcept_listItems distinct found (separated (mark .newline))

theorem draw_block (distinct : Distinct fields)
    (found : Index.get? name (("type", .text typeName) :: fields) = some (.list items)) :
    Instruction.draw (scope types typeName fields) (.block name) =
      Drawing.block (draw.drawItems types items) :=
  ofExcept_listItems distinct found Drawing.block

theorem draw_unlessNull (distinct : Distinct fields)
    (found : Index.get? name (("type", .text typeName) :: fields) = some value)
    (body : List Instruction) :
    Instruction.draw (scope types typeName fields) (.unlessNull name body) =
      if value.isNull then Trail.done
      else Instruction.draw.drawAll (scope types typeName fields) body := by
  have same : (view types value).value = value := by cases value <;> rfl
  rw [Instruction.draw, Instruction.Scope.isNull, view_scope distinct found]
  simp only [Except.map, same]
  cases value.isNull <;> rfl

theorem draw_ifTrue (distinct : Distinct fields) {condition : Bool}
    (found : Index.get? name (("type", .text typeName) :: fields) = some (.bool condition))
    (yes no : List Instruction) :
    Instruction.draw (scope types typeName fields) (.ifTrue name yes no) =
      Instruction.draw.drawAll (scope types typeName fields) (if condition then yes else no) := by
  rw [Instruction.draw, Instruction.Scope.isTrue, view_scope distinct found]
  cases condition <;> rfl

end Tree

end Parlance
