import Parlance.Tree.Node

/-! Layouts: how nodes of one type are written. A layout is a list of instructions that refer to the
fields of the node; it is carried out on views of the fields that are already written. -/

namespace Parlance

/-- One thing to do on the page. -/
inductive Mark where
  | write (text : String)
  | newline
  | indent
  | deindent
  deriving DecidableEq

abbrev Drawing := Trail Mark

/-- A field of a node: its value, the value written, and the items written if it is a list. -/
structure FieldView where
  value : Tree
  whole : Drawing
  items : List Drawing

inductive Instruction where
  | write (text : String)
  | newline
  | indent
  | deindent
  | field (name : String)
  | text (name : String)
  | items (name separator : String)
  | lines (name : String)
  | block (name : String)
  /-- Goes on with further instructions if the field, which must be there, is not null. -/
  | unlessNull (name : String) (body : List Instruction)
  | ifTrue (name : String) (yes no : List Instruction)

namespace Drawing

def mark (mark : Mark) : Drawing := Trail.one mark

def separated (between : Drawing) : List Drawing → Drawing
  | [] => Trail.done
  | [last] => last
  | first :: rest => first ++ (between ++ separated between rest)

def block (items : List Drawing) : Drawing :=
  if items.isEmpty then mark (.write "\x7b\x7d")
  else
    mark (.write "\x7b") ++ (mark .indent ++
      (Trail.concat (items.map (mark .newline ++ ·)) ++
        (mark .deindent ++ (mark .newline ++ mark (.write "\x7d")))))

end Drawing

namespace Instruction

/-- The fields of the node that is written, in two views. -/
structure Scope where
  members : Members
  views : List (String × FieldView)

namespace Scope

def view (scope : Scope) (name : String) : Except TreeFault FieldView :=
  scope.members.require scope.views name

def listItems (scope : Scope) (name : String) : Except TreeFault (List Drawing) := do
  let view ← scope.view name
  match view.value with
  | .list _ => pure view.items
  | _ => throw (.unexpectedValue scope.members.shownType name .list)

def isNull (scope : Scope) (name : String) : Except TreeFault Bool :=
  (scope.view name).map fun view => view.value.isNull

def isTrue (scope : Scope) (name : String) : Except TreeFault Bool :=
  (scope.view name).map fun view =>
    match view.value with
    | .bool true => true
    | _ => false

end Scope

def draw (scope : Scope) : Instruction → Drawing
  | .write written => Drawing.mark (.write written)
  | .newline => Drawing.mark .newline
  | .indent => Drawing.mark .indent
  | .deindent => Drawing.mark .deindent
  | .field name => Trail.ofExcept ((scope.view name).map FieldView.whole)
  | .text name =>
      Trail.ofExcept ((scope.members.textField name).map fun value => Drawing.mark (.write value))
  | .items name separator =>
      Trail.ofExcept
        ((scope.listItems name).map (Drawing.separated (Drawing.mark (.write separator))))
  | .lines name =>
      Trail.ofExcept ((scope.listItems name).map (Drawing.separated (Drawing.mark .newline)))
  | .block name => Trail.ofExcept ((scope.listItems name).map Drawing.block)
  | .unlessNull name body =>
      match scope.isNull name with
      | .error fault => Trail.stop fault
      | .ok true => Trail.done
      | .ok false => drawAll scope body
  | .ifTrue name yes no =>
      match scope.isTrue name with
      | .error fault => Trail.stop fault
      | .ok true => drawAll scope yes
      | .ok false => drawAll scope no
where
  drawAll (scope : Scope) : List Instruction → Drawing
    | [] => Trail.done
    | instruction :: rest => draw scope instruction ++ drawAll scope rest

end Instruction

end Parlance
