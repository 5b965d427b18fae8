import Parlance.Node.Types
import Parlance.Text.Json

/-! Writing trees as source text. A tree is first drawn as marks; a writer then carries out the
marks. Line breaks are deferred: the next text begins the new line, at the indentation it finds
then. -/

namespace Parlance

namespace Tree

/-- Null writes nothing, a text writes itself, and other primitives write their JSON. -/
def drawPrimitive : Tree → Drawing
  | .null => Trail.done
  | .text value => Drawing.mark (.write value)
  | primitive => Drawing.mark (.write (Text.jsonCompact primitive))

def draw (types : NodeTypes) : Tree → Drawing
  | .list items => Drawing.separated (Drawing.mark (.write "")) (drawItems items)
  | .record members =>
      match Members.resolve members types with
      | .error fault => Trail.stop fault
      | .ok (_, nodeType) =>
          Instruction.draw.drawAll ⟨members, viewMembers members⟩ nodeType.layout
  | primitive => drawPrimitive primitive
where
  drawItems : List Tree → List Drawing
    | [] => []
    | item :: rest => draw types item :: drawItems rest
  viewMembers : Members → List (String × FieldView)
    | [] => []
    | (name, .list items) :: rest =>
        let drawn := drawItems items
        (name, ⟨.list items, Drawing.separated (Drawing.mark (.write "")) drawn, drawn⟩) ::
          viewMembers rest
    | (name, value) :: rest => (name, ⟨value, draw types value, []⟩) :: viewMembers rest

end Tree

structure Writer where
  out : String
  unit : String
  level : Nat
  /-- Whether a line break waits for the next text. -/
  pending : Bool
  deriving DecidableEq

namespace Writer

def start (unit : String) : Writer := ⟨"", unit, 0, false⟩

def lineStart (unit : String) (level : Nat) : String :=
  "\n" ++ String.join (List.replicate level unit)

def apply (writer : Writer) : Mark → Writer
  | .write text =>
      let lead := if writer.pending then lineStart writer.unit writer.level else ""
      { writer with out := writer.out ++ lead ++ text, pending := false }
  | .newline => { writer with pending := true }
  | .indent => { writer with level := writer.level + 1 }
  | .deindent => { writer with level := writer.level - 1 }

def applyAll (writer : Writer) (marks : List Mark) : Writer := marks.foldl apply writer

def carry (writer : Writer) (drawing : Drawing) : Option TreeFault × Writer :=
  (drawing.fault, writer.applyAll drawing.steps)

end Writer

def Tree.write (types : NodeTypes) (unit : String) (tree : Tree) : Option TreeFault × String :=
  let (fault, writer) := (Writer.start unit).carry (tree.draw types)
  (fault, writer.out)

def Tree.unparse (types : NodeTypes) (unit : String) (tree : Tree) : Except TreeFault String :=
  match tree.write types unit with
  | (some fault, _) => .error fault
  | (none, out) => .ok out

end Parlance
