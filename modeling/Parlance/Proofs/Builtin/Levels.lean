import Parlance.Proofs.Builtin.Projection
import Parlance.Proofs.Node.Levels

/-! Written at any level of indentation, a tree of built-in nodes is the text that it is by itself, moved
to the right. -/

namespace Parlance.Builtin

open Index (get?)
open Text (OneLine)
open Writer (indented)

def OfBuiltins (types : NodeTypes) : Prop :=
  ∀ name style, get? name types = some style →
    ∃ sugar, get? name (ownTypes sugar) = some style

theorem ofBuiltins_types (settings : Settings) (sugar : Bool) :
    OfBuiltins (types settings sugar) := by
  intro name style known
  rcases get?_ownTypes_of_types known with own | inherited
  · exact ⟨sugar, own⟩
  · exact ⟨false, inherited⟩

/-- No built-in layout goes to another level but in a block. -/
theorem OfBuiltins.keepLevel {types : NodeTypes} (builtin : OfBuiltins types) : types.KeepLevel := by
  have each (sugar : Bool) : ∀ entry ∈ ownTypes sugar,
      Instruction.keepsLevel.allKeepLevel entry.2.layout = true := by
    cases sugar <;> decide +kernel
  intro name style known
  obtain ⟨sugar, own⟩ := builtin name style known
  exact each sugar (name, style) (Index.mem_of_get? own)

/-- Where a tree without line feeds in its texts is written at a level, it is what it is by itself
with that indentation after each line feed, and the level is left as it was; whether a line break
waits, and which fault ends the writing if one does, are the same. -/
theorem written_further_in {types : NodeTypes} (builtin : OfBuiltins types) {tree : Tree}
    (flat : ¬ tree.Occurs Tree.Breaks) {unit : String} (unbroken : OneLine unit) (level : Nat)
    (before : String) :
    (∀ text, tree.unparse types unit = .ok text →
      ∃ pending,
        (Writer.start unit).carry (tree.draw types) = (none, ⟨text, unit, 0, pending⟩) ∧
        (Writer.mk before unit level false).carry (tree.draw types) =
          (none, ⟨before ++ indented unit level text, unit, level, pending⟩)) ∧
    ∀ fault, tree.unparse types unit = .error fault →
      ((Writer.start unit).carry (tree.draw types)).1 = some fault ∧
        ((Writer.mk before unit level false).carry (tree.draw types)).1 = some fault := by
  constructor
  · intro text written
    exact Tree.carry_further builtin.keepLevel flat unbroken level before written
  · intro fault failed
    have stopped := Tree.unparse_error_iff.mp failed
    exact ⟨stopped, stopped⟩

/-- A block with a statement and with an entry that writes nothing. -/
theorem written_further_in_block :
    let tree : Tree := .node "BlockStatement"
      [("body", .list [.node "ExpressionStatement" [("expression", identifier "x")], .null])]
    tree.unparse (types .defaults true) "  " = .ok "\x7b\n  x;\n\x7d" ∧
      ((Writer.mk "if (a) " "  " 2 false).carry (tree.draw (types .defaults true))).2.out =
        "if (a) \x7b\n      x;\n    \x7d" := by
  intro tree
  have flat : ¬ tree.Occurs Tree.Breaks := by
    apply Tree.flat_node (.one (by decide)) (by decide)
    rw [List.forall_mem_singleton]
    apply Tree.flat_list
    rw [List.forall_mem_cons, List.forall_mem_singleton]
    constructor
    · apply Tree.flat_node (.one (by decide)) (by decide)
      rw [List.forall_mem_singleton]
      apply Tree.flat_node (.one (by decide)) (by decide)
      rw [List.forall_mem_singleton]
      exact Tree.flat_text (by decide)
    · exact Tree.flat_null
  have written : tree.unparse (types .defaults true) "  " = .ok "\x7b\n  x;\n\x7d" := by
    decide +kernel
  obtain ⟨pending, -, inside⟩ := (written_further_in (ofBuiltins_types .defaults true) flat
    (by decide) 2 "if (a) ").1 _ written
  have moved : "if (a) " ++ indented "  " 2 "\x7b\n  x;\n\x7d" =
      "if (a) \x7b\n      x;\n    \x7d" := by decide
  exact ⟨written, by rw [inside, moved]⟩

end Parlance.Builtin
