import Parlance.Node.Writer
import Parlance.Proofs.Token.Rereading

/-! Drawings and the tokens that they put on the page. The tokens of a drawing that is made of others
are those of its parts, with a line break where a part begins a line. -/

namespace Parlance

namespace Trail

variable {α : Type} {first second : Trail α}

theorem steps_append (whole : first.fault = none) :
    (first ++ second).steps = first.steps ++ second.steps := by
  show (first.append second).steps = _
  rw [append, whole]

theorem fault_append (whole : first.fault = none) : (first ++ second).fault = second.fault := by
  show (first.append second).fault = _
  rw [append, whole]

end Trail

theorem Token.join_append (first second : List Token) :
    join (first ++ second) = join first ++ join second := by
  rw [← String.toList_inj]
  simp only [String.toList_append, toList_join, chars_append]

theorem Token.join_singleton (token : Token) : join [token] = token.text := by
  rw [← String.toList_inj, toList_join]
  simp

theorem Token.join_cons (token : Token) (rest : List Token) :
    join (token :: rest) = token.text ++ join rest := by
  rw [← List.singleton_append, join_append, join_singleton]

theorem Writer.applyAll_append (writer : Writer) (first second : List Mark) :
    writer.applyAll (first ++ second) = (writer.applyAll first).applyAll second :=
  List.foldl_append

theorem Writer.applyAll_cons (writer : Writer) (mark : Mark) (rest : List Mark) :
    writer.applyAll (mark :: rest) = (writer.apply mark).applyAll rest := rfl

def Mark.numeral? : Mark → Option String
  | .write text => if text.toList.head?.any Char.isDigit then some text else none
  | .newline | .indent | .deindent => none

namespace Drawing

open Token (join join_append join_cons numerals)

/-- The drawing puts the tokens on the page where a line has begun, and comes back to its level. -/
structure Inks (unit : String) (level : Nat) (drawing : Drawing) (tokens : List Token) : Prop where
  whole : drawing.fault = none
  begins : ∃ text more, drawing.steps = .write text :: more
  numbers : drawing.steps.filterMap Mark.numeral? = numerals tokens
  applied : ∀ out, (Writer.mk out unit level false).applyAll drawing.steps =
    ⟨out ++ join tokens, unit, level, false⟩

variable {unit : String} {level : Nat} {drawing later : Drawing} {tokens more : List Token}

theorem Inks.write {text : String} (same : join tokens = text)
    (numbers : (Mark.write text).numeral?.toList = numerals tokens) :
    Inks unit level (mark (.write text)) tokens where
  whole := rfl
  begins := ⟨text, [], rfl⟩
  numbers := by
    rw [← numbers]
    show [Mark.write text].filterMap Mark.numeral? = _
    rw [List.filterMap_cons]
    cases (Mark.write text).numeral? <;> rfl
  applied out := by
    rw [same]
    show Writer.apply ⟨out, unit, level, false⟩ (.write text) = _
    simp [Writer.apply]

theorem Inks.append (inks : Inks unit level drawing tokens) (inksToo : Inks unit level later more) :
    Inks unit level (drawing ++ later) (tokens ++ more) where
  whole := by rw [Trail.fault_append inks.whole, inksToo.whole]
  begins := by
    obtain ⟨text, rest, same⟩ := inks.begins
    exact ⟨text, rest ++ later.steps, by rw [Trail.steps_append inks.whole, same, List.cons_append]⟩
  numbers := by
    rw [Trail.steps_append inks.whole, List.filterMap_append, inks.numbers, inksToo.numbers,
      Token.numerals_append]
  applied out := by
    rw [Trail.steps_append inks.whole, Writer.applyAll_append, inks.applied, inksToo.applied,
      join_append, String.append_assoc]

theorem Inks.fresh (inks : Inks unit level drawing tokens) (out : String) :
    (Writer.mk out unit level true).applyAll drawing.steps =
      ⟨out ++ (Writer.lineStart unit level ++ join tokens), unit, level, false⟩ := by
  obtain ⟨text, rest, same⟩ := inks.begins
  have applied := inks.applied (out ++ Writer.lineStart unit level)
  rw [same] at applied ⊢
  simpa [Writer.applyAll_cons, Writer.apply, String.append_assoc] using applied

theorem Inks.nextLine (inks : Inks unit level drawing tokens)
    (inksToo : Inks unit level later more) :
    Inks unit level (drawing ++ (mark .newline ++ later))
      (tokens ++ .soft (Writer.lineStart unit level) :: more) where
  whole := by
    rw [Trail.fault_append inks.whole]
    exact inksToo.whole
  begins := by
    obtain ⟨text, rest, same⟩ := inks.begins
    refine ⟨text, rest ++ (mark .newline ++ later).steps, ?_⟩
    rw [Trail.steps_append inks.whole, same, List.cons_append]
  numbers := by
    rw [Trail.steps_append inks.whole, List.filterMap_append, inks.numbers,
      Token.numerals_append, Token.numerals_soft, ← inksToo.numbers]
    rfl
  applied out := by
    rw [Trail.steps_append inks.whole, Writer.applyAll_append, inks.applied, join_append, join_cons]
    show (Writer.mk (out ++ join tokens) unit level true).applyAll later.steps = _
    rw [inksToo.fresh, Token.text, String.append_assoc]

theorem concat_newlines {items : List Drawing} (some : items ≠ []) :
    Trail.concat (items.map (mark .newline ++ ·)) =
      mark .newline ++ separated (mark .newline) items := by
  induction items with
  | nil => exact absurd rfl some
  | cons first rest ih =>
      cases rest with
      | nil =>
          show (mark .newline ++ first) ++ Trail.done = mark .newline ++ first
          exact Trail.append_done _
      | cons second rest =>
          show (mark .newline ++ first) ++ Trail.concat ((second :: rest).map _) = _
          rw [ih (List.cons_ne_nil _ _), Trail.append_assoc]
          rfl

theorem block_append {items : List Drawing} (some : items ≠ []) :
    block items = mark (.write "\x7b") ++ (mark .indent ++ (mark .newline ++
      (separated (mark .newline) items ++
        (mark .deindent ++ (mark .newline ++ mark (.write "\x7d")))))) := by
  rw [block, if_neg (by simpa using some), concat_newlines some, Trail.append_assoc]

theorem Inks.block {items : List Drawing} (some : items ≠ [])
    (inks : Inks unit (level + 1) (separated (mark .newline) items) tokens) :
    Inks unit level (Drawing.block items)
      (.literal "\x7b" :: .soft (Writer.lineStart unit (level + 1)) :: tokens ++
        [.soft (Writer.lineStart unit level), .literal "\x7d"]) := by
  have steps : (Drawing.block items).steps = [.write "\x7b", .indent, .newline] ++
      ((separated (mark .newline) items).steps ++ [.deindent, .newline, .write "\x7d"]) := by
    rw [block_append some]
    show [Mark.write "\x7b", .indent, .newline] ++ (separated (mark .newline) items ++ _).steps = _
    rw [Trail.steps_append inks.whole]
    rfl
  have whole : (Drawing.block items).fault = none := by
    rw [block_append some]
    show (separated (mark .newline) items ++ _).fault = none
    rw [Trail.fault_append inks.whole]
    rfl
  refine ⟨whole, ⟨_, _, steps⟩, ?_, fun out => ?_⟩
  · rw [steps, List.filterMap_append, List.filterMap_append, inks.numbers, List.cons_append,
      List.cons_append, Token.numerals_literal (by decide), Token.numerals_soft,
      Token.numerals_append]
    rfl
  · rw [steps, Writer.applyAll_append, Writer.applyAll_append]
    show Writer.applyAll ((Writer.mk (out ++ "" ++ "\x7b") unit (level + 1) true).applyAll _) _ = _
    rw [inks.fresh]
    simp [Writer.applyAll, Writer.apply, Token.text, Token.literal, String.append_assoc,
      Token.join]

theorem Inks.unparsed {types : NodeTypes} {tree : Tree}
    (inks : Inks unit 0 (tree.draw types) tokens) :
    tree.unparse types unit = .ok (join tokens) := by
  have written : tree.write types unit = (none, join tokens) := by
    have applied := inks.applied ""
    rw [String.empty_append] at applied
    simp only [Tree.write, Writer.carry, Writer.start, inks.whole, applied]
  rw [Tree.unparse, written]

end Drawing

end Parlance
