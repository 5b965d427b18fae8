import Parlance.Proofs.Node.Drawing
import Parlance.Proofs.Node.Inks
import Parlance.Proofs.Node.Projection
import Parlance.Proofs.Text.OneLine

/-! Writing further in. Marks in which every level is left again do the same at any level: what they
put on the page is only moved to the right, line by line. The drawing of a tree consists of such marks
if the layouts of its types go to another level nowhere but in blocks. -/

namespace Parlance

open Text (OneLine)

namespace Writer

variable {unit before : String} {level further : Nat} {first second text : String}

/-- The text, with so many levels of indentation after each line feed. -/
def indented (unit : String) (level : Nat) (text : String) : String :=
  String.ofList (text.toList.flatMap fun char =>
    if char = '\n' then (lineStart unit level).toList else [char])

theorem indented_append :
    indented unit level (first ++ second) =
      indented unit level first ++ indented unit level second := by
  rw [← String.toList_inj]
  simp only [indented, String.toList_append, String.toList_ofList, List.flatMap_append]

theorem indented_oneLine (oneLine : OneLine text) : indented unit level text = text := by
  have each (char : Char) (member : char ∈ text.toList) :
      (if char = '\n' then (lineStart unit level).toList else [char]) = [char] := by
    rw [if_neg]
    rintro rfl
    exact oneLine member
  rw [indented, List.flatMap_congr each, List.flatMap_singleton', String.ofList_toList]

theorem oneLine_levels (oneLine : OneLine unit) (level : Nat) :
    OneLine (String.join (List.replicate level unit)) := by
  induction level with
  | zero => exact (by decide : OneLine "")
  | succ level ih =>
      rw [List.replicate_succ, String.join_cons]
      exact oneLine.append ih

theorem indented_lineStart (oneLine : OneLine unit) :
    indented unit further (lineStart unit level) = lineStart unit (further + level) := by
  have feed : indented unit further "\n" = lineStart unit further := by
    rw [← String.toList_inj]
    simp [indented]
  have levels : List.replicate (further + level) unit =
      List.replicate further unit ++ List.replicate level unit := List.replicate_add ..
  rw [lineStart, indented_append, indented_oneLine (oneLine_levels oneLine level), feed, lineStart,
    lineStart, levels, String.join_append, String.append_assoc]

/-- The writer as it would be further in, after what stood there before. -/
def deepen (before : String) (further : Nat) (writer : Writer) : Writer :=
  ⟨before ++ indented writer.unit further writer.out, writer.unit, further + writer.level,
    writer.pending⟩

theorem deepen_start : (start unit).deepen before level = ⟨before, unit, level, false⟩ := by
  have nothing : indented unit level "" = "" := indented_oneLine (by decide)
  simp only [deepen, start, nothing, String.append_empty, Nat.add_zero]

variable {writer : Writer}

theorem deepen_write (unbroken : OneLine writer.unit) (oneLine : OneLine text) :
    (writer.deepen before further).apply (.write text) =
      (writer.apply (.write text)).deepen before further := by
  obtain ⟨out, unit, level, pending⟩ := writer
  cases pending
  · simp only [apply, deepen, Bool.false_eq_true, if_false, String.append_empty, indented_append,
      indented_oneLine oneLine, String.append_assoc]
  · simp only [apply, deepen, if_true, indented_append, indented_oneLine oneLine,
      indented_lineStart unbroken, String.append_assoc]

theorem deepen_indent :
    (writer.deepen before further).apply .indent = (writer.apply .indent).deepen before further :=
  rfl

theorem deepen_deindent (inside : 0 < writer.level) :
    (writer.deepen before further).apply .deindent =
      (writer.apply .deindent).deepen before further := by
  have back : further + writer.level - 1 = further + (writer.level - 1) := by omega
  simp only [apply, deepen, back]

theorem unit_applyAll (writer : Writer) (marks : List Mark) :
    (writer.applyAll marks).unit = writer.unit := by
  induction marks generalizing writer with
  | nil => rfl
  | cons mark rest ih =>
      rw [applyAll_cons, ih]
      cases mark <;> rfl

end Writer

/-- Marks that write no line feed and leave the levels they go to. -/
inductive Balanced : List Mark → Prop where
  | done : Balanced []
  | write {text : String} {rest : List Mark} (oneLine : OneLine text) (later : Balanced rest) :
      Balanced (.write text :: rest)
  | newline {rest : List Mark} (later : Balanced rest) : Balanced (.newline :: rest)
  | indented {inner rest : List Mark} (deeper : Balanced inner) (later : Balanced rest) :
      Balanced (.indent :: (inner ++ .deindent :: rest))

namespace Balanced

variable {marks more : List Mark}

theorem append (balanced : Balanced marks) (later : Balanced more) : Balanced (marks ++ more) := by
  induction balanced with
  | done => exact later
  | write oneLine _ ih => exact .write oneLine ih
  | newline _ ih => exact .newline ih
  | @indented inner rest deeper _ _ ih =>
      have grouped : .indent :: (inner ++ .deindent :: rest) ++ more =
          .indent :: (inner ++ .deindent :: (rest ++ more)) := by simp
      rw [grouped]
      exact .indented deeper ih

theorem level_applyAll (balanced : Balanced marks) (writer : Writer) :
    (writer.applyAll marks).level = writer.level := by
  induction balanced generalizing writer with
  | done => rfl
  | write _ _ ih | newline _ ih => exact ih _
  | indented _ _ ihDeeper ih =>
      rw [Writer.applyAll_cons, Writer.applyAll_append, Writer.applyAll_cons, ih]
      show ((writer.apply .indent).applyAll _).level - 1 = _
      rw [ihDeeper]
      exact Nat.add_one_sub_one _

theorem applyAll_deepen (balanced : Balanced marks) {writer : Writer}
    (unbroken : OneLine writer.unit) (before : String) (further : Nat) :
    (writer.deepen before further).applyAll marks =
      (writer.applyAll marks).deepen before further := by
  induction balanced generalizing writer with
  | done => rfl
  | write oneLine _ ih =>
      rw [Writer.applyAll_cons, Writer.deepen_write unbroken oneLine]
      exact ih unbroken
  | newline _ ih =>
      have unbrokenStill : OneLine (writer.apply .newline).unit := unbroken
      exact ih unbrokenStill
  | @indented inner rest deeper later ihDeeper ih =>
      have unbrokenInside : OneLine (writer.apply .indent).unit := unbroken
      have unit := (writer.apply .indent).unit_applyAll inner
      have inside : 0 < ((writer.apply .indent).applyAll inner).level := by
        rw [deeper.level_applyAll]
        exact Nat.succ_pos _
      rw [Writer.applyAll_cons, Writer.applyAll_append, Writer.applyAll_cons, Writer.deepen_indent,
        ihDeeper unbrokenInside, Writer.deepen_deindent inside, ih]
      · simp only [Writer.applyAll_cons, Writer.applyAll_append]
      · show OneLine ((writer.apply .indent).applyAll inner).unit
        rw [unit]
        exact unbroken

end Balanced

theorem Trail.fault_eq_none {α : Type} {first second : Trail α}
    (whole : (first ++ second).fault = none) : first.fault = none ∧ second.fault = none := by
  cases fault : first.fault with
  | none => exact ⟨rfl, by rwa [fault_append fault] at whole⟩
  | some early =>
      have stopped : (first ++ second).fault = some early := by
        show (first.append second).fault = _
        rw [append, fault]
      rw [stopped] at whole
      cases whole

namespace Drawing

def Settles (drawing : Drawing) : Prop := drawing.fault = none → Balanced drawing.steps

variable {drawing later between : Drawing} {drawings : List Drawing}

theorem settles_done : Settles Trail.done := fun _ => .done

theorem settles_stop (fault : TreeFault) : Settles (Trail.stop fault) := nofun

theorem settles_write {text : String} (oneLine : OneLine text) : Settles (mark (.write text)) :=
  fun _ => .write oneLine .done

theorem settles_newline : Settles (mark .newline) := fun _ => .newline .done

theorem Settles.append (settles : Settles drawing) (settlesToo : Settles later) :
    Settles (drawing ++ later) := by
  intro whole
  obtain ⟨first, second⟩ := Trail.fault_eq_none whole
  rw [Trail.steps_append first]
  exact (settles first).append (settlesToo second)

theorem settles_concat (each : ∀ item ∈ drawings, Settles item) :
    Settles (Trail.concat drawings) := by
  induction drawings with
  | nil => exact settles_done
  | cons first rest ih =>
      rw [List.forall_mem_cons] at each
      exact each.1.append (ih each.2)

theorem settles_separated (settles : Settles between) (each : ∀ item ∈ drawings, Settles item) :
    Settles (separated between drawings) := by
  induction drawings with
  | nil => exact settles_done
  | cons first rest ih =>
      rw [List.forall_mem_cons] at each
      cases rest with
      | nil => exact each.1
      | cons second rest => exact each.1.append (settles.append (ih each.2))

theorem settles_block (each : ∀ item ∈ drawings, Settles item) : Settles (block drawings) := by
  have lines : Settles (Trail.concat (drawings.map (mark .newline ++ ·))) := by
    apply settles_concat
    intro line member
    obtain ⟨item, isItem, rfl⟩ := List.mem_map.mp member
    exact settles_newline.append (each item isItem)
  rw [block]
  split_ifs
  · exact settles_write (by decide)
  · intro whole
    have inner := (Trail.fault_eq_none (Trail.fault_eq_none (Trail.fault_eq_none whole).2).2).1
    show Balanced (.write "\x7b" :: .indent :: Trail.steps (_ ++ _))
    rw [Trail.steps_append inner]
    exact .write (by decide)
      (.indented (lines inner) (.newline (.write (by decide) .done)))

theorem settles_ofExcept {α : Type} {read : Except TreeFault α} {drawn : α → Drawing}
    (each : ∀ value, read = .ok value → Settles (drawn value)) :
    Settles (Trail.ofExcept (read.map drawn)) := by
  cases read with
  | error fault => exact settles_stop fault
  | ok value => exact each value rfl

end Drawing

namespace Instruction

/-- Writes no line feed of its own, and goes to another level nowhere but in blocks. -/
def keepsLevel : Instruction → Bool
  | .write written => decide (OneLine written)
  | .items _ separator => decide (OneLine separator)
  | .indent | .deindent => false
  | .newline | .field _ | .text _ | .lines _ | .block _ => true
  | .unlessNull _ body => allKeepLevel body
  | .ifTrue _ yes no => allKeepLevel yes && allKeepLevel no
where
  allKeepLevel : List Instruction → Bool
    | [] => true
    | instruction :: rest => keepsLevel instruction && allKeepLevel rest

/-- What the instructions refer to is drawn at its level, and its texts are on one line. -/
structure Scope.Settled (scope : Scope) : Prop where
  texts : ∀ name text, scope.members.textField name = .ok text → OneLine text
  wholes : ∀ name view, scope.view name = .ok view → view.whole.Settles
  items : ∀ name view, scope.view name = .ok view → ∀ item ∈ view.items, item.Settles

variable {scope : Scope}

theorem items_of_listItems {name : String} {items : List Drawing}
    (read : scope.listItems name = .ok items) :
    ∃ view, scope.view name = .ok view ∧ view.items = items := by
  cases viewed : scope.view name with
  | error fault =>
      rw [Scope.listItems, viewed] at read
      cases read
  | ok view =>
      obtain ⟨value, whole, held⟩ := view
      rw [Scope.listItems, viewed] at read
      cases value with
      | list =>
          cases read
          exact ⟨_, rfl, rfl⟩
      | _ => cases read

theorem settles_listItems (settled : scope.Settled) {name : String} {drawn : List Drawing → Drawing}
    (each : ∀ items, (∀ item ∈ items, item.Settles) → (drawn items).Settles) :
    Drawing.Settles (Trail.ofExcept ((scope.listItems name).map drawn)) := by
  apply Drawing.settles_ofExcept
  intro items read
  obtain ⟨view, viewed, rfl⟩ := items_of_listItems read
  exact each view.items (settled.items name view viewed)

mutual

theorem settles_draw (settled : scope.Settled) :
    ∀ instruction : Instruction, instruction.keepsLevel = true → (instruction.draw scope).Settles
  | .write _, keeps => Drawing.settles_write (of_decide_eq_true keeps)
  | .newline, _ => Drawing.settles_newline
  | .field name, _ => Drawing.settles_ofExcept fun view viewed => settled.wholes name view viewed
  | .text name, _ => Drawing.settles_ofExcept fun text read =>
      Drawing.settles_write (settled.texts name text read)
  | .items _ _, keeps => settles_listItems settled fun _ each =>
      Drawing.settles_separated (Drawing.settles_write (of_decide_eq_true keeps)) each
  | .lines _, _ => settles_listItems settled fun _ each =>
      Drawing.settles_separated Drawing.settles_newline each
  | .block _, _ => settles_listItems settled fun _ each => Drawing.settles_block each
  | .unlessNull name body, keeps => by
      rw [draw]
      split
      next fault _ => exact Drawing.settles_stop fault
      next => exact Drawing.settles_done
      next => exact settles_drawAll settled body keeps
  | .ifTrue name yes no, keeps => by
      obtain ⟨keepsYes, keepsNo⟩ := Bool.and_eq_true_iff.mp keeps
      rw [draw]
      split
      next fault _ => exact Drawing.settles_stop fault
      next => exact settles_drawAll settled yes keepsYes
      next => exact settles_drawAll settled no keepsNo

theorem settles_drawAll (settled : scope.Settled) :
    ∀ layout : List Instruction, keepsLevel.allKeepLevel layout = true →
      (draw.drawAll scope layout).Settles
  | [], _ => Drawing.settles_done
  | instruction :: rest, keeps => by
      obtain ⟨first, later⟩ := Bool.and_eq_true_iff.mp keeps
      exact (settles_draw settled instruction first).append (settles_drawAll settled rest later)

end

end Instruction

namespace Members

theorem get?_of_require {α : Type} {members : Members} {table : List (String × α)} {name : String}
    {value : α} (required : members.require table name = .ok value) :
    Index.get? name table = some value := by
  rw [Members.require] at required
  split at required
  next found =>
    cases required
    exact found
  next => cases required

theorem get?_of_textField {members : Members} {name text : String}
    (read : members.textField name = .ok text) : Index.get? name members = some (.text text) := by
  cases required : members.require members name with
  | error fault =>
      rw [Members.textField, Members.field, required] at read
      cases read
  | ok value =>
      rw [Members.textField, Members.field, required] at read
      rw [get?_of_require required]
      cases value with
      | text => cases read; rfl
      | _ => cases read

end Members

namespace NodeTypes

def KeepLevel (types : NodeTypes) : Prop :=
  ∀ name style, Index.get? name types = some style →
    Instruction.keepsLevel.allKeepLevel style.layout = true

end NodeTypes

namespace Tree

def Breaks (tree : Tree) : Prop := ∃ text, tree = .text text ∧ ¬ OneLine text

theorem flat_text {text : String} (oneLine : OneLine text) :
    ¬ (Tree.text text).Occurs Breaks := by
  intro occurs
  cases occurs with
  | here breaks =>
      obtain ⟨_, same, broken⟩ := breaks
      cases same
      exact broken oneLine

theorem flat_null : ¬ Tree.null.Occurs Breaks := by
  intro occurs
  cases occurs with
  | here breaks =>
      obtain ⟨_, same, -⟩ := breaks
      cases same

theorem flat_list {items : List Tree} (each : ∀ item ∈ items, ¬ item.Occurs Breaks) :
    ¬ (Tree.list items).Occurs Breaks := by
  intro occurs
  cases occurs with
  | here breaks =>
      obtain ⟨_, same, -⟩ := breaks
      cases same
  | item member occurs => exact each _ member occurs

theorem flat_node {typeName : String} {fields : List (String × Tree)} (distinct : Distinct fields)
    (named : OneLine typeName) (each : ∀ field ∈ fields, ¬ field.2.Occurs Breaks) :
    ¬ (node typeName fields).Occurs Breaks := by
  intro occurs
  cases occurs with
  | here breaks =>
      obtain ⟨_, same, -⟩ := breaks
      cases same
  | @field _ name value found occurs =>
      have found : Index.get? name (nodeMembers typeName fields) = some value := found
      rw [get?_node distinct] at found
      rcases List.mem_cons.mp (Index.mem_of_get? found) with isType | member
      · cases isType
        exact flat_text named occurs
      · exact each _ member occurs

variable {types : NodeTypes} {tree : Tree}

theorem whole_view (tree : Tree) : (view types tree).whole = tree.draw types := by
  cases tree <;> rfl

theorem drawItems_eq (items : List Tree) :
    draw.drawItems types items = items.map (draw types) := by
  induction items with
  | nil => rfl
  | cons item rest ih => rw [draw.drawItems, ih, List.map_cons]

theorem settled_members (types : NodeTypes) {members : Members} (flat : ¬ (record members).Occurs Breaks)
    (each : ∀ name value, Index.get? name members = some value →
      (view types value).whole.Settles ∧ ∀ item ∈ (view types value).items, item.Settles) :
    Instruction.Scope.Settled ⟨members, draw.viewMembers types members⟩ := by
  have viewed {name : String} {found : FieldView}
      (required : members.require (draw.viewMembers types members) name = .ok found) :
      found.whole.Settles ∧ ∀ item ∈ found.items, item.Settles := by
    have here := Members.get?_of_require required
    rw [get?_viewMembers] at here
    obtain ⟨value, held, rfl⟩ := Option.map_eq_some_iff.mp here
    exact each name value held
  constructor
  · intro name text read
    by_contra broken
    exact flat (.field (Members.get?_of_textField read) (.here ⟨text, rfl, broken⟩))
  · exact fun name found required => (viewed required).1
  · exact fun name found required => (viewed required).2

theorem settles_view (keep : types.KeepLevel) (flat : ¬ tree.Occurs Breaks) :
    (view types tree).whole.Settles ∧ ∀ item ∈ (view types tree).items, item.Settles := by
  induction tree using parts_induction with
  | null => exact ⟨Drawing.settles_done, nofun⟩
  | bool value => exact ⟨Drawing.settles_write (Text.oneLine_bool value), nofun⟩
  | number value => exact ⟨Drawing.settles_write (Text.oneLine_number value), nofun⟩
  | text value =>
      refine ⟨Drawing.settles_write ?_, nofun⟩
      by_contra broken
      exact flat (.here ⟨value, rfl, broken⟩)
  | list items ih =>
      have each : ∀ drawing ∈ draw.drawItems types items, drawing.Settles := by
        rw [drawItems_eq]
        intro drawing member
        obtain ⟨item, isItem, rfl⟩ := List.mem_map.mp member
        rw [← whole_view]
        exact (ih item isItem fun occurs => flat (.item isItem occurs)).1
      exact ⟨Drawing.settles_separated (Drawing.settles_write (by decide)) each, each⟩
  | record members ih =>
      refine ⟨?_, nofun⟩
      have settled := settled_members types flat fun name value found =>
        ih (name, value) (Index.mem_of_get? found) fun occurs => flat (.field found occurs)
      rw [whole_view, draw]
      split
      next fault _ => exact Drawing.settles_stop fault
      next name style resolved =>
        obtain ⟨-, known⟩ := resolve_ok_iff.mp resolved
        exact Instruction.settles_drawAll settled style.layout (keep name style known)

theorem settles_draw (keep : types.KeepLevel) (flat : ¬ tree.Occurs Breaks) :
    (tree.draw types).Settles := by
  rw [← whole_view]
  exact (settles_view keep flat).1

theorem unparse_ok_iff {unit text : String} :
    tree.unparse types unit = .ok text ↔
      (tree.draw types).fault = none ∧
        ((Writer.start unit).applyAll (tree.draw types).steps).out = text := by
  simp only [unparse, write, Writer.carry]
  cases (tree.draw types).fault <;> simp

theorem unparse_error_iff {unit : String} {fault : TreeFault} :
    tree.unparse types unit = .error fault ↔ (tree.draw types).fault = some fault := by
  simp only [unparse, write, Writer.carry]
  cases (tree.draw types).fault <;> simp

/-- What is written by itself is written anywhere else, moved to the right. -/
theorem carry_further (keep : types.KeepLevel) (flat : ¬ tree.Occurs Breaks) {unit text : String}
    (unbroken : OneLine unit) (level : Nat) (before : String)
    (written : tree.unparse types unit = .ok text) :
    ∃ pending,
      (Writer.start unit).carry (tree.draw types) = (none, ⟨text, unit, 0, pending⟩) ∧
      (Writer.mk before unit level false).carry (tree.draw types) =
        (none, ⟨before ++ Writer.indented unit level text, unit, level, pending⟩) := by
  obtain ⟨whole, out⟩ := unparse_ok_iff.mp written
  have balanced := settles_draw keep flat whole
  obtain ⟨pending, ended⟩ : ∃ pending,
      (Writer.start unit).applyAll (tree.draw types).steps = ⟨text, unit, 0, pending⟩ := by
    have sameUnit := (Writer.start unit).unit_applyAll (tree.draw types).steps
    have sameLevel := balanced.level_applyAll (Writer.start unit)
    generalize (Writer.start unit).applyAll (tree.draw types).steps = writer at out sameUnit sameLevel
    obtain ⟨_, _, _, pending⟩ := writer
    cases out
    cases sameUnit
    cases sameLevel
    exact ⟨pending, rfl⟩
  have unbrokenStart : OneLine (Writer.start unit).unit := unbroken
  refine ⟨pending, ?_, ?_⟩
  · rw [Writer.carry, whole, ended]
  · rw [Writer.carry, whole, ← Writer.deepen_start, balanced.applyAll_deepen unbrokenStart, ended]
    rfl

end Tree

end Parlance
