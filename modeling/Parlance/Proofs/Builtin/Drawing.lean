import Parlance.Proofs.Builtin.Lexicon
import Parlance.Proofs.Builtin.Written
import Parlance.Proofs.Node.Drawing
import Parlance.Proofs.Node.Inks

/-! Expressions and statements are drawn as the tokens that they are written as. -/

namespace Parlance.Builtin

open Drawing (mark separated Inks)
open Lexicon (IsClass)

variable {source sugar : Bool} {unit : String} {form : Form} {part : Part} {level : Nat}
  {types : NodeTypes} {tree : Tree} {tokens : List Token} {word : String}

structure Styles (types : NodeTypes) : Prop where
  expressions : ∀ name style, Index.get? name expressionTypes = some style →
    Index.get? name types = some style
  statements : ∀ name style, Index.get? name statementTypes = some style →
    Index.get? name types = some style

/-- What is drawn of arguments, which are no tree of their own. -/
def Form.drawing (types : NodeTypes) : Form → Tree → Drawing
  | .arguments, tree =>
      separated (mark (.write ", ")) (Tree.draw.drawItems types (tree.list?.getD []))
  | .primary, tree | .suffixed, tree | .tier _, tree | .assignment, tree => tree.draw types

theorem inks_class {kind text : String} (reads : (lexicon source).Reads (.hard kind text))
    (isClass : IsClass kind) : Inks unit level (mark (.write text)) [.hard kind text] := by
  obtain ⟨first, more, chars, formed⟩ := reads.formed isClass
  refine .write (Token.join_singleton _) ?_
  simp only [Mark.numeral?, chars, List.head?_cons, Option.any_some, Token.numerals,
    List.filterMap_cons, List.filterMap_nil, Token.numeral?]
  cases formed with
  | number isNumber digit => simp [isNumber, digit]
  | string isString quotes =>
      rw [isString]
      rcases quotes with rfl | rfl <;> rfl
  | word start _ classified =>
      have none : kind ≠ Lexicon.numberClass := by
        rintro rfl
        simp only [Lexicon.classify] at classified
        split at classified
        next literal =>
          have free : (lexicon source).isLiteral Lexicon.numberClass = false := by
            rw [lexicon_eq]
            cases source <;> decide
          cases classified
          rw [free] at literal
          cases literal
        next => exact absurd (Token.hard.inj classified).1 (by decide)
      simp [none, Lexeme.isDigit_of_isWordStart start]

theorem inks_literal (plain : (Mark.write word).numeral?.toList = Token.numerals [.literal word]) :
    Inks unit level (mark (.write word)) [.literal word] :=
  .write (Token.join_singleton _) plain

theorem inks_space : Inks unit level (mark (.write " ")) [.soft " "] :=
  .write (by decide) (by decide)

theorem inks_comma : Inks unit level (mark (.write ", ")) comma :=
  .write (by decide) (by decide)

theorem inks_operation {left right : Drawing} {before after : List Token}
    (plain : (Mark.write word).numeral?.toList = Token.numerals [.literal word])
    (inks : Inks unit level left before) (inksToo : Inks unit level right after) :
    Inks unit level
      (left ++ (mark (.write " ") ++ (mark (.write word) ++ (mark (.write " ") ++ right))))
      (before ++ spaced word ++ after) := by
  rw [List.append_assoc]
  exact inks.append (inks_space.append ((inks_literal plain).append (inks_space.append inksToo)))

theorem style_of_level {n : Nat} {level : Expressions.BinaryLevel} (here : tiers[n]? = some level) :
    Index.get? level.typeName expressionTypes =
      some (plainType level.typeName operatorLayout) := by
  have within : n < 6 := (List.getElem?_eq_some_iff.mp here).1
  interval_cases n <;> cases here <;> rfl

theorem Formula.arguments_cons {lexicon : Lexicon} {values : List Tree}
    (given : Formula lexicon .arguments (.list values) tokens) :
    ∃ first rest, values = first :: rest := by
  cases given with
  | argument | nextArgument => exact ⟨_, _, rfl⟩

theorem inks_node {typeName : String} {fields : List (String × Tree)} {style : NodeType}
    (known : Index.get? typeName types = some style) (distinct : Tree.Distinct fields)
    (inks : Inks unit level
      (Instruction.draw.drawAll (Tree.scope types typeName fields) style.layout) tokens) :
    Inks unit level (Tree.draw types (.node typeName fields)) tokens := by
  rwa [Tree.draw_node distinct known]

theorem inks_identifier {name : String} (styles : Styles types)
    (reads : (lexicon source).Reads (.hard Lexicon.identifierClass name)) :
    Inks unit level (Tree.draw types (identifier name))
      [.hard Lexicon.identifierClass name] := by
  refine inks_node (styles.expressions _ _ rfl) (.one (by decide)) ?_
  simp only [plainType, Instruction.draw.drawAll, Trail.append_done]
  rw [Tree.draw_text (.one (by decide)) rfl]
  exact inks_class reads (by decide)

theorem Formula.inks (formula : Formula (lexicon source) form tree tokens) (styles : Styles types)
    (level : Nat) : Inks unit level (form.drawing types tree) tokens := by
  have drawn {typeName : String} {fields : List (String × Tree)} {style : NodeType}
      {tokens : List Token} (known : Index.get? typeName expressionTypes = some style)
      (distinct : Tree.Distinct fields)
      (inks : Inks unit level
        (Instruction.draw.drawAll (Tree.scope types typeName fields) style.layout) tokens) :
      Inks unit level (Tree.draw types (.node typeName fields)) tokens :=
    inks_node (styles.expressions _ _ known) distinct inks
  induction formula with
  | number reads =>
      refine drawn rfl (.two (by decide)) ?_
      simp only [plainType, Instruction.draw.drawAll, Trail.append_done]
      rw [Tree.draw_text (.two (by decide)) rfl]
      exact inks_class reads (by decide)
  | string reads =>
      refine drawn rfl (.one (by decide)) ?_
      simp only [plainType, Instruction.draw.drawAll, Trail.append_done]
      rw [Tree.draw_text (.one (by decide)) rfl]
      exact inks_class reads (by decide)
  | boolean isBoolean =>
      refine drawn rfl (.one (by decide)) ?_
      simp only [plainType, Instruction.draw.drawAll, Trail.append_done]
      rw [Tree.draw_field (.one (by decide)) rfl]
      simp only [List.mem_cons, List.not_mem_nil, or_false] at isBoolean
      rcases isBoolean with rfl | rfl
      · exact inks_literal (by decide)
      · exact inks_literal (by decide)
  | null =>
      refine drawn rfl .none ?_
      exact inks_literal (by decide)
  | identifier reads => exact inks_identifier styles reads
  | parenthesized _ ih =>
      refine drawn rfl (.one (by decide)) ?_
      simp only [plainType, Instruction.draw.drawAll, Trail.append_done]
      rw [Tree.draw_field (.one (by decide)) rfl]
      exact (inks_literal (by decide)).append (ih.append (inks_literal (by decide)))
  | callWithout _ ih =>
      refine drawn rfl (.two (by decide)) ?_
      simp only [plainType, Instruction.draw.drawAll, Trail.append_done]
      rw [Tree.draw_field (.two (by decide)) rfl, Tree.draw_items (.two (by decide)) rfl]
      exact ih.append ((inks_literal (by decide)).append (inks_literal (by decide)))
  | call _ _ ih ihArguments =>
      refine drawn rfl (.two (by decide)) ?_
      simp only [plainType, Instruction.draw.drawAll, Trail.append_done]
      rw [Tree.draw_field (.two (by decide)) rfl, Tree.draw_items (.two (by decide)) rfl,
        List.append_assoc]
      exact ih.append ((inks_literal (by decide)).append
        (ihArguments.append (inks_literal (by decide))))
  | member _ reads ih =>
      refine drawn rfl (.three (by decide)) ?_
      simp only [plainType, Instruction.draw.drawAll, Trail.append_done]
      rw [Tree.draw_field (.three (by decide)) rfl, Tree.draw_ifTrue (.three (by decide)) rfl]
      simp only [Bool.false_eq_true, if_false, Instruction.draw.drawAll, Trail.append_done]
      rw [Tree.draw_field (.three (by decide)) rfl]
      exact ih.append ((inks_literal (by decide)).append (inks_identifier styles reads))
  | index _ _ ih ihInner =>
      refine drawn rfl (.three (by decide)) ?_
      simp only [plainType, Instruction.draw.drawAll, Trail.append_done]
      rw [Tree.draw_field (.three (by decide)) rfl, Tree.draw_ifTrue (.three (by decide)) rfl,
        List.append_assoc]
      simp only [if_true, Instruction.draw.drawAll, Trail.append_done]
      rw [Tree.draw_field (.three (by decide)) rfl]
      exact ih.append ((inks_literal (by decide)).append
        (ihInner.append (inks_literal (by decide))))
  | argument _ ih => exact ih
  | nextArgument _ later ih ihLater =>
      obtain ⟨first, rest, rfl⟩ := later.arguments_cons
      rw [List.append_assoc]
      exact ih.append (inks_comma.append ihLater)
  | prefixed isPrefix _ ih =>
      refine drawn rfl (.two (by decide)) ?_
      simp only [plainType, Instruction.draw.drawAll, Trail.append_done]
      rw [Tree.draw_text (.two (by decide)) rfl, Tree.draw_field (.two (by decide)) rfl]
      have all : ∀ word ∈ prefixOperators,
          (Mark.write word).numeral?.toList = Token.numerals [.literal word] := by decide
      exact (inks_literal (all _ isPrefix)).append ih
  | binary here isOperator _ _ ih ihRight =>
      refine drawn (style_of_level here) (.three (by decide)) ?_
      simp only [plainType, operatorLayout, Instruction.draw.drawAll, Trail.append_done]
      rw [Tree.draw_field (.three (by decide)) rfl, Tree.draw_text (.three (by decide)) rfl,
        Tree.draw_field (.three (by decide)) rfl]
      have all : ∀ level ∈ tiers, ∀ word ∈ level.operators,
          (Mark.write word).numeral?.toList = Token.numerals [.literal word] := by decide
      exact inks_operation (all _ (List.mem_of_getElem? here) _ isOperator) ih ihRight
  | assigned isOperator _ _ ih ihSource =>
      refine drawn rfl (.three (by decide)) ?_
      simp only [plainType, operatorLayout, Instruction.draw.drawAll, Trail.append_done]
      rw [Tree.draw_field (.three (by decide)) rfl, Tree.draw_text (.three (by decide)) rfl,
        Tree.draw_field (.three (by decide)) rfl]
      have all : ∀ word ∈ assignmentOperators,
          (Mark.write word).numeral?.toList = Token.numerals [.literal word] := by decide
      exact inks_operation (all _ isOperator) ih ihSource
  | suffixed _ ih | unprefixed _ ih | unassigned _ ih => exact ih
  | lifted _ _ ih => exact ih

def Part.drawing (types : NodeTypes) : Part → Tree → Drawing
  | .statements, tree =>
      separated (mark .newline) (Tree.draw.drawItems types (tree.list?.getD []))
  | .declarators, tree =>
      separated (mark (.write ", ")) (Tree.draw.drawItems types (tree.list?.getD []))
  | .statement, tree | .declarator, tree => tree.draw types

theorem Written.list_cons {lexicon : Lexicon} (listed : part = .statements ∨ part = .declarators)
    (written : Written lexicon unit sugar part level tree tokens) :
    ∃ first rest, tree = .list (first :: rest) := by
  cases written with
  | statement | nextStatement | declarator | nextDeclarator => exact ⟨_, _, rfl⟩
  | _ => rcases listed with other | other <;> cases other

theorem inks_guarded {opening before later : Drawing} {test more : List Token}
    (opens : Inks unit level opening [.literal word, .soft " ", .literal "("])
    (inks : Inks unit level before test) (inksToo : Inks unit level later more) :
    Inks unit level (opening ++ (before ++ (mark (.write ") ") ++ later)))
      (guard word test ++ more) := by
  have closes : Inks unit level (mark (.write ") ")) [.literal ")", .soft " "] :=
    .write (by decide) (by decide)
  have same : guard word test ++ more =
      [.literal word, .soft " ", .literal "("] ++ (test ++ ([.literal ")", .soft " "] ++ more)) := by
    simp [guard]
  rw [same]
  exact opens.append (inks.append (closes.append inksToo))

theorem isNull_eq_false (some : tree ≠ .null) : tree.isNull = false := by
  cases tree with
  | null => exact absurd rfl some
  | _ => rfl

theorem Written.inks (written : Written (lexicon source) unit sugar part level tree tokens)
    (styles : Styles types)
    (sweet : sugar = true → Index.get? "UnlessStatement" types = some Unless.nodeType) :
    Inks unit level (part.drawing types tree) tokens := by
  have drawn {typeName : String} {fields : List (String × Tree)} {style : NodeType} {level : Nat}
      {tokens : List Token} (known : Index.get? typeName statementTypes = some style)
      (distinct : Tree.Distinct fields)
      (inks : Inks unit level
        (Instruction.draw.drawAll (Tree.scope types typeName fields) style.layout) tokens) :
      Inks unit level (Tree.draw types (.node typeName fields)) tokens :=
    inks_node (styles.statements _ _ known) distinct inks
  have semicolon {level : Nat} : Inks unit level (mark (.write ";")) [.literal ";"] :=
    inks_literal (by decide)
  induction written with
  | emptyBlock =>
      refine drawn rfl (.one (by decide)) ?_
      simp only [plainType, Instruction.draw.drawAll, Trail.append_done]
      rw [Tree.draw_block (.one (by decide)) rfl]
      exact .write (by decide) (by decide)
  | block body ih =>
      obtain ⟨first, rest, ⟨⟩⟩ := body.list_cons (.inl rfl)
      refine drawn rfl (.one (by decide)) ?_
      simp only [plainType, Instruction.draw.drawAll, Trail.append_done]
      rw [Tree.draw_block (.one (by decide)) rfl]
      exact .block (List.cons_ne_nil _ _) ih
  | declaration isKind _ ih =>
      refine drawn rfl (.two (by decide)) ?_
      simp only [plainType, Instruction.draw.drawAll, Trail.append_done]
      rw [Tree.draw_text (.two (by decide)) rfl, Tree.draw_items (.two (by decide)) rfl]
      have all : ∀ word ∈ declarationKinds,
          (Mark.write word).numeral?.toList = Token.numerals [.literal word] := by decide
      exact (inks_literal (all _ isKind)).append (inks_space.append (ih.append semicolon))
  | conditional tested _ ih =>
      refine drawn rfl branch_distinct ?_
      simp only [plainType, Instruction.draw.drawAll, Trail.append_done]
      rw [Tree.draw_field branch_distinct rfl, Tree.draw_field branch_distinct rfl,
        Tree.draw_unlessNull branch_distinct rfl, Tree.isNull, if_pos rfl, Trail.append_done]
      exact inks_guarded (.write (by decide) (by decide))
        (tested.inks styles _) ih
  | conditionalElse tested _ otherwise ih ihElse =>
      refine drawn rfl branch_distinct ?_
      simp only [plainType, Instruction.draw.drawAll, Trail.append_done]
      rw [Tree.draw_field branch_distinct rfl, Tree.draw_field branch_distinct rfl,
        Tree.draw_unlessNull branch_distinct rfl, isNull_eq_false otherwise.ne_null,
        if_neg Bool.false_ne_true, List.append_assoc, List.append_assoc]
      simp only [Instruction.draw.drawAll, Trail.append_done]
      rw [Tree.draw_field branch_distinct rfl]
      exact inks_guarded (.write (by decide) (by decide)) (tested.inks styles _)
        (ih.append ((Inks.write (by decide) (by decide)).append ihElse))
  | loop tested _ ih =>
      refine drawn rfl guarded_distinct ?_
      simp only [plainType, Instruction.draw.drawAll, Trail.append_done]
      rw [Tree.draw_field guarded_distinct rfl, Tree.draw_field guarded_distinct rfl]
      exact inks_guarded (.write (by decide) (by decide))
        (tested.inks styles _) ih
  | inverted isSugar tested _ ih =>
      refine inks_node (sweet isSugar) guarded_distinct ?_
      simp only [Unless.nodeType, Instruction.draw.drawAll, Trail.append_done]
      rw [Tree.draw_field guarded_distinct rfl, Tree.draw_field guarded_distinct rfl]
      exact inks_guarded (.write (by decide) (by decide))
        (tested.inks styles _) ih
  | returning =>
      refine drawn rfl (.one (by decide)) ?_
      simp only [plainType, Instruction.draw.drawAll, Trail.append_done]
      rw [Tree.draw_unlessNull (.one (by decide)) rfl, Tree.isNull, if_pos rfl]
      exact (inks_literal (by decide)).append semicolon
  | returningValue value =>
      refine drawn rfl (.one (by decide)) ?_
      simp only [plainType, Instruction.draw.drawAll, Trail.append_done]
      rw [Tree.draw_unlessNull (.one (by decide)) rfl, isNull_eq_false value.ne_null,
        if_neg Bool.false_ne_true]
      simp only [Instruction.draw.drawAll, Trail.append_done]
      rw [Tree.draw_field (.one (by decide)) rfl, Trail.append_assoc]
      exact (inks_literal (by decide)).append
        (inks_space.append ((value.inks styles _).append semicolon))
  | empty =>
      refine drawn rfl .none ?_
      exact semicolon
  | expression value =>
      refine drawn rfl (.one (by decide)) ?_
      simp only [plainType, Instruction.draw.drawAll, Trail.append_done]
      rw [Tree.draw_field (.one (by decide)) rfl]
      exact (value.inks styles _).append semicolon
  | statement _ ih | declarator _ ih => exact ih
  | nextStatement _ later ih ihLater =>
      obtain ⟨first, rest, ⟨⟩⟩ := later.list_cons (.inl rfl)
      exact ih.nextLine ihLater
  | bareDeclarator reads =>
      refine drawn rfl (.two (by decide)) ?_
      simp only [plainType, Instruction.draw.drawAll, Trail.append_done]
      rw [Tree.draw_field (.two (by decide)) rfl, Tree.draw_unlessNull (.two (by decide)) rfl,
        Tree.isNull, if_pos rfl, Trail.append_done]
      exact inks_identifier styles reads
  | initialized reads value =>
      refine drawn rfl (.two (by decide)) ?_
      simp only [plainType, Instruction.draw.drawAll, Trail.append_done]
      rw [Tree.draw_field (.two (by decide)) rfl, Tree.draw_unlessNull (.two (by decide)) rfl,
        isNull_eq_false value.ne_null, if_neg Bool.false_ne_true]
      simp only [Instruction.draw.drawAll, Trail.append_done]
      rw [Tree.draw_field (.two (by decide)) rfl]
      have equals {level : Nat} : Inks unit level (mark (.write " = ")) (spaced "=") :=
        .write (by decide) (by decide)
      exact (inks_identifier styles reads).append (equals.append (value.inks styles _))
  | nextDeclarator _ later ih ihLater =>
      obtain ⟨first, rest, ⟨⟩⟩ := later.list_cons (.inr rfl)
      rw [List.append_assoc]
      exact ih.append (inks_comma.append ihLater)

theorem draw_program (styles : Styles types) (values : List Tree) :
    (program values).draw types = Part.drawing types .statements (.list values) := by
  rw [program, Tree.draw_node (.one (by decide)) (styles.statements _ _ rfl)]
  simp only [plainType, Instruction.draw.drawAll, Trail.append_done]
  rw [Tree.draw_lines (.one (by decide)) rfl]
  rfl

theorem WrittenProgram.unparsed (written : WrittenProgram (lexicon source) unit sugar tree tokens)
    (styles : Styles types)
    (sweet : sugar = true → Index.get? "UnlessStatement" types = some Unless.nodeType) :
    tree.unparse types unit = .ok (Token.join tokens) := by
  cases written with
  | empty =>
      rw [Tree.unparse, Tree.write, draw_program styles]
      rfl
  | statements body =>
      refine Inks.unparsed ?_
      rw [draw_program styles]
      exact body.inks styles sweet

theorem WrittenProgram.numbers (written : WrittenProgram (lexicon source) unit sugar tree tokens)
    (styles : Styles types)
    (sweet : sugar = true → Index.get? "UnlessStatement" types = some Unless.nodeType) :
    (tree.draw types).steps.filterMap Mark.numeral? = Token.numerals tokens := by
  cases written with
  | empty =>
      rw [draw_program styles]
      rfl
  | statements body =>
      rw [draw_program styles]
      exact (body.inks styles sweet).numbers

/-- However a program was written, it has the same numbers. -/
theorem WrittenProgram.numerals_eq {more : List Token}
    (written : WrittenProgram (lexicon source) unit sugar tree tokens)
    (writtenToo : WrittenProgram (lexicon source) unit sugar tree more)
    (styles : Styles types)
    (sweet : sugar = true → Index.get? "UnlessStatement" types = some Unless.nodeType) :
    Token.numerals tokens = Token.numerals more := by
  rw [← written.numbers styles sweet, writtenToo.numbers styles sweet]

end Parlance.Builtin
