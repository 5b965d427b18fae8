import Parlance.Proofs.Builtin.Drawing
import Parlance.Proofs.Node.Translating

/-! Translating a program of `sugar`: expressions stay the same, `unless` becomes `if` with the test
negated, and no number is added or lost. -/

namespace Parlance.Builtin

open Token (numerals numerals_literal)

variable {source : Bool} {unit : String} {form : Form} {part : Part} {level : Nat}
  {types : NodeTypes} {tree : Tree} {tokens : List Token}

theorem identifier_translated (styles : Styles types) (name : String) :
    (identifier name).translate types = .ok (identifier name) :=
  Tree.translate_same (styles.expressions _ _ rfl) rfl (.one (by decide)) (by simp [Tree.translate])

theorem Formula.translated {lexicon : Lexicon} (formula : Formula lexicon form tree tokens)
    (styles : Styles types) : tree.translate types = .ok tree := by
  have plain {typeName : String} {fields : List (String × Tree)} {style : NodeType}
      (known : Index.get? typeName expressionTypes = some style)
      (plain : style.translation = none) (distinct : Tree.Distinct fields)
      (each : ∀ field ∈ fields, field.2.translate types = .ok field.2) :
      (Tree.node typeName fields).translate types = .ok (Tree.node typeName fields) :=
    Tree.translate_same (styles.expressions _ _ known) plain distinct each
  have text (value : String) : (Tree.text value).translate types = .ok (.text value) := rfl
  have bool (value : Bool) : (Tree.bool value).translate types = .ok (.bool value) := rfl
  induction formula with
  | @number raw =>
      refine plain rfl rfl (.two (by decide)) ?_
      cases parseNumber? ((Tree.text raw).text?.getD "") <;> simp [Tree.translate]
  | string => exact plain rfl rfl (.one (by decide)) (by simp [text])
  | boolean => exact plain rfl rfl (.one (by decide)) (by simp [bool])
  | null => exact plain rfl rfl .none (List.forall_mem_nil _)
  | identifier => exact identifier_translated styles _
  | parenthesized _ ih => exact plain rfl rfl (.one (by decide)) (by simp [ih])
  | callWithout _ ih =>
      exact plain rfl rfl (.two (by decide)) (by simp [ih, Tree.translate_nil])
  | call _ _ ih ihArguments => exact plain rfl rfl (.two (by decide)) (by simp [ih, ihArguments])
  | member _ _ ih =>
      exact plain rfl rfl (.three (by decide)) (by simp [ih, identifier_translated styles, bool])
  | index _ _ ih ihInner => exact plain rfl rfl (.three (by decide)) (by simp [ih, ihInner, bool])
  | argument _ ih => exact Tree.translate_cons ih Tree.translate_nil
  | nextArgument _ _ ih ihLater => exact Tree.translate_cons ih ihLater
  | prefixed _ _ ih => exact plain rfl rfl (.two (by decide)) (by simp [ih, text])
  | binary here _ _ _ ih ihRight =>
      exact plain (style_of_level here) rfl (.three (by decide)) (by simp [ih, ihRight, text])
  | assigned _ _ _ ih ihSource =>
      exact plain rfl rfl (.three (by decide)) (by simp [ih, ihSource, text])
  | suffixed _ ih | unprefixed _ ih | lifted _ _ ih | unassigned _ ih => exact ih

def negated (test : Tree) : Tree :=
  .node "UnaryExpression" [("operator", .text "!"),
    ("argument", .node "ParenthesizedExpression" [("expression", test)])]

theorem Formula.negated {lexicon : Lexicon} (formula : Formula lexicon .assignment tree tokens) :
    Formula lexicon .assignment (negated tree)
      (.literal "!" :: (.literal "(" :: tokens ++ [.literal ")"])) :=
  .unassigned (.lift (.prefixed (by decide) (.unprefixed (.suffixed (.parenthesized formula))))
    (Nat.le_refl 6))

theorem unless_translated {test body result : Tree}
    (known : Index.get? "UnlessStatement" types = some Unless.nodeType)
    (same : test.translate types = .ok test) (sameBody : body.translate types = .ok result) :
    (unlessNode test body).translate types = .ok (branch (negated test) result .null) := by
  have tested := @Tree.fill_translated types "UnlessStatement" _ "test" test
    (@guarded_distinct test body) (by decide) rfl
  have avoided := @Tree.fill_translated types "UnlessStatement" _ "body" body
    (@guarded_distinct test body) (by decide) rfl
  rw [unlessNode, Tree.translate_template known rfl guarded_distinct]
  simp only [Template.fill, Template.fill.fillFields, Unless.negation]
  simp only [Template.fill] at tested avoided
  rw [tested, avoided, same, sameBody]
  rfl

theorem numerals_guard {word : String} (other : word ≠ Lexicon.numberClass)
    (test : List Token) : numerals (guard word test) = numerals test := by
  simp (disch := decide) [guard, numerals_literal other, numerals_literal]

theorem Written.unchanged {lexicon : Lexicon}
    (written : Written lexicon unit false part level tree tokens) (styles : Styles types) :
    tree.translate types = .ok tree := by
  have plain {typeName : String} {fields : List (String × Tree)} {style : NodeType}
      (known : Index.get? typeName statementTypes = some style)
      (plain : style.translation = none) (distinct : Tree.Distinct fields)
      (each : ∀ field ∈ fields, field.2.translate types = .ok field.2) :
      (Tree.node typeName fields).translate types = .ok (Tree.node typeName fields) :=
    Tree.translate_same (styles.statements _ _ known) plain distinct each
  have null : Tree.null.translate types = .ok .null := rfl
  have text (value : String) : (Tree.text value).translate types = .ok (.text value) := rfl
  have expression {form : Form} {tree : Tree} {tokens : List Token}
      (formula : Formula lexicon form tree tokens) : tree.translate types = .ok tree :=
    formula.translated styles
  induction written with
  | emptyBlock => exact plain rfl rfl (.one (by decide)) (by simp [Tree.translate_nil])
  | block _ ih => exact plain rfl rfl (.one (by decide)) (by simp [ih])
  | declaration _ _ ih => exact plain rfl rfl (.two (by decide)) (by simp [ih, text])
  | conditional tested _ ih =>
      exact plain rfl rfl branch_distinct (by simp [expression tested, ih, null])
  | conditionalElse tested _ _ ih ihElse =>
      exact plain rfl rfl branch_distinct (by simp [expression tested, ih, ihElse])
  | loop tested _ ih => exact plain rfl rfl guarded_distinct (by simp [expression tested, ih])
  | returning => exact plain rfl rfl (.one (by decide)) (by simp [null])
  | returningValue value => exact plain rfl rfl (.one (by decide)) (by simp [expression value])
  | empty => exact plain rfl rfl .none (List.forall_mem_nil _)
  | expression value => exact plain rfl rfl (.one (by decide)) (by simp [expression value])
  | inverted sweet => cases sweet
  | statement _ ih | declarator _ ih => exact Tree.translate_cons ih Tree.translate_nil
  | nextStatement _ _ ih ihLater | nextDeclarator _ _ ih ihLater =>
      exact Tree.translate_cons ih ihLater
  | bareDeclarator =>
      exact plain rfl rfl (.two (by decide)) (by simp [identifier_translated styles, null])
  | initialized _ value =>
      exact plain rfl rfl (.two (by decide))
        (by simp [identifier_translated styles, expression value])

theorem Written.translated (written : Written (lexicon source) unit true part level tree tokens)
    (styles : Styles types)
    (sweet : Index.get? "UnlessStatement" types = some Unless.nodeType) :
    ∃ result more, tree.translate types = .ok result ∧
      Written (lexicon source) unit false part level result more ∧
      numerals more = numerals tokens := by
  have plain {typeName : String} {fields others : List (String × Tree)} {style : NodeType}
      (known : Index.get? typeName statementTypes = some style)
      (plain : style.translation = none) (distinct : Tree.Distinct fields)
      (each : ∀ field ∈ fields, ∃ result, field.2.translate types = .ok result)
      (same : Tree.translatedFields types fields = others) :
      (Tree.node typeName fields).translate types = .ok (.node typeName others) := by
    rw [Tree.translate_node (styles.statements _ _ known) plain distinct each, same]
  have null : Tree.null.translate types = .ok .null := rfl
  have text (value : String) : (Tree.text value).translate types = .ok (.text value) := rfl
  have expression {form : Form} {tree : Tree} {tokens : List Token}
      (formula : Formula (lexicon source) form tree tokens) : tree.translate types = .ok tree :=
    formula.translated styles
  induction written with
  | emptyBlock =>
      refine ⟨_, _, plain rfl rfl (.one (by decide)) ?_ rfl, .emptyBlock, rfl⟩
      simp [Tree.translate_nil]
  | block _ ih =>
      obtain ⟨result, more, same, written, numbers⟩ := ih
      obtain ⟨first, rest, rfl⟩ := written.list_cons (.inl rfl)
      refine ⟨_, _, plain rfl rfl (.one (by decide)) (by simp [same]) ?_, .block written, ?_⟩
      · simp [Tree.translatedFields, Tree.translated_eq same]
      · simp (disch := decide) [lineBreak, numerals_literal, numbers]
  | declaration isKind _ ih =>
      obtain ⟨result, more, same, written, numbers⟩ := ih
      obtain ⟨first, rest, rfl⟩ := written.list_cons (.inr rfl)
      have all : ∀ kind ∈ declarationKinds, kind ≠ Lexicon.numberClass := by decide
      refine ⟨_, _, plain rfl rfl (.two (by decide)) (by simp [same, text]) ?_,
        .declaration isKind written, ?_⟩
      · simp [Tree.translatedFields, Tree.translated_eq same, Tree.translated_eq (text _)]
      · simp (disch := decide) [numerals_literal (all _ isKind), numerals_literal, numbers]
  | conditional tested _ ih =>
      obtain ⟨result, more, same, written, numbers⟩ := ih
      refine ⟨_, _, plain rfl rfl branch_distinct ?_ ?_, .conditional tested written, ?_⟩
      · simp [same, expression tested, null]
      · simp [Tree.translatedFields, Tree.translated_eq same,
          Tree.translated_eq (expression tested), Tree.translated_eq null]
      · simp [numbers]
  | conditionalElse tested _ _ ih ihElse =>
      obtain ⟨result, more, same, written, numbers⟩ := ih
      obtain ⟨resultElse, last, sameElse, writtenElse, numbersElse⟩ := ihElse
      refine ⟨_, _, plain rfl rfl branch_distinct ?_ ?_,
        .conditionalElse tested written writtenElse, ?_⟩
      · simp [same, sameElse, expression tested]
      · simp [Tree.translatedFields, Tree.translated_eq same, Tree.translated_eq sameElse,
          Tree.translated_eq (expression tested)]
      · simp [numbers, numbersElse]
  | loop tested _ ih =>
      obtain ⟨result, more, same, written, numbers⟩ := ih
      refine ⟨_, _, plain rfl rfl guarded_distinct ?_ ?_, .loop tested written, ?_⟩
      · simp [same, expression tested]
      · simp [Tree.translatedFields, Tree.translated_eq same,
          Tree.translated_eq (expression tested)]
      · simp [numbers]
  | inverted _ tested _ ih =>
      obtain ⟨result, more, same, written, numbers⟩ := ih
      refine ⟨_, _, unless_translated sweet (expression tested) same,
        .conditional tested.negated written, ?_⟩
      rw [Token.numerals_append, Token.numerals_append, numbers, numerals_guard (by decide),
        numerals_guard (by decide)]
      simp (disch := decide) [numerals_literal]
  | returning => exact ⟨_, _, plain rfl rfl (.one (by decide)) (by simp [null]) rfl, .returning, rfl⟩
  | returningValue value =>
      refine ⟨_, _, plain rfl rfl (.one (by decide)) ?_ ?_, .returningValue value, rfl⟩
      · simp [expression value]
      · simp [Tree.translatedFields, Tree.translated_eq (expression value)]
  | empty => exact ⟨_, _, plain rfl rfl .none (List.forall_mem_nil _) rfl, .empty, rfl⟩
  | expression value =>
      refine ⟨_, _, plain rfl rfl (.one (by decide)) ?_ ?_, .expression value, rfl⟩
      · simp [expression value]
      · simp [Tree.translatedFields, Tree.translated_eq (expression value)]
  | statement _ ih =>
      obtain ⟨result, more, same, written, numbers⟩ := ih
      exact ⟨_, _, Tree.translate_cons same Tree.translate_nil, .statement written, numbers⟩
  | nextStatement _ _ ih ihLater =>
      obtain ⟨result, more, same, written, numbers⟩ := ih
      obtain ⟨results, last, sameLater, writtenLater, numbersLater⟩ := ihLater
      obtain ⟨first, rest, rfl⟩ := writtenLater.list_cons (.inl rfl)
      refine ⟨_, _, Tree.translate_cons same sameLater, .nextStatement written writtenLater, ?_⟩
      simp [lineBreak, numbers, numbersLater]
  | bareDeclarator reads =>
      refine ⟨_, _, plain rfl rfl (.two (by decide)) ?_ ?_, .bareDeclarator reads, rfl⟩
      · simp [identifier_translated styles, null]
      · simp [Tree.translatedFields, Tree.translated_eq (identifier_translated styles _),
          Tree.translated_eq null]
  | initialized reads value =>
      refine ⟨_, _, plain rfl rfl (.two (by decide)) ?_ ?_, .initialized reads value, rfl⟩
      · simp [identifier_translated styles, expression value]
      · simp [Tree.translatedFields, Tree.translated_eq (identifier_translated styles _),
          Tree.translated_eq (expression value)]
  | declarator _ ih =>
      obtain ⟨result, more, same, written, numbers⟩ := ih
      exact ⟨_, _, Tree.translate_cons same Tree.translate_nil, .declarator written, numbers⟩
  | nextDeclarator _ _ ih ihLater =>
      obtain ⟨result, more, same, written, numbers⟩ := ih
      obtain ⟨results, last, sameLater, writtenLater, numbersLater⟩ := ihLater
      obtain ⟨first, rest, rfl⟩ := writtenLater.list_cons (.inr rfl)
      refine ⟨_, _, Tree.translate_cons same sameLater, .nextDeclarator written writtenLater, ?_⟩
      simp [numbers, numbersLater]

theorem program_translated (styles : Styles types) {values results : List Tree}
    (same : (Tree.list values).translate types = .ok (.list results)) :
    (program values).translate types = .ok (program results) := by
  have translated := Tree.translate_node (styles.statements "Program" _ rfl) rfl
    (.one (by decide) : Tree.Distinct [("body", .list values)]) (by simp [same])
  rwa [Tree.translatedFields, List.map_singleton, Tree.translated_eq same] at translated

theorem WrittenProgram.unchanged {lexicon : Lexicon}
    (written : WrittenProgram lexicon unit false tree tokens) (styles : Styles types) :
    tree.translate types = .ok tree := by
  cases written with
  | empty => exact program_translated styles Tree.translate_nil
  | statements body => exact program_translated styles (body.unchanged styles)

theorem WrittenProgram.translated
    (written : WrittenProgram (lexicon source) unit true tree tokens) (styles : Styles types)
    (sweet : Index.get? "UnlessStatement" types = some Unless.nodeType) :
    ∃ result more, tree.translate types = .ok result ∧
      WrittenProgram (lexicon source) unit false result more ∧
      numerals more = numerals tokens := by
  cases written with
  | empty => exact ⟨_, _, program_translated styles Tree.translate_nil, .empty, rfl⟩
  | statements body =>
      obtain ⟨result, more, same, writtenToo, numbers⟩ := body.translated styles sweet
      obtain ⟨first, rest, rfl⟩ := writtenToo.list_cons (.inl rfl)
      exact ⟨_, _, program_translated styles same, .statements writtenToo, numbers⟩

end Parlance.Builtin
