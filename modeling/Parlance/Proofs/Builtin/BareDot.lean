import Parlance.Proofs.Builtin.Written
import Parlance.Proofs.Token.Rereading

/-! Members of whole numbers. The dot of such a member is written against the digits, which take it
for their own. -/

namespace Parlance.Builtin

open Token (chars clashes clashes_append clashes_cons)

variable {lexicon : Lexicon} {unit : String} {sugar : Bool} {form : Form} {part : Part}
  {level : Nat} {tree object property : Tree} {tokens more : List Token} {typeName : String}
  {fields : List (String × Tree)}

def WholeNumber (tree : Tree) : Prop :=
  ∃ raw, tree = numericLiteral (.text raw) ∧ raw.toList.all Char.isDigit = true

def memberOf (object property : Tree) (computed : Bool) : Tree :=
  .node "MemberExpression"
    [("object", object), ("property", property), ("computed", .bool computed)]

/-- A member, named behind a dot, of a whole number. -/
def TakesDot (tree : Tree) : Prop :=
  ∃ object property, tree = memberOf object property false ∧ WholeNumber object

/-- Somewhere in the tree a member is named behind a dot and a whole number. -/
def BareDot (tree : Tree) : Prop := tree.Occurs TakesDot

theorem numericLiteral_distinct {value raw : Tree} :
    Tree.Distinct [("value", value), ("raw", raw)] := .two (by decide)

theorem memberOf_distinct {computed : Tree} :
    Tree.Distinct [("object", object), ("property", property), ("computed", computed)] :=
  .three (by decide)

theorem memberOf_inj {object' property' : Tree} {computed computed' : Bool}
    (same : memberOf object property computed = memberOf object' property' computed') :
    object = object' ∧ computed = computed' := by
  have fields := (Tree.node_inj memberOf_distinct memberOf_distinct same).2
  have second := Option.some.inj (fields "computed")
  exact ⟨Option.some.inj (fields "object"), Tree.bool.inj second⟩

theorem wholeNumber_literal {raw : String} :
    WholeNumber (numericLiteral (.text raw)) ↔ raw.toList.all Char.isDigit = true := by
  constructor
  · rintro ⟨other, same, digits⟩
    have fields := (Tree.node_inj numericLiteral_distinct numericLiteral_distinct same).2
    have texts := Option.some.inj (fields "raw")
    rwa [Tree.text.inj texts]
  · exact fun digits => ⟨raw, rfl, digits⟩

theorem not_wholeNumber_node (distinct : Tree.Distinct fields)
    (other : typeName ≠ "NumericLiteral") : ¬ WholeNumber (.node typeName fields) := by
  rintro ⟨raw, same, -⟩
  exact Tree.node_ne distinct numericLiteral_distinct other same

theorem takesDot_ofTypes : Tree.OfTypes TakesDot ["MemberExpression"] := by
  rintro _ ⟨object, property, rfl, -⟩
  exact ⟨_, List.mem_singleton_self _, Tree.nodeType?_node memberOf_distinct⟩

theorem bareDot_node (distinct : Tree.Distinct fields) (other : typeName ∉ ["MemberExpression"]) :
    BareDot (.node typeName fields) ↔ ∃ field ∈ fields, BareDot field.2 := by
  rw [BareDot, takesDot_ofTypes.ofNodes.node_iff distinct, or_iff_right]
  · rfl
  · intro takes
    obtain ⟨name, listed, typed⟩ := takesDot_ofTypes _ takes
    rw [Tree.nodeType?_node distinct] at typed
    exact other (Option.some.inj typed ▸ listed)

theorem bareDot_member {computed : Bool} :
    BareDot (memberOf object property computed) ↔
      (computed = false ∧ WholeNumber object) ∨ BareDot object ∨ BareDot property := by
  have here : TakesDot (memberOf object property computed) ↔
      computed = false ∧ WholeNumber object := by
    constructor
    · rintro ⟨object', property', same, whole⟩
      obtain ⟨rfl, rfl⟩ := memberOf_inj same
      exact ⟨rfl, whole⟩
    · rintro ⟨rfl, whole⟩
      exact ⟨object, property, rfl, whole⟩
  have bool : ¬ Tree.Occurs TakesDot (.bool computed) :=
    takesDot_ofTypes.ofNodes.not_bool computed
  rw [BareDot, memberOf, takesDot_ofTypes.ofNodes.node_iff memberOf_distinct]
  simp [← here, memberOf, bool, BareDot]

@[simp] theorem not_bareDot_text (text : String) : ¬ BareDot (.text text) :=
  takesDot_ofTypes.ofNodes.not_text text

@[simp] theorem not_bareDot_bool (value : Bool) : ¬ BareDot (.bool value) :=
  takesDot_ofTypes.ofNodes.not_bool value

@[simp] theorem not_bareDot_null : ¬ BareDot .null := takesDot_ofTypes.ofNodes.not_null

@[simp] theorem bareDot_list (items : List Tree) :
    BareDot (.list items) ↔ ∃ item ∈ items, BareDot item := takesDot_ofTypes.ofNodes.list_iff items

@[simp] theorem not_bareDot_identifier (name : String) : ¬ BareDot (identifier name) := by
  rw [identifier, bareDot_node (.one (by decide)) (by decide)]
  simp

theorem not_bareDot_number (raw : String) : ¬ BareDot (numericLiteral (.text raw)) := by
  have number (value : Number) : ¬ BareDot (.number value) :=
    takesDot_ofTypes.ofNodes.not_number value
  rw [numericLiteral, bareDot_node numericLiteral_distinct (by decide)]
  cases parseNumber? ((Tree.text raw).text?.getD "") <;> simp [number]

theorem clashes_through {token : Token} (plain : token.isWhole = false)
    (apart : token.text.toList.head?.any (· != '.') = true) (rest : List Token) :
    clashes (tokens ++ token :: rest) = (clashes tokens || clashes rest) := by
  rw [clashes_append, clashes_cons plain]
  cases same : token.text.toList with
  | nil => simp [same] at apart
  | cons first more => simpa [same] using apart

theorem clashes_spaced {operator : String} : clashes (tokens ++ spaced operator ++ more) =
    (clashes tokens || clashes more) := by
  rw [List.append_assoc, spaced, List.cons_append, clashes_through rfl (by decide)]
  simp

theorem clashes_comma : clashes (tokens ++ comma ++ more) = (clashes tokens || clashes more) := by
  rw [List.append_assoc, comma, List.cons_append,
    clashes_through (Token.isWhole_literal _) (by decide)]
  simp

theorem ends_node {init : List Token} {last : Token} (plain : last.isWhole = false)
    (apart : last.text.toList.head?.any (· != '.') = true) (distinct : Tree.Distinct fields)
    (other : typeName ≠ "NumericLiteral") :
    ∃ start final, init ++ [last] = start ++ [final] ∧
      final.text.toList.head?.any (· != '.') = true ∧
      (final.isWhole = true ↔ WholeNumber (.node typeName fields)) :=
  ⟨init, last, rfl, apart, by simp [plain, not_wholeNumber_node distinct other]⟩

theorem apart_of_reads {kind text : String} (reads : lexicon.Reads (.hard kind text))
    (isClass : Lexicon.IsClass kind) :
    (Token.hard kind text).text.toList.head?.any (· != '.') = true := by
  obtain ⟨first, more, same, formed⟩ := reads.formed isClass
  rw [Token.text, same, List.head?_cons, Option.any_some, bne_iff_ne]
  rintro rfl
  cases formed with
  | number _ digit => cases digit
  | word start => cases start
  | string _ quotes => exact absurd quotes (by decide)

/-- The last token of a primary with suffixes is a whole number only if that is all there is. -/
theorem Formula.last (formula : Formula lexicon form tree tokens)
    (suffixed : form = .primary ∨ form = .suffixed) :
    ∃ init last, tokens = init ++ [last] ∧ last.text.toList.head?.any (· != '.') = true ∧
      (last.isWhole = true ↔ WholeNumber tree) := by
  induction formula with
  | @number raw reads =>
      refine ⟨[], _, rfl, apart_of_reads reads (by decide), ?_⟩
      rw [wholeNumber_literal]
      simp [Token.isWhole]
  | string reads =>
      exact @ends_node _ _ [] _ (by rfl) (apart_of_reads reads (by decide)) (.one (by decide))
        (by decide)
  | boolean isBoolean =>
      have all : ∀ word ∈ ["true", "false"], word.toList.head?.any (· != '.') = true := by
        decide
      exact @ends_node _ _ [] _ (Token.isWhole_literal _) (all _ isBoolean) (.one (by decide))
        (by decide)
  | null =>
      exact @ends_node _ _ [] _ (Token.isWhole_literal _) (by decide) .none (by decide)
  | identifier reads =>
      exact @ends_node _ _ [] _ (by rfl) (apart_of_reads reads (by decide)) (.one (by decide))
        (by decide)
  | parenthesized =>
      exact ends_node (Token.isWhole_literal _) (by decide) (.one (by decide)) (by decide)
  | suffixed _ ih => exact ih (.inl rfl)
  | @callWithout _ tokens =>
      rw [show tokens ++ [.literal "(", .literal ")"] = tokens ++ [.literal "("] ++ [.literal ")"] by
        simp]
      exact ends_node (Token.isWhole_literal _) (by decide) (.two (by decide)) (by decide)
  | call =>
      exact ends_node (Token.isWhole_literal _) (by decide) (.two (by decide)) (by decide)
  | @member _ name tokens _ reads =>
      rw [show tokens ++ [.literal ".", .hard Lexicon.identifierClass name] =
        tokens ++ [.literal "."] ++ [.hard Lexicon.identifierClass name] by simp]
      exact ends_node (by rfl) (apart_of_reads reads (by decide)) (.three (by decide)) (by decide)
  | index =>
      exact ends_node (Token.isWhole_literal _) (by decide) (.three (by decide)) (by decide)
  | argument | nextArgument | unprefixed | prefixed | lifted | binary | unassigned | assigned =>
      rcases suffixed with other | other <;> cases other

theorem Formula.clashes_iff (formula : Formula lexicon form tree tokens) :
    clashes tokens = true ↔ BareDot tree := by
  induction formula with
  | @number raw => simp [clashes, not_bareDot_number]
  | string =>
      rw [bareDot_node (.one (by decide)) (by decide), clashes_cons rfl]
      simp
  | boolean =>
      rw [booleanLiteral, bareDot_node (.one (by decide)) (by decide)]
      simp
  | null =>
      rw [bareDot_node .none (by decide)]
      simp
  | identifier =>
      rw [clashes_cons rfl]
      simp
  | parenthesized _ ih =>
      rw [bareDot_node (.one (by decide)) (by decide), List.cons_append, Token.clashes_literal,
        clashes_through (Token.isWhole_literal _) (by decide)]
      simp [ih]
  | callWithout _ ih =>
      rw [bareDot_node (.two (by decide)) (by decide),
        clashes_through (Token.isWhole_literal _) (by decide)]
      simp [ih]
  | call _ _ ih ihArguments =>
      rw [bareDot_node (.two (by decide)) (by decide), List.append_assoc, List.cons_append,
        clashes_through (Token.isWhole_literal _) (by decide),
        clashes_through (Token.isWhole_literal _) (by decide)]
      simp [ih, ihArguments]
  | @member object name _ target reads ih =>
      obtain ⟨init, last, rfl, begins, whole⟩ := target.last (.inr rfl)
      have apart (rest : List Token) : (chars (last :: rest)).head? ≠ some '.' := by
        cases same : last.text.toList with
        | nil => simp [same] at begins
        | cons first more => simpa [same] using begins
      have before : clashes (init ++ [last]) = clashes init := by
        rw [clashes_append (apart [])]
        simp [clashes]
      have dotted : clashes [last, .literal ".", .hard Lexicon.identifierClass name] =
          last.isWhole := by
        rw [clashes, Token.clashes_literal, clashes_cons rfl]
        simp [Token.literal, Token.text]
      refine Iff.trans ?_ bareDot_member.symm
      rw [List.append_assoc, List.singleton_append, clashes_append (apart _), dotted, ← before,
        Bool.or_eq_true, ih, whole]
      simp [or_comm]
  | index _ _ ih ihInner =>
      refine Iff.trans ?_ bareDot_member.symm
      rw [List.append_assoc, List.cons_append,
        clashes_through (Token.isWhole_literal _) (by decide),
        clashes_through (Token.isWhole_literal _) (by decide)]
      simp [ih, ihInner]
  | argument _ ih => simpa using ih
  | nextArgument _ _ ih ihLater =>
      rw [clashes_comma]
      simp only [bareDot_list] at ihLater
      simp [ih, ihLater]
  | prefixed _ _ ih =>
      rw [bareDot_node (.two (by decide)) (by decide)]
      simp [ih]
  | binary here _ _ _ ih ihRight =>
      have all : ∀ level ∈ tiers, level.typeName ∉ ["MemberExpression"] := by decide
      rw [operation, bareDot_node (.three (by decide)) (all _ (List.mem_of_getElem? here)),
        clashes_spaced]
      simp [ih, ihRight]
  | assigned _ _ _ ih ihSource =>
      rw [bareDot_node (.three (by decide)) (by decide), clashes_spaced]
      simp [ih, ihSource]
  | suffixed _ ih | unprefixed _ ih | lifted _ _ ih | unassigned _ ih => exact ih

theorem clashes_guard {word : String} {test : List Token} :
    clashes (guard word test ++ more) = (clashes test || clashes more) := by
  simp only [guard, List.cons_append, List.append_assoc, Token.clashes_literal,
    Token.clashes_soft]
  rw [clashes_through (Token.isWhole_literal _) (by decide)]
  simp

theorem clashes_ended : clashes (tokens ++ [.literal ";"]) = clashes tokens := by
  rw [clashes_through (Token.isWhole_literal _) (by decide), Token.clashes_nil,
    Bool.or_false]

theorem clashes_lineBreak :
    clashes (tokens ++ lineBreak unit level :: more) = (clashes tokens || clashes more) := by
  refine clashes_through rfl ?_ more
  rw [lineBreak, Token.text, Writer.lineStart, String.toList_append]
  rfl

theorem Written.clashes_iff (written : Written lexicon unit sugar part level tree tokens) :
    clashes tokens = true ↔ BareDot tree := by
  induction written with
  | emptyBlock =>
      rw [bareDot_node (.one (by decide)) (by decide)]
      simp
  | block _ ih =>
      rw [bareDot_node (.one (by decide)) (by decide), List.cons_append, List.cons_append,
        Token.clashes_literal, clashes_cons (by rfl), clashes_lineBreak]
      simpa using ih
  | declaration _ _ ih =>
      rw [bareDot_node (.two (by decide)) (by decide), List.cons_append, List.cons_append,
        Token.clashes_literal, Token.clashes_soft, clashes_ended]
      simpa using ih
  | conditional tested _ ih =>
      rw [branch, bareDot_node branch_distinct (by decide), clashes_guard]
      simp [tested.clashes_iff, ih]
  | conditionalElse tested _ _ ih ihElse =>
      rw [branch, bareDot_node branch_distinct (by decide), clashes_spaced, clashes_guard]
      simp [tested.clashes_iff, ih, ihElse, or_assoc]
  | loop tested _ ih =>
      rw [loopNode, bareDot_node guarded_distinct (by decide), clashes_guard]
      simp [tested.clashes_iff, ih]
  | inverted _ tested _ ih =>
      rw [unlessNode, bareDot_node guarded_distinct (by decide), clashes_guard]
      simp [tested.clashes_iff, ih]
  | returning =>
      rw [bareDot_node (.one (by decide)) (by decide)]
      simp
  | returningValue value =>
      rw [bareDot_node (.one (by decide)) (by decide), List.cons_append, List.cons_append,
        Token.clashes_literal, Token.clashes_soft, clashes_ended]
      simp [value.clashes_iff]
  | empty =>
      rw [bareDot_node .none (by decide)]
      simp
  | expression value =>
      rw [bareDot_node (.one (by decide)) (by decide), clashes_ended]
      simp [value.clashes_iff]
  | statement _ ih | declarator _ ih => simpa using ih
  | nextStatement _ _ ih ihLater =>
      rw [clashes_lineBreak]
      simp only [bareDot_list] at ihLater
      simp [ih, ihLater]
  | bareDeclarator =>
      rw [Builtin.declarator, bareDot_node (.two (by decide)) (by decide), clashes_cons rfl]
      simp
  | initialized _ value =>
      rw [Builtin.declarator, bareDot_node (.two (by decide)) (by decide), List.cons_append,
        clashes_cons rfl]
      simp [spaced, value.clashes_iff]
  | nextDeclarator _ _ ih ihLater =>
      rw [clashes_comma]
      simp only [bareDot_list] at ihLater
      simp [ih, ihLater]

end Parlance.Builtin
