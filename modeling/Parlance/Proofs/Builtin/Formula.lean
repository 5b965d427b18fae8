import Parlance.Proofs.Builtin.Precedence
import Parlance.Proofs.Token.Rereading

/-! Expressions as trees beside the tokens that they are written as, blanks among them. The hard ones
are what the tree is construed from, and a tree that is construed from tokens of some text is written
with no other hard tokens than those. -/

namespace Parlance.Builtin

open Token (numerals)

def spaced (operator : String) : List Token := [.soft " ", .literal operator, .soft " "]

def comma : List Token := [.literal ",", .soft " "]

/-- A tree as an expression of some kind, and the tokens it is written as. -/
inductive Formula (lexicon : Lexicon) : Form → Tree → List Token → Prop where
  | number {raw : String} (reads : lexicon.Reads (.hard Lexicon.numberClass raw)) :
      Formula lexicon .primary (numericLiteral (.text raw)) [.hard Lexicon.numberClass raw]
  | string {raw : String} (reads : lexicon.Reads (.hard Lexicon.stringClass raw)) :
      Formula lexicon .primary (.node "StringLiteral" [("raw", .text raw)])
        [.hard Lexicon.stringClass raw]
  | boolean {word : String} (isBoolean : word ∈ ["true", "false"]) :
      Formula lexicon .primary (booleanLiteral (.text word)) [.literal word]
  | null : Formula lexicon .primary (.node "NullLiteral" []) [.literal "null"]
  | identifier {name : String} (reads : lexicon.Reads (.hard Lexicon.identifierClass name)) :
      Formula lexicon .primary (identifier name) [.hard Lexicon.identifierClass name]
  | parenthesized {tree : Tree} {tokens : List Token}
      (inner : Formula lexicon .assignment tree tokens) :
      Formula lexicon .primary (.node "ParenthesizedExpression" [("expression", tree)])
        (.literal "(" :: tokens ++ [.literal ")"])
  | suffixed {tree : Tree} {tokens : List Token} (primary : Formula lexicon .primary tree tokens) :
      Formula lexicon .suffixed tree tokens
  | callWithout {callee : Tree} {tokens : List Token}
      (target : Formula lexicon .suffixed callee tokens) :
      Formula lexicon .suffixed
        (.node "CallExpression" [("callee", callee), ("arguments", .list [])])
        (tokens ++ [.literal "(", .literal ")"])
  | call {callee : Tree} {values : List Tree} {tokens more : List Token}
      (target : Formula lexicon .suffixed callee tokens)
      (given : Formula lexicon .arguments (.list values) more) :
      Formula lexicon .suffixed
        (.node "CallExpression" [("callee", callee), ("arguments", .list values)])
        (tokens ++ .literal "(" :: more ++ [.literal ")"])
  | member {object : Tree} {name : String} {tokens : List Token}
      (target : Formula lexicon .suffixed object tokens)
      (reads : lexicon.Reads (.hard Lexicon.identifierClass name)) :
      Formula lexicon .suffixed
        (.node "MemberExpression"
          [("object", object), ("property", Builtin.identifier name), ("computed", .bool false)])
        (tokens ++ [.literal ".", .hard Lexicon.identifierClass name])
  | index {object property : Tree} {tokens more : List Token}
      (target : Formula lexicon .suffixed object tokens)
      (inner : Formula lexicon .assignment property more) :
      Formula lexicon .suffixed
        (.node "MemberExpression"
          [("object", object), ("property", property), ("computed", .bool true)])
        (tokens ++ .literal "[" :: more ++ [.literal "]"])
  | argument {tree : Tree} {tokens : List Token} (only : Formula lexicon .assignment tree tokens) :
      Formula lexicon .arguments (.list [tree]) tokens
  | nextArgument {tree : Tree} {values : List Tree} {tokens more : List Token}
      (first : Formula lexicon .assignment tree tokens)
      (later : Formula lexicon .arguments (.list values) more) :
      Formula lexicon .arguments (.list (tree :: values)) (tokens ++ comma ++ more)
  | unprefixed {tree : Tree} {tokens : List Token} (inner : Formula lexicon .suffixed tree tokens) :
      Formula lexicon (.tier 0) tree tokens
  | prefixed {operator : String} {tree : Tree} {tokens : List Token}
      (isPrefix : operator ∈ prefixOperators) (inner : Formula lexicon (.tier 0) tree tokens) :
      Formula lexicon (.tier 0)
        (.node "UnaryExpression" [("operator", .text operator), ("argument", tree)])
        (.literal operator :: tokens)
  | lifted {n : Nat} {level : Expressions.BinaryLevel} {tree : Tree} {tokens : List Token}
      (here : tiers[n]? = some level) (inner : Formula lexicon (.tier n) tree tokens) :
      Formula lexicon (.tier (n + 1)) tree tokens
  | binary {n : Nat} {level : Expressions.BinaryLevel} {operator : String} {left right : Tree}
      {tokens more : List Token} (here : tiers[n]? = some level)
      (isOperator : operator ∈ level.operators)
      (before : Formula lexicon (.tier (n + 1)) left tokens)
      (after : Formula lexicon (.tier n) right more) :
      Formula lexicon (.tier (n + 1)) (operation level.typeName operator left right)
        (tokens ++ spaced operator ++ more)
  | unassigned {tree : Tree} {tokens : List Token} (inner : Formula lexicon (.tier 6) tree tokens) :
      Formula lexicon .assignment tree tokens
  | assigned {operator : String} {left right : Tree} {tokens more : List Token}
      (isOperator : operator ∈ assignmentOperators)
      (target : Formula lexicon .suffixed left tokens)
      (source : Formula lexicon .assignment right more) :
      Formula lexicon .assignment
        (.node "AssignmentExpression"
          [("left", left), ("operator", .text operator), ("right", right)])
        (tokens ++ spaced operator ++ more)

theorem Formula.lift {lexicon : Lexicon} {tree : Tree} {tokens : List Token}
    (formula : Formula lexicon (.tier 0) tree tokens) {n : Nat} (within : n ≤ 6) :
    Formula lexicon (.tier n) tree tokens := by
  induction n with
  | zero => exact formula
  | succ n ih =>
      have here : tiers[n]? = some tiers[n] := List.getElem?_eq_getElem within
      exact .lifted here (ih (Nat.le_of_succ_le within))

theorem Formula.ofSuffixed {lexicon : Lexicon} {tree : Tree} {tokens : List Token}
    (formula : Formula lexicon .suffixed tree tokens) : Formula lexicon .assignment tree tokens :=
  .unassigned (.lift (.unprefixed formula) (Nat.le_refl 6))

def formulaTypes : List String := [
  "NumericLiteral", "StringLiteral", "BooleanLiteral", "NullLiteral", "Identifier",
  "ParenthesizedExpression", "CallExpression", "MemberExpression", "UnaryExpression",
  "BinaryExpression", "LogicalExpression", "AssignmentExpression"]

theorem typeName_mem {n : Nat} {level : Expressions.BinaryLevel} (here : tiers[n]? = some level) :
    level.typeName ∈ formulaTypes := by
  have all : ∀ level ∈ tiers, level.typeName ∈ formulaTypes := by decide
  exact all level (List.mem_of_getElem? here)

theorem Formula.not_occurs {lexicon : Lexicon} {form : Form} {tree : Tree} {tokens : List Token}
    (formula : Formula lexicon form tree tokens) {holds : Tree → Prop} {types : List String}
    (ofTypes : Tree.OfTypes holds types) (apart : ∀ name ∈ formulaTypes, name ∉ types) :
    ¬ tree.Occurs holds := by
  have texts := ofTypes.ofNodes.not_text
  have bools := ofTypes.ofNodes.not_bool
  have lists := ofTypes.ofNodes.list_iff
  have named (name : String) : ¬ (Builtin.identifier name).Occurs holds :=
    ofTypes.not_node (.one (by decide)) (apart _ (by decide)) (by simp [texts])
  induction formula with
  | @number raw =>
      refine ofTypes.not_node (.two (by decide)) (apart _ (by decide)) ?_
      have numbers := ofTypes.ofNodes.not_number
      have null := ofTypes.ofNodes.not_null
      cases parseNumber? ((Tree.text raw).text?.getD "") <;> simp [texts, numbers, null]
  | string => exact ofTypes.not_node (.one (by decide)) (apart _ (by decide)) (by simp [texts])
  | boolean => exact ofTypes.not_node (.one (by decide)) (apart _ (by decide)) (by simp [bools])
  | null => exact ofTypes.not_node .none (apart _ (by decide)) (by simp)
  | identifier => exact named _
  | parenthesized _ ih =>
      exact ofTypes.not_node (.one (by decide)) (apart _ (by decide)) (by simp [ih])
  | callWithout _ ih =>
      exact ofTypes.not_node (.two (by decide)) (apart _ (by decide)) (by simp [ih, lists])
  | call _ _ ih ihArguments =>
      exact ofTypes.not_node (.two (by decide)) (apart _ (by decide)) (by simp [ih, ihArguments])
  | member _ _ ih =>
      exact ofTypes.not_node (.three (by decide)) (apart _ (by decide)) (by simp [ih, named, bools])
  | index _ _ ih ihInner =>
      exact ofTypes.not_node (.three (by decide)) (apart _ (by decide))
        (by simp [ih, ihInner, bools])
  | argument _ ih => simpa [lists] using ih
  | nextArgument _ _ ih ihLater =>
      rw [lists] at ihLater ⊢
      simpa [ih] using ihLater
  | prefixed _ _ ih =>
      exact ofTypes.not_node (.two (by decide)) (apart _ (by decide)) (by simp [ih, texts])
  | binary here _ _ _ ih ihRight =>
      exact ofTypes.not_node (.three (by decide)) (apart _ (typeName_mem here))
        (by simp [ih, ihRight, texts])
  | assigned _ _ _ ih ihSource =>
      exact ofTypes.not_node (.three (by decide)) (apart _ (by decide))
        (by simp [ih, ihSource, texts])
  | suffixed _ ih | unprefixed _ ih | lifted _ _ ih | unassigned _ ih => exact ih

theorem Formula.ne_null {lexicon : Lexicon} {form : Form} {tree : Tree} {tokens : List Token}
    (formula : Formula lexicon form tree tokens) : tree ≠ .null := by
  induction formula with
  | suffixed _ ih | unprefixed _ ih | lifted _ _ ih | unassigned _ ih => exact ih
  | argument | nextArgument => exact nofun
  | _ => exact Tree.node_ne_null _ _

theorem Formula.construed {lexicon : Lexicon} {form : Form} {tree : Tree} {tokens : List Token}
    (formula : Formula lexicon form tree tokens) :
    Construed form tree (tokens.filter Token.isHard) := by
  induction formula with
  | number => exact .number _
  | string => exact .string _
  | boolean isBoolean => exact .boolean isBoolean _
  | null => exact .null _
  | identifier => exact .identifier _
  | parenthesized _ ih =>
      simpa [List.filter_cons, Token.literal] using Construed.parenthesized "(" ")" ih
  | suffixed _ ih => exact .suffixed ih
  | callWithout _ ih =>
      simpa [List.filter_cons, Token.literal] using Construed.callWithout "(" ")" ih
  | call _ _ ih ihArguments =>
      simpa [List.filter_cons, Token.literal] using Construed.call "(" ")" ih ihArguments
  | member _ _ ih =>
      simpa [List.filter_cons, Token.literal, Lexicon.identifierClass] using
        Construed.member "." _ ih
  | index _ _ ih ihInner =>
      simpa [List.filter_cons, Token.literal] using Construed.index "[" "]" ih ihInner
  | argument _ ih => exact .argument ih
  | nextArgument _ _ ih ihLater =>
      simpa [List.filter_cons, Token.literal, comma] using Construed.nextArgument "," ih ihLater
  | unprefixed _ ih => exact .unprefixed ih
  | prefixed isPrefix _ ih => exact .prefixed isPrefix _ ih
  | lifted here _ ih => exact .lifted (precedence_of_tiers here) ih
  | binary here isOperator _ _ ih ihRight =>
      simpa [List.filter_cons, Token.literal, spaced, tierOf] using
        Construed.binary (precedence_of_tiers here) isOperator _ ih ihRight
  | unassigned _ ih => exact .unassigned ih
  | assigned isOperator _ _ ih ihSource =>
      simpa [List.filter_cons, Token.literal, spaced] using
        Construed.assigned isOperator _ ih ihSource

theorem operators_plain {n : Nat} {level : Expressions.BinaryLevel}
    (here : tiers[n]? = some level) : ∀ word ∈ level.operators, ¬ Lexicon.IsClass word := by
  have all : ∀ level ∈ tiers, ∀ word ∈ level.operators, ¬ Lexicon.IsClass word := by decide
  exact all level (List.mem_of_getElem? here)

/-- A tree that is construed from tokens of some text is written with those and no other hard
tokens. -/
theorem Construed.written {lexicon : Lexicon} {form : Form} {tree : Tree} {hards : List Token}
    (construed : Construed form tree hards) (reads : ∀ token ∈ hards, lexicon.Reads token) :
    ∃ tokens, Formula lexicon form tree tokens ∧ tokens.filter Token.isHard = hards := by
  have literal {kind text : String} (plain : ¬ Lexicon.IsClass kind)
      (reads : lexicon.Reads (.hard kind text)) : text = kind := reads.text_eq plain
  induction construed with
  | number => exact ⟨_, .number (reads _ (List.mem_singleton_self _)), rfl⟩
  | string => exact ⟨_, .string (reads _ (List.mem_singleton_self _)), rfl⟩
  | @boolean kind isBoolean word =>
      have plain : ∀ kind ∈ ["true", "false"], ¬ Lexicon.IsClass kind := by decide
      obtain rfl := literal (plain _ isBoolean) (reads _ (List.mem_singleton_self _))
      exact ⟨_, .boolean isBoolean, rfl⟩
  | null =>
      obtain rfl := literal (by decide) (reads _ (List.mem_singleton_self _))
      exact ⟨_, .null, rfl⟩
  | identifier => exact ⟨_, .identifier (reads _ (List.mem_singleton_self _)), rfl⟩
  | parenthesized _ _ _ ih =>
      obtain ⟨opens, inside, closes⟩ : _ ∧ (∀ token ∈ _, _) ∧ _ := by
        simpa [or_imp, forall_and] using reads
      obtain rfl := literal (by decide) opens
      obtain rfl := literal (by decide) closes
      obtain ⟨tokens, formula, rfl⟩ := ih inside
      exact ⟨_, .parenthesized formula, by simp [List.filter_cons, Token.literal]⟩
  | suffixed _ ih =>
      obtain ⟨tokens, formula, same⟩ := ih reads
      exact ⟨tokens, .suffixed formula, same⟩
  | callWithout _ _ _ ih =>
      obtain ⟨before, opens, closes⟩ : (∀ token ∈ _, _) ∧ _ ∧ _ := by
        simpa [or_imp, forall_and] using reads
      obtain rfl := literal (by decide) opens
      obtain rfl := literal (by decide) closes
      obtain ⟨tokens, formula, rfl⟩ := ih before
      exact ⟨_, .callWithout formula, by simp [List.filter_cons, Token.literal]⟩
  | call _ _ _ _ ih ihArguments =>
      obtain ⟨before, opens, inside, closes⟩ :
          (∀ token ∈ _, _) ∧ _ ∧ (∀ token ∈ _, _) ∧ _ := by
        simpa [or_imp, forall_and] using reads
      obtain rfl := literal (by decide) opens
      obtain rfl := literal (by decide) closes
      obtain ⟨tokens, formula, rfl⟩ := ih before
      obtain ⟨more, arguments, rfl⟩ := ihArguments inside
      exact ⟨_, .call formula arguments, by simp [List.filter_cons, Token.literal]⟩
  | member _ _ _ ih =>
      obtain ⟨before, dot, name⟩ : (∀ token ∈ _, _) ∧ _ ∧ _ := by
        simpa [or_imp, forall_and] using reads
      obtain rfl := literal (by decide) dot
      obtain ⟨tokens, formula, rfl⟩ := ih before
      exact ⟨_, .member formula name, by
        simp [List.filter_cons, Token.literal, Lexicon.identifierClass]⟩
  | index _ _ _ _ ih ihInner =>
      obtain ⟨before, opens, inside, closes⟩ :
          (∀ token ∈ _, _) ∧ _ ∧ (∀ token ∈ _, _) ∧ _ := by
        simpa [or_imp, forall_and] using reads
      obtain rfl := literal (by decide) opens
      obtain rfl := literal (by decide) closes
      obtain ⟨tokens, formula, rfl⟩ := ih before
      obtain ⟨more, inner, rfl⟩ := ihInner inside
      exact ⟨_, .index formula inner, by simp [List.filter_cons, Token.literal]⟩
  | argument _ ih =>
      obtain ⟨tokens, formula, same⟩ := ih reads
      exact ⟨tokens, .argument formula, same⟩
  | nextArgument _ _ _ ih ihLater =>
      obtain ⟨before, parted, after⟩ : (∀ token ∈ _, _) ∧ _ ∧ (∀ token ∈ _, _) := by
        simpa [or_imp, forall_and] using reads
      obtain rfl := literal (by decide) parted
      obtain ⟨tokens, formula, rfl⟩ := ih before
      obtain ⟨more, later, rfl⟩ := ihLater after
      exact ⟨_, .nextArgument formula later, by simp [List.filter_cons, Token.literal, comma]⟩
  | unprefixed _ ih =>
      obtain ⟨tokens, formula, same⟩ := ih reads
      exact ⟨tokens, .unprefixed formula, same⟩
  | prefixed isPrefix _ _ ih =>
      have plain : ∀ kind ∈ ["!", "-"], ¬ Lexicon.IsClass kind := by decide
      obtain ⟨operator, inside⟩ : _ ∧ (∀ token ∈ _, _) := by
        simpa [or_imp, forall_and] using reads
      obtain rfl := literal (plain _ isPrefix) operator
      obtain ⟨tokens, formula, rfl⟩ := ih inside
      exact ⟨_, .prefixed isPrefix formula, rfl⟩
  | lifted here _ ih =>
      obtain ⟨level, found, -⟩ := tiers_of_precedence here
      obtain ⟨tokens, formula, same⟩ := ih reads
      exact ⟨tokens, .lifted found formula, same⟩
  | binary here isOperator _ _ _ ih ihRight =>
      obtain ⟨level, found, rfl⟩ := tiers_of_precedence here
      obtain ⟨before, operator, after⟩ : (∀ token ∈ _, _) ∧ _ ∧ (∀ token ∈ _, _) := by
        simpa [or_imp, forall_and] using reads
      obtain rfl := literal (operators_plain found _ isOperator) operator
      obtain ⟨tokens, left, rfl⟩ := ih before
      obtain ⟨more, right, rfl⟩ := ihRight after
      exact ⟨_, .binary found isOperator left right, by
        simp [List.filter_cons, Token.literal, spaced]⟩
  | unassigned _ ih =>
      obtain ⟨tokens, formula, same⟩ := ih reads
      exact ⟨tokens, .unassigned formula, same⟩
  | assigned isOperator _ _ _ ih ihSource =>
      have plain : ∀ kind ∈ ["=", "+=", "-="], ¬ Lexicon.IsClass kind := by decide
      obtain ⟨before, operator, after⟩ : (∀ token ∈ _, _) ∧ _ ∧ (∀ token ∈ _, _) := by
        simpa [or_imp, forall_and] using reads
      obtain rfl := literal (plain _ isOperator) operator
      obtain ⟨tokens, left, rfl⟩ := ih before
      obtain ⟨more, right, rfl⟩ := ihSource after
      exact ⟨_, .assigned isOperator left right, by simp [List.filter_cons, Token.literal, spaced]⟩

variable {lexicon : Lexicon} {sugar : Bool} {input middle rest : List Item} {value : Tree}
  {tokens more : List Token}

/-- Every item is of a token that some text begins with. -/
def Legible (lexicon : Lexicon) (input : List Item) : Prop :=
  ∀ item ∈ input, lexicon.Reads item.token

/-- What comes before the rest of the input has the same numbers as the tokens. -/
def Consumed (input rest : List Item) (tokens : List Token) : Prop :=
  ∃ read, input = read ++ rest ∧ numerals (read.map Item.token) = numerals tokens

theorem Consumed.refl (input : List Item) : Consumed input input [] := ⟨[], rfl, rfl⟩

theorem Consumed.trans (consumed : Consumed input middle tokens)
    (consumedToo : Consumed middle rest more) : Consumed input rest (tokens ++ more) := by
  obtain ⟨read, rfl, same⟩ := consumed
  obtain ⟨readToo, rfl, sameToo⟩ := consumedToo
  refine ⟨read ++ readToo, (List.append_assoc ..).symm, ?_⟩
  rw [List.map_append, Token.numerals_append, Token.numerals_append, same, sameToo]

theorem Consumed.item (item : Item) (rest : List Item) :
    Consumed (item :: rest) rest [item.token] := ⟨[item], rfl, rfl⟩

theorem Consumed.congr (consumed : Consumed input rest tokens)
    (same : numerals tokens = numerals more) : Consumed input rest more := by
  obtain ⟨read, whole, numbers⟩ := consumed
  exact ⟨read, whole, numbers.trans same⟩

theorem Consumed.le (consumed : Consumed input rest tokens) : rest.length ≤ input.length := by
  obtain ⟨read, rfl, -⟩ := consumed
  simp

theorem Consumed.legible (consumed : Consumed input rest tokens)
    (legible : Legible lexicon input) : Legible lexicon rest := by
  obtain ⟨read, rfl, -⟩ := consumed
  exact fun item member => legible item (List.mem_append_right _ member)

theorem Legible.tail {item : Item} (legible : Legible lexicon (item :: rest)) :
    Legible lexicon rest :=
  fun _ member => legible _ (List.mem_cons_of_mem _ member)

theorem Legible.literal {item : Item} {kind : String} (legible : Legible lexicon (item :: rest))
    (fits : item.token.kind? = some kind) (other : ¬ Lexicon.IsClass kind) :
    item.token = .literal kind := by
  have reads := legible item (List.mem_cons_self ..)
  have same := token_of_kind fits
  rw [same] at reads
  rw [same, reads.text_eq other]
  rfl

theorem Legible.consumed {item : Item} {kind : String} (legible : Legible lexicon (item :: rest))
    (fits : item.token.kind? = some kind) (other : ¬ Lexicon.IsClass kind) :
    Consumed (item :: rest) rest [.literal kind] := by
  have consumed := Consumed.item item rest
  rwa [legible.literal fits other] at consumed

end Parlance.Builtin
