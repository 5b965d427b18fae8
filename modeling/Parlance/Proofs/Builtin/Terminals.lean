import Parlance.Proofs.Builtin.Written

/-! The terminals of a tree: what its nodes tell of the hard tokens that they stand for, in source
order. Each type of node is a form with its keywords and punctuators, filled with the terminals of
the fields. -/

namespace Parlance.Builtin

/-- What a tree tells of one hard token. -/
inductive Terminal where
  /-- A keyword or punctuator of the form; its text is not in the tree. -/
  | literal (kind : String)
  /-- A token of one of some kinds, with its text in the tree. -/
  | word (kinds : List String) (text : String)
  | truth (value : Bool)
  /-- The semicolon at the end of a statement. -/
  | closing
  deriving DecidableEq

inductive Terminal.Fits : Terminal → Token → Prop where
  | literal (kind text : String) : Fits (.literal kind) (.hard kind text)
  | word {kinds : List String} {kind : String} (listed : kind ∈ kinds) (text : String) :
      Fits (.word kinds text) (.hard kind text)
  | truth {kind : String} (listed : kind ∈ ["true", "false"]) (text : String) :
      Fits (.truth (text == "true")) (.hard kind text)
  | closing (text : String) : Fits .closing (.hard ";" text)

/-- A field of a node: its value, its terminals, and those of each item if it is a list. -/
structure Piece where
  value : Tree
  whole : List Terminal
  items : List (List Terminal)
  deriving Inhabited

namespace Piece

def word (piece : Piece) (kinds : List String) : Terminal :=
  .word kinds (piece.value.text?.getD "")

def isTrue (piece : Piece) : Bool :=
  match piece.value with
  | .bool value => value
  | _ => false

def listed (piece : Piece) : List Terminal := [.literal ","].intercalate piece.items

/-- The field behind a keyword or punctuator, or nothing if it is null. -/
def ledBy (piece : Piece) (kind : String) : List Terminal :=
  if piece.value.isNull then [] else .literal kind :: piece.whole

end Piece

def operatorsOf (typeName : String) : List String :=
  (precedence.filter fun tier => tier.typeName = typeName).flatMap Tier.operators

namespace Terminal

def between (opening closing : String) (inner : List Terminal) : List Terminal :=
  .literal opening :: inner ++ [.literal closing]

def guarded (word : String) (test body : List Terminal) : List Terminal :=
  .literal word :: between "(" ")" test ++ body

def infixed (operators : List String) (field : String → Piece) : List Terminal :=
  (field "left").whole ++ (field "operator").word operators :: (field "right").whole

def form (field : String → Piece) : String → List Terminal
  | "NumericLiteral" => [(field "raw").word ["NumericLiteral"]]
  | "StringLiteral" => [(field "raw").word ["StringLiteral"]]
  | "BooleanLiteral" => [.truth (field "value").isTrue]
  | "NullLiteral" => [.literal "null"]
  | "Identifier" => [(field "name").word ["Identifier"]]
  | "ParenthesizedExpression" => between "(" ")" (field "expression").whole
  | "CallExpression" => (field "callee").whole ++ between "(" ")" (field "arguments").listed
  | "MemberExpression" =>
      (field "object").whole ++
        if (field "computed").isTrue then between "[" "]" (field "property").whole
        else .literal "." :: (field "property").whole
  | "UnaryExpression" => (field "operator").word prefixOperators :: (field "argument").whole
  | "BinaryExpression" => infixed (operatorsOf "BinaryExpression") field
  | "LogicalExpression" => infixed (operatorsOf "LogicalExpression") field
  | "AssignmentExpression" => infixed assignmentOperators field
  | "Program" => (field "body").whole
  | "BlockStatement" => between "\x7b" "\x7d" (field "body").whole
  | "VariableDeclaration" =>
      (field "kind").word declarationKinds :: (field "declarations").listed ++ [.closing]
  | "VariableDeclarator" => (field "id").whole ++ (field "init").ledBy "="
  | "IfStatement" =>
      guarded "if" (field "test").whole (field "consequent").whole ++ (field "alternate").ledBy "else"
  | "WhileStatement" => guarded "while" (field "test").whole (field "body").whole
  | "UnlessStatement" => guarded "unless" (field "test").whole (field "body").whole
  | "ReturnStatement" => .literal "return" :: (field "argument").whole ++ [.closing]
  | "EmptyStatement" => [.literal ";"]
  | "ExpressionStatement" => (field "expression").whole ++ [.closing]
  | _ => []

end Terminal

/-- The terminals of a tree, in source order. -/
def terminals : Tree → List Terminal
  | .list items => (itemTerminals items).flatten
  | .record members =>
      Terminal.form (fun name => (Index.get? name (pieces members)).getD default)
        ((Members.typeName? members).getD "")
  | .null | .bool _ | .number _ | .text _ => []
where
  itemTerminals : List Tree → List (List Terminal)
    | [] => []
    | item :: rest => terminals item :: itemTerminals rest
  pieces : Members → List (String × Piece)
    | [] => []
    | (name, .list items) :: rest =>
        let each := itemTerminals items
        (name, ⟨.list items, each.flatten, each⟩) :: pieces rest
    | (name, value) :: rest => (name, ⟨value, terminals value, []⟩) :: pieces rest

example :
    let given : Tree := .list [identifier "a", .node "NullLiteral" []]
    let call : Tree := .node "CallExpression" [("callee", identifier "f"), ("arguments", given)]
    terminals (.node "ReturnStatement" [("argument", call)]) = [
      .literal "return", .word ["Identifier"] "f", .literal "(", .word ["Identifier"] "a",
      .literal ",", .literal "null", .literal ")", .closing] := by
  decide +kernel

open terminals (itemTerminals pieces)

variable {typeName : String} {fields : List (String × Tree)}

def piece : Tree → Piece
  | .list items => ⟨.list items, (itemTerminals items).flatten, itemTerminals items⟩
  | value => ⟨value, terminals value, []⟩

theorem get?_pieces (name : String) (members : Members) :
    Index.get? name (pieces members) = (Index.get? name members).map piece := by
  induction members with
  | nil => rfl
  | cons entry rest ih =>
      obtain ⟨other, value⟩ := entry
      have head : pieces ((other, value) :: rest) = (other, piece value) :: pieces rest := by
        cases value <;> rfl
      rw [head, Index.get?, Index.get?, ih]
      split_ifs <;> rfl

@[simp] theorem whole_piece (value : Tree) : (piece value).whole = terminals value := by
  cases value <;> rfl

@[simp] theorem value_piece (value : Tree) : (piece value).value = value := by
  cases value <;> rfl

theorem terminals_list (items : List Tree) :
    terminals (.list items) = items.flatMap terminals := by
  rw [terminals]
  induction items with
  | nil => rfl
  | cons item rest ih => rw [itemTerminals, List.flatten_cons, ih, List.flatMap_cons]

theorem listed_cons (first : Tree) (rest : List Tree) :
    (piece (.list (first :: rest))).listed =
      terminals first ++ rest.flatMap fun item => .literal "," :: terminals item := by
  show [Terminal.literal ","].intercalate (itemTerminals (first :: rest)) = _
  induction rest generalizing first with
  | nil => simp [itemTerminals]
  | cons second rest ih =>
      have later := ih second
      simp only [itemTerminals] at later ⊢
      rw [List.intercalate_cons_cons, later, List.flatMap_cons]
      simp

theorem ledBy_null (kind : String) : (piece .null).ledBy kind = [] := rfl

theorem ledBy_of_ne_null {value : Tree} (some : value ≠ .null) (kind : String) :
    (piece value).ledBy kind = .literal kind :: terminals value := by
  cases value with
  | null => exact absurd rfl some
  | _ => rfl

def shown (fields : List (String × Tree)) (name : String) : Piece :=
  ((Index.get? name fields).map piece).getD default

@[simp] theorem shown_cons (other name : String) (value : Tree) :
    shown ((other, value) :: fields) name =
      if name = other then piece value else shown fields name := by
  rw [shown, Index.get?]
  split_ifs <;> rfl

theorem terminals_node (distinct : Tree.Distinct fields) :
    terminals (.node typeName fields) =
      Terminal.form (shown (("type", .text typeName) :: fields)) typeName := by
  have pieces_eq (name : String) :
      (Index.get? name (pieces (Tree.nodeMembers typeName fields))).getD default =
        shown (("type", .text typeName) :: fields) name := by
    rw [get?_pieces, Tree.get?_node distinct, shown]
  rw [Tree.node_eq, terminals, Tree.typeName?_nodeMembers distinct]
  simp only [pieces_eq, Option.getD_some]

section Expressions

variable {left right object property : Tree}

theorem terminals_number (raw : String) :
    terminals (numericLiteral (.text raw)) = [.word ["NumericLiteral"] raw] := by
  rw [numericLiteral, terminals_node (.two (by decide))]
  rfl

theorem terminals_string (raw : String) :
    terminals (.node "StringLiteral" [("raw", .text raw)]) = [.word ["StringLiteral"] raw] := by
  rw [terminals_node (.one (by decide))]
  rfl

theorem terminals_boolean (word : String) :
    terminals (booleanLiteral (.text word)) = [.truth (word == "true")] := by
  rw [booleanLiteral, terminals_node (.one (by decide))]
  rfl

theorem terminals_nullLiteral : terminals (.node "NullLiteral" []) = [.literal "null"] := by
  rw [terminals_node .none]
  rfl

theorem terminals_identifier (name : String) :
    terminals (identifier name) = [.word ["Identifier"] name] := by
  rw [identifier, terminals_node (.one (by decide))]
  rfl

theorem terminals_parenthesized (tree : Tree) :
    terminals (.node "ParenthesizedExpression" [("expression", tree)]) =
      Terminal.between "(" ")" (terminals tree) := by
  rw [terminals_node (.one (by decide))]
  simp [Terminal.form]

theorem terminals_call (callee given : Tree) :
    terminals (.node "CallExpression" [("callee", callee), ("arguments", given)]) =
      terminals callee ++ Terminal.between "(" ")" (piece given).listed := by
  rw [terminals_node (.two (by decide))]
  simp [Terminal.form]

theorem terminals_member (object : Tree) (name : String) :
    terminals (.node "MemberExpression"
        [("object", object), ("property", identifier name), ("computed", .bool false)]) =
      terminals object ++ [.literal ".", .word ["Identifier"] name] := by
  rw [terminals_node (.three (by decide))]
  simp [Terminal.form, Piece.isTrue, terminals_identifier]

theorem terminals_index (object property : Tree) :
    terminals (.node "MemberExpression"
        [("object", object), ("property", property), ("computed", .bool true)]) =
      terminals object ++ Terminal.between "[" "]" (terminals property) := by
  rw [terminals_node (.three (by decide))]
  simp [Terminal.form, Piece.isTrue]

theorem terminals_prefixed (operator : String) (tree : Tree) :
    terminals (.node "UnaryExpression" [("operator", .text operator), ("argument", tree)]) =
      .word prefixOperators operator :: terminals tree := by
  rw [terminals_node (.two (by decide))]
  simp [Terminal.form, Piece.word, Tree.text?]

theorem typeName_of_precedence {n : Nat} {tier : Tier} (here : precedence[n]? = some tier) :
    tier.typeName = "BinaryExpression" ∨ tier.typeName = "LogicalExpression" := by
  have all : ∀ tier ∈ precedence,
      tier.typeName = "BinaryExpression" ∨ tier.typeName = "LogicalExpression" := by decide
  exact all tier (List.mem_of_getElem? here)

theorem terminals_operation {n : Nat} {tier : Tier} (here : precedence[n]? = some tier)
    (operator : String) (left right : Tree) :
    terminals (operation tier.typeName operator left right) =
      terminals left ++ .word (operatorsOf tier.typeName) operator :: terminals right := by
  rw [operation, terminals_node (.three (by decide))]
  rcases typeName_of_precedence here with same | same <;>
    simp [same, Terminal.form, Terminal.infixed, Piece.word, Tree.text?]

theorem terminals_assigned (operator : String) (left right : Tree) :
    terminals (.node "AssignmentExpression"
        [("left", left), ("operator", .text operator), ("right", right)]) =
      terminals left ++ .word assignmentOperators operator :: terminals right := by
  rw [terminals_node (.three (by decide))]
  simp [Terminal.form, Terminal.infixed, Piece.word, Tree.text?]

end Expressions

theorem terminals_program (body : Tree) :
    terminals (.node "Program" [("body", body)]) = terminals body := by
  rw [terminals_node (.one (by decide))]
  simp [Terminal.form]

theorem terminals_block (body : Tree) :
    terminals (.node "BlockStatement" [("body", body)]) =
      Terminal.between "\x7b" "\x7d" (terminals body) := by
  rw [terminals_node (.one (by decide))]
  simp [Terminal.form]

theorem terminals_declaration (kind : String) (given : Tree) :
    terminals (.node "VariableDeclaration" [("kind", .text kind), ("declarations", given)]) =
      .word declarationKinds kind :: (piece given).listed ++ [.closing] := by
  rw [terminals_node (.two (by decide))]
  simp [Terminal.form, Piece.word, Tree.text?]

theorem terminals_declarator (name : String) (init : Tree) :
    terminals (declarator name init) =
      .word ["Identifier"] name :: (piece init).ledBy "=" := by
  rw [declarator, terminals_node (.two (by decide))]
  simp [Terminal.form, terminals_identifier]

theorem terminals_branch (test consequent alternate : Tree) :
    terminals (branch test consequent alternate) =
      Terminal.guarded "if" (terminals test) (terminals consequent) ++ (piece alternate).ledBy "else" := by
  rw [branch, terminals_node branch_distinct]
  simp [Terminal.form]

theorem terminals_loop (test body : Tree) :
    terminals (loopNode test body) = Terminal.guarded "while" (terminals test) (terminals body) := by
  rw [loopNode, terminals_node guarded_distinct]
  simp [Terminal.form]

theorem terminals_unless (test body : Tree) :
    terminals (unlessNode test body) = Terminal.guarded "unless" (terminals test) (terminals body) := by
  rw [unlessNode, terminals_node guarded_distinct]
  simp [Terminal.form]

theorem terminals_returning (argument : Tree) :
    terminals (.node "ReturnStatement" [("argument", argument)]) =
      .literal "return" :: terminals argument ++ [.closing] := by
  rw [terminals_node (.one (by decide))]
  simp [Terminal.form]

theorem terminals_empty : terminals (.node "EmptyStatement" []) = [.literal ";"] := by
  rw [terminals_node .none]
  rfl

theorem terminals_expression (tree : Tree) :
    terminals (.node "ExpressionStatement" [("expression", tree)]) =
      terminals tree ++ [.closing] := by
  rw [terminals_node (.one (by decide))]
  simp [Terminal.form]

end Parlance.Builtin
