import Parlance.Proofs.Builtin.Phrases
import Parlance.Proofs.Tree.Occurs

/-! Expressions as an unambiguous grammar of trees over hard tokens, with the precedence of the
binary operators as a table. Operands of one level are nested to the left because the relation
recurs to the left; the values of tokens play no part but in the tree. -/

namespace Parlance.Builtin

open Expressions (BinaryLevel)

/-- The kinds of expressions; a tier counts the levels of binary operators up to it. -/
inductive Form where
  | primary
  | suffixed
  | tier (n : Nat)
  | assignment
  | arguments

def identifier (name : String) : Tree := .node "Identifier" [("name", .text name)]

def operation (typeName operator : String) (left right : Tree) : Tree :=
  .node typeName [("operator", .text operator), ("left", left), ("right", right)]

structure Tier where
  operators : List String
  typeName : String
  deriving DecidableEq

def precedence : List Tier := [
  ⟨["*", "/", "%"], "BinaryExpression"⟩,
  ⟨["+", "-"], "BinaryExpression"⟩,
  ⟨["<", ">", "<=", ">="], "BinaryExpression"⟩,
  ⟨["==", "!=", "===", "!=="], "BinaryExpression"⟩,
  ⟨["&&"], "LogicalExpression"⟩,
  ⟨["||"], "LogicalExpression"⟩]

def tierOf (level : BinaryLevel) : Tier := ⟨level.operators, level.typeName⟩

theorem tiers_tier : tiers.map tierOf = precedence := rfl

theorem precedence_of_tiers {n : Nat} {level : BinaryLevel} (here : tiers[n]? = some level) :
    precedence[n]? = some (tierOf level) := by
  rw [← tiers_tier, List.getElem?_map, here]
  rfl

theorem tiers_of_precedence {n : Nat} {tier : Tier} (here : precedence[n]? = some tier) :
    ∃ level, tiers[n]? = some level ∧ tierOf level = tier := by
  rw [← tiers_tier, List.getElem?_map] at here
  exact Option.map_eq_some_iff.mp here

/-- A tree as an expression of some kind, and the hard tokens that it is made of, in order. -/
inductive Construed : Form → Tree → List Token → Prop where
  | number (raw : String) :
      Construed .primary (numericLiteral (.text raw)) [.hard "NumericLiteral" raw]
  | string (raw : String) :
      Construed .primary (.node "StringLiteral" [("raw", .text raw)]) [.hard "StringLiteral" raw]
  | boolean {kind : String} (isBoolean : kind ∈ ["true", "false"]) (word : String) :
      Construed .primary (booleanLiteral (.text word)) [.hard kind word]
  | null (word : String) : Construed .primary (.node "NullLiteral" []) [.hard "null" word]
  | identifier (name : String) :
      Construed .primary (identifier name) [.hard "Identifier" name]
  | parenthesized {tree : Tree} {tokens : List Token} (opening closing : String)
      (inner : Construed .assignment tree tokens) :
      Construed .primary (.node "ParenthesizedExpression" [("expression", tree)])
        (.hard "(" opening :: tokens ++ [.hard ")" closing])
  | suffixed {tree : Tree} {tokens : List Token} (primary : Construed .primary tree tokens) :
      Construed .suffixed tree tokens
  | callWithout {callee : Tree} {tokens : List Token} (opening closing : String)
      (target : Construed .suffixed callee tokens) :
      Construed .suffixed (.node "CallExpression" [("callee", callee), ("arguments", .list [])])
        (tokens ++ [.hard "(" opening, .hard ")" closing])
  | call {callee : Tree} {values : List Tree} {tokens more : List Token} (opening closing : String)
      (target : Construed .suffixed callee tokens)
      (given : Construed .arguments (.list values) more) :
      Construed .suffixed (.node "CallExpression" [("callee", callee), ("arguments", .list values)])
        (tokens ++ .hard "(" opening :: more ++ [.hard ")" closing])
  | member {object : Tree} {tokens : List Token} (dot name : String)
      (target : Construed .suffixed object tokens) :
      Construed .suffixed
        (.node "MemberExpression"
          [("object", object), ("property", Builtin.identifier name), ("computed", .bool false)])
        (tokens ++ [.hard "." dot, .hard "Identifier" name])
  | index {object property : Tree} {tokens more : List Token} (opening closing : String)
      (target : Construed .suffixed object tokens) (inner : Construed .assignment property more) :
      Construed .suffixed
        (.node "MemberExpression"
          [("object", object), ("property", property), ("computed", .bool true)])
        (tokens ++ .hard "[" opening :: more ++ [.hard "]" closing])
  | argument {tree : Tree} {tokens : List Token} (only : Construed .assignment tree tokens) :
      Construed .arguments (.list [tree]) tokens
  | nextArgument {tree : Tree} {values : List Tree} {tokens more : List Token} (comma : String)
      (first : Construed .assignment tree tokens)
      (later : Construed .arguments (.list values) more) :
      Construed .arguments (.list (tree :: values)) (tokens ++ .hard "," comma :: more)
  | unprefixed {tree : Tree} {tokens : List Token} (inner : Construed .suffixed tree tokens) :
      Construed (.tier 0) tree tokens
  | prefixed {kind : String} {tree : Tree} {tokens : List Token} (isPrefix : kind ∈ ["!", "-"])
      (word : String) (inner : Construed (.tier 0) tree tokens) :
      Construed (.tier 0)
        (.node "UnaryExpression" [("operator", .text word), ("argument", tree)])
        (.hard kind word :: tokens)
  | lifted {n : Nat} {tier : Tier} {tree : Tree} {tokens : List Token}
      (here : precedence[n]? = some tier) (inner : Construed (.tier n) tree tokens) :
      Construed (.tier (n + 1)) tree tokens
  | binary {n : Nat} {tier : Tier} {kind : String} {left right : Tree} {tokens more : List Token}
      (here : precedence[n]? = some tier) (isOperator : kind ∈ tier.operators) (word : String)
      (before : Construed (.tier (n + 1)) left tokens) (after : Construed (.tier n) right more) :
      Construed (.tier (n + 1)) (operation tier.typeName word left right)
        (tokens ++ .hard kind word :: more)
  | unassigned {tree : Tree} {tokens : List Token}
      (inner : Construed (.tier precedence.length) tree tokens) : Construed .assignment tree tokens
  | assigned {kind : String} {left right : Tree} {tokens more : List Token}
      (isOperator : kind ∈ ["=", "+=", "-="]) (word : String)
      (target : Construed .suffixed left tokens) (source : Construed .assignment right more) :
      Construed .assignment
        (.node "AssignmentExpression"
          [("left", left), ("operator", .text word), ("right", right)])
        (tokens ++ .hard kind word :: more)

theorem Construed.hard {form : Form} {tree : Tree} {tokens : List Token}
    (construed : Construed form tree tokens) : ∀ token ∈ tokens, token.isHard = true := by
  induction construed with
  | number | string | boolean | null | identifier => simp [Token.isHard]
  | suffixed _ ih | argument _ ih | unprefixed _ ih | lifted _ _ ih | unassigned _ ih => exact ih
  | parenthesized _ _ _ ih | callWithout _ _ _ ih | member _ _ _ ih | prefixed _ _ _ ih =>
      simpa [Token.isHard, or_imp, forall_and] using ih
  | call _ _ _ _ ih ihToo | index _ _ _ _ ih ihToo | nextArgument _ _ _ ih ihToo
  | binary _ _ _ _ _ ih ihToo | assigned _ _ _ _ ih ihToo =>
      simpa [Token.isHard, or_imp, forall_and] using And.intro ih ihToo

theorem token_of_kind {token : Token} {kind : String} (fits : token.kind? = some kind) :
    token = .hard kind token.text := by
  cases token with
  | soft => cases fits
  | hard => cases fits; rfl

theorem foldSuffix_node {typeName : String} (slot : String) {fields filled : List (String × Tree)}
    (target : Tree)
    (opened : slot = if Index.contains "callee" (Tree.nodeMembers typeName fields)
      then "callee" else "object")
    (same : ∀ name, Index.get? name (Index.insert slot target (Tree.nodeMembers typeName fields)) =
      Index.get? name (Tree.nodeMembers typeName filled)) :
    foldSuffix target (.node typeName fields) = .node typeName filled := by
  have table := ((Tree.ascending_nodeMembers typeName fields).insert slot target).ext
    (Tree.ascending_nodeMembers typeName filled) same
  simp only [foldSuffix, Tree.node_eq, ← opened, table]

theorem foldSuffix_call (target given : Tree) :
    foldSuffix target (call given) =
      .node "CallExpression" [("callee", target), ("arguments", given)] := by
  refine foldSuffix_node "callee" target ?_ fun name => ?_
  · simp [Index.contains, Tree.nodeMembers, Index.merge, Index.get?_insert]
  · simp only [Tree.nodeMembers, Index.merge, List.foldl, Index.get?_insert]
    split_ifs <;> simp_all

theorem foldSuffix_member (target property : Tree) (computed : Bool) :
    foldSuffix target (member computed property) =
      .node "MemberExpression"
        [("object", target), ("property", property), ("computed", .bool computed)] := by
  refine foldSuffix_node "object" target ?_ fun name => ?_
  · simp [Index.contains, Tree.nodeMembers, Index.merge, Index.get?_insert, Index.get?]
  · simp only [Tree.nodeMembers, Index.merge, List.foldl, Index.get?_insert]
    split_ifs <;> simp_all

end Parlance.Builtin
