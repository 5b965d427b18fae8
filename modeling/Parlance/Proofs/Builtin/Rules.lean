import Parlance.Builtin.Dialects
import Parlance.Proofs.Grammar.Compose
import Parlance.Proofs.Peg.Parsing

/-! The rules of the built-in dialects, looked up by name, and the grammar they make. A terminator
looks at the next hard token and at whether a line break stands before it, and at nothing else. -/

namespace Parlance.Builtin

open Expressions Statements
open Index (get? names)
open RuleSet (append ofEdits editing get?_append get?_ofEdits ascending_ofEdits)

def rules (sugar : Bool) : RuleSet :=
  let base := RuleSet.compose [[], Expressions.rules, Statements.rules]
  if sugar then RuleSet.compose [base, Unless.rules] else base

def expressionEdits : List (String × List RuleEdit) :=
  ("Expression", [.add (.rule "AssignmentExpression")]) :: assignment ::
    binaryLevels.map BinaryLevel.edits ++
    [unary, postfixChain, suffix, primary,
      ("Identifier", [.add (.tokenClass "Identifier"), constructor "Identifier" ["name"]])]

def statementEdits : List (String × List RuleEdit) := [
  program, statement, block, declaration, declarator, conditional, loop, returning,
  ("EmptyStatement", [.add (.ignoredToken ";"), constructor "EmptyStatement" []]),
  ("ExpressionStatement", [
    .add (.sequence [.rule "Expression", Terminator.pattern 3]),
    constructor "ExpressionStatement" ["expression"]])]

def unlessEdits : List (String × List RuleEdit) := [
  ("Statement", [.add (.rule "UnlessStatement")]),
  ("UnlessStatement", [
    .add (.sequence (guarded "unless")), constructor "UnlessStatement" ["test", "body"]])]

theorem distinct_edits : (names (expressionEdits ++ statementEdits)).Nodup := by
  decide

theorem expressions_eq : Expressions.rules = ofEdits expressionEdits := by
  unfold Expressions.rules expressionEdits
  rfl

theorem statements_eq : Statements.rules = ofEdits statementEdits := by
  unfold Statements.rules statementEdits
  rfl

theorem get?_base (name : String) : get? name (rules false) =
    (get? name (expressionEdits ++ statementEdits)).map (editing · []) := by
  have distinct := distinct_edits
  rw [names, List.map_append, List.nodup_append] at distinct
  obtain ⟨distinctFirst, distinctSecond, disjoint⟩ := distinct
  simp only [rules, Bool.false_eq_true, if_false, RuleSet.compose, List.foldl, expressions_eq,
    statements_eq]
  rw [get?_append (ascending_ofEdits _), get?_append (ascending_ofEdits _),
    get?_append Index.ascending_nil, get?_ofEdits distinctFirst, get?_ofEdits distinctSecond,
    Index.get?_append]
  cases first : get? name expressionEdits with
  | none => cases get? name statementEdits <;> rfl
  | some edits =>
      have none : get? name statementEdits = none := Index.get?_eq_none_iff.mpr fun member =>
        disjoint name (Index.mem_names_of_get? first) name member rfl
      rw [none]
      rfl

theorem get?_sugar (name : String) : get? name (rules true) =
    match get? name unlessEdits with
    | none => get? name (rules false)
    | some edits => some ((get? name (rules false)).getD [] ++ editing edits []) := by
  have distinct : (names unlessEdits).Nodup := by decide
  have same : rules true = append (append [] (rules false)) (ofEdits unlessEdits) := by
    simp only [rules, Bool.false_eq_true, if_false, if_true, RuleSet.compose, List.foldl]
    rfl
  have ascending : Index.Ascending (rules false) := by
    simp only [rules, Bool.false_eq_true, if_false]
    exact RuleSet.ascending_compose _
  rw [same, get?_append (ascending_ofEdits _), RuleSet.get?_nil_append ascending,
    get?_ofEdits distinct]
  cases get? name unlessEdits <;> rfl

/-- The rules that are the same in both dialects are the authored ones but for `Statement`. -/
theorem get?_rules (sugar : Bool) {name : String} {edits : List RuleEdit}
    (authored : (name, edits) ∈ expressionEdits ++ statementEdits)
    (common : name ∉ names unlessEdits) : get? name (rules sugar) = some (editing edits []) := by
  have base : get? name (rules false) = some (editing edits []) := by
    rw [get?_base, Index.get?_of_mem distinct_edits authored]
    rfl
  cases sugar with
  | false => exact base
  | true => rw [get?_sugar, Index.get?_eq_none_iff.mpr common, base]

def statementKinds (sugar : Bool) : List String :=
  kinds ++ if sugar then ["UnlessStatement"] else []

theorem get?_statement (sugar : Bool) :
    get? "Statement" (rules sugar) =
      some ((statementKinds sugar).map fun kind => .ofPattern (.rule kind)) := by
  have base : get? "Statement" (rules false) = some (editing statement.2 []) := by
    rw [get?_base, Index.get?_of_mem distinct_edits (show statement ∈ _ by simp [statementEdits])]
    rfl
  cases sugar with
  | false => exact base
  | true => rw [get?_sugar, base]; rfl

theorem get?_unless_base : get? "UnlessStatement" (rules false) = none := by
  rw [get?_base, Index.get?_eq_none_iff.mpr (by decide)]
  rfl

theorem get?_unless : get? "UnlessStatement" (rules true) =
    some (editing [.add (.sequence (guarded "unless")),
      constructor "UnlessStatement" ["test", "body"]] []) := by
  rw [get?_sugar, get?_unless_base]
  rfl

/-- A hard token, and whether a line break stands before it. -/
structure Item where
  token : Token
  fresh : Bool

def Item.view (landed : Landed) : Item := ⟨landed.token, Terminator.breaksLine landed.ether⟩

def Terminator.reads : List Item → Option (Tree × List Item)
  | [] => some (.null, [])
  | item :: rest =>
      if item.token.kind? = some ";" then some (.null, rest)
      else if item.token.kind? = some "\x7d" || item.fresh then some (.null, item :: rest)
      else none

def peg (sugar : Bool) : Peg Item := ⟨rules sugar, Item.token, fun _ => Terminator.reads⟩

/-- The grammar has the rules for expressions as they were written. -/
class Expresses {α : Type} (grammar : Peg α) : Prop where
  found : ∀ {name : String} {edits : List RuleEdit}, (name, edits) ∈ expressionEdits →
    get? name grammar.rules = some (editing edits [])

instance (sugar : Bool) : Expresses (peg sugar) where
  found {name edits} authored := by
    have all : ∀ name ∈ names expressionEdits, name ∉ names unlessEdits := by decide
    exact get?_rules sugar (List.mem_append_left _ authored)
      (all name (List.mem_map_of_mem (f := Prod.fst) authored))

instance : Expresses Expressions.rules.peg where
  found {name edits} authored := by
    have distinct := distinct_edits
    rw [names, List.map_append, List.nodup_append] at distinct
    show get? name Expressions.rules = _
    rw [expressions_eq, get?_ofEdits distinct.1, Index.get?_of_mem distinct.1 authored]
    rfl

def ends (reader : Reader) : Prop := reader.script = Terminator.script

theorem ends_onward {reader : Reader} (ends : ends reader) : reader.script.Onward := by
  rw [show reader.script = Terminator.script from ends]
  unfold Terminator.script
  intro token
  cases token with
  | none => trivial
  | some next =>
      simp only
      split
      · trivial
      · intro ether
        dsimp only
        split <;> trivial

theorem hears_terminator (sugar : Bool) (context : ParseContext) {reader : Reader}
    (ends : ends reader) : (peg sugar).Hears Item.view context reader := by
  intro parts state rests
  rw [show reader.script = Terminator.script from ends]
  rcases rests.cases with ⟨-, peeked, none⟩ | ⟨kind, text, -, peeked, restsToo, some⟩
  · have input : state.left Item.view context.tokens = [] := congrArg (List.map Item.view) none
    refine ⟨.matched .null, state, .peek (by rw [peeked]; exact .yield), ?_⟩
    have same := @Agrees.matched _ Item.view context.tokens id .null _ state rfl rests
    rw [input] at same ⊢
    exact same
  · have input : state.left Item.view context.tokens =
        Item.view ⟨state.cursor.ether context.tokens, .hard kind text⟩ ::
          (state.advance context.tokens).left Item.view context.tokens :=
      congrArg (List.map Item.view) some
    have stays := @Agrees.matched _ Item.view context.tokens id .null _ state rfl rests
    by_cases closed : kind = ";"
    · refine ⟨.matched .null, state.advance context.tokens, .peek ?_, ?_⟩
      · rw [peeked]
        simp only [Token.kind?, closed]
        exact .advance .yield
      · rw [input]
        simp only [peg, Terminator.reads, Item.view, Token.kind?, closed]
        exact .matched rfl restsToo
    · by_cases ended : kind = "\x7d" ∨
          Terminator.breaksLine (state.cursor.ether context.tokens) = true
      · refine ⟨.matched .null, state, .peek ?_, ?_⟩
        · rw [peeked]
          simp only [Token.kind?, Option.some.injEq, closed, if_false]
          refine .ether ?_
          rw [if_pos (by simpa using ended)]
          exact .yield
        · rw [input] at stays ⊢
          simp only [peg, Terminator.reads, Item.view, Token.kind?, Option.some.injEq, closed,
            if_false]
          rw [if_pos (by simpa using ended)]
          exact stays
      · refine ⟨.mismatch, state, .peek ?_, ?_⟩
        · rw [peeked]
          simp only [Token.kind?, Option.some.injEq, closed, if_false]
          refine .ether ?_
          rw [if_neg (by simpa using ended)]
          exact .refuse
        · rw [input]
          simp only [peg, Terminator.reads, Item.view, Token.kind?, Option.some.injEq, closed,
            if_false]
          rw [if_neg (by simpa using ended)]
          exact .mismatch

end Parlance.Builtin
