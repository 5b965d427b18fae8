import Parlance.Proofs.Builtin.Rules
import Parlance.Proofs.Grammar.Readers
import Parlance.Proofs.Peg.Totality

/-! Both built-in grammars come to a result on every input: their rules are in layers, and the only
one that may match nothing is the one for programs. -/

namespace Parlance.Builtin

open Index (get? names)
open RuleSet (editing)

def authored (sugar : Bool) : List (String × List RuleEdit) :=
  expressionEdits ++ statementEdits ++ if sugar then unlessEdits else []

theorem authored_of_get?_base {name : String} {productions : List Production}
    (found : get? name (rules false) = some productions) :
    ∃ edits, (name, edits) ∈ expressionEdits ++ statementEdits ∧ productions = editing edits [] := by
  rw [get?_base] at found
  obtain ⟨edits, own, rfl⟩ := Option.map_eq_some_iff.mp found
  exact ⟨edits, Index.mem_of_get? own, rfl⟩

theorem authored_of_get? {sugar : Bool} {name : String} {productions : List Production}
    (found : get? name (rules sugar) = some productions) {production : Production}
    (member : production ∈ productions) :
    ∃ edits, (name, edits) ∈ authored sugar ∧ production ∈ editing edits [] := by
  have base {productions : List Production} (found : get? name (rules false) = some productions)
      (member : production ∈ productions) :
      ∃ edits, (name, edits) ∈ authored sugar ∧ production ∈ editing edits [] := by
    obtain ⟨edits, own, rfl⟩ := authored_of_get?_base found
    exact ⟨edits, List.mem_append_left _ own, member⟩
  cases sugar with
  | false => exact base found member
  | true =>
      rw [get?_sugar] at found
      split at found
      next => exact base found member
      next edits own =>
        cases found
        rcases List.mem_append.mp member with member | member
        · cases first : get? name (rules false) with
          | none => simp [first] at member
          | some productions => exact base first (by simpa [first] using member)
        · exact ⟨edits, List.mem_append_right _ (Index.mem_of_get? own), member⟩

theorem isSome_of_authored {sugar : Bool} {name : String} (member : name ∈ names (authored sugar)) :
    (get? name (rules sugar)).isSome = true := by
  have base (own : name ∈ names (expressionEdits ++ statementEdits)) :
      (get? name (rules false)).isSome = true := by
    rw [get?_base, Option.isSome_map, ← Option.ne_none_iff_isSome]
    exact fun none => Index.get?_eq_none_iff.mp none own
  rw [names, authored, List.map_append, List.mem_append] at member
  cases sugar with
  | false => exact base (by simpa [names] using member)
  | true =>
      rw [get?_sugar]
      split
      next none =>
        refine base (member.resolve_right ?_)
        exact Index.get?_eq_none_iff.mp none
      next => rfl

theorem ends_authored (sugar : Bool) :
    ∀ reader ∈ RuleSet.authorReaders (authored sugar), ends reader := by
  have all : ∀ reader ∈ RuleSet.authorReaders (authored true), ends reader := by
    have same : RuleSet.authorReaders (authored true) =
        (Terminator.pattern 1).readers ++ (Terminator.pattern 2).readers ++
          (Terminator.pattern 3).readers := rfl
    rw [same]
    rintro reader (_ | ⟨_, _ | ⟨_, _ | ⟨_, none⟩⟩⟩)
    · rfl
    · rfl
    · rfl
    · cases none
  cases sugar with
  | true => exact all
  | false =>
      intro reader member
      refine all reader ?_
      simp only [RuleSet.authorReaders, authored, if_true, if_false, List.flatMap_append,
        List.append_nil, Bool.false_eq_true] at member ⊢
      exact List.mem_append_left _ member

theorem rules_readBy (sugar : Bool) : (rules sugar).ReadBy ends := by
  intro name productions found production member
  obtain ⟨edits, own, among⟩ := authored_of_get? found member
  refine RuleSet.admits_editing (fun reader listed => ?_) production among
  exact ends_authored sugar reader (List.mem_flatMap.mpr ⟨_, own, listed⟩)

/-- The rules, each after those that it calls with nothing consumed. -/
def layers : List String := [
  "Identifier", "PrimaryExpression", "PostfixSuffix", "PostfixExpression", "UnaryExpression",
  "MultiplicativeExpression", "AdditiveExpression", "RelationalExpression", "EqualityExpression",
  "LogicalAndExpression", "LogicalOrExpression", "AssignmentExpression", "Expression",
  "VariableDeclarator", "BlockStatement", "VariableDeclaration", "IfStatement", "WhileStatement",
  "ReturnStatement", "EmptyStatement", "ExpressionStatement", "UnlessStatement", "Statement",
  "Program"]

theorem reads_suffix {input rest : List Item} {value : Tree}
    (reads : Terminator.reads input = some (value, rest)) : rest <:+ input := by
  cases input with
  | nil => cases reads; exact List.suffix_refl _
  | cons item later =>
      simp only [Terminator.reads] at reads
      split at reads
      · cases reads
        exact List.suffix_cons ..
      split at reads
      · cases reads
        exact List.suffix_refl _
      · cases reads

theorem layered (sugar : Bool) : (peg sugar).Layered layers.idxOf ["Program"] where
  reads := reads_suffix
  layer := by
    intro name productions found production member
    obtain ⟨edits, own, among⟩ := authored_of_get? found member
    have all : ∀ entry ∈ authored sugar, ∀ production ∈ editing entry.2 [],
        (∀ called ∈ production.expression.ruleNames, called ∈ names (authored sugar)) ∧
        (∀ head ∈ production.expression.heads ["Program"],
          layers.idxOf head < layers.idxOf entry.1) ∧
        (production.expression.mayIdle ["Program"] = true → ["Program"].contains entry.1 = true) := by
      cases sugar <;> decide +kernel
    obtain ⟨known, lower, idles⟩ := all _ own _ among
    exact ⟨fun called member => isSome_of_authored (known called member), lower, idles⟩

theorem rule_ends (sugar : Bool) {name : String} (own : name ∈ names (authored sugar))
    (input : List Item) : ∃ result, Derives (peg sugar) (.pattern (.rule name)) input result := by
  refine (layered sugar).ends (fun called member => ?_) input
  obtain rfl := List.mem_singleton.mp member
  exact isSome_of_authored own

end Parlance.Builtin
