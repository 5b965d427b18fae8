import Parlance.Grammar.Compiled

/-! Rule sets and grammars under authoring. A syntax on the workbench holds rules of its own and
perhaps members, which are syntaxes put there before it. A composite fixes its rules when they are
first asked for, a rule fixes its pattern, a grammar fixes all its patterns, and each of them once
more when it is resolved; nothing changes what has been fixed. -/

namespace Parlance

structure RuleDraft where
  productions : List Production
  /-- The rule as one pattern, fixed when it was first asked for. -/
  compiled : Option Pattern

namespace RuleDraft

def ofProductions (productions : List Production) : RuleDraft := ⟨productions, none⟩

def compile (draft : RuleDraft) : Pattern × RuleDraft :=
  match draft.compiled with
  | some pattern => (pattern, draft)
  | none =>
      let pattern := RuleSet.choiceOf draft.productions
      (pattern, { draft with compiled := some pattern })

end RuleDraft

abbrev Drafts := List (String × RuleDraft)

structure SyntaxDraft where
  own : Drafts
  members : List Nat
  /-- The rules of a composite, fixed when they were first asked for. -/
  composed : Option Drafts

namespace SyntaxDraft

def isComposite (draft : SyntaxDraft) : Bool := !draft.members.isEmpty

/-- The rules that can be looked up; a composite has none before it is fixed. -/
def visible (draft : SyntaxDraft) : Drafts :=
  if draft.isComposite then draft.composed.getD [] else draft.own

end SyntaxDraft

structure GrammarDraft where
  source : Nat
  grammar : Option Grammar
  /-- The rules resolved so far, each as it was resolved first. -/
  resolved : List (String × Pattern)

/-- Syntaxes and grammars are numbered in the order in which they were put here. -/
structure Workbench where
  syntaxes : Array SyntaxDraft
  grammars : Array GrammarDraft

namespace Workbench

def empty : Workbench := ⟨#[], #[]⟩

def draftAt (bench : Workbench) (number : Nat) : SyntaxDraft :=
  bench.syntaxes[number]?.getD ⟨[], [], none⟩

def setDraft (bench : Workbench) (number : Nat) (draft : SyntaxDraft) : Workbench :=
  { bench with syntaxes := bench.syntaxes.setIfInBounds number draft }

def addSyntax (bench : Workbench) (rules : RuleSet) : Nat × Workbench :=
  let own := Index.mapValues (fun _ => RuleDraft.ofProductions) rules
  (bench.syntaxes.size, { bench with syntaxes := bench.syntaxes.push ⟨own, [], none⟩ })

def addComposite (bench : Workbench) (members : List Nat) : Nat × Workbench :=
  (bench.syntaxes.size, { bench with syntaxes := bench.syntaxes.push ⟨[], members, none⟩ })

def author (bench : Workbench) (number : Nat) (name : String) (edits : List RuleEdit) :
    List Production × Workbench :=
  let draft := bench.draftAt number
  let rule := (Index.get? name draft.own).getD (.ofProductions [])
  let productions := edits.foldl (fun productions edit => edit.apply productions) rule.productions
  let own := Index.insert name { rule with productions := productions } draft.own
  (productions, bench.setDraft number { draft with own := own })

def productionsOf (drafts : Drafts) : RuleSet :=
  Index.mapValues (fun _ rule => rule.productions) drafts

/-- Fixes a composite and before it the composites among its members, which have smaller numbers. -/
def fixWithin : Nat → Nat → Workbench → Workbench
  | 0, _, bench => bench
  | fuel + 1, number, bench =>
      let draft := bench.draftAt number
      if !draft.isComposite || draft.composed.isSome then bench
      else
        let bench := draft.members.foldl (fun bench member => fixWithin fuel member bench) bench
        let parts := productionsOf draft.own ::
          draft.members.map fun member => productionsOf (bench.draftAt member).visible
        let rules := Index.mapValues (fun _ => RuleDraft.ofProductions) (RuleSet.compose parts)
        bench.setDraft number { draft with composed := some rules }

def fix (bench : Workbench) (number : Nat) : Workbench := fixWithin (number + 1) number bench

/-- The rules of a syntax, fixed from now on if it is a composite. -/
def rules (bench : Workbench) (number : Nat) : Drafts × Workbench :=
  let bench := bench.fix number
  ((bench.draftAt number).visible, bench)

def ruleNames (bench : Workbench) (number : Nat) : List String × Workbench :=
  let (rules, bench) := bench.rules number
  (Index.names rules, bench)

def rule? (bench : Workbench) (number : Nat) (name : String) :
    Option (List Production) × Workbench :=
  let (rules, bench) := bench.rules number
  ((Index.get? name rules).map RuleDraft.productions, bench)

def setVisible (draft : SyntaxDraft) (rules : Drafts) : SyntaxDraft :=
  if draft.isComposite then { draft with composed := some rules } else { draft with own := rules }

def compileRule (bench : Workbench) (number : Nat) (name : String) : Option Pattern × Workbench :=
  let (rules, bench) := bench.rules number
  match Index.get? name rules with
  | none => (none, bench)
  | some rule =>
      let (pattern, rule) := rule.compile
      (some pattern,
        bench.setDraft number (setVisible (bench.draftAt number) (Index.insert name rule rules)))

def addGrammar (bench : Workbench) (source : Nat) : Nat × Workbench :=
  (bench.grammars.size, { bench with grammars := bench.grammars.push ⟨source, none, []⟩ })

/-- A grammar, fixed from now on together with every rule it takes its patterns from. -/
def grammar (bench : Workbench) (number : Nat) : Grammar × Workbench :=
  match bench.grammars[number]? with
  | none => (⟨[]⟩, bench)
  | some draft =>
      match draft.grammar with
      | some grammar => (grammar, bench)
      | none =>
          let (rules, bench) := bench.rules draft.source
          let grammar : Grammar := ⟨Index.mapValues (fun _ rule => rule.compile.1) rules⟩
          let compiled := Index.mapValues (fun _ rule => rule.compile.2) rules
          let bench :=
            bench.setDraft draft.source (setVisible (bench.draftAt draft.source) compiled)
          let grammars := bench.grammars.setIfInBounds number { draft with grammar := some grammar }
          (grammar, { bench with grammars := grammars })

def keepResolved (bench : Workbench) (number : Nat) (name : String) (pattern : Pattern) : Workbench :=
  match bench.grammars[number]? with
  | none => bench
  | some draft =>
      let draft := { draft with resolved := Index.insert name pattern draft.resolved }
      { bench with grammars := bench.grammars.setIfInBounds number draft }

/-- A rule of a grammar, the same from its first resolution on. -/
def resolve (bench : Workbench) (number : Nat) (name : String) :
    Except DefinitionFault Pattern × Workbench :=
  match bench.grammars[number]?.bind fun draft => Index.get? name draft.resolved with
  | some pattern => (.ok pattern, bench)
  | none =>
      let (grammar, bench) := bench.grammar number
      match grammar.resolve name with
      | .error fault => (.error fault, bench)
      | .ok pattern => (.ok pattern, bench.keepResolved number name pattern)

def sourceRules (bench : Workbench) (number : Nat) : List String × Workbench :=
  match bench.grammars[number]? with
  | none => ([], bench)
  | some draft => bench.ruleNames draft.source

end Workbench

end Parlance
