import Parlance.Pattern.Basic

/-! Productions and rule sets. A rule is the ordered list of productions for one name; composing
rule sets puts the productions for a name one after another, in the order of the sets. -/

namespace Parlance

structure Production where
  pattern : Pattern
  action : Option Action
  arity : Option Nat

namespace Production

def ofPattern (pattern : Pattern) : Production := ⟨pattern, none, none⟩

def expression (production : Production) : Pattern :=
  match production.action with
  | none => production.pattern
  | some action => .filter production.pattern action production.arity

end Production

inductive RuleEdit where
  | add (pattern : Pattern)
  | setAction (action : Action)
  | setArity (arity : Nat)

def changeLast (change : Production → Production) : List Production → List Production
  | [] => []
  | [last] => [change last]
  | first :: rest => first :: changeLast change rest

/-- An action or an arity goes to the latest production; without one it has no effect. -/
def RuleEdit.apply (edit : RuleEdit) (productions : List Production) : List Production :=
  match edit with
  | .add pattern => productions ++ [.ofPattern pattern]
  | .setAction action =>
      changeLast (fun production => { production with action := some action }) productions
  | .setArity arity =>
      changeLast (fun production => { production with arity := some arity }) productions

abbrev RuleSet := List (String × List Production)

namespace RuleSet

def choiceOf (productions : List Production) : Pattern :=
  .choice (productions.map Production.expression)

def author (name : String) (edits : List RuleEdit) (rules : RuleSet) : RuleSet :=
  Index.insert name
    (edits.foldl (fun productions edit => edit.apply productions) ((Index.get? name rules).getD []))
    rules

def ofEdits (edits : List (String × List RuleEdit)) : RuleSet :=
  edits.foldl (fun rules entry => author entry.1 entry.2 rules) []

def extend (rules : RuleSet) (name : String) (productions : List Production) : RuleSet :=
  Index.insert name ((Index.get? name rules).getD [] ++ productions) rules

def append (rules extra : RuleSet) : RuleSet :=
  extra.foldl (fun joined entry => extend joined entry.1 entry.2) rules

def compose (members : List RuleSet) : RuleSet := members.foldl append []

end RuleSet

end Parlance
