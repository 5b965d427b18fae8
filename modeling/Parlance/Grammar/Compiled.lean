import Parlance.Grammar.Rule
import Parlance.Pattern.Normal
import Parlance.Pattern.Walk

/-! Grammars: the rules of a rule set as patterns, fixed at one moment. A grammar answers with
normalized patterns; a rule is looked up by name each time it is used. -/

namespace Parlance

structure Grammar where
  /-- Each rule before normalization. -/
  raw : List (String × Pattern)

namespace Grammar

def ofRules (rules : RuleSet) : Grammar := ⟨Index.mapValues (fun _ => RuleSet.choiceOf) rules⟩

def hasRule (grammar : Grammar) (name : String) : Bool := Index.contains name grammar.raw

def normalized (grammar : Grammar) : List (String × Pattern) :=
  Index.mapValues (fun _ => Pattern.normalize) grammar.raw

def resolve (grammar : Grammar) (name : String) : Except DefinitionFault Pattern :=
  match Index.get? name grammar.normalized with
  | some pattern => .ok pattern
  | none => .error (.unresolvedRule name)

def tokens (grammar : Grammar) : List (String × Option Role) :=
  grammar.raw.flatMap fun rule => rule.2.tokens

def words (grammar : Grammar) (role : Role) : List String :=
  (grammar.tokens.filter fun token => token.2 == some role).map Prod.fst

/-- The first rule name used but not defined, going through the rules by name. -/
def dangling? (grammar : Grammar) : Option String :=
  (grammar.raw.flatMap fun rule => rule.2.ruleNames).find? fun name => !grammar.hasRule name

def validate (grammar : Grammar) : Except DefinitionFault Unit :=
  match grammar.dangling? with
  | some name => .error (.unresolvedRule name)
  | none => .ok ()

end Grammar

end Parlance
