import Parlance.Dialect.Registry

/-! Composing the rules of dialects: those of the parent, then those of the dialect's own fragments
in the order it lists them. What has been composed is kept. -/

namespace Parlance.Registry

/-- An answer and the registry it leaves behind, which keeps whatever was derived on the way. -/
abbrev Answer (α : Type) := Except DefinitionFault α × Registry

def build (registry : Registry) (fragment : Fragment) : Registry :=
  if fragment.built then registry
  else
    let registry := registry.registerFragment { fragment with built := true }
    if fragment.counted then
      let count := (Index.get? fragment.name registry.runs).getD 0
      { registry with runs := Index.insert fragment.name (count + 1) registry.runs }
    else registry

def fragmentRules (name : String) (registry : Registry) : Answer RuleSet :=
  match registry.fragment name with
  | .error fault => (.error fault, registry)
  | .ok fragment =>
      (match fragment.provided with
        | some rules => .ok rules
        | none => .error (.emptyFragment name),
      registry.build fragment)

def allFragmentRules : List String → Registry → Answer (List RuleSet)
  | [], registry => (.ok [], registry)
  | name :: rest, registry =>
      match fragmentRules name registry with
      | (.error fault, registry) => (.error fault, registry)
      | (.ok rules, registry) =>
          match allFragmentRules rest registry with
          | (.error fault, registry) => (.error fault, registry)
          | (.ok others, registry) => (.ok (rules :: others), registry)

def setComposing (name : String) (composing : Bool) (registry : Registry) : Registry :=
  registry.update name fun dialect => { dialect with composing := composing }

def keepRules (name : String) (rules : RuleSet) (registry : Registry) : Registry :=
  registry.update name fun dialect => { dialect with composing := false, rules := some rules }

/-- The rules of a dialect. `fuel` bounds how many parents are gone through. -/
def rulesWithin : Nat → String → Registry → Answer RuleSet
  | 0, _, registry => (.error .unending, registry)
  | fuel + 1, name, registry =>
      match registry.dialect name with
      | .error fault => (.error fault, registry)
      | .ok dialect =>
          match dialect.rules with
          | some rules => (.ok rules, registry)
          | none =>
              if dialect.composing then (.error (.cyclicDialect name), registry)
              else
                let registry := registry.setComposing name true
                let (base, registry) : Answer RuleSet := match dialect.parent with
                  | none => (.ok [], registry)
                  | some parent => rulesWithin fuel parent registry
                match base with
                | .error fault => (.error fault, registry.setComposing name false)
                | .ok base =>
                    match allFragmentRules dialect.fragments registry with
                    | (.error fault, registry) => (.error fault, registry.setComposing name false)
                    | (.ok members, registry) =>
                        let rules := RuleSet.compose (base :: members)
                        (.ok rules, registry.keepRules name rules)

/-- Every parent gone through is marked as composing, so there are no more steps than dialects. -/
def rules (name : String) (registry : Registry) : Answer RuleSet :=
  rulesWithin (registry.dialects.length + 1) name registry

end Parlance.Registry
