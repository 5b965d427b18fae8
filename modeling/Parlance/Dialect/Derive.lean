import Parlance.Dialect.Compose

/-! What is derived from the rules of a dialect: its grammar, its node types and its lexicon. Each
is kept once it has been derived; a fault keeps nothing. -/

namespace Parlance.Registry

def hasProductions (rules : RuleSet) (name : String) : Bool :=
  match Index.get? name rules with
  | some productions => !productions.isEmpty
  | none => false

def validGrammar (dialect : Dialect) (rules : RuleSet) : Except DefinitionFault Grammar :=
  if hasProductions rules dialect.start then
    let grammar := Grammar.ofRules rules
    match grammar.validate with
    | .ok () => .ok grammar
    | .error fault => .error fault
  else .error (.missingStart dialect.name dialect.start)

def grammar (name : String) (registry : Registry) : Answer Grammar :=
  match registry.dialect name with
  | .error fault => (.error fault, registry)
  | .ok dialect =>
      match dialect.grammar with
      | some grammar => (.ok grammar, registry)
      | none =>
          match rules name registry with
          | (.error fault, registry) => (.error fault, registry)
          | (.ok rules, registry) =>
              match validGrammar dialect rules with
              | .error fault => (.error fault, registry)
              | .ok grammar =>
                  (.ok grammar,
                    registry.update name fun dialect => { dialect with grammar := some grammar })

def ownTypes (registry : Registry) : List String → NodeTypes → Except DefinitionFault NodeTypes
  | [], merged => .ok merged
  | name :: rest, merged =>
      match registry.fragment name with
      | .error fault => .error fault
      | .ok fragment => ownTypes registry rest (Index.merge merged fragment.types)

/-- The side that wins replaces what the other has. -/
def mergeTypes (precedence : Precedence) (own : NodeTypes) (inherited : Option NodeTypes) :
    NodeTypes :=
  match precedence, inherited with
  | _, none => own
  | .parentWins, some inherited => Index.merge own inherited
  | .childWins, some inherited => Index.merge inherited own

/-- The node types of a dialect. Rules that are kept hide cycles made since, so going on to the
parents ends only by the bound on their number. -/
def typesWithin : Nat → String → Registry → Answer NodeTypes
  | 0, _, registry => (.error .unending, registry)
  | fuel + 1, name, registry =>
      match registry.dialect name with
      | .error fault => (.error fault, registry)
      | .ok dialect =>
          match dialect.types with
          | some types => (.ok types, registry)
          | none =>
              match rules name registry with
              | (.error fault, registry) => (.error fault, registry)
              | (.ok _, registry) =>
                  match ownTypes registry dialect.fragments [] with
                  | .error fault => (.error fault, registry)
                  | .ok own =>
                      let (inherited, registry) : Answer (Option NodeTypes) :=
                        match dialect.parent with
                        | none => (.ok none, registry)
                        | some parent =>
                            match typesWithin fuel parent registry with
                            | (.error fault, registry) => (.error fault, registry)
                            | (.ok types, registry) => (.ok (some types), registry)
                      match inherited with
                      | .error fault => (.error fault, registry)
                      | .ok inherited =>
                          let precedence := dialect.precedence.getD registry.settings.precedence
                          let types := mergeTypes precedence own inherited
                          (.ok types,
                            registry.update name fun dialect =>
                              { dialect with types := some types })

/-- More parents than there are dialects are gone through only on a cycle. -/
def types (name : String) (registry : Registry) : Answer NodeTypes :=
  typesWithin (registry.dialects.length + 1) name registry

def lexicon (name : String) (registry : Registry) : Answer Lexicon :=
  match registry.dialect name with
  | .error fault => (.error fault, registry)
  | .ok dialect =>
      match dialect.lexicon with
      | some lexicon => (.ok lexicon, registry)
      | none =>
          match grammar name registry with
          | (.error fault, registry) => (.error fault, registry)
          | (.ok grammar, registry) =>
              let lexicon := Lexicon.ofWords (grammar.words .keyword) (grammar.words .punctuator)
              (.ok lexicon,
                registry.update name fun dialect => { dialect with lexicon := some lexicon })

end Parlance.Registry
