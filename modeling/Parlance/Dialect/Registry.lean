import Parlance.Fault
import Parlance.Grammar.Compiled
import Parlance.Node.Types
import Parlance.Settings.Basic
import Parlance.Token.Lexicon

/-! Fragments, dialects, and the registry that holds them by name. A dialect keeps what has been
derived for it; registering a name again replaces what was there, with all that was derived. -/

namespace Parlance

/-- Rules that are provided when they are first needed, and the types of the nodes they make. -/
structure Fragment where
  name : String
  /-- What the provider gives when it runs, which may be no rules at all. -/
  provided : Option RuleSet
  types : NodeTypes
  counted : Bool
  /-- Whether the provider has run. It never runs again. -/
  built : Bool

namespace Fragment

def make (name : String) (provided : Option RuleSet) (types : NodeTypes) : Fragment :=
  ⟨name, provided, types, false, false⟩

def describe (fragment : Fragment) : String :=
  "Fragment \x7b name: " ++ Text.quoted fragment.name ++ ", built: " ++
    (if fragment.built then "true" else "false") ++ ", types: " ++ fragment.types.describe ++
    " \x7d"

end Fragment

structure Dialect where
  name : String
  parent : Option String
  fragments : List String
  start : String
  precedence : Option Precedence
  maxDepth : Option Nat
  /-- Set while the rules are composed, so that a dialect that needs its own rules is noticed. -/
  composing : Bool
  rules : Option RuleSet
  grammar : Option Grammar
  types : Option NodeTypes
  lexicon : Option Lexicon

namespace Dialect

def defaultStart : String := "Program"

def define (name : String) (parent : Option String) (fragments : List String) : Dialect where
  name := name
  parent := parent
  fragments := fragments
  start := defaultStart
  precedence := none
  maxDepth := none
  composing := false
  rules := none
  grammar := none
  types := none
  lexicon := none

end Dialect

structure Registry where
  fragments : List (String × Fragment)
  dialects : List (String × Dialect)
  settings : Settings
  runs : List (String × Nat)

namespace Registry

def empty (settings : Settings) : Registry := ⟨[], [], settings, []⟩

def registerFragment (registry : Registry) (fragment : Fragment) : Registry :=
  { registry with fragments := Index.insert fragment.name fragment registry.fragments }

def registerDialect (registry : Registry) (dialect : Dialect) : Registry :=
  { registry with dialects := Index.insert dialect.name dialect registry.dialects }

def fragmentNames (registry : Registry) : List String := Index.names registry.fragments

def dialectNames (registry : Registry) : List String := Index.names registry.dialects

def hasFragment (registry : Registry) (name : String) : Bool :=
  Index.contains name registry.fragments

def fragment (registry : Registry) (name : String) : Except DefinitionFault Fragment :=
  match Index.get? name registry.fragments with
  | some fragment => .ok fragment
  | none => .error (.unknownFragment name)

def dialect (registry : Registry) (name : String) : Except DefinitionFault Dialect :=
  match Index.get? name registry.dialects with
  | some dialect => .ok dialect
  | none => .error (.unknownDialect name)

def update (registry : Registry) (name : String) (change : Dialect → Dialect) : Registry :=
  match Index.get? name registry.dialects with
  | some dialect =>
      { registry with dialects := Index.insert name (change dialect) registry.dialects }
  | none => registry

end Registry

end Parlance
