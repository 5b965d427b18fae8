import Parlance.Pattern.Action
import Parlance.Pattern.Script

/-! Patterns: parsing expressions over tokens. A pattern yields a value when it matches; a sequence
keeps the values of the terms that have one to give. -/

namespace Parlance

/-- Which words of a dialect a token pattern adds to. A pattern without a role names a class. -/
inductive Role where
  | keyword
  | punctuator
  deriving DecidableEq

/-- Whether normalizing a custom pattern makes a copy with normalized parts: never, the first time
only, or each time. -/
inductive Renewal where
  | never
  | once
  | always
  deriving DecidableEq

/-- Tells custom patterns apart: the serial number of the one that was made, and how often it has
been copied by normalization since. -/
structure Identity where
  serial : Nat
  renewals : Nat
  deriving DecidableEq

/-- What a custom pattern is beside its parts. -/
structure Reader where
  identity : Identity
  describe : List String → String
  script : Script
  arity : Nat
  usesValue : Bool
  renewal : Renewal

inductive Pattern where
  | token (kind : String) (role : Option Role)
  | rule (name : String)
  | sequence (terms : List Pattern)
  | choice (alternatives : List Pattern)
  | repetition (body : Pattern) (separator : Option Pattern) (allowEmpty : Bool)
  | ignore (term : Pattern)
  | filter (term : Pattern) (action : Action) (arity : Option Nat)
  | custom (reader : Reader) (parts : List Pattern)
  | empty

namespace Pattern

instance : Inhabited Pattern := ⟨.empty⟩

def tokenClass (name : String) : Pattern := .token name none

def punctuator (text : String) : Pattern := .token text (some .punctuator)

def ignoredToken (text : String) : Pattern := .ignore (punctuator text)

def keywordValue (word : String) : Pattern := .token word (some .keyword)

def keyword (word : String) : Pattern := .ignore (keywordValue word)

def star (body : Pattern) (separator : Option Pattern) : Pattern := .repetition body separator true

def plus (body : Pattern) (separator : Option Pattern) : Pattern := .repetition body separator false

def value (identity : Nat) (value : Tree) : Pattern :=
  .filter .empty (.handle ⟨identity, fun _ => value⟩) none

def option (identity : Nat) (term : Pattern) : Pattern := .choice [term, value identity .null]

def isEmpty : Pattern → Bool
  | .empty => true
  | _ => false

/-- Whether an enclosing sequence keeps the value. -/
def usesValue : Pattern → Bool
  | .token .. | .rule _ | .repetition .. | .filter .. => true
  | .ignore _ | .empty => false
  | .sequence terms => anyUsesValue terms
  | .choice alternatives => anyUsesValue alternatives
  | .custom reader _ => reader.usesValue
where
  anyUsesValue : List Pattern → Bool
    | [] => false
    | term :: rest => usesValue term || anyUsesValue rest

/-- The number that all entries equal, or one. -/
def commonArity : List Nat → Nat
  | [] => 1
  | first :: rest => if rest.all (· == first) then first else 1

def arity : Pattern → Nat
  | .token .. | .rule _ | .repetition .. | .filter .. => 1
  | .ignore _ | .empty => 0
  | .sequence terms => (terms.filter usesValue).length
  | .choice alternatives => commonArity (arities alternatives)
  | .custom reader _ => reader.arity
where
  arities : List Pattern → List Nat
    | [] => []
    | term :: rest => arity term :: arities rest

theorem anyUsesValue_eq_any (terms : List Pattern) :
    usesValue.anyUsesValue terms = terms.any usesValue := by
  induction terms with
  | nil => rfl
  | cons term rest ih => simp [usesValue.anyUsesValue, ih]

theorem arities_eq_map (terms : List Pattern) : arity.arities terms = terms.map arity := by
  induction terms with
  | nil => rfl
  | cons term rest ih => simp [arity.arities, ih]

end Pattern

end Parlance
