import Parlance.Pattern.Basic

/-! Normal forms: empty terms leave sequences, a sequence without terms is empty, a choice of one
alternative is that alternative, nothing is ignored twice, and every filter has its arity. -/

namespace Parlance

def Renewal.renews : Renewal → Bool
  | .never => false
  | .once | .always => true

def Renewal.next : Renewal → Renewal
  | .never | .once => .never
  | .always => .always

/-- The reader of a normalized copy. -/
def Reader.renewed (reader : Reader) : Reader :=
  { reader with
    identity := ⟨reader.identity.serial, reader.identity.renewals + 1⟩
    renewal := reader.renewal.next }

namespace Pattern

def tightSequence (terms : List Pattern) : Pattern :=
  match terms.filter (!isEmpty ·) with
  | [] => .empty
  | kept => .sequence kept

def tightChoice : List Pattern → Pattern
  | [alternative] => alternative
  | alternatives => .choice alternatives

def tightIgnore : Pattern → Pattern
  | .empty => .empty
  | .ignore term => .ignore term
  | term => .ignore term

/-- A custom pattern, told by its reader and its parts. -/
abbrev Custom := Reader × List Pattern

def ofCustom : Custom → Pattern
  | (reader, parts) => .custom reader parts

/-- Normal forms. A custom pattern gives way to the copy that `copies` has for it and its normalized
parts; without one it is normal as it is. -/
def normalizeWith (copies : Custom → List Pattern → Option Custom) : Pattern → Pattern
  | .token kind role => .token kind role
  | .rule name => .rule name
  | .sequence terms => tightSequence (normalizeAll copies terms)
  | .choice alternatives => tightChoice (normalizeAll copies alternatives)
  | .repetition body none allowEmpty => .repetition (normalizeWith copies body) none allowEmpty
  | .repetition body (some separator) allowEmpty =>
      .repetition (normalizeWith copies body) (some (normalizeWith copies separator)) allowEmpty
  | .ignore term => tightIgnore (normalizeWith copies term)
  | .filter term action arity =>
      .filter (normalizeWith copies term) action
        (some (arity.getD (normalizeWith copies term).arity))
  | .custom reader parts =>
      ofCustom ((copies (reader, parts) (normalizeAll copies parts)).getD (reader, parts))
  | .empty => .empty
where
  normalizeAll (copies : Custom → List Pattern → Option Custom) : List Pattern → List Pattern
    | [] => []
    | term :: rest => normalizeWith copies term :: normalizeAll copies rest

/-- The copy that a reader asks for by how it is renewed. -/
def renew : Custom → List Pattern → Option Custom
  | (reader, _), normal => if reader.renewal.renews then some (reader.renewed, normal) else none

def normalize : Pattern → Pattern := normalizeWith renew

end Pattern

end Parlance
