import Parlance.Pattern.Basic

/-! Walks over the parts of a pattern, what they find, and when two patterns are the same. -/

namespace Parlance.Pattern

/-- The pattern and everything below it, each pattern before its parts. -/
def walk : Pattern → List Pattern
  | .token kind role => [.token kind role]
  | .rule name => [.rule name]
  | .sequence terms => .sequence terms :: walkAll terms
  | .choice alternatives => .choice alternatives :: walkAll alternatives
  | .repetition body none allowEmpty => .repetition body none allowEmpty :: walk body
  | .repetition body (some separator) allowEmpty =>
      .repetition body (some separator) allowEmpty :: (walk body ++ walk separator)
  | .ignore term => .ignore term :: walk term
  | .filter term action arity => .filter term action arity :: walk term
  | .custom reader parts => .custom reader parts :: walkAll parts
  | .empty => [.empty]
where
  walkAll : List Pattern → List Pattern
    | [] => []
    | term :: rest => walk term ++ walkAll rest

theorem walkAll_eq_flatMap (terms : List Pattern) : walk.walkAll terms = terms.flatMap walk := by
  induction terms with
  | nil => rfl
  | cons term rest ih => simp [walk.walkAll, ih]

def size (pattern : Pattern) : Nat := pattern.walk.length

def tokens (pattern : Pattern) : List (String × Option Role) :=
  pattern.walk.filterMap fun
    | .token kind role => some (kind, role)
    | _ => none

def ruleNames (pattern : Pattern) : List String :=
  pattern.walk.filterMap fun
    | .rule name => some name
    | _ => none

/-- Equal in structure; handlers and custom patterns are equal by identity alone. -/
def same : Pattern → Pattern → Bool
  | .token kind role, .token otherKind otherRole => kind == otherKind && role == otherRole
  | .rule name, .rule other => name == other
  | .sequence terms, .sequence others => sameAll terms others
  | .choice alternatives, .choice others => sameAll alternatives others
  | .repetition body none allowEmpty, .repetition otherBody none otherAllowEmpty =>
      same body otherBody && allowEmpty == otherAllowEmpty
  | .repetition body (some separator) allowEmpty,
      .repetition otherBody (some otherSeparator) otherAllowEmpty =>
      same body otherBody && same separator otherSeparator && allowEmpty == otherAllowEmpty
  | .ignore term, .ignore other => same term other
  | .filter term action arity, .filter other otherAction otherArity =>
      same term other && action.same otherAction && arity == otherArity
  | .custom reader _, .custom other _ => reader.identity == other.identity
  | .empty, .empty => true
  | _, _ => false
where
  sameAll : List Pattern → List Pattern → Bool
    | [], [] => true
    | term :: rest, other :: others => same term other && sameAll rest others
    | _, _ => false

end Parlance.Pattern
