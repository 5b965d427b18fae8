import Parlance.Token.Basic

/-! Source text that a grammar could not consume. -/

namespace Parlance

/-- `index` is the furthest token that any branch of the parse reached. -/
structure SyntaxError where
  origin : Option String
  tokens : List Token
  index : Nat
  deriving DecidableEq

namespace SyntaxError

def offender (error : SyntaxError) : String :=
  match error.tokens[error.index]? with
  | some token => token.text
  | none => "end of input"

def newlines (text : String) : Nat := text.toList.count '\n'

/-- Lines are counted from one. -/
def line (error : SyntaxError) : Nat :=
  1 + newlines (Token.join (error.tokens.take error.index))

def message (error : SyntaxError) : String :=
  error.origin.getD "input" ++ ":" ++ toString error.line ++ ": unexpected " ++ error.offender

def describe (error : SyntaxError) : Tree :=
  .record [
    ("origin", match error.origin with
      | some origin => .text origin
      | none => .null),
    ("tokens", .list (error.tokens.map Token.describe)),
    ("index", .number (.integer error.index))]

end SyntaxError

end Parlance
