import Parlance.Tree.Basic

/-! Tokens. A hard token has a kind, which grammars match on: its own text for keywords and
punctuators, the name of its class otherwise. A soft token is ether: blanks, comments and
characters that mean nothing to the dialect. -/

namespace Parlance

inductive Token where
  | hard (kind text : String)
  | soft (text : String)
  deriving DecidableEq, Inhabited

namespace Token

def literal (text : String) : Token := .hard text text

def text : Token → String
  | .hard _ text => text
  | .soft text => text

def kind? : Token → Option String
  | .hard kind _ => some kind
  | .soft _ => none

def isHard : Token → Bool
  | .hard .. => true
  | .soft _ => false

def isSoft (token : Token) : Bool := !token.isHard

def join (tokens : List Token) : String := String.join (tokens.map text)

def describe : Token → Tree
  | .hard kind text =>
      .record [("token", .text "hard"), ("kind", .text kind), ("text", .text text)]
  | .soft text => .record [("token", .text "soft"), ("text", .text text)]

end Token

end Parlance
