import Parlance.Fault
import Parlance.Token.Basic

/-! Scripts: what a custom reader does, one request at a time. A script sees the parse only through
the answers to its requests, and every run of one is finite. -/

namespace Parlance

inductive Script where
  | yield (value : Tree)
  | mismatch
  | abandon (fault : DefinitionFault)
  /-- The hard token at the cursor, or nothing at the end of input. -/
  | peek (next : Option Token → Script)
  /-- The soft tokens between the hard token before the cursor and the cursor. -/
  | ether (next : List Token → Script)
  | cursor (next : Nat → Script)
  | advance (next : Script)
  | rewind (mark : Nat) (next : Script)
  /-- Runs a rule of the grammar; a mismatch answers nothing. -/
  | rule (name : String) (next : Option Tree → Script)
  /-- Runs one of the reader's own parts; a mismatch answers nothing. -/
  | part (index : Nat) (next : Option Tree → Script)

namespace Script

def settle : Option Tree → Script
  | some value => .yield value
  | none => .mismatch

end Script

end Parlance
