import Parlance.Token.Basic

/-! A cursor over a token list. Going back only resets the position; the high-water mark and the log
remember where the cursor has been, and no parse decision looks at them. -/

namespace Parlance

structure Cursor where
  position : Nat
  /-- The furthest position reached, on abandoned branches too. -/
  highWater : Nat
  /-- The position after each move past ether, latest first, when a trace is kept. -/
  log : Option (List Nat)
  deriving DecidableEq

namespace Cursor

/-- The first position from here on that holds no soft token; `fuel` bounds the tokens passed. -/
def pastEther (tokens : Array Token) : Nat → Nat → Nat
  | 0, position => position
  | fuel + 1, position =>
      match tokens[position]? with
      | some (.soft _) => pastEther tokens fuel (position + 1)
      | _ => position

/-- Comes to rest at or after a position, past any ether there. -/
def restAt (tokens : Array Token) (position : Nat) (cursor : Cursor) : Cursor :=
  let rest := pastEther tokens (tokens.size - position) position
  { position := rest
    highWater := max cursor.highWater rest
    log := cursor.log.map (rest :: ·) }

def start (tokens : Array Token) (traced : Bool) : Cursor :=
  restAt tokens 0 ⟨0, 0, if traced then some [] else none⟩

def peek? (tokens : Array Token) (cursor : Cursor) : Option Token := tokens[cursor.position]?

def atEnd (tokens : Array Token) (cursor : Cursor) : Bool := tokens.size ≤ cursor.position

def advance (tokens : Array Token) (cursor : Cursor) : Cursor :=
  restAt tokens
    (if cursor.position < tokens.size then cursor.position + 1 else cursor.position) cursor

def rewind (mark : Nat) (cursor : Cursor) : Cursor := { cursor with position := mark }

/-- The soft tokens that end right before a position, put in front of those already collected. -/
def etherEndingAt (tokens : Array Token) : Nat → List Token → List Token
  | 0, collected => collected
  | position + 1, collected =>
      match tokens[position]? with
      | some (.soft text) => etherEndingAt tokens position (.soft text :: collected)
      | _ => collected

def ether (tokens : Array Token) (cursor : Cursor) : List Token :=
  etherEndingAt tokens (min cursor.position tokens.size) []

def trace? (cursor : Cursor) : Option (List Nat) := cursor.log.map List.reverse

def takeTrace (cursor : Cursor) : Option (List Nat) × Cursor :=
  (cursor.trace?, { cursor with log := none })

end Cursor

end Parlance
