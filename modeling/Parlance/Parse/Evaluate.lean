import Parlance.Pattern.Basic
import Parlance.Parse.Cursor

/-! Running patterns on tokens. One step of a run is defined over any way to run what the step
refers to, and `run` closes the knot with fuel; the result of a run that ends is the same with more
fuel. -/

namespace Parlance

inductive Outcome where
  | matched (value : Tree)
  | mismatch
  /-- The grammar is broken. Nothing recovers from this. -/
  | broken (fault : DefinitionFault)

structure ParseState where
  cursor : Cursor
  /-- How many rules are being run, one inside another. -/
  depth : Nat
  deriving DecidableEq

namespace ParseState

def position (state : ParseState) : Nat := state.cursor.position

def rewind (mark : Nat) (state : ParseState) : ParseState :=
  { state with cursor := state.cursor.rewind mark }

def advance (tokens : Array Token) (state : ParseState) : ParseState :=
  { state with cursor := state.cursor.advance tokens }

end ParseState

/-- What stays the same through a parse: the normalized rules, the tokens, and how deep rules may
nest. -/
structure ParseContext where
  rules : List (String × Pattern)
  tokens : Array Token
  maxDepth : Option Nat

/-- An outcome and the state it leaves behind, or nothing when the fuel ran out. -/
abbrev Attempt := Option (Outcome × ParseState)

abbrev Runner := Pattern → ParseState → Attempt

namespace ParseContext

def matchKind (context : ParseContext) (kind : String) (state : ParseState) :
    Outcome × ParseState :=
  match state.cursor.peek? context.tokens with
  | some token =>
      if token.kind? = some kind then (.matched (.text token.text), state.advance context.tokens)
      else (.mismatch, state)
  | none => (.mismatch, state)

def tooDeep (context : ParseContext) (state : ParseState) : Bool :=
  match context.maxDepth with
  | some bound => bound ≤ state.depth
  | none => false

/-- Runs a rule one level deeper. A rule that is missing breaks the parse even where the bound on
nesting would stop it. -/
def runRule (context : ParseContext) (run : Runner) (name : String) (state : ParseState) :
    Attempt :=
  match Index.get? name context.rules with
  | none => some (.broken (.unresolvedRule name), state)
  | some pattern =>
      if context.tooDeep state then some (.mismatch, state)
      else
        (run pattern { state with depth := state.depth + 1 }).map fun (outcome, after) =>
          (outcome, { after with depth := after.depth - 1 })

/-- Nothing kept is null, one value kept is that value, and more are a list. -/
def gather : List Tree → Tree
  | [] => .null
  | [value] => value
  | values => .list values

/-- Runs the terms in turn; a mismatch leaves the cursor where it is. -/
def runSequence (run : Runner) : List Pattern → List Tree → ParseState → Attempt
  | [], kept, state => some (.matched (gather kept), state)
  | term :: rest, kept, state =>
      match run term state with
      | some (.matched value, after) =>
          runSequence run rest (if term.usesValue then kept ++ [value] else kept) after
      | other => other

/-- The first alternative that does not mismatch decides; after each that does, the cursor goes
back. -/
def runChoice (run : Runner) : List Pattern → ParseState → Attempt
  | [], state => some (.mismatch, state)
  | alternative :: rest, state =>
      match run alternative state with
      | some (.mismatch, after) => runChoice run rest (after.rewind state.position)
      | other => other

/-- What one more round of a repetition comes to. -/
inductive Round where
  | taken (values : List Tree) (state : ParseState)
  | stopped (state : ParseState)
  | broken (fault : DefinitionFault) (state : ParseState)

def used (pattern : Pattern) (value : Tree) : List Tree := if pattern.usesValue then [value] else []

/-- A separator and the body after it count only together, and only if they move the cursor. -/
def runBody (run : Runner) (body : Pattern) (mark : Nat) (separatorValues : List Tree)
    (state : ParseState) : Option Round :=
  match run body state with
  | none => none
  | some (.matched value, after) =>
      if after.position = mark then some (.stopped (after.rewind mark))
      else some (.taken (separatorValues ++ used body value) after)
  | some (.mismatch, after) => some (.stopped (after.rewind mark))
  | some (.broken fault, after) => some (.broken fault after)

def runRound (run : Runner) (body : Pattern) (separator : Option Pattern) (state : ParseState) :
    Option Round :=
  match separator with
  | none => runBody run body state.position [] state
  | some separator =>
      match run separator state with
      | none => none
      | some (.matched value, after) =>
          runBody run body state.position (used separator value) after
      | some (.mismatch, after) => some (.stopped (after.rewind state.position))
      | some (.broken fault, after) => some (.broken fault after)

def runRounds (run : Runner) (body : Pattern) (separator : Option Pattern) :
    Nat → List Tree → ParseState → Attempt
  | 0, _, _ => none
  | fuel + 1, items, state =>
      match runRound run body separator state with
      | none => none
      | some (.taken values after) => runRounds run body separator fuel (items ++ values) after
      | some (.stopped after) => some (.matched (.list items), after)
      | some (.broken fault after) => some (.broken fault, after)

/-- The first body alone may consume nothing. -/
def runRepetition (run : Runner) (fuel : Nat) (body : Pattern) (separator : Option Pattern)
    (allowEmpty : Bool) (state : ParseState) : Attempt :=
  match run body state with
  | some (.matched value, after) => runRounds run body separator fuel (used body value) after
  | some (.mismatch, after) =>
      if allowEmpty then some (.matched (.list []), after.rewind state.position)
      else some (.mismatch, after)
  | other => other

/-- Answers the requests of a script. A part that the reader does not have never matches. -/
def runScript (context : ParseContext) (run : Runner) (parts : List Pattern) :
    Script → ParseState → Attempt
  | .yield value, state => some (.matched value, state)
  | .mismatch, state => some (.mismatch, state)
  | .abandon fault, state => some (.broken fault, state)
  | .peek next, state =>
      runScript context run parts (next (state.cursor.peek? context.tokens)) state
  | .ether next, state =>
      runScript context run parts (next (state.cursor.ether context.tokens)) state
  | .cursor next, state => runScript context run parts (next state.position) state
  | .advance next, state => runScript context run parts next (state.advance context.tokens)
  | .rewind mark next, state => runScript context run parts next (state.rewind mark)
  | .rule name next, state =>
      match context.runRule run name state with
      | none => none
      | some (.matched value, after) => runScript context run parts (next (some value)) after
      | some (.mismatch, after) => runScript context run parts (next none) after
      | some (.broken fault, after) => some (.broken fault, after)
  | .part index next, state =>
      match parts[index]? with
      | none => runScript context run parts (next none) state
      | some part =>
          match run part state with
          | none => none
          | some (.matched value, after) => runScript context run parts (next (some value)) after
          | some (.mismatch, after) => runScript context run parts (next none) after
          | some (.broken fault, after) => some (.broken fault, after)

def mapMatched (change : Tree → Tree) : Attempt → Attempt
  | some (.matched value, state) => some (.matched (change value), state)
  | other => other

def step (context : ParseContext) (fuel : Nat) (run : Runner) : Runner
  | .token kind _, state => some (context.matchKind kind state)
  | .rule name, state => context.runRule run name state
  | .sequence terms, state => runSequence run terms [] state
  | .choice alternatives, state => runChoice run alternatives state
  | .repetition body separator allowEmpty, state =>
      runRepetition run fuel body separator allowEmpty state
  | .ignore term, state => mapMatched (fun _ => .null) (run term state)
  | .filter term action arity, state =>
      mapMatched (action.invoke (arity.getD term.arity)) (run term state)
  | .custom reader parts, state => context.runScript run parts reader.script state
  | .empty, state => some (.matched .null, state)

/-- Fuel bounds how deep forms nest and how many rounds a repetition makes. -/
def run (context : ParseContext) : Nat → Runner
  | 0 => fun _ _ => none
  | fuel + 1 => context.step fuel (context.run fuel)

end ParseContext

end Parlance
