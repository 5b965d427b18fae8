import Parlance.Grammar.Compiled
import Parlance.Parse.Evaluate
import Parlance.Parse.SyntaxError

/-! Parsing a token list from a start rule. The parse fails if the rule does not match, and also if
it matches without consuming every hard token; the failure is reported where the cursor was
furthest. -/

namespace Parlance

/-- How a parse that ends comes out, with the log of the trace if one was kept. -/
inductive Verdict where
  | parsed (outcome : Except SyntaxError Tree) (log : List Nat)
  | broken (fault : DefinitionFault)

structure TraceRecord where
  log : List Nat
  tokens : List Token
  outcome : Except SyntaxError Tree

def TraceRecord.describe (record : TraceRecord) : Tree :=
  .record [
    ("log", .list (record.log.map fun (position : Nat) => Tree.number (.integer position))),
    ("tokens", .list (record.tokens.map Token.describe)),
    ("outcome", match record.outcome with
      | .ok tree => .record [("Ok", tree)]
      | .error error => .record [("Err", error.describe)])]

structure Parser where
  grammar : Grammar
  maxDepth : Option Nat

namespace Parser

def context (parser : Parser) (tokens : List Token) : ParseContext :=
  ⟨parser.grammar.normalized, tokens.toArray, parser.maxDepth⟩

def verdict (tokens : List Token) (origin : Option String) :
    Outcome × ParseState → Verdict
  | (.broken fault, _) => .broken fault
  | (.mismatch, state) =>
      .parsed (.error ⟨origin, tokens, state.cursor.highWater⟩) (state.cursor.trace?.getD [])
  | (.matched value, state) =>
      .parsed (if state.cursor.atEnd tokens.toArray then .ok value
        else .error ⟨origin, tokens, state.cursor.highWater⟩) (state.cursor.trace?.getD [])

def runWith (parser : Parser) (fuel : Nat) (start : String) (tokens : List Token)
    (origin : Option String) (traced : Bool) : Option Verdict :=
  let context := parser.context tokens
  (context.run fuel (.rule start) ⟨.start context.tokens traced, 0⟩).map (verdict tokens origin)

def widest (patterns : List Pattern) : Nat :=
  patterns.foldl (fun widest pattern => max widest pattern.size) 1

end Parser

/-- Enough fuel for a pattern on these tokens whenever rules do not recur without moving on: a rule
then nests at most once at each position, and a bound on nesting counts levels directly. -/
def ParseContext.enoughFuel (context : ParseContext) (pattern : Pattern) : Nat :=
  let width := Parser.widest (pattern :: context.rules.map Prod.snd) + 2
  let levels := match context.maxDepth with
    | some bound => bound + 2
    | none => (context.tokens.size + 2) * (context.rules.length + 2)
  levels * width + context.tokens.size + width

namespace Parser

def run (parser : Parser) (start : String) (tokens : List Token) (origin : Option String)
    (traced : Bool) : Option Verdict :=
  parser.runWith ((parser.context tokens).enoughFuel (.rule start)) start tokens origin traced

end Parser

end Parlance
