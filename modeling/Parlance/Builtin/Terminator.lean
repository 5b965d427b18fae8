import Parlance.Pattern.Basic

/-! The end of a statement. A semicolon ends it and is consumed; without one it ends before a
closing brace, at the end of input, and where a line break stands before the next token. -/

namespace Parlance.Builtin.Terminator

def breaksLine (ether : List Token) : Bool := ether.any fun token => token.text.contains '\n'

def script : Script :=
  .peek fun next? =>
    match next? with
    | none => .yield .null
    | some next =>
        if next.kind? = some ";" then .advance (.yield .null)
        else
          .ether fun ether =>
            if next.kind? = some "\x7d" || breaksLine ether then .yield .null else .mismatch

def describe (parts : List String) : String :=
  "Terminator \x7b semicolon: " ++ parts[0]?.getD "" ++ ", close_brace: " ++ parts[1]?.getD "" ++
    " \x7d"

/-- The parts are never run; they make the two punctuators known to the lexicon. -/
def pattern (serial : Nat) : Pattern :=
  .custom ⟨⟨serial, 0⟩, describe, script, 0, false, .never⟩ [.punctuator ";", .punctuator "\x7d"]

end Parlance.Builtin.Terminator
