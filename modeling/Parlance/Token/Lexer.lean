import Parlance.Text.Bytes
import Parlance.Token.Lexeme

/-! Lexers: what finds the lexemes of a text, one span after another. -/

namespace Parlance

/-- Byte offsets into the text that a lexer runs over. -/
structure Span where
  start : Nat
  stop : Nat
  deriving DecidableEq

/-- A lexer at a position of its text comes to a span, of a class or unrecognised, or it ends. It goes
on where the span stops. -/
structure Lexer where
  next : List Char → Nat → Option (Option LexemeClass × Span)

/-- The lexer of the lexemes. How many bytes it gives up where none starts is left open. -/
def Lexeme.lexer (lost : List Char → Nat) : Lexer where
  next text position :=
    match Text.after? position text with
    | none | some [] => none
    | some (first :: rest) =>
        match scan? (first :: rest) with
        | some (lexemeClass, length) =>
            some (some lexemeClass,
              ⟨position, position + Text.byteSize ((first :: rest).take length)⟩)
        | none => some (none, ⟨position, position + lost (first :: rest)⟩)

end Parlance
