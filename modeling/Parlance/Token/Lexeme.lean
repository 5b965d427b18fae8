/-! Lexemes: the classes of text that are the same in every dialect. Punctuation is not among them.
-/

namespace Parlance

inductive LexemeClass where
  | whitespace
  | lineComment
  | blockComment
  | number
  | string
  | word
  deriving DecidableEq

def LexemeClass.isEther : LexemeClass → Bool
  | .whitespace | .lineComment | .blockComment => true
  | .number | .string | .word => false

namespace Lexeme

def isWhitespace (char : Char) : Bool :=
  char = ' ' || char = '\t' || char = '\r' || char = '\n' || char = '\x0c'

def isWordStart (char : Char) : Bool := char.isAlpha || char = '_' || char = '$'

def isWordPart (char : Char) : Bool := isWordStart char || char.isDigit

def isHexDigit (char : Char) : Bool :=
  char.isDigit || ('a' ≤ char && char ≤ 'f') || ('A' ≤ char && char ≤ 'F')

def isNewline (char : Char) : Bool := char = '\n'

/-- The length of a block comment after its opening; one that is not closed takes all the rest. -/
def blockCommentLength : List Char → Nat
  | '*' :: '/' :: _ => 2
  | _ :: rest => blockCommentLength rest + 1
  | [] => 0

/-- The length of a string after its opening quote, if it is closed before its line ends. A
backslash takes the next character with it, a line feed too. -/
def stringLength (quote : Char) : List Char → Option Nat
  | [] => none
  | '\\' :: _ :: rest => (stringLength quote rest).map (· + 2)
  | char :: rest =>
      if char = quote then some 1
      else if char = '\\' ∨ char = '\n' then none
      else (stringLength quote rest).map (· + 1)

def digitsLength (text : List Char) : Nat := (text.takeWhile Char.isDigit).length

/-- An exponent counts only with at least one digit. -/
def exponentLength (text : List Char) : Nat :=
  match text with
  | mark :: rest =>
      if mark = 'e' ∨ mark = 'E' then
        let signLength := match rest with
          | sign :: _ => if sign = '+' ∨ sign = '-' then 1 else 0
          | [] => 0
        let digits := digitsLength (rest.drop signLength)
        if digits = 0 then 0 else 1 + signLength + digits
      else 0
  | [] => 0

def fractionLength (text : List Char) : Nat :=
  match text with
  | '.' :: rest => 1 + digitsLength rest
  | _ => 0

def decimalLength (text : List Char) : Nat :=
  let whole := digitsLength text
  let fraction := fractionLength (text.drop whole)
  whole + fraction + exponentLength (text.drop (whole + fraction))

/-- A hexadecimal number needs a digit after its marker; without one the zero stands alone. -/
def numberLength (text : List Char) : Nat :=
  match text with
  | '0' :: mark :: rest =>
      let digits := (rest.takeWhile isHexDigit).length
      if (mark = 'x' ∨ mark = 'X') ∧ digits ≠ 0 then 2 + digits else decimalLength text
  | _ => decimalLength text

/-- The class and length of the longest lexeme the text begins with. -/
def scan? (text : List Char) : Option (LexemeClass × Nat) :=
  match text with
  | [] => none
  | '/' :: '/' :: rest => some (.lineComment, 2 + (rest.takeWhile (!isNewline ·)).length)
  | '/' :: '*' :: rest => some (.blockComment, 2 + blockCommentLength rest)
  | first :: rest =>
      if isWhitespace first then some (.whitespace, (text.takeWhile isWhitespace).length)
      else if first.isDigit then some (.number, numberLength text)
      else if isWordStart first then some (.word, 1 + (rest.takeWhile isWordPart).length)
      else if first = '"' ∨ first = '\'' then
        (stringLength first rest).map fun length => (.string, 1 + length)
      else none

end Lexeme

end Parlance
