import Parlance.Settings.Toml.Text
import Parlance.Decimal.Parse

/-! Strings of TOML documents, in single or double quotes, on one line or in threefold quotes. -/

namespace Parlance.Settings.Toml

def hexValue? (digits : Text) : Option Nat := Decimal.radixValue? 16 digits

def readCode? (count : Nat) (text : Text) : Read Char :=
  let digits := text.take count
  if digits.length < count then none
  else
    match hexValue? digits with
    | none => none
    | some code => if code.isValidChar then some (.ofNat code, text.drop count) else none

def readEscape? : Text → Read Char
  | 'b' :: rest => some ('\x08', rest)
  | 't' :: rest => some ('\t', rest)
  | 'n' :: rest => some ('\n', rest)
  | 'f' :: rest => some ('\x0c', rest)
  | 'r' :: rest => some ('\r', rest)
  | '"' :: rest => some ('"', rest)
  | '\\' :: rest => some ('\\', rest)
  | 'u' :: rest => readCode? 4 rest
  | 'U' :: rest => readCode? 8 rest
  | _ => none

def prepend (char : Char) (read : Read Text) : Read Text :=
  read.map fun (chars, rest) => (char :: chars, rest)

def readBasic? : Nat → Text → Read Text
  | 0, _ => none
  | fuel + 1, text =>
      match text with
      | '"' :: rest => some ([], rest)
      | '\\' :: rest =>
          match readEscape? rest with
          | none => none
          | some (char, after) => prepend char (readBasic? fuel after)
      | char :: rest => if isAllowed char then prepend char (readBasic? fuel rest) else none
      | [] => none

def readLiteral? : Text → Read Text
  | '\'' :: rest => some ([], rest)
  | char :: rest => if isAllowed char then prepend char (readLiteral? rest) else none
  | [] => none

/-- The end of a string in threefold quotes; up to two more quotes before it belong to the string.
-/
def closing? (quote : Char) (text : Text) : Read Text :=
  let quotes := text.takeWhile (· == quote)
  if 3 ≤ quotes.length ∧ quotes.length ≤ 5 then
    some (quotes.drop 3, text.drop quotes.length)
  else if 5 < quotes.length then some ([quote, quote], text.drop 5)
  else none

def skipLayout : Text → Text
  | ' ' :: rest | '\t' :: rest | '\n' :: rest | '\r' :: '\n' :: rest => skipLayout rest
  | text => text

/-- A backslash at the end of a line hides the line end and all layout after it. -/
def skipContinuation? (text : Text) : Option Text :=
  (skipNewline? (skipBlanks text)).map skipLayout

def readLongBasic? : Nat → Text → Read Text
  | 0, _ => none
  | fuel + 1, text =>
      match closing? '"' text with
      | some found => some found
      | none =>
          match text with
          | [] => none
          | '\\' :: rest =>
              match readEscape? rest with
              | some (char, after) => prepend char (readLongBasic? fuel after)
              | none =>
                  match skipContinuation? rest with
                  | some after => readLongBasic? fuel after
                  | none => none
          | '\r' :: '\n' :: rest => prepend '\n' (readLongBasic? fuel rest)
          | char :: rest =>
              if isAllowed char ∨ char = '\n' then prepend char (readLongBasic? fuel rest) else none

def readLongLiteral? : Nat → Text → Read Text
  | 0, _ => none
  | fuel + 1, text =>
      match closing? '\'' text with
      | some found => some found
      | none =>
          match text with
          | [] => none
          | '\r' :: '\n' :: rest => prepend '\n' (readLongLiteral? fuel rest)
          | char :: rest =>
              if isAllowed char ∨ char = '\n' then prepend char (readLongLiteral? fuel rest)
              else none

def skipFirstNewline (text : Text) : Text := (skipNewline? text).getD text

def readString? (text : Text) : Read String :=
  let found : Read Text := match text with
    | '"' :: '"' :: '"' :: rest => readLongBasic? (text.length + 1) (skipFirstNewline rest)
    | '\'' :: '\'' :: '\'' :: rest => readLongLiteral? (text.length + 1) (skipFirstNewline rest)
    | '"' :: rest => readBasic? (text.length + 1) rest
    | '\'' :: rest => readLiteral? rest
    | _ => none
  found.map fun (chars, rest) => (String.ofList chars, rest)

end Parlance.Settings.Toml
