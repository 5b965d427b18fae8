/-! The text of TOML documents: what separates their parts. Each reader takes the text it starts at
and gives what it read with the rest of the text, or nothing where the text is malformed. -/

namespace Parlance.Settings.Toml

abbrev Text := List Char

abbrev Read (α : Type) := Option (α × Text)

/-- A byte order mark may stand in front of a document. -/
def dropMark : Text → Text
  | '\ufeff' :: rest => rest
  | text => text

def isBlank (char : Char) : Bool := char = ' ' || char = '\t'

def skipBlanks (text : Text) : Text := text.dropWhile isBlank

def isAllowed (char : Char) : Bool :=
  char = '\t' || (32 ≤ char.toNat && char.toNat ≠ 127)

def skipComment? (text : Text) : Option Text :=
  match text with
  | '#' :: rest =>
      let after := rest.dropWhile isAllowed
      match after with
      | [] | '\n' :: _ | '\r' :: '\n' :: _ => some after
      | _ => none
  | _ => some text

def skipNewline? : Text → Option Text
  | '\n' :: rest => some rest
  | '\r' :: '\n' :: rest => some rest
  | _ => none

def endLine? (text : Text) : Option Text :=
  match skipComment? (skipBlanks text) with
  | none => none
  | some [] => some []
  | some rest => skipNewline? rest

def skipSpace? : Nat → Text → Option Text
  | 0, text => some text
  | fuel + 1, text =>
      match skipComment? (skipBlanks text) with
      | none => none
      | some rest =>
          match skipNewline? rest with
          | some after => skipSpace? fuel after
          | none => some rest

end Parlance.Settings.Toml
