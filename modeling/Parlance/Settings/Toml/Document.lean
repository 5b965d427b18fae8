import Parlance.Settings.Toml.Quoted
import Parlance.Settings.Toml.Number
import Parlance.Settings.Toml.Table

/-! Keys, values and lines of TOML documents. -/

namespace Parlance.Settings.Toml

def depthLimit : Nat := 80

def isBareKey (char : Char) : Bool :=
  char.isAlpha || char.isDigit || char = '_' || char = '-'

def readSimpleKey? (text : Text) : Read String :=
  match text with
  | '"' :: '"' :: '"' :: _ | '\'' :: '\'' :: '\'' :: _ => none
  | '"' :: _ | '\'' :: _ => readString? text
  | _ =>
      let bare := text.takeWhile isBareKey
      if bare.isEmpty then none else some (String.ofList bare, text.dropWhile isBareKey)

def readKeyParts? : Nat → Text → Read (List String)
  | 0, _ => none
  | count + 1, text =>
      match readSimpleKey? (skipBlanks text) with
      | none => none
      | some (first, rest) =>
          match skipBlanks rest with
          | '.' :: after =>
              (readKeyParts? count after).map fun (others, rest) => (first :: others, rest)
          | after => some ([first], after)

def readKey? (text : Text) : Read (List String) := readKeyParts? (depthLimit - 1) text

def isWordChar (char : Char) : Bool := isBareKey char || char = '+' || char = '.'

def readScalar? (text : Text) : Read Item :=
  match Moment.read? .strict text with
  | some (moment, rest) => some (.moment moment, rest)
  | none =>
      (scalarOfWord? (text.takeWhile isWordChar)).map fun value =>
        (.scalar value, text.dropWhile isWordChar)

mutual

def readValue? : Nat → Nat → Text → Read Item
  | 0, _, _ => none
  | fuel + 1, depth, text =>
      match text with
      | '"' :: _ | '\'' :: _ =>
          (readString? text).map fun (found, rest) => (.scalar (.text found), rest)
      | '[' :: rest =>
          if depthLimit ≤ depth + 1 then none
          else (readItems? fuel (depth + 1) rest).map fun (items, rest) => (.array items, rest)
      | '\x7b' :: rest =>
          if depthLimit ≤ depth + 1 then none
          else
            match skipBlanks rest with
            | '\x7d' :: after => some (.table .inBraces [], after)
            | _ => (readPairs? fuel (depth + 1) [] rest).map fun (items, rest) =>
                (.table .inBraces items, rest)
      | _ => readScalar? text

def readItems? : Nat → Nat → Text → Read (List Item)
  | 0, _, _ => none
  | fuel + 1, depth, text =>
      match skipSpace? (text.length + 1) text with
      | none => none
      | some (']' :: rest) => some ([], rest)
      | some start =>
          match readValue? fuel depth start with
          | none => none
          | some (item, rest) =>
              match skipSpace? (rest.length + 1) rest with
              | some (']' :: after) => some ([item], after)
              | some (',' :: after) =>
                  (readItems? fuel depth after).map fun (items, rest) => (item :: items, rest)
              | _ => none

def readPairs? : Nat → Nat → Items → Text → Read Items
  | 0, _, _, _ => none
  | fuel + 1, depth, items, text =>
      match readKey? text with
      | some (key, '=' :: rest) =>
          match readValue? fuel depth (skipBlanks rest) with
          | none => none
          | some (item, rest) =>
              match items.assign item key with
              | none => none
              | some items =>
                  match skipBlanks rest with
                  | '\x7d' :: after => some (items, after)
                  | ',' :: after => readPairs? fuel depth items after
                  | _ => none
      | _ => none

end

/-- One line of a document that is not blank: what it changes, and the path that later lines are
under. -/
def readLine? (path : List String) (items : Items) (text : Text) : Read (List String × Items) :=
  match text with
  | '[' :: '[' :: rest =>
      match readKey? rest with
      | some (key, ']' :: ']' :: after) =>
          (items.changeAt (Items.openNext (key.getLast?.getD "")) key.dropLast).map
            fun items => ((key, items), after)
      | _ => none
  | '[' :: rest =>
      match readKey? rest with
      | some (key, ']' :: after) =>
          (items.changeAt (Items.openTable (key.getLast?.getD "")) key.dropLast).map
            fun items => ((key, items), after)
      | _ => none
  | _ =>
      match readKey? text with
      | some (key, '=' :: rest) =>
          match readValue? (text.length + 1) 0 (skipBlanks rest) with
          | none => none
          | some (item, after) =>
              (items.changeAt (·.assign item key) path).map fun items => ((path, items), after)
      | _ => none

def readLines? : Nat → List String → Items → Text → Option Items
  | 0, _, _, _ => none
  | fuel + 1, path, items, text =>
      match skipSpace? (text.length + 1) text with
      | none => none
      | some [] => some items
      | some start =>
          match readLine? path items start with
          | none => none
          | some ((path, items), rest) =>
              match endLine? rest with
              | none => none
              | some after => readLines? fuel path items after

def parse? (origin : Option String) (text : String) : Option (List (String × Value)) :=
  let document := dropMark text.toList
  (readLines? (document.length + 1) [] [] document).bind (Items.entries? origin)

end Parlance.Settings.Toml
