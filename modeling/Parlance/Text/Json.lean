import Parlance.Tree.Basic
import Parlance.Decimal.Form

/-! Trees as JSON text. Records are written in the order in which they list their members. -/

namespace Parlance.Text

def jsonNumbers : Decimal.Form := ⟨-4, 16, ".0", "+", "null", "null"⟩

def numberText (form : Decimal.Form) : Number → String
  | .integer value => toString value
  | .float value => form.write value

def jsonChar : Char → String
  | '"' => "\\\""
  | '\\' => "\\\\"
  | '\n' => "\\n"
  | '\r' => "\\r"
  | '\t' => "\\t"
  | '\x08' => "\\b"
  | '\x0c' => "\\f"
  | char =>
      if char.toNat < 32 then
        "\\u00" ++ String.ofList [Nat.digitChar (char.toNat / 16), Nat.digitChar (char.toNat % 16)]
      else char.toString

def jsonString (text : String) : String :=
  "\"" ++ String.join (text.toList.map jsonChar) ++ "\""

def jsonBool (value : Bool) : String := if value then "true" else "false"

def indentation (depth : Nat) : String := String.ofList (List.replicate (2 * depth) ' ')

/-- Opens and closes a bracket on lines of their own around the entries; nothing stands between the
brackets when there is no entry. -/
def jsonBlock (opening closing : String) (depth : Nat) (entries : List String) : String :=
  if entries.isEmpty then opening ++ closing
  else
    let lead := "\n" ++ indentation (depth + 1)
    opening ++ lead ++ ("," ++ lead).intercalate entries ++ "\n" ++ indentation depth ++ closing

def jsonPretty (depth : Nat) : Tree → String
  | .null => "null"
  | .bool value => jsonBool value
  | .number value => numberText jsonNumbers value
  | .text value => jsonString value
  | .list items => jsonBlock "[" "]" depth (prettyItems (depth + 1) items)
  | .record members => jsonBlock "\x7b" "\x7d" depth (prettyMembers (depth + 1) members)
where
  prettyItems (depth : Nat) : List Tree → List String
    | [] => []
    | item :: rest => jsonPretty depth item :: prettyItems depth rest
  prettyMembers (depth : Nat) : Members → List String
    | [] => []
    | (name, value) :: rest =>
        (jsonString name ++ ": " ++ jsonPretty depth value) :: prettyMembers depth rest

def jsonCompact : Tree → String
  | .null => "null"
  | .bool value => jsonBool value
  | .number value => numberText jsonNumbers value
  | .text value => jsonString value
  | .list items => "[" ++ ",".intercalate (compactItems items) ++ "]"
  | .record members => "\x7b" ++ ",".intercalate (compactMembers members) ++ "\x7d"
where
  compactItems : List Tree → List String
    | [] => []
    | item :: rest => jsonCompact item :: compactItems rest
  compactMembers : Members → List String
    | [] => []
    | (name, value) :: rest =>
        (jsonString name ++ ":" ++ jsonCompact value) :: compactMembers rest

end Parlance.Text
