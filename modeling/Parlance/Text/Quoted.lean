import Parlance.Text.Invisible

/-! Quoted text for descriptions: between double quotes, with an escape for whatever could not be
told apart on the page. -/

namespace Parlance.Text

def hexDigits (number : Nat) : String := String.ofList (Nat.toDigits 16 number)

def quotedChar : Char → String
  | '"' => "\\\""
  | '\\' => "\\\\"
  | '\n' => "\\n"
  | '\r' => "\\r"
  | '\t' => "\\t"
  | '\x00' => "\\0"
  | char => if isInvisible char then "\\u\x7b" ++ hexDigits char.toNat ++ "\x7d" else char.toString

def quoted (text : String) : String :=
  "\"" ++ String.join (text.toList.map quotedChar) ++ "\""

def commaList (parts : List String) : String := ", ".intercalate parts

def bracketed (parts : List String) : String := "[" ++ commaList parts ++ "]"

def braced (parts : List String) : String := "\x7b" ++ commaList parts ++ "\x7d"

def applied (name : String) (parts : List String) : String := name ++ "(" ++ commaList parts ++ ")"

def optional (shown : Option String) : String :=
  match shown with
  | none => "None"
  | some value => applied "Some" [value]

end Parlance.Text
