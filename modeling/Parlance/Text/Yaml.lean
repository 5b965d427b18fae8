import Parlance.Tree.Basic
import Parlance.Decimal.Form
import Parlance.Decimal.Parse
import Parlance.Text.Json

/-! Trees as block-style YAML. A scalar is written plain where that is unambiguous, else between
quotes; a text with line feeds becomes a literal block where blocks can hold it. -/

namespace Parlance.Text.Yaml

def numbers : Decimal.Form := ⟨-4, 16, ".0", "", ".nan", ".inf"⟩

def isBreak (char : Char) : Bool :=
  char = '\n' || char = '\r' || char.toNat = 0x85 || char.toNat = 0x2028 || char.toNat = 0x2029

def isBlank (char : Char) : Bool := char = ' ' || char = '\t'

def isPrintable (char : Char) : Bool :=
  let code := char.toNat
  code = 0x0A || (0x20 ≤ code && code ≤ 0x7E) || (0xA0 ≤ code && code ≤ 0xD7FF) ||
    (0xE000 ≤ code && code ≤ 0xFFFD && code != 0xFEFF) || 0x10000 ≤ code

def hasLeadingZero (text : List Char) : Bool :=
  match (Decimal.splitSign text).2 with
  | '0' :: second :: rest => (second :: rest).all Char.isDigit
  | _ => false

def isSigned : List Char → Bool
  | char :: _ => char = '+' || char = '-'
  | [] => false

def readsAsRadix (negative : Bool) (text : List Char) : Bool :=
  let radix? := match text with
    | '0' :: 'x' :: rest => some (16, rest)
    | '0' :: 'o' :: rest => some (8, rest)
    | '0' :: 'b' :: rest => some (2, rest)
    | _ => none
  match radix? with
  | none => false
  | some (radix, digits) =>
      !isSigned digits &&
        match Decimal.parseInteger? radix digits with
        | some value =>
            if negative then Decimal.fitsSigned 128 (-value) else Decimal.fitsUnsigned 128 value
        | none => false

def readsAsInteger (text : List Char) : Bool :=
  let unsigned := match text with
    | '+' :: rest => rest
    | _ => text
  readsAsRadix false unsigned ||
    (match text with
    | '-' :: rest => readsAsRadix true rest
    | _ => false) ||
    (!hasLeadingZero text && !(isSigned unsigned && unsigned.length < text.length) &&
      match Decimal.parseInteger? 10 unsigned with
      | some value => Decimal.fitsSigned 128 value || Decimal.fitsUnsigned 128 value
      | none => false)

def readsAsFloat (text : List Char) : Bool :=
  let unsigned := match text with
    | '+' :: rest => rest
    | _ => text
  if isSigned unsigned && unsigned.length < text.length then false
  else
    [".inf", ".Inf", ".INF"].contains (String.ofList unsigned) ||
      ["-.inf", "-.Inf", "-.INF", ".nan", ".NaN", ".NAN"].contains (String.ofList text) ||
      match Decimal.parse? (String.ofList unsigned) with
      | some value => value.isFinite
      | none => false

def reservedWords : List String := [
  "null", "Null", "NULL", "~", "true", "True", "TRUE", "false", "False", "FALSE"]

/-- Texts that a reader would take for no value, a truth value or a number, or might. -/
def isAmbiguous (text : String) : Bool :=
  let chars := text.toList
  text.isEmpty || reservedWords.contains text ||
    hasLeadingZero chars || readsAsInteger chars || readsAsFloat chars

inductive Style where
  | plain
  | single
  | double
  | literal
  deriving DecidableEq

structure Analysis where
  multiline : Bool
  plain : Bool
  single : Bool
  literal : Bool

def hasIndicator : Bool → Option Char → List Char → Bool
  | _, _, [] => false
  | first, before, char :: rest =>
      let spaceBefore := match before with
        | none => true
        | some char => isBlank char || isBreak char
      let spaceAfter := match rest with
        | [] => true
        | next :: _ => isBlank next || isBreak next
      (first && "#,[]\x7b\x7d&*!|>'\"%@\x60".contains char) ||
        (first && (char = '?' || char = '-') && spaceAfter) ||
        (char = ':' && spaceAfter) ||
        (!first && char = '#' && spaceBefore) ||
        hasIndicator false (some char) rest

def hasPair (first second : Char → Bool) : List Char → Bool
  | left :: right :: rest => (first left && second right) || hasPair first second (right :: rest)
  | _ => false

def analyze (text : String) : Analysis :=
  let chars := text.toList
  let space := fun char => char == ' '
  let ends := fun (test : Char → Bool) =>
    (chars.head?.any test) || (chars.getLast?.any test)
  let multiline := chars.any isBreak
  let breakSpace := hasPair isBreak space chars
  let unfit := hasPair space isBreak chars || chars.any fun char => !isPrintable char
  let marker := text.startsWith "---" || text.startsWith "..."
  { multiline := multiline
    plain := !(ends space || ends isBreak || breakSpace || unfit || multiline || marker ||
      hasIndicator true none chars)
    single := !(breakSpace || unfit)
    literal := !(chars.getLast?.any space || unfit || chars.isEmpty) }

/-- The style of a text; the name in front of a value must stay on one line. -/
def styleOf (simpleKey : Bool) (text : String) : Style :=
  let analysis := analyze text
  let wanted :=
    if text.toList.contains '\n' then .literal
    else if isAmbiguous text then .single
    else .plain
  let wanted := if simpleKey && analysis.multiline then .double else wanted
  let wanted := if wanted = .plain && !analysis.plain then .single else wanted
  let wanted := if wanted = .single && !analysis.single then .double else wanted
  if wanted = .literal && (!analysis.literal || simpleKey) then .double else wanted

/-- The text so far, and what is known of its last line: its length, whether it ends in a space,
and whether it holds nothing but indentation and item marks. -/
structure Page where
  out : String
  column : Nat
  spaced : Bool
  margin : Bool

namespace Page

def blank : Page := ⟨"", 0, true, true⟩

def put (page : Page) (char : Char) : Page :=
  if isBreak char then { page with out := page.out.push char, column := 0 }
  else { page with out := page.out.push char, column := page.column + 1 }

def puts (page : Page) (text : String) : Page := text.toList.foldl put page

/-- Moves to the column of the indentation, on a fresh line unless this one is still fit for it. -/
def indent (page : Page) (indentation : Nat) : Page :=
  let page :=
    if !page.margin || indentation < page.column || (page.column = indentation && !page.spaced)
    then page.put '\n' else page
  let page := page.puts (String.ofList (List.replicate (indentation - page.column) ' '))
  { page with spaced := true, margin := true }

def mark (page : Page) (text : String) (needsSpace keepsMargin : Bool) : Page :=
  let page := if needsSpace && !page.spaced then page.put ' ' else page
  let page := page.puts text
  { page with spaced := false, margin := page.margin && keepsMargin }

def plain (page : Page) (text : String) : Page :=
  let page := if !page.spaced && !text.isEmpty then page.put ' ' else page
  { page.puts text with spaced := false, margin := false }

/-- A break inside single quotes needs a second line feed unless it is of another kind. -/
def singleChars (indentation : Nat) : Bool → List Char → Page → Page
  | broken, [], page => if broken then page.indent indentation else page
  | broken, char :: rest, page =>
      if char = ' ' then singleChars indentation broken rest (page.put char)
      else if isBreak char then
        let page := if !broken && char = '\n' then page.put '\n' else page
        singleChars indentation true rest { page.put char with margin := true }
      else
        let page := if broken then page.indent indentation else page
        let page := if char = '\'' then page.put '\'' else page
        singleChars indentation false rest { page.put char with margin := false }

def single (page : Page) (indentation : Nat) (text : String) : Page :=
  let page := page.mark "'" true false
  let page := singleChars indentation false text.toList page
  { page.mark "'" false false with spaced := false, margin := false }

def upperHex (width code : Nat) : String :=
  let digits := (Nat.toDigits 16 code).map Char.toUpper
  String.ofList (List.replicate (width - digits.length) '0' ++ digits)

def escaped (char : Char) : String :=
  let code := char.toNat
  match code with
  | 0x00 => "\\0"
  | 0x07 => "\\a"
  | 0x08 => "\\b"
  | 0x09 => "\\t"
  | 0x0A => "\\n"
  | 0x0B => "\\v"
  | 0x0C => "\\f"
  | 0x0D => "\\r"
  | 0x1B => "\\e"
  | 0x22 => "\\\""
  | 0x5C => "\\\\"
  | 0x85 => "\\N"
  | 0x2028 => "\\L"
  | 0x2029 => "\\P"
  | _ =>
      if code ≤ 0xFF then "\\x" ++ upperHex 2 code
      else if code ≤ 0xFFFF then "\\u" ++ upperHex 4 code
      else "\\U" ++ upperHex 8 code

def doubleChar (char : Char) : String :=
  if !isPrintable char || isBreak char || char = '"' || char = '\\' then escaped char
  else char.toString

def double (page : Page) (text : String) : Page :=
  let page := page.mark "\"" true false
  let page := page.puts (String.join (text.toList.map doubleChar))
  { page.mark "\"" false false with spaced := false, margin := false }

/-- The width of the indentation is stated when the first line would hide it. -/
def indentationHint (chars : List Char) : String :=
  match chars with
  | char :: _ => if char = ' ' || isBreak char then "2" else ""
  | [] => ""

/-- A dash when no break ends the text, a plus when more than one does. -/
def chompingHint (chars : List Char) : String :=
  match chars.reverse with
  | [] => "-"
  | last :: before =>
      if !isBreak last then "-"
      else
        match before with
        | [] => "+"
        | char :: _ => if isBreak char then "+" else ""

def literalChars (indentation : Nat) : Bool → List Char → Page → Page
  | _, [], page => page
  | broken, char :: rest, page =>
      if isBreak char then
        literalChars indentation true rest { page.put char with margin := true }
      else
        let page := if broken then page.indent indentation else page
        literalChars indentation false rest { page.put char with margin := false }

def literal (page : Page) (indentation : Nat) (text : String) : Page :=
  let chars := text.toList
  let page := page.mark "|" true false
  let page := page.mark (indentationHint chars) false false
  let page := page.mark (chompingHint chars) false false
  let page := { page.put '\n' with spaced := true, margin := true }
  literalChars indentation true chars page

def scalar (page : Page) (indentation : Nat) (simpleKey : Bool) (text : String) : Page :=
  match styleOf simpleKey text with
  | .plain => page.plain text
  | .single => page.single indentation text
  | .double => page.double text
  | .literal => page.literal indentation text

end Page

/-- Where a value stands: the indentation around it, if any, and whether it is a member's value. -/
structure Place where
  outer : Option Nat
  inMapping : Bool

def Place.inner (place : Place) (fresh : Nat) : Nat :=
  match place.outer with
  | none => fresh
  | some indentation => indentation + 2

/-- A name longer than this, or of several lines, is marked as a name and put on a line of its own.
-/
def isSimpleKey (name : String) : Bool := !(analyze name).multiline && name.utf8ByteSize ≤ 128

def writeName (indentation : Nat) (name : String) (page : Page) : Page :=
  let page := page.indent indentation
  if isSimpleKey name then (page.scalar (indentation + 2) true name).mark ":" false false
  else
    let page := (page.mark "?" true true).scalar (indentation + 2) false name
    (page.indent indentation).mark ":" true true

/-- A list that is a member's value may stand at the member's own indentation. -/
def writeTree (place : Place) : Tree → Page → Page
  | .null, page => page.plain "null"
  | .bool value, page => page.plain (jsonBool value)
  | .number value, page => page.plain (numberText numbers value)
  | .text value, page => page.scalar (place.inner 2) false value
  | .list items, page =>
      if items.isEmpty then (page.mark "[" true false).mark "]" false false
      else
        let indentation :=
          if place.inMapping && !page.margin then place.outer.getD 0 else place.inner 0
        writeItems indentation items page
  | .record members, page =>
      if members.isEmpty then (page.mark "\x7b" true false).mark "\x7d" false false
      else writeMembers (place.inner 0) members page
where
  writeItems (indentation : Nat) : List Tree → Page → Page
    | [], page => page
    | item :: rest, page =>
        let page := (page.indent indentation).mark "-" true true
        writeItems indentation rest (writeTree ⟨some indentation, false⟩ item page)
  writeMembers (indentation : Nat) : Members → Page → Page
    | [], page => page
    | (name, value) :: rest, page =>
        let page := writeName indentation name page
        writeMembers indentation rest (writeTree ⟨some indentation, true⟩ value page)

def document (tree : Tree) : String := ((writeTree ⟨none, false⟩ tree .blank).indent 0).out

end Parlance.Text.Yaml
