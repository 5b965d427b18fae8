import Parlance.Settings.Value
import Parlance.Decimal.Parse
import Parlance.Text.LowerCase

/-! Paths to settings: a name, then names after dots and indexes in brackets. Names are compared
without regard to case. Setting a value makes whatever is missing on the way. -/

namespace Parlance.Settings

inductive PathStep where
  | name (name : String)
  | index (index : Int)
  deriving DecidableEq

abbrev Path := List PathStep

namespace Path

def isNameChar (char : Char) : Bool :=
  char.isAlpha || char.isDigit || char = ' ' || char = '_' || char = '-'

def isPadding (char : Char) : Bool := char = ' ' || char = '\t'

def readName? (text : List Char) : Option (PathStep × List Char) :=
  let name := text.takeWhile isNameChar
  if name.isEmpty then none
  else some (.name (Text.lowerCase (String.ofList name)), text.dropWhile isNameChar)

def readIndex? (text : List Char) : Option (PathStep × List Char) :=
  let text := text.dropWhile isPadding
  let (negative, digitsOn) := match text with
    | '-' :: rest => (true, rest)
    | _ => (false, text)
  let digits := digitsOn.takeWhile Char.isDigit
  if digits.isEmpty then none
  else
    let value : Int := if negative then -Decimal.digitValue digits else Decimal.digitValue digits
    match (digitsOn.dropWhile Char.isDigit).dropWhile isPadding with
    | ']' :: rest => if Decimal.fitsSigned 64 value then some (.index value, rest) else none
    | _ => none

def readSteps? : Nat → List Char → Option Path
  | 0, _ => none
  | _ + 1, [] => some []
  | fuel + 1, mark :: rest =>
      let step? :=
        if mark = '.' then readName? rest
        else if mark = '[' then readIndex? rest
        else none
      match step? with
      | none => none
      | some (step, after) => (readSteps? fuel after).map (step :: ·)

def parse? (text : String) : Option Path :=
  match readName? text.toList with
  | none => none
  | some (first, rest) => (readSteps? (rest.length + 1) rest).map (first :: ·)

end Path

namespace Value

/-- Changes the item at an index; a negative one counts from the end. Where the list does not reach,
nils fill the gap. -/
def changeItem (index : Int) (change : Option Value → Value) (items : List Value) : List Value :=
  let position : Int := if 0 ≤ index then index else items.length + index
  if position < 0 then
    change none :: (List.replicate (-position - 1).toNat .nil ++ items)
  else
    let position := position.toNat
    let padded := items ++ List.replicate (position + 1 - items.length) .nil
    padded.set position (change items[position]?)

/-- Merges a value into what is held: tables entry by entry, all else by replacement. A table
without entries changes nothing. -/
def mergeInto (held : Option Value) : Value → Value
  | .table _ [] => held.getD emptyTable
  | .table _ (entry :: rest) =>
      (held.getD emptyTable).changeEntries fun merged => mergeEntries merged (entry :: rest)
  | value => value
where
  mergeEntries (merged : List (String × Value)) : List (String × Value) → List (String × Value)
    | [] => merged
    | (name, value) :: rest =>
        let key := Text.lowerCase name
        mergeEntries (Index.insert key (mergeInto (Index.get? key merged) value) merged) rest

/-- Sets what a path leads to; what stands in the way gives way. An item of a list is replaced. -/
def setAt (value : Value) : Path → Option Value → Value
  | [], held => mergeInto held value
  | .name name :: rest, held =>
      (held.getD emptyTable).changeEntries fun entries =>
        Index.insert name (setAt value rest (Index.get? name entries)) entries
  | [.index index], held => (held.getD .nil).changeItems (changeItem index fun _ => value)
  | .index index :: rest, held =>
      (held.getD .nil).changeItems (changeItem index fun item => setAt value rest item)

end Value

end Parlance.Settings
