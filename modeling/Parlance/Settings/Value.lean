import Parlance.Index
import Parlance.Decimal.Binary

/-! The values that settings sources hold. -/

namespace Parlance.Settings

/-- Lists and tables know the file they were read from, if they were read from one. -/
inductive Value where
  | nil
  | bool (value : Bool)
  | integer (value : Int)
  | float (value : Decimal.Binary)
  | text (value : String)
  | list (origin : Option String) (items : List Value)
  | table (origin : Option String) (entries : List (String × Value))
  deriving Inhabited

namespace Value

def emptyTable : Value := .table none []

def entries : Value → List (String × Value)
  | .table _ entries => entries
  | _ => []

def changeEntries (change : List (String × Value) → List (String × Value)) : Value → Value
  | .table origin entries => .table origin (change entries)
  | _ => .table none (change [])

def changeItems (change : List Value → List Value) : Value → Value
  | .list origin items => .list origin (change items)
  | _ => .list none (change [])

end Value

end Parlance.Settings
