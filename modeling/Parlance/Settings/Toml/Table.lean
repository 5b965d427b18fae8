import Parlance.Settings.Value
import Parlance.Settings.Toml.Moment

/-! Tables while a TOML document is read. They keep the order of their entries, and know how they
came about. -/

namespace Parlance.Settings.Toml

/-- How a table came about, which decides what may still be added to it. -/
inductive Defined where
  | onTheWay
  | byHeader
  | byDots
  | inBraces
  deriving DecidableEq

inductive Item where
  | scalar (value : Value)
  | moment (moment : Moment)
  | array (items : List Item)
  | table (defined : Defined) (entries : List (String × Item))
  | series (tables : List (List (String × Item)))

abbrev Items := List (String × Item)

namespace Items

def put (key : String) (item : Item) : Items → Items
  | [] => [(key, item)]
  | (other, held) :: rest =>
      if other = key then (key, item) :: rest else (other, held) :: put key item rest

def get? (key : String) (items : Items) : Option Item := items.lookup key

def remove (key : String) (items : Items) : Items := items.filter (·.1 != key)

/-- Gives an item to a dotted key, which must be new. The table it goes to must be made by dots;
on the way there may also be tables that headers have passed through, and series. -/
def assign (item : Item) : List String → Items → Option Items
  | [], _ => none
  | [key], items => if (items.get? key).isSome then none else some (items.put key item)
  | key :: next :: rest, items =>
      match items.get? key with
      | none => (assign item (next :: rest) []).map fun inner => items.put key (.table .byDots inner)
      | some (.table defined inner) =>
          if defined = .byDots ∨ (defined = .onTheWay ∧ !rest.isEmpty) then
            (assign item (next :: rest) inner).map fun inner => items.put key (.table defined inner)
          else none
      | some (.series (latest :: earlier)) =>
          if rest.isEmpty then none
          else
            (assign item (next :: rest) latest).map fun latest =>
              items.put key (.series (latest :: earlier))
      | some _ => none

def changeAt (change : Items → Option Items) : List String → Items → Option Items
  | [], items => change items
  | key :: rest, items =>
      match items.get? key with
      | none =>
          (changeAt change rest []).map fun inner => items.put key (.table .onTheWay inner)
      | some (.table .inBraces _) => none
      | some (.table defined inner) =>
          (changeAt change rest inner).map fun inner => items.put key (.table defined inner)
      | some (.series (latest :: earlier)) =>
          (changeAt change rest latest).map fun latest =>
            items.put key (.series (latest :: earlier))
      | some _ => none

/-- Opens a table by its header. A table is opened once, though it may have been passed through; it
comes last from then on. -/
def openTable (key : String) (items : Items) : Option Items :=
  match items.get? key with
  | none => some (items.put key (.table .byHeader []))
  | some (.table .onTheWay inner) =>
      some ((items.remove key).put key (.table .byHeader inner))
  | some _ => none

def openNext (key : String) (items : Items) : Option Items :=
  match items.get? key with
  | none => some (items.put key (.series [[]]))
  | some (.series tables) => some (items.put key (.series ([] :: tables)))
  | some _ => none

end Items

/-- A table whose first key is this stands for the moment that its value tells. -/
def momentKey : String := "$__toml_private_datetime"

def momentOf? : Item → Option Value
  | .scalar (.text written) => (Moment.parse? written).map fun moment => .text moment.write
  | _ => none

def Item.value? (origin : Option String) : Item → Option Value
  | .scalar value => some value
  | .moment found => some (.text found.write)
  | .array items => (listed? items).map (.list origin ·)
  | .table _ items => tabled? items
  | .series tables => (chained? tables).map fun values => .list origin values.reverse
where
  listed? : List Item → Option (List Value)
    | [] => some []
    | item :: rest => do
        let value ← item.value? origin
        pure (value :: (← listed? rest))
  entered? : Items → Option (List (String × Value))
    | [] => some []
    | (key, item) :: rest => do
        let value ← item.value? origin
        pure (Index.insert key value (← entered? rest))
  tabled? : Items → Option Value
    | [] => some (.table origin [])
    | (key, item) :: rest =>
        if key = momentKey then momentOf? item
        else do
          let value ← item.value? origin
          pure (.table origin (Index.insert key value (← entered? rest)))
  chained? : List Items → Option (List Value)
    | [] => some []
    | items :: rest => do
        let value ← tabled? items
        pure (value :: (← chained? rest))

def Items.entries? (origin : Option String) (items : Items) : Option (List (String × Value)) :=
  match Item.value?.tabled? origin items with
  | some (.table _ entries) => some entries
  | _ => none

end Parlance.Settings.Toml
