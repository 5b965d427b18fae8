/-! Tables from names to values, kept in the code-point order of the names. A table is a plain
association list, so a tree may hold one; `insert` is the only way the library adds an entry, and
it keeps the names strictly ascending. -/

namespace Parlance.Index

variable {α β : Type}

/-- Replaces the value of a name that is present, and otherwise puts the entry in order. -/
def insert (name : String) (value : α) : List (String × α) → List (String × α)
  | [] => [(name, value)]
  | (other, held) :: rest =>
      if name = other then (name, value) :: rest
      else if name < other then (name, value) :: (other, held) :: rest
      else (other, held) :: insert name value rest

def get? (name : String) : List (String × α) → Option α
  | [] => none
  | (other, held) :: rest => if name = other then some held else get? name rest

def contains (name : String) (table : List (String × α)) : Bool := (get? name table).isSome

def names (table : List (String × α)) : List String := table.map Prod.fst

def ofList (entries : List (String × α)) : List (String × α) :=
  entries.foldl (fun table entry => insert entry.1 entry.2 table) []

def merge (table extra : List (String × α)) : List (String × α) :=
  extra.foldl (fun merged entry => insert entry.1 entry.2 merged) table

def sortNames (list : List String) : List String := names (ofList (list.map (·, ())))

def mapValues (convert : String → α → β) (table : List (String × α)) : List (String × β) :=
  table.map fun entry => (entry.1, convert entry.1 entry.2)

theorem get?_insert_self (name : String) (value : α) (table : List (String × α)) :
    get? name (insert name value table) = some value := by
  induction table with
  | nil => simp [insert, get?]
  | cons entry rest ih =>
      obtain ⟨other, held⟩ := entry
      by_cases same : name = other
      · simp [insert, get?, same]
      · by_cases before : name < other
        · simp [insert, get?, same, before]
        · simp [insert, get?, same, before, ih]

theorem get?_insert_of_ne {name wanted : String} (differ : wanted ≠ name) (value : α)
    (table : List (String × α)) :
    get? wanted (insert name value table) = get? wanted table := by
  induction table with
  | nil => simp [insert, get?, differ]
  | cons entry rest ih =>
      obtain ⟨other, held⟩ := entry
      by_cases same : name = other
      · subst same
        simp [insert, get?, differ]
      · by_cases before : name < other
        · simp [insert, get?, same, before, differ]
        · simp [insert, get?, same, before, ih]

theorem get?_mapValues (convert : String → α → β) (name : String) (table : List (String × α)) :
    get? name (mapValues convert table) = (get? name table).map (convert name) := by
  induction table with
  | nil => rfl
  | cons entry rest ih =>
      obtain ⟨other, held⟩ := entry
      by_cases same : name = other
      · subst same
        simp [mapValues, get?]
      · simpa [mapValues, get?, same] using ih

theorem mem_of_get? {name : String} {table : List (String × α)} {value : α}
    (found : get? name table = some value) : (name, value) ∈ table := by
  induction table with
  | nil => cases found
  | cons entry rest ih =>
      obtain ⟨other, held⟩ := entry
      by_cases same : name = other
      · simp only [get?, if_pos same, Option.some.injEq] at found
        simp [same, found]
      · simp only [get?, if_neg same] at found
        exact List.mem_cons_of_mem _ (ih found)

end Parlance.Index
