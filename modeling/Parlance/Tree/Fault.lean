/-! What can be wrong with a tree that is walked, written or translated, and trails: output that is
kept up to the first fault. -/

namespace Parlance

inductive Shape where
  | list
  | text
  deriving DecidableEq

def Shape.phrase : Shape → String
  | .list => "an array"
  | .text => "a string"

inductive TreeFault where
  | untypedObject
  | unknownNodeType (name : String)
  | missingField (node field : String)
  | unexpectedValue (node field : String) (expected : Shape)
  deriving DecidableEq

def TreeFault.message : TreeFault → String
  | .untypedObject => "object without a 'type' member cannot be traversed"
  | .unknownNodeType name => "node type '" ++ name ++ "' is not registered in this dialect"
  | .missingField node field => "node '" ++ node ++ "' is missing field '" ++ field ++ "'"
  | .unexpectedValue node field expected =>
      "field '" ++ field ++ "' of node '" ++ node ++ "' should be " ++ expected.phrase

/-- Steps taken in order, and the fault that ended them early, if one did. -/
structure Trail (α : Type) where
  steps : List α
  fault : Option TreeFault
  deriving DecidableEq

namespace Trail

variable {α : Type}

def done : Trail α := ⟨[], none⟩

def one (step : α) : Trail α := ⟨[step], none⟩

def stop (fault : TreeFault) : Trail α := ⟨[], some fault⟩

def append (first second : Trail α) : Trail α :=
  match first.fault with
  | some fault => ⟨first.steps, some fault⟩
  | none => ⟨first.steps ++ second.steps, second.fault⟩

instance : Append (Trail α) := ⟨append⟩

def concat (trails : List (Trail α)) : Trail α := trails.foldr (· ++ ·) done

def ofExcept (result : Except TreeFault (Trail α)) : Trail α :=
  match result with
  | .ok trail => trail
  | .error fault => stop fault

theorem append_done (trail : Trail α) : trail ++ done = trail := by
  obtain ⟨steps, fault⟩ := trail
  cases fault with
  | none => show Trail.mk (steps ++ []) none = _; simp
  | some fault => rfl

theorem append_assoc (first second third : Trail α) :
    first ++ second ++ third = first ++ (second ++ third) := by
  obtain ⟨firstSteps, firstFault⟩ := first
  obtain ⟨secondSteps, secondFault⟩ := second
  cases firstFault with
  | some fault => rfl
  | none =>
      cases secondFault with
      | some fault => rfl
      | none =>
          show Trail.mk (firstSteps ++ secondSteps ++ third.steps) third.fault =
            Trail.mk (firstSteps ++ (secondSteps ++ third.steps)) third.fault
          rw [List.append_assoc]

end Trail

end Parlance
