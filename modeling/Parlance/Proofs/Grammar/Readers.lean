import Parlance.Proofs.Grammar.Compose
import Parlance.Proofs.Peg.Parsing

/-! The readers that authored rules bring into a grammar: those of the patterns that were added, and
no others. -/

namespace Parlance

def Pattern.readers (pattern : Pattern) : List Reader :=
  pattern.walk.filterMap fun
    | .custom reader _ => some reader
    | _ => none

theorem Pattern.ReadBy.of_readers {allowed : Reader → Prop} {pattern : Pattern}
    (read : ∀ reader ∈ pattern.readers, allowed reader) : pattern.ReadBy allowed :=
  fun reader _ member => read reader (List.mem_filterMap.mpr ⟨_, member, rfl⟩)

def RuleEdit.readers : RuleEdit → List Reader
  | .add pattern => pattern.readers
  | .setAction _ | .setArity _ => []

namespace RuleSet

open Index (get?)

variable {allowed : Reader → Prop}

def Admits (allowed : Reader → Prop) (productions : List Production) : Prop :=
  ∀ production ∈ productions, production.pattern.ReadBy allowed

theorem Admits.append {productions more : List Production} (admits : Admits allowed productions)
    (admitsToo : Admits allowed more) : Admits allowed (productions ++ more) := by
  intro production member
  rcases List.mem_append.mp member with member | member
  · exact admits production member
  · exact admitsToo production member

theorem Admits.changeLast {productions : List Production} (admits : Admits allowed productions)
    {change : Production → Production}
    (keeps : ∀ production, (change production).pattern = production.pattern) :
    Admits allowed (changeLast change productions) := by
  induction productions with
  | nil => exact admits
  | cons first rest ih =>
      cases rest with
      | nil =>
          intro production member
          obtain rfl := List.mem_singleton.mp member
          rw [keeps]
          exact admits first (List.mem_singleton_self _)
      | cons second rest =>
          intro production member
          rcases List.mem_cons.mp member with rfl | member
          · exact admits _ (List.mem_cons_self ..)
          · exact ih (fun production member => admits production (List.mem_cons_of_mem _ member))
              production member

theorem Admits.apply {productions : List Production} (admits : Admits allowed productions)
    {edit : RuleEdit} (read : ∀ reader ∈ edit.readers, allowed reader) :
    Admits allowed (edit.apply productions) := by
  cases edit with
  | add pattern =>
      refine admits.append fun production member => ?_
      obtain rfl := List.mem_singleton.mp member
      exact .of_readers read
  | setAction | setArity => exact admits.changeLast fun _ => rfl

theorem admits_editing {edits : List RuleEdit}
    (read : ∀ reader ∈ edits.flatMap RuleEdit.readers, allowed reader) :
    Admits allowed (editing edits []) := by
  have grown (productions : List Production) (admits : Admits allowed productions) :
      Admits allowed (editing edits productions) := by
    induction edits generalizing productions with
    | nil => exact admits
    | cons edit rest ih =>
        rw [List.flatMap_cons, List.forall_mem_append] at read
        exact ih read.2 _ (admits.apply read.1)
  exact grown [] nofun

def authorReaders (edits : List (String × List RuleEdit)) : List Reader :=
  edits.flatMap fun entry => entry.2.flatMap RuleEdit.readers

theorem admits_of_get? {edits : List (String × List RuleEdit)}
    (read : ∀ reader ∈ authorReaders edits, allowed reader) {name : String} {own : List RuleEdit}
    (authored : get? name edits = some own) : Admits allowed (editing own []) :=
  admits_editing fun reader member =>
    read reader (List.mem_flatMap.mpr ⟨_, Index.mem_of_get? authored, member⟩)

end RuleSet

end Parlance
