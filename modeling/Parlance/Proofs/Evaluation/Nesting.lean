import Mathlib.Logic.Relation
import Parlance.Proofs.Evaluation.Lockstep

/-! How deep an evaluation nests rules. What a task begins right inside itself is a relation between
tasks and the states they begin in; a task nests within a bound if nothing that is begun inside it, at
any remove, is deeper. Where it does, a bound on nesting changes nothing. -/

namespace Parlance

open ParseContext
open Relation (ReflTransGen)

/-- What is begun right inside a task: its first part, and after a part has been evaluated what is
left of the task. -/
inductive Begins (context : ParseContext) : Task × ParseState → Task × ParseState → Prop where
  | rule {name state body} (found : Index.get? name context.rules = some body)
      (shallow : context.tooDeep state = false) :
      Begins context (.pattern (.rule name), state) (.pattern body, state.deeper)
  | sequence {terms state} :
      Begins context (.pattern (.sequence terms), state) (.terms terms [], state)
  | choice {alternatives state} :
      Begins context (.pattern (.choice alternatives), state) (.alternatives alternatives, state)
  | firstBody {body separator allowEmpty state} :
      Begins context (.pattern (.repetition body separator allowEmpty), state) (.pattern body, state)
  | firstRound {body separator allowEmpty state value middle}
      (first : Evaluates context (.pattern body) state (.matched value) middle) :
      Begins context (.pattern (.repetition body separator allowEmpty), state)
        (.rounds body separator (used body value), middle)
  | ignore {term state} : Begins context (.pattern (.ignore term), state) (.pattern term, state)
  | filter {term action arity state} :
      Begins context (.pattern (.filter term action arity), state) (.pattern term, state)
  | custom {reader parts state} :
      Begins context (.pattern (.custom reader parts), state) (.script parts reader.script, state)
  | firstTerm {term rest kept state} :
      Begins context (.terms (term :: rest) kept, state) (.pattern term, state)
  | nextTerm {term rest kept state value middle}
      (first : Evaluates context (.pattern term) state (.matched value) middle) :
      Begins context (.terms (term :: rest) kept, state)
        (.terms rest (kept ++ used term value), middle)
  | firstAlternative {alternative rest state} :
      Begins context (.alternatives (alternative :: rest), state) (.pattern alternative, state)
  | nextAlternative {alternative rest state middle}
      (first : Evaluates context (.pattern alternative) state .mismatch middle) :
      Begins context (.alternatives (alternative :: rest), state)
        (.alternatives rest, middle.rewind state.position)
  | separator {body separator items state} :
      Begins context (.rounds body separator items, state) (.pattern (separator.getD .empty), state)
  | nextBody {body separator items state between middle}
      (parted : Evaluates context (.pattern (separator.getD .empty)) state (.matched between)
        middle) :
      Begins context (.rounds body separator items, state) (.pattern body, middle)
  | nextRound {body separator items state between middle value next}
      (parted : Evaluates context (.pattern (separator.getD .empty)) state (.matched between) middle)
      (again : Evaluates context (.pattern body) middle (.matched value) next)
      (moved : next.position ≠ state.position) :
      Begins context (.rounds body separator items, state)
        (.rounds body separator
          (items ++ (used (separator.getD .empty) between ++ used body value)), next)
  | peek {parts next state} :
      Begins context (.script parts (.peek next), state)
        (.script parts (next (state.cursor.peek? context.tokens)), state)
  | ether {parts next state} :
      Begins context (.script parts (.ether next), state)
        (.script parts (next (state.cursor.ether context.tokens)), state)
  | cursor {parts next state} :
      Begins context (.script parts (.cursor next), state) (.script parts (next state.position), state)
  | advance {parts next state} :
      Begins context (.script parts (.advance next), state)
        (.script parts next, state.advance context.tokens)
  | rewind {parts mark next state} :
      Begins context (.script parts (.rewind mark next), state) (.script parts next, state.rewind mark)
  | askRule {parts name next state} :
      Begins context (.script parts (.rule name next), state) (.pattern (.rule name), state)
  | ruleAnswered {parts name next state answered answer middle}
      (asked : Evaluates context (.pattern (.rule name)) state answered middle)
      (answers : answered.answer? = some answer) :
      Begins context (.script parts (.rule name next), state) (.script parts (next answer), middle)
  | askPart {parts index next part state} (here : parts[index]? = some part) :
      Begins context (.script parts (.part index next), state) (.pattern part, state)
  | partAnswered {parts index next part state answered answer middle}
      (here : parts[index]? = some part)
      (asked : Evaluates context (.pattern part) state answered middle)
      (answers : answered.answer? = some answer) :
      Begins context (.script parts (.part index next), state) (.script parts (next answer), middle)
  | noPart {parts index next state} (absent : parts[index]? = none) :
      Begins context (.script parts (.part index next), state) (.script parts (next none), state)

/-- No more rules than the bound are run one inside another. -/
def ParseContext.NestsWithin (context : ParseContext) (bound : Nat) (task : Task)
    (state : ParseState) : Prop :=
  ∀ begun, ReflTransGen (Begins context) (task, state) begun → begun.2.depth ≤ bound

variable {context : ParseContext} {bound : Nat} {task : Task} {state : ParseState}

theorem ParseContext.NestsWithin.part (nests : context.NestsWithin bound task state) {inner : Task}
    {begun : ParseState} (begins : Begins context (task, state) (inner, begun)) :
    context.NestsWithin bound inner begun :=
  fun last leads => nests last (leads.head begins)

theorem ParseContext.NestsWithin.depth_le (nests : context.NestsWithin bound task state) :
    state.depth ≤ bound :=
  nests _ .refl

theorem ParseContext.NestsWithin.mono (nests : context.NestsWithin bound task state) {wider : Nat}
    (le : bound ≤ wider) : context.NestsWithin wider task state :=
  fun last leads => Nat.le_trans (nests last leads) le

theorem ParseContext.NestsWithin.shallow (nests : context.NestsWithin bound task state.deeper) :
    ({ context with maxDepth := some bound } : ParseContext).tooDeep state = false := by
  have lt : state.depth < bound := nests.depth_le
  simpa [ParseContext.tooDeep] using lt

/-- What nests within a bound comes to the same where there is that bound. -/
theorem Evaluates.bounded (unbounded : context.maxDepth = none) {after : ParseState}
    {outcome : Outcome} (evaluates : Evaluates context task state outcome after)
    (nests : context.NestsWithin bound task state) :
    Evaluates { context with maxDepth := some bound } task state outcome after := by
  induction evaluates with
  | token => exact .token
  | missing absent => exact .missing absent
  | tooDeep found deep =>
      simp only [ParseContext.tooDeep, unbounded] at deep
      cases deep
  | rule found shallow _ ih =>
      have inner := nests.part (.rule found shallow)
      exact .rule found inner.shallow (ih inner)
  | sequence _ ih => exact .sequence (ih (nests.part .sequence))
  | choice _ ih => exact .choice (ih (nests.part .choice))
  | begun first _ ihFirst ihRounds =>
      exact .begun (ihFirst (nests.part .firstBody)) (ihRounds (nests.part (.firstRound first)))
  | noneFound _ ih => exact .noneFound (ih (nests.part .firstBody))
  | oneMissing _ ih => exact .oneMissing (ih (nests.part .firstBody))
  | firstBroken _ ih => exact .firstBroken (ih (nests.part .firstBody))
  | ignore _ ih => exact .ignore (ih (nests.part .ignore))
  | filter _ ih => exact .filter (ih (nests.part .filter))
  | custom _ ih => exact .custom (ih (nests.part .custom))
  | empty => exact .empty
  | noTerms => exact .noTerms
  | nextTerm first _ ihFirst ihRest =>
      exact .nextTerm (ihFirst (nests.part .firstTerm)) (ihRest (nests.part (.nextTerm first)))
  | termFails _ ih => exact .termFails (ih (nests.part .firstTerm))
  | termBroken _ ih => exact .termBroken (ih (nests.part .firstTerm))
  | noAlternatives => exact .noAlternatives
  | decided _ ih => exact .decided (ih (nests.part .firstAlternative))
  | nextAlternative first _ ihFirst ihRest =>
      exact .nextAlternative (ihFirst (nests.part .firstAlternative))
        (ihRest (nests.part (.nextAlternative first)))
  | alternativeBroken _ ih => exact .alternativeBroken (ih (nests.part .firstAlternative))
  | nextRound parted again moved _ ihParted ihAgain ihRounds =>
      exact .nextRound (ihParted (nests.part .separator)) (ihAgain (nests.part (.nextBody parted)))
        moved (ihRounds (nests.part (.nextRound parted again moved)))
  | idleRound parted _ still ihParted ihAgain =>
      exact .idleRound (ihParted (nests.part .separator)) (ihAgain (nests.part (.nextBody parted)))
        still
  | lastBody parted _ ihParted ihAgain =>
      exact .lastBody (ihParted (nests.part .separator)) (ihAgain (nests.part (.nextBody parted)))
  | lastSeparator _ ih => exact .lastSeparator (ih (nests.part .separator))
  | bodyBroken parted _ ihParted ihAgain =>
      exact .bodyBroken (ihParted (nests.part .separator)) (ihAgain (nests.part (.nextBody parted)))
  | separatorBroken _ ih => exact .separatorBroken (ih (nests.part .separator))
  | yield => exact .yield
  | refuse => exact .refuse
  | abandon => exact .abandon
  | peek _ ih => exact .peek (ih (nests.part .peek))
  | ether _ ih => exact .ether (ih (nests.part .ether))
  | cursor _ ih => exact .cursor (ih (nests.part .cursor))
  | advance _ ih => exact .advance (ih (nests.part .advance))
  | rewind _ ih => exact .rewind (ih (nests.part .rewind))
  | askRule asked answers _ ihAsked ihRest =>
      exact .askRule (ihAsked (nests.part .askRule)) answers
        (ihRest (nests.part (.ruleAnswered asked answers)))
  | askRuleBroken _ ih => exact .askRuleBroken (ih (nests.part .askRule))
  | askPart here asked answers _ ihAsked ihRest =>
      exact .askPart here (ihAsked (nests.part (.askPart here))) answers
        (ihRest (nests.part (.partAnswered here asked answers)))
  | askPartBroken here _ ih => exact .askPartBroken here (ih (nests.part (.askPart here)))
  | askNoPart absent _ ih => exact .askNoPart absent (ih (nests.part (.noPart absent)))

theorem Parser.comesTo_bounded_iff {parser : Parser} {start : String} {tokens : List Token}
    {origin : Option String} {traced : Bool} {verdict other : Verdict}
    (unbounded : parser.maxDepth = none)
    (nests : (parser.context tokens).NestsWithin bound (.pattern (.rule start))
      (.initial tokens traced))
    (comes : parser.ComesTo start tokens origin traced verdict) :
    ({ parser with maxDepth := some bound } : Parser).ComesTo start tokens origin traced other ↔
      other = verdict := by
  obtain ⟨outcome, after, evaluates, shown⟩ := Parser.comesTo_iff.mp comes
  have bounded := evaluates.bounded unbounded nests
  rw [Parser.comesTo_iff]
  constructor
  · rintro ⟨outcomeToo, afterToo, evaluatesToo, rfl⟩
    obtain ⟨rfl, rfl⟩ := bounded.unique evaluatesToo
    exact shown
  · rintro rfl
    exact ⟨outcome, after, bounded, shown⟩

end Parlance
