import Parlance.Proofs.Evaluation.BigStep

/-! Evaluation with more rules, and with more in them. What comes to a match or a mismatch has asked
for no rule that is missing, so other rules make no difference to it; nor do alternatives behind
those of a rule that mismatch wherever they are tried. -/

namespace Parlance

def Outcome.Whole (outcome : Outcome) : Prop := ∀ fault, outcome ≠ .broken fault

theorem Outcome.Whole.of_mapValue {outcome : Outcome} {change : Tree → Tree}
    (whole : (outcome.mapValue change).Whole) : outcome.Whole := by
  rintro fault rfl
  exact whole fault rfl

theorem Outcome.whole_of_answer {outcome : Outcome} {answer : Option Tree}
    (answers : outcome.answer? = some answer) : outcome.Whole := by
  rintro fault rfl
  cases answers

/-- The same tokens and bound, and for every rule one that comes to whatever the rule comes to. -/
structure ParseContext.Widens (other context : ParseContext) : Prop where
  tokens : other.tokens = context.tokens
  maxDepth : other.maxDepth = context.maxDepth
  present : ∀ {name body}, Index.get? name context.rules = some body →
    ∃ copy, Index.get? name other.rules = some copy ∧
      ∀ {state outcome after}, Evaluates other (.pattern body) state outcome after →
        Evaluates other (.pattern copy) state outcome after

variable {context other : ParseContext}

theorem ParseContext.Widens.tooDeep (widens : other.Widens context) (state : ParseState) :
    other.tooDeep state = context.tooDeep state := by
  unfold ParseContext.tooDeep
  rw [widens.maxDepth]

theorem ParseContext.Widens.matchKind (widens : other.Widens context) (kind : String)
    (state : ParseState) : other.matchKind kind state = context.matchKind kind state := by
  unfold ParseContext.matchKind
  rw [widens.tokens]

theorem Evaluates.extended {task : Task} {state after : ParseState} {outcome : Outcome}
    (evaluates : Evaluates context task state outcome after) (whole : outcome.Whole)
    (widens : other.Widens context) : Evaluates other task state outcome after := by
  have matched (value : Tree) : (Outcome.matched value).Whole := nofun
  have mismatch : Outcome.mismatch.Whole := nofun
  induction evaluates with
  | token => rw [← widens.matchKind]; exact .token
  | missing => exact absurd rfl (whole _)
  | tooDeep found deep =>
      obtain ⟨_, found, -⟩ := widens.present found
      exact .tooDeep found (by rwa [widens.tooDeep])
  | rule found shallow _ ih =>
      obtain ⟨_, found, same⟩ := widens.present found
      exact .rule found (by rwa [widens.tooDeep]) (same (ih whole))
  | sequence _ ih => exact .sequence (ih whole)
  | choice _ ih => exact .choice (ih whole)
  | begun _ _ ihFirst ihRounds => exact .begun (ihFirst (matched _)) (ihRounds whole)
  | noneFound _ ih => exact .noneFound (ih mismatch)
  | oneMissing _ ih => exact .oneMissing (ih mismatch)
  | firstBroken => exact absurd rfl (whole _)
  | ignore _ ih => exact .ignore (ih whole.of_mapValue)
  | filter _ ih => exact .filter (ih whole.of_mapValue)
  | custom _ ih => exact .custom (ih whole)
  | empty => exact .empty
  | noTerms => exact .noTerms
  | nextTerm _ _ ihFirst ihRest => exact .nextTerm (ihFirst (matched _)) (ihRest whole)
  | termFails _ ih => exact .termFails (ih mismatch)
  | termBroken => exact absurd rfl (whole _)
  | noAlternatives => exact .noAlternatives
  | decided _ ih => exact .decided (ih whole)
  | nextAlternative _ _ ihFirst ihRest => exact .nextAlternative (ihFirst mismatch) (ihRest whole)
  | alternativeBroken => exact absurd rfl (whole _)
  | nextRound _ _ moved _ ihParted ihAgain ihRounds =>
      exact .nextRound (ihParted (matched _)) (ihAgain (matched _)) moved (ihRounds whole)
  | idleRound _ _ still ihParted ihAgain =>
      exact .idleRound (ihParted (matched _)) (ihAgain (matched _)) still
  | lastBody _ _ ihParted ihAgain => exact .lastBody (ihParted (matched _)) (ihAgain mismatch)
  | lastSeparator _ ih => exact .lastSeparator (ih mismatch)
  | bodyBroken => exact absurd rfl (whole _)
  | separatorBroken => exact absurd rfl (whole _)
  | yield => exact .yield
  | refuse => exact .refuse
  | abandon => exact .abandon
  | peek _ ih => exact .peek (by rw [widens.tokens]; exact ih whole)
  | ether _ ih => exact .ether (by rw [widens.tokens]; exact ih whole)
  | cursor _ ih => exact .cursor (ih whole)
  | advance _ ih => exact .advance (by rw [widens.tokens]; exact ih whole)
  | rewind _ ih => exact .rewind (ih whole)
  | askRule _ answers _ ihAsked ihRest =>
      exact .askRule (ihAsked (Outcome.whole_of_answer answers)) answers (ihRest whole)
  | askRuleBroken => exact absurd rfl (whole _)
  | askPart here _ answers _ ihAsked ihRest =>
      exact .askPart here (ihAsked (Outcome.whole_of_answer answers)) answers (ihRest whole)
  | askPartBroken => exact absurd rfl (whole _)
  | askNoPart absent _ ih => exact .askNoPart absent (ih whole)

theorem Evaluates.alternatives_append {alternatives idle : List Pattern}
    {state after : ParseState} {outcome : Outcome}
    (evaluates : Evaluates context (.alternatives alternatives) state outcome after)
    (idles : ∀ state, Evaluates context (.alternatives idle) state .mismatch state) :
    Evaluates context (.alternatives (alternatives ++ idle)) state outcome after := by
  induction alternatives generalizing state with
  | nil =>
      cases evaluates
      exact idles _
  | cons alternative rest ih =>
      cases evaluates with
      | decided first => exact .decided first
      | nextAlternative first ran => exact .nextAlternative first (ih ran)
      | alternativeBroken first => exact .alternativeBroken first

end Parlance
