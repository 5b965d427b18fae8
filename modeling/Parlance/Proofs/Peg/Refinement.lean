import Parlance.Proofs.Evaluation.Readers
import Parlance.Proofs.Normalization.Rules
import Parlance.Proofs.Peg.Relation
import Parlance.Proofs.Peg.Remaining

/-! Runs without a bound on nesting come to what the grammar derives. An item of the input is a view
of a hard token and the ether before it, and the input of a phrase is what is left at the cursor.
-/

namespace Parlance

open ParseContext (used gather)
open Cursor (Rests)

def Task.phrase? : Task → Option Phrase
  | .pattern whole => some (.pattern whole)
  | .terms rest _ => some (.terms rest)
  | .alternatives rest => some (.alternatives rest)
  | .rounds body separator _ => some (.rounds body separator)
  | .script .. => none

def Task.finish : Task → Tree → Tree
  | .terms _ kept, .list values => gather (kept ++ values)
  | .rounds _ _ items, .list values => .list (items ++ values)
  | _, value => value

section View

variable {α : Type} (view : Landed → α) (tokens : Array Token)

def ParseState.left (state : ParseState) : List α :=
  (Cursor.remaining tokens state.position).map view

/-- A match and its value with what is left, or a mismatch and nothing. -/
inductive Agrees (finish : Tree → Tree) : Outcome → ParseState → Option (Tree × List α) → Prop where
  | matched {value whole state} (finished : whole = finish value)
      (rests : Rests tokens state.position) :
      Agrees finish (.matched whole) state (some (value, state.left view tokens))
  | mismatch {state} : Agrees finish .mismatch state none

/-- The script of a reader comes to what the grammar says the reader makes of the input. -/
def Peg.Hears (peg : Peg α) (context : ParseContext) (reader : Reader) : Prop :=
  ∀ parts state, Rests context.tokens state.position →
    ∃ outcome after, Evaluates context (.script parts reader.script) state outcome after ∧
      Agrees view context.tokens id outcome after
        (peg.reads reader (state.left view context.tokens))

/-- The grammar of a context: the same rules, no bound on nesting, and readers that are heard. -/
structure Peg.Models (peg : Peg α) (context : ParseContext) : Prop where
  token : ∀ landed, peg.token (view landed) = landed.token
  rules : ∀ name, Index.get? name context.rules =
    (Index.get? name peg.rules).map RuleSet.choiceOf
  unbounded : context.maxDepth = none
  heard : ∀ name body, Index.get? name context.rules = some body →
    body.ReadBy (peg.Hears view context)

theorem Cursor.Rests.left_eq_iff {tokens : Array Token} {state other : ParseState}
    (rests : Rests tokens state.position) (restsToo : Rests tokens other.position) :
    state.left view tokens = other.left view tokens ↔ state.position = other.position := by
  constructor
  · intro same
    refine rests.eq_of_length restsToo ?_
    have lengths := congrArg List.length same
    simpa only [ParseState.left, List.length_map] using lengths
  · intro same
    unfold ParseState.left
    rw [same]

variable {view tokens}

theorem Agrees.of_some {finish : Tree → Tree} {outcome : Outcome} {state : ParseState} {value : Tree}
    {rest : List α} (agrees : Agrees view tokens finish outcome state (some (value, rest))) :
    outcome = .matched (finish value) ∧ Rests tokens state.position ∧
      state.left view tokens = rest := by
  cases agrees with
  | matched finished rests => exact ⟨by rw [finished], rests, rfl⟩

theorem Agrees.shallower {finish : Tree → Tree} {outcome : Outcome} {state : ParseState}
    {result : Option (Tree × List α)} (agrees : Agrees view tokens finish outcome state result) :
    Agrees view tokens finish outcome state.shallower result := by
  cases agrees with
  | matched finished rests =>
      exact @Agrees.matched _ view tokens finish _ _ state.shallower finished rests
  | mismatch => exact .mismatch

theorem ParseState.left_rewind (state later : ParseState) :
    (later.rewind state.position).left view tokens = state.left view tokens := rfl

theorem Agrees.rewound {finish : Tree → Tree} {value whole : Tree} {state later : ParseState}
    (finished : whole = finish value) (rests : Rests tokens state.position) :
    Agrees view tokens finish (.matched whole) (later.rewind state.position)
      (some (value, state.left view tokens)) := by
  rw [← ParseState.left_rewind state later]
  exact .matched finished rests

variable {peg : Peg α} {context : ParseContext}

namespace Peg.Models

variable (models : peg.Models view context)

include models

theorem not_tooDeep (state : ParseState) : context.tooDeep state = false := by
  unfold ParseContext.tooDeep
  rw [models.unbounded]

theorem productions {name : String} {body : Pattern}
    (found : Index.get? name context.rules = some body) :
    ∃ productions, Index.get? name peg.rules = some productions ∧
      body = .choice (productions.map Production.expression) := by
  rw [models.rules] at found
  obtain ⟨productions, found, same⟩ := Option.map_eq_some_iff.mp found
  exact ⟨productions, found, same.symm⟩

theorem matchKind (kind : String) (role : Option Role) {state : ParseState}
    (rests : Rests context.tokens state.position) :
    ∃ result, Derives peg (.pattern (.token kind role)) (state.left view context.tokens) result ∧
      Agrees view context.tokens id (context.matchKind kind state).1
        (context.matchKind kind state).2 result := by
  unfold ParseContext.matchKind
  rcases rests.cases with ⟨-, peeked, none⟩ | ⟨other, text, -, peeked, restsToo, some⟩
  · have input : state.left view context.tokens = [] := congrArg (List.map view) none
    simp only [peeked, input]
    exact ⟨_, .noToken, .mismatch⟩
  · have input : state.left view context.tokens = view ⟨_, .hard other text⟩ ::
        (state.advance context.tokens).left view context.tokens := congrArg (List.map view) some
    have stands := models.token ⟨state.cursor.ether context.tokens, .hard other text⟩
    simp only [peeked, input]
    by_cases fits : (Token.hard other text).kind? = Option.some kind
    · rw [if_pos fits]
      refine ⟨_, .token (by rw [stands]; exact fits), ?_⟩
      rw [stands]
      exact .matched rfl restsToo
    · rw [if_neg fits]
      exact ⟨_, .otherToken (by rw [stands]; exact fits), .mismatch⟩

end Peg.Models

/-- What a task that does not break comes to is derived for its phrase. -/
theorem Evaluates.derives (models : peg.Models view context) {task : Task}
    {state after : ParseState} {outcome : Outcome}
    (evaluates : Evaluates context task state outcome after)
    (heard : task.ReadBy (peg.Hears view context) fun _ => True)
    (rests : Rests context.tokens state.position) (whole : ∀ fault, outcome ≠ .broken fault)
    {phrase : Phrase} (about : task.phrase? = some phrase) :
    ∃ result, Derives peg phrase (state.left view context.tokens) result ∧
      Agrees view context.tokens task.finish outcome after result := by
  induction evaluates generalizing phrase with
  | token => cases about; exact models.matchKind _ _ rests
  | missing | firstBroken | termBroken | alternativeBroken | bodyBroken | separatorBroken =>
      exact absurd rfl (whole _)
  | tooDeep found deep => rw [models.not_tooDeep] at deep; cases deep
  | rule found _ _ ih =>
      cases about
      obtain ⟨productions, listed, rfl⟩ := models.productions found
      obtain ⟨result, derives, agrees⟩ := ih (models.heard _ _ found) rests whole rfl
      exact ⟨result, .rule listed derives, agrees.shallower⟩
  | sequence _ ih =>
      cases about
      obtain ⟨_, derives, agrees⟩ := ih heard.terms rests whole rfl
      cases agrees with
      | @matched value _ _ finished rests =>
          obtain ⟨values, rfl⟩ := derives.terms_list
          exact ⟨_, .sequence derives, .matched finished rests⟩
      | mismatch => exact ⟨_, .noSequence derives, .mismatch⟩
  | choice _ ih =>
      cases about
      obtain ⟨result, derives, agrees⟩ := ih heard.alternatives rests whole rfl
      exact ⟨result, .choice derives, agrees⟩
  | begun _ _ ihFirst ihRounds =>
      cases about
      obtain ⟨_, first, agrees⟩ := ihFirst heard.repetition.1 rests nofun rfl
      cases agrees with
      | matched finished rests =>
          cases finished
          obtain ⟨_, more, agrees⟩ := ihRounds heard.repetition rests whole rfl
          obtain ⟨values, rest, rfl⟩ := more.rounds_list
          cases agrees with
          | matched finished rests => exact ⟨_, .repetition first more, .matched finished rests⟩
  | noneFound _ ih =>
      cases about
      obtain ⟨_, fails, agrees⟩ := ih heard.repetition.1 rests nofun rfl
      cases agrees
      exact ⟨_, .noneFound fails, .rewound rfl rests⟩
  | oneMissing _ ih =>
      cases about
      obtain ⟨_, fails, agrees⟩ := ih heard.repetition.1 rests nofun rfl
      cases agrees
      exact ⟨_, .oneMissing fails, .mismatch⟩
  | @ignore _ _ inner _ _ ih =>
      cases about
      obtain ⟨_, derives, agrees⟩ := ih heard.ignored rests (by rintro fault rfl; exact whole _ rfl) rfl
      cases agrees with
      | matched finished rests => exact ⟨_, .ignore derives, .matched rfl rests⟩
      | mismatch => exact ⟨_, .noIgnore derives, .mismatch⟩
  | @filter _ _ _ _ inner _ _ ih =>
      cases about
      obtain ⟨_, derives, agrees⟩ := ih heard.filtered rests (by rintro fault rfl; exact whole _ rfl) rfl
      cases agrees with
      | matched finished rests => cases finished; exact ⟨_, .filter derives, .matched rfl rests⟩
      | mismatch => exact ⟨_, .noFilter derives, .mismatch⟩
  | custom ran =>
      cases about
      obtain ⟨_, _, ranToo, agrees⟩ := heard.reader _ _ rests
      obtain ⟨rfl, rfl⟩ := ran.unique ranToo
      exact ⟨_, .custom rfl, agrees⟩
  | empty => cases about; exact ⟨_, .empty, .matched rfl rests⟩
  | noTerms => cases about; exact ⟨_, .noTerms, .matched (by simp [Task.finish]) rests⟩
  | nextTerm _ _ ihFirst ihRest =>
      cases about
      obtain ⟨_, first, agrees⟩ := ihFirst (heard _ (by simp)) rests nofun rfl
      cases agrees with
      | matched finished rests =>
          cases finished
          obtain ⟨_, more, agrees⟩ :=
            ihRest (fun term member => heard term (by simp [member])) rests whole rfl
          cases agrees with
          | matched finished rests =>
              obtain ⟨values, rfl⟩ := more.terms_list
              refine ⟨_, .nextTerm first more, .matched ?_ rests⟩
              simpa [Task.finish] using finished
          | mismatch => exact ⟨_, .restFails first more, .mismatch⟩
  | termFails _ ih =>
      cases about
      obtain ⟨_, fails, agrees⟩ := ih (heard _ (by simp)) rests nofun rfl
      cases agrees
      exact ⟨_, .termFails fails, .mismatch⟩
  | noAlternatives => cases about; exact ⟨_, .noAlternatives, .mismatch⟩
  | decided _ ih =>
      cases about
      obtain ⟨_, derives, agrees⟩ := ih (heard _ (by simp)) rests nofun rfl
      cases agrees with
      | matched finished rests => exact ⟨_, .decided derives, .matched finished rests⟩
  | nextAlternative _ _ ihFirst ihRest =>
      cases about
      obtain ⟨_, fails, agrees⟩ := ihFirst (heard _ (by simp)) rests nofun rfl
      cases agrees
      obtain ⟨result, more, agrees⟩ :=
        ihRest (fun term member => heard term (by simp [member])) rests whole rfl
      exact ⟨result, .nextAlternative fails more, agrees⟩
  | nextRound _ _ moved _ ihParted ihAgain ihRounds =>
      cases about
      obtain ⟨_, parted, agrees⟩ := ihParted heard.2 rests nofun rfl
      cases agrees with
      | matched finished restsMiddle =>
          cases finished
          obtain ⟨_, again, agrees⟩ := ihAgain heard.1 restsMiddle nofun rfl
          cases agrees with
          | matched finished restsNext =>
              cases finished
              obtain ⟨_, more, agrees⟩ := ihRounds heard restsNext whole rfl
              obtain ⟨values, rest, rfl⟩ := more.rounds_list
              cases agrees with
              | matched finished restsAfter =>
                  have moved := (Rests.left_eq_iff view restsNext rests).not.mpr moved
                  refine ⟨_, .nextRound parted again moved more, .matched ?_ restsAfter⟩
                  simpa [Task.finish] using finished
  | idleRound _ _ still ihParted ihAgain =>
      cases about
      obtain ⟨_, parted, agrees⟩ := ihParted heard.2 rests nofun rfl
      cases agrees with
      | matched finished restsMiddle =>
          obtain ⟨_, again, agrees⟩ := ihAgain heard.1 restsMiddle nofun rfl
          cases agrees with
          | matched finished restsNext =>
              rw [(Rests.left_eq_iff view restsNext rests).mpr still] at again
              exact ⟨_, .idleRound parted again, .rewound (by simp [Task.finish]) rests⟩
  | lastBody _ _ ihParted ihAgain =>
      cases about
      obtain ⟨_, parted, agrees⟩ := ihParted heard.2 rests nofun rfl
      cases agrees with
      | matched finished restsMiddle =>
          obtain ⟨_, fails, agrees⟩ := ihAgain heard.1 restsMiddle nofun rfl
          cases agrees
          exact ⟨_, .lastBody parted fails, .rewound (by simp [Task.finish]) rests⟩
  | lastSeparator _ ihParted =>
      cases about
      obtain ⟨_, fails, agrees⟩ := ihParted heard.2 rests nofun rfl
      cases agrees
      exact ⟨_, .lastSeparator fails, .rewound (by simp [Task.finish]) rests⟩
  | yield | refuse | abandon | peek | ether | cursor | advance | rewind | askRule | askRuleBroken
  | askPart | askPartBroken | askNoPart => cases about

/-- What is derived for the phrase of a task is what the task comes to. -/
theorem Derives.evaluates (models : peg.Models view context) {phrase : Phrase} {input : List α}
    {result : Option (Tree × List α)} (derives : Derives peg phrase input result) (task : Task)
    (state : ParseState) (about : task.phrase? = some phrase)
    (heard : task.ReadBy (peg.Hears view context) fun _ => True)
    (rests : Rests context.tokens state.position)
    (here : state.left view context.tokens = input) :
    ∃ outcome after, Evaluates context task state outcome after ∧
      Agrees view context.tokens task.finish outcome after result := by
  induction derives generalizing task state with
  | @token kind role _ _ fits =>
      cases task <;> cases about
      obtain ⟨_, derives, agrees⟩ := models.matchKind kind role rests
      rw [here] at derives
      exact ⟨_, _, .token, derives.unique (.token fits) ▸ agrees⟩
  | @otherToken kind role _ _ differs =>
      cases task <;> cases about
      obtain ⟨_, derives, agrees⟩ := models.matchKind kind role rests
      rw [here] at derives
      exact ⟨_, _, .token, derives.unique (.otherToken differs) ▸ agrees⟩
  | @noToken kind role =>
      cases task <;> cases about
      obtain ⟨_, derives, agrees⟩ := models.matchKind kind role rests
      rw [here] at derives
      exact ⟨_, _, .token, derives.unique .noToken ▸ agrees⟩
  | @rule name productions _ _ found _ ih =>
      cases task <;> cases about
      have listed : Index.get? name context.rules = some (RuleSet.choiceOf productions) := by
        rw [models.rules, found]
        rfl
      obtain ⟨_, _, ran, agrees⟩ := ih (.pattern _) state.deeper rfl
        (models.heard _ _ listed) rests here
      exact ⟨_, _, .rule listed (models.not_tooDeep state) ran, agrees.shallower⟩
  | sequence _ ih =>
      cases task <;> cases about
      obtain ⟨_, _, ran, agrees⟩ := ih (.terms _ []) _ rfl heard.terms rests here
      cases agrees with
      | matched finished rests => exact ⟨_, _, .sequence ran, .matched finished rests⟩
  | noSequence _ ih =>
      cases task <;> cases about
      obtain ⟨_, _, ran, agrees⟩ := ih (.terms _ []) _ rfl heard.terms rests here
      cases agrees
      exact ⟨_, _, .sequence ran, .mismatch⟩
  | choice _ ih =>
      cases task <;> cases about
      obtain ⟨_, _, ran, agrees⟩ := ih (.alternatives _) _ rfl heard.alternatives rests here
      exact ⟨_, _, .choice ran, agrees⟩
  | @repetition body separator _ _ value _ _ _ _ _ ihFirst ihMore =>
      cases task <;> cases about
      obtain ⟨_, _, first, agrees⟩ := ihFirst (.pattern _) _ rfl heard.repetition.1 rests here
      cases agrees with
      | matched finished rests =>
          cases finished
          obtain ⟨_, _, ran, agrees⟩ := ihMore (.rounds body separator (used body value)) _ rfl
            heard.repetition rests rfl
          cases agrees with
          | matched finished rests => exact ⟨_, _, .begun first ran, .matched finished rests⟩
  | noneFound _ ih =>
      cases task <;> cases about
      obtain ⟨_, _, first, agrees⟩ := ih (.pattern _) _ rfl heard.repetition.1 rests here
      cases agrees
      exact ⟨_, _, .noneFound first, here ▸ .rewound rfl rests⟩
  | oneMissing _ ih =>
      cases task <;> cases about
      obtain ⟨_, _, first, agrees⟩ := ih (.pattern _) _ rfl heard.repetition.1 rests here
      cases agrees
      exact ⟨_, _, .oneMissing first, .mismatch⟩
  | ignore _ ih =>
      cases task <;> cases about
      obtain ⟨_, _, ran, agrees⟩ := ih (.pattern _) _ rfl heard.ignored rests here
      cases agrees with
      | matched finished rests => exact ⟨_, _, .ignore ran, .matched rfl rests⟩
  | filter _ ih =>
      cases task <;> cases about
      obtain ⟨_, _, ran, agrees⟩ := ih (.pattern _) _ rfl heard.filtered rests here
      cases agrees with
      | matched finished rests => cases finished; exact ⟨_, _, .filter ran, .matched rfl rests⟩
  | noIgnore _ ih =>
      cases task <;> cases about
      obtain ⟨_, _, ran, agrees⟩ := ih (.pattern _) _ rfl heard.ignored rests here
      cases agrees
      exact ⟨_, _, .ignore ran, .mismatch⟩
  | noFilter _ ih =>
      cases task <;> cases about
      obtain ⟨_, _, ran, agrees⟩ := ih (.pattern _) _ rfl heard.filtered rests here
      cases agrees
      exact ⟨_, _, .filter ran, .mismatch⟩
  | custom reads =>
      cases task <;> cases about
      obtain ⟨_, _, ran, agrees⟩ := heard.reader _ _ rests
      rw [here, reads] at agrees
      exact ⟨_, _, .custom ran, agrees⟩
  | empty =>
      cases task <;> cases about
      exact ⟨_, _, .empty, here ▸ .matched rfl rests⟩
  | noTerms =>
      cases task <;> cases about
      exact ⟨_, _, .noTerms, here ▸ .matched (by simp [Task.finish]) rests⟩
  | nextTerm _ _ ihFirst ihMore =>
      cases task <;> cases about
      obtain ⟨_, _, first, agrees⟩ := ihFirst (.pattern _) _ rfl (heard _ (by simp)) rests here
      cases agrees with
      | matched finished rests =>
          cases finished
          obtain ⟨_, _, ran, agrees⟩ := ihMore (.terms _ _) _ rfl
            (fun term member => heard term (by simp [member])) rests rfl
          cases agrees with
          | matched finished rests =>
              exact ⟨_, _, .nextTerm first ran, .matched (by simpa [Task.finish] using finished) rests⟩
  | termFails _ ih =>
      cases task <;> cases about
      obtain ⟨_, _, first, agrees⟩ := ih (.pattern _) _ rfl (heard _ (by simp)) rests here
      cases agrees
      exact ⟨_, _, .termFails first, .mismatch⟩
  | restFails _ _ ihFirst ihMore =>
      cases task <;> cases about
      obtain ⟨_, _, first, agrees⟩ := ihFirst (.pattern _) _ rfl (heard _ (by simp)) rests here
      cases agrees with
      | matched finished rests =>
          cases finished
          obtain ⟨_, _, ran, agrees⟩ := ihMore (.terms _ _) _ rfl
            (fun term member => heard term (by simp [member])) rests rfl
          cases agrees
          exact ⟨_, _, .nextTerm first ran, .mismatch⟩
  | noAlternatives =>
      cases task <;> cases about
      exact ⟨_, _, .noAlternatives, .mismatch⟩
  | decided _ ih =>
      cases task <;> cases about
      obtain ⟨_, _, first, agrees⟩ := ih (.pattern _) _ rfl (heard _ (by simp)) rests here
      cases agrees with
      | matched finished rests => exact ⟨_, _, .decided first, .matched finished rests⟩
  | nextAlternative _ _ ihFirst ihMore =>
      cases task <;> cases about
      obtain ⟨_, middle, first, agrees⟩ :=
        ihFirst (.pattern _) _ rfl (heard _ (by simp)) rests here
      cases agrees
      obtain ⟨_, _, ran, agrees⟩ := ihMore (.alternatives _) (middle.rewind state.position) rfl
        (fun term member => heard term (by simp [member])) rests here
      exact ⟨_, _, .nextAlternative first ran, agrees⟩
  | nextRound _ _ moved _ ihParted ihAgain ihMore =>
      cases task <;> cases about
      obtain ⟨_, _, parted, agrees⟩ := ihParted (.pattern _) _ rfl heard.2 rests here
      cases agrees with
      | matched finished restsMiddle =>
          cases finished
          obtain ⟨_, next, again, agrees⟩ := ihAgain (.pattern _) _ rfl heard.1 restsMiddle rfl
          cases agrees with
          | matched finished restsNext =>
              cases finished
              obtain ⟨_, _, ran, agrees⟩ := ihMore (.rounds _ _ (_ ++ (_ ++ _))) _ rfl heard
                restsNext rfl
              cases agrees with
              | matched finished restsAfter =>
                  have moved := (Rests.left_eq_iff view restsNext rests).not.mp (here ▸ moved)
                  exact ⟨_, _, .nextRound parted again moved ran,
                    .matched (by simpa [Task.finish] using finished) restsAfter⟩
  | idleRound _ _ ihParted ihAgain =>
      cases task <;> cases about
      obtain ⟨_, _, parted, agrees⟩ := ihParted (.pattern _) _ rfl heard.2 rests here
      cases agrees with
      | matched finished restsMiddle =>
          obtain ⟨_, next, again, agrees⟩ := ihAgain (.pattern _) _ rfl heard.1 restsMiddle rfl
          obtain ⟨rfl, restsNext, same⟩ := agrees.of_some
          have still := (Rests.left_eq_iff view restsNext rests).mp (same.trans here.symm)
          exact ⟨_, _, .idleRound parted again still, here ▸ .rewound (by simp [Task.finish]) rests⟩
  | lastBody _ _ ihParted ihAgain =>
      cases task <;> cases about
      obtain ⟨_, _, parted, agrees⟩ := ihParted (.pattern _) _ rfl heard.2 rests here
      cases agrees with
      | matched finished restsMiddle =>
          obtain ⟨_, _, again, agrees⟩ := ihAgain (.pattern _) _ rfl heard.1 restsMiddle rfl
          cases agrees
          exact ⟨_, _, .lastBody parted again, here ▸ .rewound (by simp [Task.finish]) rests⟩
  | lastSeparator _ ihParted =>
      cases task <;> cases about
      obtain ⟨_, _, parted, agrees⟩ := ihParted (.pattern _) _ rfl heard.2 rests here
      cases agrees
      exact ⟨_, _, .lastSeparator parted, here ▸ .rewound (by simp [Task.finish]) rests⟩

end View

end Parlance
