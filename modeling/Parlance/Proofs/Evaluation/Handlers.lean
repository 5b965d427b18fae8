import Parlance.Proofs.Evaluation.Readers

/-! What custom patterns are held to when they match. Nothing else is asked of their scripts: what
follows for all other patterns follows from the matches alone. -/

namespace Parlance

open ParseContext

/-- Whenever a custom pattern that is met on the walk matches, the match is allowed. -/
def Pattern.Handles (context : ParseContext)
    (allowed : Reader → ParseState → Tree → ParseState → Prop) (pattern : Pattern) : Prop :=
  ∀ reader parts, .custom reader parts ∈ pattern.walk → ∀ state value after,
    Evaluates context (.script parts reader.script) state (.matched value) after →
      allowed reader state value after

namespace Pattern.Handles

variable {context : ParseContext} {allowed : Reader → ParseState → Tree → ParseState → Prop}

theorem mono {wider : Reader → ParseState → Tree → ParseState → Prop} {pattern : Pattern}
    (handles : pattern.Handles context allowed)
    (widens : ∀ reader state value after, allowed reader state value after →
      wider reader state value after) : pattern.Handles context wider :=
  fun reader parts member state value after ran =>
    widens reader state value after (handles reader parts member state value after ran)

theorem of_subset {whole part : Pattern} (handles : whole.Handles context allowed)
    (within : part.walk ⊆ whole.walk) : part.Handles context allowed :=
  fun reader parts member => handles reader parts (within member)

theorem of_mem {whole part : Pattern} {parts : List Pattern}
    (handles : whole.Handles context allowed) (below : parts.flatMap Pattern.walk ⊆ whole.walk)
    (member : part ∈ parts) : part.Handles context allowed :=
  handles.of_subset fun _ met => below (List.mem_flatMap.mpr ⟨part, member, met⟩)

theorem terms {terms : List Pattern} (handles : (Pattern.sequence terms).Handles context allowed) :
    ∀ term ∈ terms, term.Handles context allowed :=
  fun _ member => handles.of_mem (by simp [walk_sequence]) member

theorem alternatives {alternatives : List Pattern}
    (handles : (Pattern.choice alternatives).Handles context allowed) :
    ∀ alternative ∈ alternatives, alternative.Handles context allowed :=
  fun _ member => handles.of_mem (by simp [walk_choice]) member

theorem body {body : Pattern} {separator : Option Pattern} {allowEmpty : Bool}
    (handles : (Pattern.repetition body separator allowEmpty).Handles context allowed) :
    body.Handles context allowed :=
  handles.of_subset (by simp [walk_repetition])

theorem separator {body : Pattern} {separator : Option Pattern} {allowEmpty : Bool}
    (handles : (Pattern.repetition body separator allowEmpty).Handles context allowed) :
    (separator.getD .empty).Handles context allowed := by
  cases separator with
  | none => intro reader parts member; simp [walk] at member
  | some separator => exact handles.of_subset (by simp [walk_repetition])

theorem ignored {term : Pattern} (handles : (Pattern.ignore term).Handles context allowed) :
    term.Handles context allowed := handles.of_subset (by simp [walk])

theorem filtered {term : Pattern} {action : Action} {arity : Option Nat}
    (handles : (Pattern.filter term action arity).Handles context allowed) :
    term.Handles context allowed := handles.of_subset (by simp [walk])

theorem parts {reader : Reader} {parts : List Pattern}
    (handles : (Pattern.custom reader parts).Handles context allowed) :
    ∀ part ∈ parts, part.Handles context allowed :=
  fun _ member => handles.of_mem (by simp [walk_custom]) member

theorem custom {reader : Reader} {parts : List Pattern}
    (handles : (Pattern.custom reader parts).Handles context allowed) {state after : ParseState}
    {value : Tree} (ran : Evaluates context (.script parts reader.script) state (.matched value) after) :
    allowed reader state value after :=
  handles reader parts (by simp [walk_custom]) state value after ran

end Pattern.Handles

/-- A relation between the places at which a match begins and ends that all built-in patterns keep to. -/
structure ParseContext.Course (context : ParseContext) (onward : Nat → Nat → Prop) : Prop where
  refl : ∀ place, onward place place
  trans : ∀ {place between last}, onward place between → onward between last → onward place last
  advance : ∀ state : ParseState, state.position < context.tokens.size →
    onward state.position (state.advance context.tokens).position

abbrev Pattern.Follows (context : ParseContext) (onward : Nat → Nat → Prop) (pattern : Pattern) :
    Prop :=
  pattern.Handles context fun _ state _ after => onward state.position after.position

def ParseContext.Follows (context : ParseContext) (onward : Nat → Nat → Prop) : Prop :=
  ∀ name body, Index.get? name context.rules = some body → body.Follows context onward

/-- The custom patterns that a task may run keep to the course. Of a script alone nothing is known. -/
def Task.Follows (context : ParseContext) (onward : Nat → Nat → Prop) : Task → Prop
  | .pattern whole => whole.Follows context onward
  | .terms rest _ => ∀ term ∈ rest, term.Follows context onward
  | .alternatives rest => ∀ alternative ∈ rest, alternative.Follows context onward
  | .rounds body separator _ =>
      body.Follows context onward ∧ (separator.getD .empty).Follows context onward
  | .script .. => False

variable {context : ParseContext} {onward : Nat → Nat → Prop}

theorem Evaluates.follows (course : context.Course onward) (follows : context.Follows onward)
    {task : Task} {state after : ParseState} {outcome : Outcome}
    (evaluates : Evaluates context task state outcome after)
    (keeps : task.Follows context onward) {value : Tree} (found : outcome = .matched value) :
    onward state.position after.position := by
  induction evaluates generalizing value with
  | @token kind _ state =>
      unfold matchKind at found ⊢
      split at found
      next token peeked =>
        split at found
        next fits =>
          simp only [if_pos fits]
          exact course.advance state (Array.getElem?_eq_some_iff.mp peeked).1
        next => cases found
      next => cases found
  | missing | tooDeep | oneMissing | firstBroken | termFails | termBroken | noAlternatives
  | alternativeBroken | bodyBroken | separatorBroken => cases found
  | rule listed _ _ ih => exact ih (follows _ _ listed) found
  | sequence _ ih => exact ih (Pattern.Handles.terms keeps) found
  | choice _ ih => exact ih (Pattern.Handles.alternatives keeps) found
  | begun _ _ ihFirst ihRounds =>
      have body := Pattern.Handles.body keeps
      exact course.trans (ihFirst body rfl) (ihRounds ⟨body, Pattern.Handles.separator keeps⟩ found)
  | noneFound | empty | noTerms | idleRound | lastBody | lastSeparator => exact course.refl _
  | @ignore _ _ inner _ _ ih =>
      cases inner with
      | matched value => exact ih (Pattern.Handles.ignored keeps) rfl
      | mismatch | broken => cases found
  | @filter _ _ _ _ inner _ _ ih =>
      cases inner with
      | matched value => exact ih (Pattern.Handles.filtered keeps) rfl
      | mismatch | broken => cases found
  | custom ran =>
      subst found
      exact Pattern.Handles.custom keeps ran
  | nextTerm _ _ ihFirst ihRest =>
      exact course.trans (ihFirst (keeps _ (by simp)) rfl)
        (ihRest (fun term member => keeps term (by simp [member])) found)
  | decided _ ih => exact ih (keeps _ (by simp)) found
  | nextAlternative _ _ _ ihRest =>
      exact ihRest (fun term member => keeps term (by simp [member])) found
  | nextRound _ _ _ _ ihParted ihAgain ihRounds =>
      exact course.trans (course.trans (ihParted keeps.2 rfl) (ihAgain keeps.1 rfl))
        (ihRounds keeps found)
  | yield | refuse | abandon | peek | ether | cursor | advance | rewind | askRule | askRuleBroken
  | askPart | askPartBroken | askNoPart => exact keeps.elim

end Parlance
