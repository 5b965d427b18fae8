import Parlance.Proofs.Evaluation.Handlers
import Parlance.Proofs.Parse.Invariant

/-! The rounds of a repetition: which it takes, where it comes to rest, and why it stops there. -/

namespace Parlance

open ParseContext

/-- What every round but the first runs: the separator, if there is one, and then the body. -/
def Pattern.oneMore (body : Pattern) (separator : Option Pattern) : Pattern :=
  .sequence [separator.getD .empty, body]

/-- Rounds that are taken one after another, with the places where they end and the values that they
add: the used value of each separator, followed by that of the body after it. -/
inductive ParseContext.Takes (context : ParseContext) (body : Pattern) (separator : Option Pattern) :
    ParseState → List Nat → List Tree → ParseState → Prop where
  | done {state} : Takes context body separator state [] [] state
  | round {state between middle value next places values last}
      (parted : Evaluates context (.pattern (separator.getD .empty)) state (.matched between) middle)
      (again : Evaluates context (.pattern body) middle (.matched value) next)
      (moved : next.position ≠ state.position)
      (more : Takes context body separator next places values last) :
      Takes context body separator state (next.position :: places)
        (used (separator.getD .empty) between ++ used body value ++ values) last

/-- What the attempt at one more round makes of a repetition that has these items if the round is not
taken. -/
inductive ParseContext.Concludes (items : List Tree) (last : ParseState) :
    Outcome → ParseState → Outcome → ParseState → Prop where
  | mismatch {left} :
      Concludes items last .mismatch left (.matched (.list items)) (left.rewind last.position)
  | idle {value left} (still : left.position = last.position) :
      Concludes items last (.matched value) left (.matched (.list items)) (left.rewind last.position)
  | broken {fault left} : Concludes items last (.broken fault) left (.broken fault) left

variable {context : ParseContext} {body : Pattern} {separator : Option Pattern}
  {state last left after : ParseState} {places : List Nat} {items values : List Tree}
  {attempted outcome : Outcome}

theorem ParseContext.Takes.rounds (takes : context.Takes body separator state places values last)
    (ran : Evaluates context (.rounds body separator (items ++ values)) last outcome after) :
    Evaluates context (.rounds body separator items) state outcome after := by
  induction takes generalizing items with
  | done => rwa [List.append_nil] at ran
  | round parted again moved _ ih =>
      rw [← List.append_assoc] at ran
      exact .nextRound parted again moved (ih ran)

theorem ParseContext.Concludes.rounds (concludes : Concludes items last attempted left outcome after)
    (attempt : Evaluates context (.pattern (body.oneMore separator)) last attempted left) :
    Evaluates context (.rounds body separator items) last outcome after := by
  -- The attempt ends in the separator, in the body, or behind both, and rounds stop in the same way.
  cases attempt with
  | sequence ran =>
  cases ran with
  | termFails parted => cases concludes with | mismatch => exact .lastSeparator parted
  | termBroken parted => cases concludes with | broken => exact .separatorBroken parted
  | nextTerm parted ran =>
      cases ran with
      | termFails again => cases concludes with | mismatch => exact .lastBody parted again
      | termBroken again => cases concludes with | broken => exact .bodyBroken parted again
      | nextTerm again ran =>
          cases ran with
          | noTerms => cases concludes with | idle still => exact .idleRound parted again still

theorem ParseContext.Concludes.matched_iff {value : Tree} :
    Concludes items last attempted left (.matched value) after ↔
      (attempted = .mismatch ∨ (∃ idle, attempted = .matched idle) ∧ left.position = last.position) ∧
        value = .list items ∧ after = left.rewind last.position := by
  constructor
  · intro concludes
    cases concludes with
    | mismatch => exact ⟨.inl rfl, rfl, rfl⟩
    | idle still => exact ⟨.inr ⟨⟨_, rfl⟩, still⟩, rfl, rfl⟩
  · rintro ⟨rfl | ⟨⟨idle, rfl⟩, still⟩, rfl, rfl⟩
    · exact .mismatch
    · exact .idle still

theorem Evaluates.rounds_iff :
    Evaluates context (.rounds body separator items) state outcome after ↔
      ∃ places values last attempted left,
        context.Takes body separator state places values last ∧
        Evaluates context (.pattern (body.oneMore separator)) last attempted left ∧
        Concludes (items ++ values) last attempted left outcome after := by
  constructor
  · generalize same : Task.rounds body separator items = task
    intro evaluates
    induction evaluates generalizing items with cases same
    | nextRound parted again moved _ _ _ ih =>
        obtain ⟨places, values, last, attempted, left, takes, attempt, concludes⟩ := ih rfl
        rw [List.append_assoc] at concludes
        exact ⟨_, _, last, attempted, left, .round parted again moved takes, attempt, concludes⟩
    | idleRound parted again still =>
        refine ⟨[], [], _, _, _, .done, .sequence (.nextTerm parted (.nextTerm again .noTerms)), ?_⟩
        rw [List.append_nil]
        exact .idle still
    | lastBody parted again =>
        refine ⟨[], [], _, _, _, .done, .sequence (.nextTerm parted (.termFails again)), ?_⟩
        rw [List.append_nil]
        exact .mismatch
    | lastSeparator parted =>
        refine ⟨[], [], _, _, _, .done, .sequence (.termFails parted), ?_⟩
        rw [List.append_nil]
        exact .mismatch
    | bodyBroken parted again =>
        exact ⟨[], [], _, _, _, .done, .sequence (.nextTerm parted (.termBroken again)), .broken⟩
    | separatorBroken parted =>
        exact ⟨[], [], _, _, _, .done, .sequence (.termBroken parted), .broken⟩
  · rintro ⟨places, values, last, attempted, left, takes, attempt, concludes⟩
    exact takes.rounds (concludes.rounds attempt)

theorem ParseContext.course_forward (context : ParseContext) : context.Course (· ≤ ·) :=
  ⟨Nat.le_refl, Nat.le_trans, fun state _ => state.le_advance _⟩

theorem ParseContext.Takes.pairwise (follows : context.Follows (· ≤ ·))
    (keeps : body.Follows context (· ≤ ·)) (keepsToo : (separator.getD .empty).Follows context (· ≤ ·))
    (takes : context.Takes body separator state places values last) :
    (state.position :: places).Pairwise (· < ·) := by
  induction takes with
  | done => exact List.pairwise_singleton ..
  | round parted again moved _ ih =>
      have forward := (parted.follows context.course_forward follows keepsToo rfl).trans
        (again.follows context.course_forward follows keeps rfl)
      have further := Nat.lt_of_le_of_ne forward moved.symm
      refine .cons (fun place member => ?_) ih
      rcases List.mem_cons.mp member with rfl | member
      · exact further
      · exact further.trans (List.rel_of_pairwise_cons ih member)

/-- A repetition either finds no first body, or takes rounds behind it and attempts one more. -/
theorem Evaluates.repetition_iff {allowEmpty : Bool} :
    Evaluates context (.pattern (.repetition body separator allowEmpty)) state outcome after ↔
      (∃ left, Evaluates context (.pattern body) state .mismatch left ∧
        outcome = (if allowEmpty then .matched (.list []) else .mismatch) ∧
        after = (if allowEmpty then left.rewind state.position else left)) ∨
      (∃ fault, Evaluates context (.pattern body) state (.broken fault) after ∧
        outcome = .broken fault) ∨
      ∃ found middle places values last attempted left,
        Evaluates context (.pattern body) state (.matched found) middle ∧
        context.Takes body separator middle places values last ∧
        Evaluates context (.pattern (body.oneMore separator)) last attempted left ∧
        Concludes (used body found ++ values) last attempted left outcome after := by
  constructor
  · intro evaluates
    cases evaluates with
    | noneFound first | oneMissing first => exact .inl ⟨_, first, rfl, rfl⟩
    | firstBroken first => exact .inr (.inl ⟨_, first, rfl⟩)
    | begun first ran =>
        obtain ⟨places, values, last, attempted, left, rounds⟩ := Evaluates.rounds_iff.mp ran
        exact .inr (.inr ⟨_, _, places, values, last, attempted, left, first, rounds⟩)
  · rintro (⟨left, first, rfl, rfl⟩ | ⟨fault, first, rfl⟩ |
      ⟨found, middle, places, values, last, attempted, left, first, rounds⟩)
    · cases allowEmpty with
      | true => exact .noneFound first
      | false => exact .oneMissing first
    · exact .firstBroken first
    · exact .begun first (Evaluates.rounds_iff.mpr ⟨places, values, last, attempted, left, rounds⟩)

theorem ParseContext.Takes.getLast? (takes : context.Takes body separator state places values last) :
    (state.position :: places).getLast? = some last.position := by
  induction takes with
  | done => rfl
  | round _ _ _ _ ih => rwa [List.getLast?_cons_cons]

/-- A repetition that matches has either found no first body, where it may do without, and gone back to
its start, or it has matched the body, taken rounds, and gone back to the end of the last of them from
the attempt at one more, which mismatches or does not move; its items are the used values of what it
took, in order. It mismatches exactly when it needs a first body and finds none, and breaks exactly
when an attempt does. Provided that no match of a custom pattern ends behind the place where it begins,
each round ends further on than the one before. -/
theorem repetition_is_maximal (context : ParseContext) (body : Pattern) (separator : Option Pattern)
    (allowEmpty : Bool) (state : ParseState) :
    let whole : Pattern := .repetition body separator allowEmpty
    (∀ value after, Evaluates context (.pattern whole) state (.matched value) after ↔
      (allowEmpty = true ∧ ∃ left, Evaluates context (.pattern body) state .mismatch left ∧
        value = .list [] ∧ after = left.rewind state.position) ∨
      ∃ found middle places values last attempted left,
        Evaluates context (.pattern body) state (.matched found) middle ∧
        context.Takes body separator middle places values last ∧
        Evaluates context (.pattern (body.oneMore separator)) last attempted left ∧
        (attempted = .mismatch ∨ (∃ idle, attempted = .matched idle) ∧
          left.position = last.position) ∧
        value = .list (used body found ++ values) ∧ after = left.rewind last.position) ∧
    (∀ after, Evaluates context (.pattern whole) state .mismatch after ↔
      allowEmpty = false ∧ Evaluates context (.pattern body) state .mismatch after) ∧
    (∀ fault after, Evaluates context (.pattern whole) state (.broken fault) after ↔
      Evaluates context (.pattern body) state (.broken fault) after ∨
      ∃ found middle places values last,
        Evaluates context (.pattern body) state (.matched found) middle ∧
        context.Takes body separator middle places values last ∧
        Evaluates context (.pattern (body.oneMore separator)) last (.broken fault) after) ∧
    (∀ found middle places values last,
      Evaluates context (.pattern body) state (.matched found) middle →
      context.Takes body separator middle places values last →
      (middle.position :: places).getLast? = some last.position ∧
        (context.Follows (· ≤ ·) → whole.Follows context (· ≤ ·) →
          state.position ≤ middle.position ∧ (middle.position :: places).Pairwise (· < ·))) := by
  intro whole
  refine ⟨fun value after => ?_, fun after => ?_, fun fault after => ?_, ?_⟩
  · rw [Evaluates.repetition_iff]
    constructor
    · rintro (⟨left, first, found, rest⟩ | ⟨fault, -, found⟩ |
        ⟨found, middle, places, values, last, attempted, left, first, takes, attempt, concludes⟩)
      · cases allowEmpty with
        | true => cases found; exact .inl ⟨rfl, left, first, rfl, rest⟩
        | false => cases found
      · cases found
      · exact .inr ⟨found, middle, places, values, last, attempted, left, first, takes, attempt,
          Concludes.matched_iff.mp concludes⟩
    · rintro (⟨rfl, left, first, rfl, rfl⟩ |
        ⟨found, middle, places, values, last, attempted, left, first, takes, attempt, stops⟩)
      · exact .inl ⟨left, first, rfl, rfl⟩
      · exact .inr (.inr ⟨found, middle, places, values, last, attempted, left, first, takes, attempt,
          Concludes.matched_iff.mpr stops⟩)
  · rw [Evaluates.repetition_iff]
    constructor
    · rintro (⟨left, first, found, rest⟩ | ⟨fault, -, found⟩ | ⟨_, _, _, _, _, _, _, _, _, _, concludes⟩)
      · cases allowEmpty with
        | true => cases found
        | false => cases rest; exact ⟨rfl, first⟩
      · cases found
      · cases concludes
    · rintro ⟨rfl, first⟩
      exact .inl ⟨after, first, rfl, rfl⟩
  · rw [Evaluates.repetition_iff]
    constructor
    · rintro (⟨left, -, found, -⟩ | ⟨fault, first, found⟩ |
        ⟨found, middle, places, values, last, attempted, left, first, takes, attempt, concludes⟩)
      · cases allowEmpty <;> cases found
      · cases found
        exact .inl first
      · cases concludes with
        | broken => exact .inr ⟨found, middle, places, values, last, first, takes, attempt⟩
    · rintro (first | ⟨found, middle, places, values, last, first, takes, attempt⟩)
      · exact .inr (.inl ⟨fault, first, rfl⟩)
      · exact .inr (.inr ⟨found, middle, places, values, last, _, _, first, takes, attempt, .broken⟩)
  · intro found middle places values last first takes
    refine ⟨takes.getLast?, fun follows keeps => ⟨?_, ?_⟩⟩
    · exact first.follows context.course_forward follows (Pattern.Handles.body keeps) rfl
    · exact takes.pairwise follows (Pattern.Handles.body keeps) (Pattern.Handles.separator keeps)

/-- A comma behind the last name is left where it is. -/
theorem repetition_is_maximal_trailing :
    let context : ParseContext := ⟨[], #[.hard "Name" "a", .literal ",", .soft " ",
      .hard "Name" "b", .literal ","], none⟩
    let body : Pattern := .tokenClass "Name"
    let separator : Option Pattern := some (.punctuator ",")
    let state : ParseState := ⟨⟨0, 0, none⟩, 0⟩
    let items : List Tree := [.text "a", .text ",", .text "b"]
    context.Follows (· ≤ ·) ∧ (Pattern.repetition body separator false).Follows context (· ≤ ·) ∧
      Evaluates context (.pattern (.repetition body separator false)) state (.matched (.list items))
        ⟨⟨4, 5, none⟩, 0⟩ ∧
      ∃ found middle places values last,
        Evaluates context (.pattern body) state (.matched found) middle ∧
        context.Takes body separator middle places values last ∧
        used body found ++ values = items ∧
        (middle.position :: places).getLast? = some 4 ∧
        (middle.position :: places).Pairwise (· < ·) := by
  have ran : ParseContext.run ⟨[], #[.hard "Name" "a", .literal ",", .soft " ", .hard "Name" "b",
      .literal ","], none⟩ 5 (.plus (.tokenClass "Name") (some (.punctuator ","))) ⟨⟨0, 0, none⟩, 0⟩ =
      some (.matched (.list [.text "a", .text ",", .text "b"]), ⟨⟨4, 5, none⟩, 0⟩) := rfl
  intro context body separator state items
  have follows : context.Follows (· ≤ ·) := by
    intro name body found
    cases found
  have keeps : (Pattern.repetition body separator false).Follows context (· ≤ ·) := by
    intro reader parts met
    simp [body, separator, Pattern.walk, Pattern.tokenClass, Pattern.punctuator] at met
  have evaluates : Evaluates context (.pattern (.repetition body separator false)) state
      (.matched (.list items)) ⟨⟨4, 5, none⟩, 0⟩ := Evaluates.iff_run.mpr ⟨5, ran⟩
  obtain ⟨matches_iff, -, -, further⟩ :=
    repetition_is_maximal context body separator false state
  rcases (matches_iff _ _).mp evaluates with ⟨wrong, -⟩ |
    ⟨found, middle, places, values, last, attempted, left, first, takes, -, -, same, rests⟩
  · cases wrong
  · obtain ⟨ends, rises⟩ := further found middle places values last first takes
    have here : 4 = last.position := congrArg ParseState.position rests
    exact ⟨follows, keeps, evaluates, found, middle, places, values, last, first, takes,
      (Tree.list.inj same).symm, here ▸ ends, (rises follows keeps).2⟩

end Parlance
