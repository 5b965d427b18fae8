import Parlance.Builtin.Terminator
import Parlance.Proofs.Evaluation.Handlers

/-! What matches yield, against what is known of a pattern before it is run: whether its value is used
and how many values it stands for. -/

namespace Parlance

open ParseContext

/-- A value that is not used is null, and several values are a list of as many. -/
structure Tree.Fits (value : Tree) (usesValue : Bool) (arity : Nat) : Prop where
  unused : usesValue = false → value = .null
  several : 2 ≤ arity → ∃ items, value = .list items ∧ items.length = arity

namespace Tree.Fits

theorem one (value : Tree) : value.Fits true 1 := ⟨nofun, by omega⟩

theorem null (usesValue : Bool) : Tree.null.Fits usesValue 0 := ⟨fun _ => rfl, by omega⟩

theorem length_spread {value : Tree} {usesValue : Bool} {arity : Nat}
    (fits : value.Fits usesValue arity) : (Action.spread arity value).length = arity := by
  match arity with
  | 0 | 1 => rfl
  | arity + 2 =>
      obtain ⟨items, rfl, length⟩ := fits.several (by omega)
      exact length

end Tree.Fits

theorem ParseContext.gather_several {values : List Tree} (several : 2 ≤ values.length) :
    gather values = .list values := by
  match values with
  | _ :: _ :: _ => rfl

theorem Pattern.commonArity_eq_of_mem {arities : List Nat} {arity : Nat}
    (several : 2 ≤ commonArity arities) (member : arity ∈ arities) : arity = commonArity arities := by
  cases arities with
  | nil => cases member
  | cons first rest =>
      simp only [commonArity] at several ⊢
      split at several
      next same =>
        rw [if_pos same]
        rcases List.mem_cons.mp member with rfl | member
        · rfl
        · exact eq_of_beq (List.all_eq_true.mp same arity member)
      next => omega

variable {context : ParseContext} {state after : ParseState} {value : Tree}

theorem Evaluates.terms_keep {terms : List Pattern} {kept : List Tree}
    (evaluates : Evaluates context (.terms terms kept) state (.matched value) after) :
    ∃ values, value = gather (kept ++ values) ∧
      values.length = (terms.filter Pattern.usesValue).length := by
  induction terms generalizing kept state with
  | nil =>
      cases evaluates
      exact ⟨[], by rw [List.append_nil], rfl⟩
  | cons term rest ih =>
      cases evaluates with
      | @nextTerm _ _ _ _ found _ _ _ first ran =>
          obtain ⟨values, rfl, length⟩ := ih ran
          refine ⟨used term found ++ values, by rw [List.append_assoc], ?_⟩
          unfold used
          cases uses : term.usesValue <;> simp [uses, length]

theorem Evaluates.some_alternative {alternatives : List Pattern}
    (evaluates : Evaluates context (.alternatives alternatives) state (.matched value) after) :
    ∃ alternative ∈ alternatives, ∃ begun,
      Evaluates context (.pattern alternative) begun (.matched value) after := by
  induction alternatives generalizing state with
  | nil => cases evaluates
  | cons alternative rest ih =>
      cases evaluates with
      | decided first => exact ⟨alternative, by simp, state, first⟩
      | nextAlternative _ ran =>
          obtain ⟨found, member, decides⟩ := ih ran
          exact ⟨found, by simp [member], decides⟩

/-- Values that custom patterns yield are as their readers declare. -/
abbrev Pattern.Declares (context : ParseContext) (pattern : Pattern) : Prop :=
  pattern.Handles context fun reader _ value _ => value.Fits reader.usesValue reader.arity

theorem Evaluates.fits {pattern : Pattern} (declares : pattern.Declares context)
    (evaluates : Evaluates context (.pattern pattern) state (.matched value) after) :
    value.Fits pattern.usesValue pattern.arity := by
  induction pattern using Pattern.parts_induction generalizing state value with
  | token | rule | repetition | filter => exact .one value
  | ignore =>
      generalize same : Outcome.matched value = outcome at evaluates
      cases evaluates with
      | @ignore _ _ inner _ ran =>
          cases inner <;> cases same
          exact .null _
  | empty => cases evaluates; exact .null _
  | sequence terms =>
      cases evaluates with
      | sequence ran =>
      obtain ⟨values, rfl, length⟩ := ran.terms_keep
      refine ⟨fun unused => ?_, fun several => ?_⟩
      · have idle : ∀ term ∈ terms, ¬ term.usesValue = true := by
          simpa [Pattern.usesValue_sequence] using unused
        rw [List.filter_eq_nil_iff.mpr idle, List.length_nil, List.length_eq_zero_iff] at length
        rw [length]
        rfl
      · rw [Pattern.arity, ← length] at several ⊢
        exact ⟨values, gather_several several, rfl⟩
  | choice alternatives ih =>
      cases evaluates with
      | choice ran =>
      obtain ⟨alternative, member, begun, decides⟩ := ran.some_alternative
      have fits := ih alternative member (declares.alternatives alternative member) decides
      refine ⟨fun unused => fits.unused ?_, fun several => ?_⟩
      · rw [Pattern.usesValue_choice, List.any_eq_false] at unused
        simpa using unused alternative member
      · rw [Pattern.arity_choice] at several ⊢
        have same := Pattern.commonArity_eq_of_mem several (List.mem_map_of_mem member)
        rw [← same] at several ⊢
        exact fits.several several
  | custom reader parts =>
      cases evaluates with
      | custom ran => exact declares.custom ran

theorem Builtin.Terminator.yields_null {parts : List Pattern}
    (evaluates : Evaluates context (.script parts script) state (.matched value) after) :
    value = .null := by
  cases evaluates with
  | peek ran =>
  dsimp only at ran
  split at ran
  next => cases ran; rfl
  next =>
    split at ran
    next => cases ran with | advance ran => cases ran; rfl
    next =>
      cases ran with
      | ether ran =>
      dsimp only at ran
      split at ran
      next => cases ran; rfl
      next => cases ran

theorem Builtin.Terminator.declares (serial : Nat) : (pattern serial).Declares context := by
  intro reader parts met state value after ran
  obtain rfl := readBy serial reader parts met
  rw [yields_null ran]
  exact .null _

def Action.apply : Action → List Tree → Tree
  | .handle handler, arguments => handler.run arguments
  | .construct shape, arguments => shape.build arguments

theorem Action.invoke_eq (action : Action) (arity : Nat) (value : Tree) :
    action.invoke arity value = action.apply (spread arity value) := by
  cases action <;> rfl

/-- The pattern is what a filter filters by the action, and nobody has set the arity of the filter. -/
inductive Pattern.FilteredBy : Pattern → Action → Pattern → Prop where
  | made {term action} : FilteredBy term action (.filter term action none)
  | normalized {term action whole} (filtered : FilteredBy term action whole) :
      FilteredBy term.normalize action whole.normalize

/-- Whether normalizing has noted it or not, the arity is that of what is filtered. -/
theorem Pattern.FilteredBy.exists_arity {term whole : Pattern} {action : Action}
    (filtered : term.FilteredBy action whole) :
    ∃ arity : Option Nat, whole = .filter term action arity ∧ arity.getD term.arity = term.arity := by
  induction filtered with
  | made => exact ⟨none, rfl, rfl⟩
  | @normalized term _ _ _ ih =>
      obtain ⟨arity, rfl, same⟩ := ih
      have kept := (yieldAlike_normalize term).arity
      refine ⟨_, rfl, (?_ : arity.getD term.normalize.arity = term.normalize.arity)⟩
      rw [kept, same]

theorem Pattern.FilteredBy.matched_iff {term whole : Pattern} {action : Action} {result : Tree}
    (filtered : term.FilteredBy action whole) :
    Evaluates context (.pattern whole) state (.matched result) after ↔
      ∃ value, Evaluates context (.pattern term) state (.matched value) after ∧
        result = action.apply (Action.spread term.arity value) := by
  obtain ⟨arity, rfl, same⟩ := filtered.exists_arity
  constructor
  · generalize found : Outcome.matched result = outcome
    intro evaluates
    cases evaluates with
    | @filter _ _ _ _ inner _ ran =>
        cases inner <;> cases found
        exact ⟨_, ran, by rw [same, Action.invoke_eq]⟩
  · rintro ⟨value, ran, rfl⟩
    have filters := @Evaluates.filter context term action arity _ _ _ ran
    rw [same] at filters
    exact Action.invoke_eq action _ value ▸ filters

/-- Provided that custom patterns yield values as they declare, so does every pattern: null if its value
is not used, and a list of as many as its arity if this is two or more. So an action whose filter has
its arity from what it filters is given exactly that many arguments, whenever that matches. -/
theorem match_fits_arity (context : ParseContext) (pattern : Pattern)
    (declares : pattern.Declares context) (state : ParseState) :
    (∀ value after, Evaluates context (.pattern pattern) state (.matched value) after →
      (pattern.usesValue = false → value = .null) ∧
      ∀ n, 2 ≤ n → pattern.arity = n → ∃ items, value = .list items ∧ items.length = n) ∧
    ∀ action whole, pattern.FilteredBy action whole →
      (∀ value after, Evaluates context (.pattern pattern) state (.matched value) after →
        let arguments := Action.spread pattern.arity value
        arguments.length = pattern.arity ∧
          Evaluates context (.pattern whole) state (.matched (action.apply arguments)) after) ∧
      ∀ result after, Evaluates context (.pattern whole) state (.matched result) after →
        ∃ value, Evaluates context (.pattern pattern) state (.matched value) after ∧
          result = action.apply (Action.spread pattern.arity value) := by
  refine ⟨fun value after found => ?_, fun action whole filtered => ⟨fun value after found => ?_, ?_⟩⟩
  · have fits := found.fits declares
    exact ⟨fits.unused, by rintro n several rfl; exact fits.several several⟩
  · exact ⟨(found.fits declares).length_spread, filtered.matched_iff.mpr ⟨value, found, rfl⟩⟩
  · exact fun result after built => filtered.matched_iff.mp built

/-- Two alternatives of two values each, one with a term less once it is normalized. -/
theorem match_fits_arity_pair :
    let raw : Pattern := .choice [
      .sequence [.tokenClass "Name", .ignoredToken "=", .tokenClass "Name"],
      .sequence [.tokenClass "Name", .empty, .tokenClass "Number", Builtin.Terminator.pattern 0]]
    let action : Action := .construct ⟨"Pair", ["first", "second"]⟩
    let context : ParseContext := ⟨[], #[.hard "Name" "a", .hard "Number" "1"], none⟩
    let state : ParseState := ⟨⟨0, 0, none⟩, 0⟩
    raw.normalize.Declares context ∧ raw.normalize.arity = 2 ∧
      Evaluates context (.pattern (Pattern.filter raw action none).normalize) state
        (.matched (.node "Pair" [("first", .text "a"), ("second", .text "1")])) ⟨⟨2, 2, none⟩, 0⟩ ∧
      ∃ value arguments,
        Evaluates context (.pattern raw.normalize) state (.matched value) ⟨⟨2, 2, none⟩, 0⟩ ∧
        value = .list arguments ∧ arguments.length = 2 ∧
        action.apply arguments = .node "Pair" [("first", .text "a"), ("second", .text "1")] := by
  have ran : ParseContext.run ⟨[], #[.hard "Name" "a", .hard "Number" "1"], none⟩ 6
      (Pattern.filter (.choice [
        .sequence [.tokenClass "Name", .ignoredToken "=", .tokenClass "Name"],
        .sequence [.tokenClass "Name", .empty, .tokenClass "Number",
          Builtin.Terminator.pattern 0]]) (.construct ⟨"Pair", ["first", "second"]⟩) none).normalize
      ⟨⟨0, 0, none⟩, 0⟩ =
      some (.matched (.node "Pair" [("first", .text "a"), ("second", .text "1")]),
        ⟨⟨2, 2, none⟩, 0⟩) := rfl
  intro raw action context state
  have declares : raw.normalize.Declares context := by
    intro reader parts met
    refine Builtin.Terminator.declares 0 reader parts ?_
    have tight : raw.normalize = .choice [
        .sequence [.tokenClass "Name", .ignoredToken "=", .tokenClass "Name"],
        .sequence [.tokenClass "Name", .tokenClass "Number", Builtin.Terminator.pattern 0]] := rfl
    simpa [tight, Pattern.walk, Pattern.walk.walkAll, Pattern.tokenClass, Pattern.punctuator,
      Pattern.ignoredToken] using met
  have built := Evaluates.iff_run.mpr ⟨6, ran⟩
  obtain ⟨fits, given⟩ := match_fits_arity context raw.normalize declares state
  obtain ⟨every, back⟩ := given action _ (.normalized .made)
  obtain ⟨value, found, same⟩ := back _ _ built
  obtain ⟨items, rfl, -⟩ := (fits value _ found).2 2 (Nat.le_refl _) rfl
  exact ⟨declares, rfl, built, _, items, found, rfl, (every _ _ found).1, same.symm⟩

end Parlance
