import Mathlib.Data.List.Forall2
import Parlance.Proofs.Evaluation.BigStep
import Parlance.Proofs.Normalization.Customs

/-! A pattern and its normalized copy run alike. A mismatch may leave the cursor at different places,
as a choice goes back where its only alternative would not; nothing that runs patterns looks at the
place a mismatch leaves, so that much freedom is harmless. -/

namespace Parlance

structure ParseState.SameMarks (first second : ParseState) : Prop where
  highWater : first.cursor.highWater = second.cursor.highWater
  log : first.cursor.log = second.cursor.log
  depth : first.depth = second.depth

/-- The same outcome, with the same value and the same state after a match, and with the same
high-water mark and log in any case. -/
inductive Alike : Outcome → ParseState → Outcome → ParseState → Prop where
  | matched {value state} : Alike (.matched value) state (.matched value) state
  | mismatch {first second} (same : first.SameMarks second) :
      Alike .mismatch first .mismatch second
  | broken {fault first second} (same : first.SameMarks second) :
      Alike (.broken fault) first (.broken fault) second

namespace ParseState.SameMarks

variable {first second third : ParseState}

theorem refl (state : ParseState) : state.SameMarks state := ⟨rfl, rfl, rfl⟩

theorem symm (same : first.SameMarks second) : second.SameMarks first :=
  ⟨same.highWater.symm, same.log.symm, same.depth.symm⟩

theorem trans (same : first.SameMarks second) (sameToo : second.SameMarks third) :
    first.SameMarks third :=
  ⟨same.highWater.trans sameToo.highWater, same.log.trans sameToo.log,
    same.depth.trans sameToo.depth⟩

theorem rewind (same : first.SameMarks second) (mark : Nat) :
    first.rewind mark = second.rewind mark := by
  obtain ⟨⟨_, _, _⟩, _⟩ := first
  obtain ⟨⟨_, _, _⟩, _⟩ := second
  obtain ⟨rfl, rfl, rfl⟩ := same
  rfl

theorem of_rewind (state : ParseState) (mark : Nat) : (state.rewind mark).SameMarks state :=
  ⟨rfl, rfl, rfl⟩

end ParseState.SameMarks

namespace Alike

variable {outcome other another : Outcome} {first second third : ParseState}

theorem refl (outcome : Outcome) (state : ParseState) : Alike outcome state outcome state := by
  cases outcome with
  | matched value => exact .matched
  | mismatch => exact .mismatch (.refl state)
  | broken fault => exact .broken (.refl state)

theorem trans (alike : Alike outcome first other second) (alikeToo : Alike other second another third) :
    Alike outcome first another third := by
  cases alike with
  | matched => exact alikeToo
  | mismatch same => cases alikeToo with | mismatch sameToo => exact .mismatch (same.trans sameToo)
  | broken same => cases alikeToo with | broken sameToo => exact .broken (same.trans sameToo)

theorem mapValue (alike : Alike outcome first other second) (change : Tree → Tree) :
    Alike (outcome.mapValue change) first (other.mapValue change) second := by
  cases alike with
  | matched => exact .matched
  | mismatch same => exact .mismatch same
  | broken same => exact .broken same

end Alike

open ParseContext

def Task.Simulates (context : ParseContext) (first second : Task) : Prop :=
  ∀ ⦃state after outcome⦄, Evaluates context first state outcome after →
    ∃ other left, Evaluates context second state other left ∧ Alike outcome after other left

/-- Two patterns that come to what is alike whenever either comes to something. -/
def RunAlike (context : ParseContext) (first second : Pattern) : Prop :=
  Task.Simulates context (.pattern first) (.pattern second) ∧
    Task.Simulates context (.pattern second) (.pattern first)

variable {context : ParseContext}

theorem Task.Simulates.refl (task : Task) : task.Simulates context task :=
  fun _ after outcome evaluates => ⟨outcome, after, evaluates, .refl outcome after⟩

theorem Task.Simulates.trans {first second third : Task} (simulates : first.Simulates context second)
    (simulatesToo : second.Simulates context third) : first.Simulates context third := by
  intro state after outcome evaluates
  obtain ⟨other, left, evaluates, alike⟩ := simulates evaluates
  obtain ⟨another, last, evaluates, alikeToo⟩ := simulatesToo evaluates
  exact ⟨another, last, evaluates, alike.trans alikeToo⟩

theorem Task.Simulates.of_imp {first second : Task}
    (imp : ∀ {state outcome after}, Evaluates context first state outcome after →
      Evaluates context second state outcome after) : first.Simulates context second :=
  fun _ after outcome evaluates => ⟨outcome, after, imp evaluates, .refl outcome after⟩

namespace RunAlike

variable {first second third : Pattern}

theorem refl (pattern : Pattern) : RunAlike context pattern pattern := ⟨.refl _, .refl _⟩

theorem trans (alike : RunAlike context first second) (alikeToo : RunAlike context second third) :
    RunAlike context first third :=
  ⟨alike.1.trans alikeToo.1, alikeToo.2.trans alike.2⟩

theorem of_iff (same : ∀ {state outcome after}, Evaluates context (.pattern first) state outcome after ↔
    Evaluates context (.pattern second) state outcome after) : RunAlike context first second :=
  ⟨.of_imp same.mp, .of_imp same.mpr⟩

end RunAlike

/-- Patterns of which the second can stand for the first within a sequence. -/
def Stands (context : ParseContext) (first second : Pattern) : Prop :=
  Task.Simulates context (.pattern first) (.pattern second) ∧ first.usesValue = second.usesValue

theorem Stands.used_eq {first second : Pattern} (stands : Stands context first second)
    (value : Tree) : used first value = used second value := by
  unfold used
  rw [stands.2]

theorem simulates_terms {terms others : List Pattern} (stand : List.Forall₂ (Stands context) terms others)
    (kept : List Tree) : Task.Simulates context (.terms terms kept) (.terms others kept) := by
  induction stand generalizing kept with
  | nil => exact .refl _
  | cons head tail ih =>
      intro state after outcome evaluates
      cases evaluates with
      | nextTerm first ran =>
          obtain ⟨_, _, first, alike⟩ := head.1 first
          cases alike
          rw [head.used_eq] at ran
          obtain ⟨other, left, rest, alike⟩ := ih _ ran
          exact ⟨other, left, .nextTerm first rest, alike⟩
      | termFails first =>
          obtain ⟨_, left, first, alike⟩ := head.1 first
          cases alike with | mismatch same => exact ⟨_, left, .termFails first, .mismatch same⟩
      | termBroken first =>
          obtain ⟨_, left, first, alike⟩ := head.1 first
          cases alike with | broken same => exact ⟨_, left, .termBroken first, .broken same⟩

theorem simulates_alternatives {alternatives others : List Pattern}
    (simulate : List.Forall₂ (fun first second =>
      Task.Simulates context (.pattern first) (.pattern second)) alternatives others) :
    Task.Simulates context (.alternatives alternatives) (.alternatives others) := by
  induction simulate with
  | nil => exact .refl _
  | cons head tail ih =>
      intro state after outcome evaluates
      cases evaluates with
      | decided first =>
          obtain ⟨_, _, first, alike⟩ := head first
          cases alike
          exact ⟨_, _, .decided first, .matched⟩
      | nextAlternative first ran =>
          obtain ⟨_, middle, first, alike⟩ := head first
          cases alike with
          | mismatch same =>
              rw [same.rewind] at ran
              obtain ⟨other, left, rest, alike⟩ := ih ran
              exact ⟨other, left, .nextAlternative first rest, alike⟩
      | alternativeBroken first =>
          obtain ⟨_, left, first, alike⟩ := head first
          cases alike with | broken same => exact ⟨_, left, .alternativeBroken first, .broken same⟩

theorem simulates_rounds {body other : Pattern} {separator otherSeparator : Option Pattern}
    (again : Stands context body other)
    (parted : Stands context (separator.getD .empty) (otherSeparator.getD .empty))
    (items : List Tree) :
    Task.Simulates context (.rounds body separator items) (.rounds other otherSeparator items) := by
  intro state after outcome evaluates
  generalize same : Task.rounds body separator items = task at evaluates
  -- the induction is on the rounds made, each of which adds to the items
  induction evaluates generalizing items with
  | nextRound first second moved ran _ _ ih =>
      cases same
      obtain ⟨_, _, first, alike⟩ := parted.1 first
      cases alike
      obtain ⟨_, _, second, alike⟩ := again.1 second
      cases alike
      obtain ⟨reached, left, rest, alike⟩ := ih _ rfl
      rw [parted.used_eq, again.used_eq] at rest
      exact ⟨reached, left, .nextRound first second moved rest, alike⟩
  | idleRound first second still =>
      cases same
      obtain ⟨_, _, first, alike⟩ := parted.1 first
      cases alike
      obtain ⟨_, _, second, alike⟩ := again.1 second
      cases alike
      exact ⟨_, _, .idleRound first second still, .matched⟩
  | lastBody first second =>
      cases same
      obtain ⟨_, _, first, alike⟩ := parted.1 first
      cases alike
      obtain ⟨_, _, second, alike⟩ := again.1 second
      cases alike with
      | mismatch marks => exact ⟨_, _, .lastBody first second, by rw [marks.rewind]; exact .matched⟩
  | lastSeparator first =>
      cases same
      obtain ⟨_, _, first, alike⟩ := parted.1 first
      cases alike with
      | mismatch marks => exact ⟨_, _, .lastSeparator first, by rw [marks.rewind]; exact .matched⟩
  | bodyBroken first second =>
      cases same
      obtain ⟨_, _, first, alike⟩ := parted.1 first
      cases alike
      obtain ⟨_, _, second, alike⟩ := again.1 second
      cases alike with | broken marks => exact ⟨_, _, .bodyBroken first second, .broken marks⟩
  | separatorBroken first =>
      cases same
      obtain ⟨_, _, first, alike⟩ := parted.1 first
      cases alike with | broken marks => exact ⟨_, _, .separatorBroken first, .broken marks⟩
  | _ => cases same

theorem simulates_repetition {body other : Pattern} {separator otherSeparator : Option Pattern}
    (again : Stands context body other)
    (parted : Stands context (separator.getD .empty) (otherSeparator.getD .empty))
    (allowEmpty : Bool) :
    Task.Simulates context (.pattern (.repetition body separator allowEmpty))
      (.pattern (.repetition other otherSeparator allowEmpty)) := by
  intro state after outcome evaluates
  cases evaluates with
  | begun first ran =>
      obtain ⟨_, _, first, alike⟩ := again.1 first
      cases alike
      rw [again.used_eq] at ran
      obtain ⟨reached, left, rest, alike⟩ := simulates_rounds again parted _ ran
      exact ⟨reached, left, .begun first rest, alike⟩
  | noneFound first =>
      obtain ⟨_, _, first, alike⟩ := again.1 first
      cases alike with
      | mismatch marks => exact ⟨_, _, .noneFound first, by rw [marks.rewind]; exact .matched⟩
  | oneMissing first =>
      obtain ⟨_, _, first, alike⟩ := again.1 first
      cases alike with | mismatch marks => exact ⟨_, _, .oneMissing first, .mismatch marks⟩
  | firstBroken first =>
      obtain ⟨_, _, first, alike⟩ := again.1 first
      cases alike with | broken marks => exact ⟨_, _, .firstBroken first, .broken marks⟩

theorem simulates_ignore {term other : Pattern}
    (simulates : Task.Simulates context (.pattern term) (.pattern other)) :
    Task.Simulates context (.pattern (.ignore term)) (.pattern (.ignore other)) := by
  intro state after outcome evaluates
  cases evaluates with
  | ignore ran =>
      obtain ⟨_, left, ran, alike⟩ := simulates ran
      exact ⟨_, left, .ignore ran, alike.mapValue _⟩

theorem simulates_filter {term other : Pattern}
    (simulates : Task.Simulates context (.pattern term) (.pattern other)) (action : Action)
    {arity otherArity : Option Nat} (spread : arity.getD term.arity = otherArity.getD other.arity) :
    Task.Simulates context (.pattern (.filter term action arity))
      (.pattern (.filter other action otherArity)) := by
  intro state after outcome evaluates
  cases evaluates with
  | filter ran =>
      obtain ⟨_, left, ran, alike⟩ := simulates ran
      rw [spread]
      exact ⟨_, left, .filter ran, alike.mapValue _⟩

theorem evaluates_empty {state after : ParseState} {outcome : Outcome} :
    Evaluates context (.pattern .empty) state outcome after ↔
      outcome = .matched .null ∧ after = state := by
  constructor
  · intro evaluates
    cases evaluates
    exact ⟨rfl, rfl⟩
  · rintro ⟨rfl, rfl⟩
    exact .empty

theorem isEmpty_iff {pattern : Pattern} : pattern.isEmpty = true ↔ pattern = .empty := by
  cases pattern <;> simp [Pattern.isEmpty]

theorem evaluates_terms_kept (terms : List Pattern) (kept : List Tree) {state after : ParseState}
    {outcome : Outcome} :
    Evaluates context (.terms (terms.filter (!Pattern.isEmpty ·)) kept) state outcome after ↔
      Evaluates context (.terms terms kept) state outcome after := by
  induction terms generalizing kept state with
  | nil => rfl
  | cons term rest ih =>
      cases empty : term.isEmpty with
      | true =>
          obtain rfl := isEmpty_iff.mp empty
          rw [List.filter_cons_of_neg (by simp [empty]), ih]
          constructor
          · intro evaluates
            exact .nextTerm .empty (by rwa [show used .empty Tree.null = [] from rfl,
              List.append_nil])
          · intro evaluates
            cases evaluates with
            | nextTerm first ran =>
                obtain ⟨same, rfl⟩ := evaluates_empty.mp first
                rwa [show used .empty _ = [] from rfl, List.append_nil] at ran
            | termFails first => cases first
            | termBroken first => cases first
      | false =>
          rw [List.filter_cons_of_pos (by simp [empty])]
          constructor <;> intro evaluates
          · cases evaluates with
            | nextTerm first ran => exact .nextTerm first ((ih _).mp ran)
            | termFails first => exact .termFails first
            | termBroken first => exact .termBroken first
          · cases evaluates with
            | nextTerm first ran => exact .nextTerm first ((ih _).mpr ran)
            | termFails first => exact .termFails first
            | termBroken first => exact .termBroken first

theorem evaluates_sequence {terms : List Pattern} {state after : ParseState} {outcome : Outcome} :
    Evaluates context (.pattern (.sequence terms)) state outcome after ↔
      Evaluates context (.terms terms []) state outcome after :=
  ⟨fun evaluates => by cases evaluates with | sequence ran => exact ran, .sequence⟩

theorem evaluates_choice {alternatives : List Pattern} {state after : ParseState}
    {outcome : Outcome} :
    Evaluates context (.pattern (.choice alternatives)) state outcome after ↔
      Evaluates context (.alternatives alternatives) state outcome after :=
  ⟨fun evaluates => by cases evaluates with | choice ran => exact ran, .choice⟩

theorem runAlike_tightSequence (terms : List Pattern) :
    RunAlike context (.sequence terms) (Pattern.tightSequence terms) := by
  apply RunAlike.of_iff
  intro state outcome after
  rw [evaluates_sequence, ← evaluates_terms_kept]
  rcases Pattern.tightSequence_eq terms with ⟨kept, rfl, -, same⟩ | ⟨none, same⟩
  · rw [same, evaluates_sequence]
  · rw [same, none, evaluates_empty]
    constructor
    · intro evaluates
      cases evaluates
      exact ⟨rfl, rfl⟩
    · rintro ⟨rfl, rfl⟩
      exact .noTerms

/-- A choice of one alternative goes back when that mismatches; the alternative alone need not. -/
theorem runAlike_single (alternative : Pattern) :
    RunAlike context (.choice [alternative]) alternative := by
  constructor
  · intro state after outcome evaluates
    cases evaluates_choice.mp evaluates with
    | decided first => exact ⟨_, _, first, .matched⟩
    | nextAlternative first ran =>
        cases ran
        exact ⟨_, _, first, .mismatch (.of_rewind _ _)⟩
    | alternativeBroken first => exact ⟨_, _, first, .refl _ _⟩
  · intro state after outcome evaluates
    cases outcome with
    | matched value => exact ⟨_, _, .choice (.decided evaluates), .matched⟩
    | mismatch =>
        exact ⟨_, _, .choice (.nextAlternative evaluates .noAlternatives),
          .mismatch (ParseState.SameMarks.of_rewind _ _).symm⟩
    | broken fault => exact ⟨_, _, .choice (.alternativeBroken evaluates), .refl _ _⟩

theorem runAlike_tightChoice (alternatives : List Pattern) :
    RunAlike context (.choice alternatives) (Pattern.tightChoice alternatives) := by
  unfold Pattern.tightChoice
  split
  · exact runAlike_single _
  · exact .refl _

theorem evaluates_ignore {term : Pattern} {state after : ParseState} {outcome : Outcome} :
    Evaluates context (.pattern (.ignore term)) state outcome after ↔
      ∃ inner, Evaluates context (.pattern term) state inner after ∧
        outcome = inner.mapValue fun _ => .null := by
  constructor
  · intro evaluates
    cases evaluates with | ignore ran => exact ⟨_, ran, rfl⟩
  · rintro ⟨inner, ran, rfl⟩
    exact .ignore ran

theorem runAlike_tightIgnore (term : Pattern) :
    RunAlike context (.ignore term) (Pattern.tightIgnore term) := by
  apply RunAlike.of_iff
  intro state outcome after
  unfold Pattern.tightIgnore
  split
  · rw [evaluates_ignore, evaluates_empty]
    constructor
    · rintro ⟨inner, ran, rfl⟩
      obtain ⟨rfl, rfl⟩ := evaluates_empty.mp ran
      exact ⟨rfl, rfl⟩
    · rintro ⟨rfl, rfl⟩
      exact ⟨_, .empty, rfl⟩
  next inner =>
    rw [evaluates_ignore, evaluates_ignore]
    have absorbs (outcome : Outcome) :
        (outcome.mapValue fun _ => .null).mapValue (fun _ => .null) =
          outcome.mapValue fun _ => .null := by cases outcome <;> rfl
    constructor
    · rintro ⟨middle, once, rfl⟩
      obtain ⟨innermost, ran, rfl⟩ := evaluates_ignore.mp once
      exact ⟨innermost, ran, absorbs _⟩
    · rintro ⟨innermost, ran, rfl⟩
      exact ⟨_, .ignore ran, (absorbs _).symm⟩
  · rfl

/-- A normalized copy runs like its custom pattern, and yields alike. -/
structure CopiedAlike (context : ParseContext) (custom normal : Pattern.Custom) : Prop where
  runs : RunAlike context (.ofCustom custom) (.ofCustom normal)
  yields : (Pattern.ofCustom normal).YieldAlike (.ofCustom custom)

def CopiesRunAlike (context : ParseContext) (copy : Pattern.Custom → Option Pattern.Custom)
    (pattern : Pattern) : Prop :=
  ∀ custom ∈ pattern.customs, ∀ normal, copy custom = some normal →
    CopiedAlike context custom normal

namespace CopiesRunAlike

variable {copy : Pattern.Custom → Option Pattern.Custom}

theorem terms {terms : List Pattern} (copied : CopiesRunAlike context copy (.sequence terms)) :
    ∀ term ∈ terms, CopiesRunAlike context copy term :=
  List.forall_mem_flatMap.mp (Pattern.customs_sequence terms ▸ copied)

theorem alternatives {alternatives : List Pattern}
    (copied : CopiesRunAlike context copy (.choice alternatives)) :
    ∀ alternative ∈ alternatives, CopiesRunAlike context copy alternative :=
  List.forall_mem_flatMap.mp (Pattern.customs_choice alternatives ▸ copied)

theorem repetition {body : Pattern} {separator : Option Pattern} {allowEmpty : Bool}
    (copied : CopiesRunAlike context copy (.repetition body separator allowEmpty)) :
    CopiesRunAlike context copy body ∧
      ∀ pattern, separator = some pattern → CopiesRunAlike context copy pattern := by
  rw [CopiesRunAlike, Pattern.customs_repetition] at copied
  have both := List.forall_mem_append.mp copied
  refine ⟨both.1, ?_⟩
  rintro pattern rfl
  exact both.2

theorem yieldAlike {pattern : Pattern} (copied : CopiesRunAlike context copy pattern) :
    ∀ custom ∈ pattern.customs,
      (Pattern.ofCustom (Pattern.again copy custom)).YieldAlike (.ofCustom custom) := by
  intro custom member
  cases made : copy custom with
  | none => rw [Pattern.again, made]; exact ⟨rfl, rfl⟩
  | some normal => rw [Pattern.again, made]; exact (copied custom member normal made).yields

end CopiesRunAlike

theorem RunAlike.stands {pattern other : Pattern} (alike : RunAlike context pattern other)
    (yields : other.YieldAlike pattern) :
    Stands context pattern other ∧ Stands context other pattern :=
  ⟨⟨alike.1, yields.usesValue.symm⟩, ⟨alike.2, yields.usesValue⟩⟩

theorem forall₂_map_right {R : Pattern → Pattern → Prop} {change : Pattern → Pattern}
    {patterns : List Pattern} (related : ∀ pattern ∈ patterns, R pattern (change pattern)) :
    List.Forall₂ R patterns (patterns.map change) := by
  rw [List.forall₂_map_right_iff, List.forall₂_same]
  exact related

theorem forall₂_map_left {R : Pattern → Pattern → Prop} {change : Pattern → Pattern}
    {patterns : List Pattern} (related : ∀ pattern ∈ patterns, R (change pattern) pattern) :
    List.Forall₂ R (patterns.map change) patterns := by
  rw [List.forall₂_map_left_iff, List.forall₂_same]
  exact related

theorem runAlike_normalizeWith {copies : Pattern.Custom → List Pattern → Option Pattern.Custom}
    (pattern : Pattern) (copied : CopiesRunAlike context (Pattern.copyOf copies) pattern) :
    RunAlike context pattern (pattern.normalizeWith copies) := by
  -- With normal parts in it a pattern runs as before, and tightened it still does.
  induction pattern using Pattern.parts_induction with
  | token | rule | empty => exact .refl _
  | sequence terms ih =>
      have stand (term : Pattern) (member : term ∈ terms) :=
        (ih term member (copied.terms term member)).stands
          (Pattern.yieldAlike_normalizeWith term (copied.terms term member).yieldAlike)
      rw [Pattern.normalizeWith_sequence]
      refine RunAlike.trans ⟨?_, ?_⟩ (runAlike_tightSequence _) <;> intro state after outcome ran <;>
        simp only [evaluates_sequence] at ran ⊢
      · exact simulates_terms (forall₂_map_right fun term member => (stand term member).1) [] ran
      · exact simulates_terms (forall₂_map_left fun term member => (stand term member).2) [] ran
  | choice alternatives ih =>
      have alike (alternative : Pattern) (member : alternative ∈ alternatives) :=
        ih alternative member (copied.alternatives alternative member)
      rw [Pattern.normalizeWith_choice]
      refine RunAlike.trans ⟨?_, ?_⟩ (runAlike_tightChoice _) <;> intro state after outcome ran <;>
        simp only [evaluates_choice] at ran ⊢
      · exact simulates_alternatives
          (forall₂_map_right fun alternative member => (alike alternative member).1) ran
      · exact simulates_alternatives
          (forall₂_map_left fun alternative member => (alike alternative member).2) ran
  | repetition body separator allowEmpty ihBody ihSeparator =>
      have again := (ihBody copied.repetition.1).stands
        (Pattern.yieldAlike_normalizeWith body copied.repetition.1.yieldAlike)
      have parted : Stands context (separator.getD .empty)
            ((separator.map (Pattern.normalizeWith copies)).getD .empty) ∧
          Stands context ((separator.map (Pattern.normalizeWith copies)).getD .empty)
            (separator.getD .empty) := by
        cases separator with
        | none => exact ⟨⟨.refl _, rfl⟩, ⟨.refl _, rfl⟩⟩
        | some separator =>
            have within := copied.repetition.2 separator rfl
            exact (ihSeparator separator rfl within).stands
              (Pattern.yieldAlike_normalizeWith separator within.yieldAlike)
      rw [Pattern.normalizeWith_repetition]
      exact ⟨simulates_repetition again.1 parted.1 allowEmpty,
        simulates_repetition again.2 parted.2 allowEmpty⟩
  | ignore term ih =>
      have alike := ih copied
      rw [Pattern.normalizeWith]
      exact RunAlike.trans ⟨simulates_ignore alike.1, simulates_ignore alike.2⟩
        (runAlike_tightIgnore _)
  | filter term action arity ih =>
      have alike := ih copied
      have same := (Pattern.yieldAlike_normalizeWith term copied.yieldAlike).arity
      rw [Pattern.normalizeWith, same]
      exact ⟨simulates_filter alike.1 action rfl, simulates_filter alike.2 action rfl⟩
  | custom reader parts =>
      have within : (reader, parts) ∈ (Pattern.custom reader parts).customs :=
        List.mem_singleton_self _
      rw [Pattern.normalizeWith_custom]
      cases made : Pattern.copyOf copies (reader, parts) with
      | none => rw [show copies _ _ = none from made]; exact .refl _
      | some normal => rw [show copies _ _ = some normal from made]; exact (copied _ within _ made).runs

end Parlance
