import Mathlib.Order.Bounds.Basic
import Parlance.Proofs.Parse.Invariant

/-! Where a parse gets to. The places at which the cursor has been are gathered along a parse, those on
abandoned branches too; from every state that a parse gets to, an evaluation leaves the cursor at
rest at one of them, and the high-water mark at the greatest. -/

namespace Parlance

open ParseContext
open Relation (ReflTransGen)

variable {context : ParseContext} {task inner : Task} {state begun after passed : ParseState}
  {outcome : Outcome}

theorem Begins.ends (begins : Begins context (task, state) (inner, begun))
    (evaluates : Evaluates context task state outcome after) :
    ∃ reached left, Evaluates context inner begun reached left ∧
      left.cursor.highWater ≤ after.cursor.highWater := by
  -- What went before the inner task is evaluated in one way only, so it came to the same here.
  have other {first : Task} {start left leftToo : ParseState} {reached reachedToo : Outcome}
      (evaluates : Evaluates context first start reached left)
      (evaluatesToo : Evaluates context first start reachedToo leftToo)
      (differs : reached ≠ reachedToo) : False := differs (evaluates.unique evaluatesToo).1
  cases begins with
  | rule found shallow =>
      cases evaluates with
      | missing absent => cases absent.symm.trans found
      | tooDeep _ deep => cases shallow.symm.trans deep
      | rule foundToo _ ran =>
          cases found.symm.trans foundToo
          exact ⟨_, _, ran, Nat.le_refl _⟩
  | sequence | choice | ignore | filter | custom | peek | ether | cursor | advance | rewind =>
      cases evaluates
      exact ⟨_, _, ‹Evaluates context _ _ _ _›, Nat.le_refl _⟩
  | firstBody =>
      cases evaluates with
      | begun first ran => exact ⟨_, _, first, ran.highWater_le⟩
      | noneFound first | oneMissing first | firstBroken first =>
          exact ⟨_, _, first, Nat.le_refl _⟩
  | firstRound first =>
      cases evaluates with
      | begun firstToo ran =>
          obtain ⟨same, rfl⟩ := first.unique firstToo
          cases same
          exact ⟨_, _, ran, Nat.le_refl _⟩
      | noneFound firstToo | oneMissing firstToo | firstBroken firstToo =>
          exact (other first firstToo nofun).elim
  | firstTerm =>
      cases evaluates with
      | nextTerm first ran => exact ⟨_, _, first, ran.highWater_le⟩
      | termFails first | termBroken first => exact ⟨_, _, first, Nat.le_refl _⟩
  | nextTerm first =>
      cases evaluates with
      | nextTerm firstToo ran =>
          obtain ⟨same, rfl⟩ := first.unique firstToo
          cases same
          exact ⟨_, _, ran, Nat.le_refl _⟩
      | termFails firstToo | termBroken firstToo => exact (other first firstToo nofun).elim
  | firstAlternative =>
      cases evaluates with
      | nextAlternative first ran => exact ⟨_, _, first, ran.highWater_le⟩
      | decided first | alternativeBroken first => exact ⟨_, _, first, Nat.le_refl _⟩
  | nextAlternative first =>
      cases evaluates with
      | nextAlternative firstToo ran =>
          obtain ⟨-, rfl⟩ := first.unique firstToo
          exact ⟨_, _, ran, Nat.le_refl _⟩
      | decided firstToo | alternativeBroken firstToo => exact (other first firstToo nofun).elim
  | separator =>
      cases evaluates with
      | nextRound parted again _ ran =>
          exact ⟨_, _, parted, Nat.le_trans again.highWater_le ran.highWater_le⟩
      | idleRound parted again _ | lastBody parted again | bodyBroken parted again =>
          exact ⟨_, _, parted, again.highWater_le⟩
      | lastSeparator parted | separatorBroken parted => exact ⟨_, _, parted, Nat.le_refl _⟩
  | nextBody parted =>
      cases evaluates with
      | nextRound partedToo again _ ran =>
          obtain ⟨-, rfl⟩ := parted.unique partedToo
          exact ⟨_, _, again, ran.highWater_le⟩
      | idleRound partedToo again _ | lastBody partedToo again | bodyBroken partedToo again =>
          obtain ⟨-, rfl⟩ := parted.unique partedToo
          exact ⟨_, _, again, Nat.le_refl _⟩
      | lastSeparator partedToo | separatorBroken partedToo =>
          exact (other parted partedToo nofun).elim
  | nextRound parted again moved =>
      cases evaluates with
      | nextRound partedToo againToo _ ran =>
          obtain ⟨between, rfl⟩ := parted.unique partedToo
          obtain ⟨value, rfl⟩ := again.unique againToo
          cases between
          cases value
          exact ⟨_, _, ran, Nat.le_refl _⟩
      | idleRound partedToo againToo still =>
          obtain ⟨-, rfl⟩ := parted.unique partedToo
          obtain ⟨-, rfl⟩ := again.unique againToo
          exact absurd still moved
      | lastBody partedToo againToo | bodyBroken partedToo againToo =>
          obtain ⟨-, rfl⟩ := parted.unique partedToo
          exact (other again againToo nofun).elim
      | lastSeparator partedToo | separatorBroken partedToo =>
          exact (other parted partedToo nofun).elim
  | askRule =>
      cases evaluates with
      | askRule asked _ ran => exact ⟨_, _, asked, ran.highWater_le⟩
      | askRuleBroken asked => exact ⟨_, _, asked, Nat.le_refl _⟩
  | ruleAnswered asked answers =>
      cases evaluates with
      | askRule askedToo answersToo ran =>
          obtain ⟨rfl, rfl⟩ := asked.unique askedToo
          cases answers.symm.trans answersToo
          exact ⟨_, _, ran, Nat.le_refl _⟩
      | askRuleBroken askedToo =>
          obtain ⟨rfl, -⟩ := asked.unique askedToo
          cases answers
  | askPart listed =>
      cases evaluates with
      | askPart listedToo asked _ ran =>
          cases listed.symm.trans listedToo
          exact ⟨_, _, asked, ran.highWater_le⟩
      | askPartBroken listedToo asked =>
          cases listed.symm.trans listedToo
          exact ⟨_, _, asked, Nat.le_refl _⟩
      | askNoPart absent _ => cases absent.symm.trans listed
  | partAnswered listed asked answers =>
      cases evaluates with
      | askPart listedToo askedToo answersToo ran =>
          cases listed.symm.trans listedToo
          obtain ⟨rfl, rfl⟩ := asked.unique askedToo
          cases answers.symm.trans answersToo
          exact ⟨_, _, ran, Nat.le_refl _⟩
      | askPartBroken listedToo askedToo =>
          cases listed.symm.trans listedToo
          obtain ⟨rfl, -⟩ := asked.unique askedToo
          cases answers
      | askNoPart absent _ => cases absent.symm.trans listed
  | noPart absent =>
      cases evaluates with
      | askPart listed => cases absent.symm.trans listed
      | askPartBroken listed => cases absent.symm.trans listed
      | askNoPart _ ran => exact ⟨_, _, ran, Nat.le_refl _⟩

/-- What is begun inside an evaluation that ends, at any remove, ends too. -/
theorem Begins.ends_within
    (leads : ReflTransGen (Begins context) (task, state) (inner, begun))
    (evaluates : Evaluates context task state outcome after) :
    ∃ reached left, Evaluates context inner begun reached left ∧
      left.cursor.highWater ≤ after.cursor.highWater := by
  generalize same : (inner, begun) = last at leads
  induction leads generalizing inner begun with
  | refl => cases same; exact ⟨_, _, evaluates, Nat.le_refl _⟩
  | @tail middle _ _ begins ih =>
      obtain ⟨between, there⟩ := middle
      cases same
      obtain ⟨_, _, ran, within⟩ := ih rfl
      obtain ⟨_, _, ranToo, withinToo⟩ := begins.ends ran
      exact ⟨_, _, ranToo, Nat.le_trans withinToo within⟩

/-- The states in which something is begun inside a task, and those that it leaves behind. -/
inductive Passes (context : ParseContext) (task : Task) (state : ParseState) : ParseState → Prop where
  | begun {inner : Task} {begun : ParseState}
      (leads : ReflTransGen (Begins context) (task, state) (inner, begun)) :
      Passes context task state begun
  | left {inner : Task} {begun left : ParseState} {outcome : Outcome}
      (leads : ReflTransGen (Begins context) (task, state) (inner, begun))
      (ran : Evaluates context inner begun outcome left) : Passes context task state left

/-- The places at which the cursor is during an evaluation, on any branch. -/
def ParseContext.places (context : ParseContext) (task : Task) (state : ParseState) : Set Nat :=
  {place | ∃ passed, Passes context task state passed ∧ passed.position = place}

theorem ParseContext.mem_places (passes : Passes context task state passed) :
    passed.position ∈ context.places task state := ⟨passed, passes, rfl⟩

theorem ParseContext.places_subset (begins : Begins context (task, state) (inner, begun)) :
    context.places inner begun ⊆ context.places task state := by
  rintro _ ⟨passed, passes, rfl⟩
  cases passes with
  | begun leads => exact mem_places (.begun (leads.head begins))
  | left leads ran => exact mem_places (.left (leads.head begins) ran)

theorem Passes.highWater_le (passes : Passes context task state passed)
    (evaluates : Evaluates context task state outcome after) :
    passed.cursor.highWater ≤ after.cursor.highWater := by
  cases passes with
  | begun leads =>
      obtain ⟨_, _, ran, within⟩ := Begins.ends_within leads evaluates
      exact Nat.le_trans ran.highWater_le within
  | left leads ran =>
      obtain ⟨_, _, ranToo, within⟩ := Begins.ends_within leads evaluates
      obtain ⟨-, rfl⟩ := ran.unique ranToo
      exact within

theorem Passes.keeps {good : ParseState → Prop} (passes : Passes context task state passed)
    (invariant : context.Invariant good) (tethered : context.Tethered)
    (heeds : task.Heeds good state) (here : good state) : good passed := by
  cases passes with
  | begun leads => exact (Begins.keeps_within invariant tethered heeds here leads).2
  | left leads ran =>
      obtain ⟨heeds, here⟩ := Begins.keeps_within invariant tethered heeds here leads
      exact ran.keeps invariant tethered heeds here

/-- The mark is as before, or a place at which the cursor is during the evaluation. -/
def ParseContext.Rises (context : ParseContext) (task : Task) (state : ParseState)
    (low high : Nat) : Prop :=
  high = low ∨ high ∈ context.places task state

theorem ParseContext.Rises.trans {low between high : Nat}
    (rises : context.Rises task state low between)
    (risesToo : context.Rises task state between high) : context.Rises task state low high := by
  rcases risesToo with rfl | member
  · exact rises
  · exact .inr member

theorem ParseContext.Rises.part {low high : Nat} (rises : context.Rises inner begun low high)
    (begins : Begins context (task, state) (inner, begun)) : context.Rises task state low high :=
  rises.imp_right fun member => places_subset begins member

theorem ParseState.highWater_advance (tokens : Array Token) (state : ParseState) :
    (state.advance tokens).cursor.highWater = state.cursor.highWater ∨
      (state.advance tokens).cursor.highWater = (state.advance tokens).position :=
  (Nat.le_total _ _).symm.imp Nat.max_eq_left Nat.max_eq_right

theorem ParseContext.Rises.advance (passes : Passes context task state (begun.advance context.tokens)) :
    context.Rises task state begun.cursor.highWater
      (begun.advance context.tokens).cursor.highWater := by
  rcases begun.highWater_advance context.tokens with same | same
  · exact .inl same
  · exact .inr (same ▸ mem_places passes)

theorem Begins.passes (begins : Begins context (task, state) (inner, begun)) :
    Passes context task state begun := .begun (.single begins)

theorem Evaluates.rises (evaluates : Evaluates context task state outcome after) :
    context.Rises task state state.cursor.highWater after.cursor.highWater := by
  induction evaluates with
  | @token kind role state =>
      have passes : Passes context (.pattern (.token kind role)) state
          (context.matchKind kind state).2 := .left .refl .token
      unfold matchKind at passes ⊢
      split at passes
      · split at passes
        next fits => simp only [if_pos fits]; exact .advance passes
        next differs => simp only [if_neg differs]; exact .inl rfl
      · exact .inl rfl
  | missing | tooDeep | empty | noTerms | noAlternatives | yield | refuse | abandon => exact .inl rfl
  | rule found shallow _ ih => exact ih.part (.rule found shallow)
  | sequence _ ih => exact ih.part .sequence
  | choice _ ih => exact ih.part .choice
  | begun first _ ihFirst ihRounds =>
      exact (ihFirst.part .firstBody).trans (ihRounds.part (.firstRound first))
  | noneFound _ ih | oneMissing _ ih | firstBroken _ ih => exact ih.part .firstBody
  | ignore _ ih => exact ih.part .ignore
  | filter _ ih => exact ih.part .filter
  | custom _ ih => exact ih.part .custom
  | nextTerm first _ ihFirst ihRest =>
      exact (ihFirst.part .firstTerm).trans (ihRest.part (.nextTerm first))
  | termFails _ ih | termBroken _ ih => exact ih.part .firstTerm
  | nextAlternative first _ ihFirst ihRest =>
      exact (ihFirst.part .firstAlternative).trans (ihRest.part (.nextAlternative first))
  | decided _ ih | alternativeBroken _ ih => exact ih.part .firstAlternative
  | nextRound parted again moved _ ihParted ihAgain ihRounds =>
      exact ((ihParted.part .separator).trans (ihAgain.part (.nextBody parted))).trans
        (ihRounds.part (.nextRound parted again moved))
  | idleRound parted _ _ ihParted ihAgain | lastBody parted _ ihParted ihAgain
  | bodyBroken parted _ ihParted ihAgain =>
      exact (ihParted.part .separator).trans (ihAgain.part (.nextBody parted))
  | lastSeparator _ ih | separatorBroken _ ih => exact ih.part .separator
  | peek _ ih => exact ih.part .peek
  | ether _ ih => exact ih.part .ether
  | cursor _ ih => exact ih.part .cursor
  | advance _ ih =>
      refine ParseContext.Rises.trans (.advance ?_) (ih.part .advance)
      exact Begins.advance.passes
  | rewind _ ih => exact ih.part .rewind
  | askRule asked answers _ ihAsked ihRest =>
      exact (ihAsked.part .askRule).trans (ihRest.part (.ruleAnswered asked answers))
  | askRuleBroken _ ih => exact ih.part .askRule
  | askPart listed asked answers _ ihAsked ihRest =>
      exact (ihAsked.part (.askPart listed)).trans (ihRest.part (.partAnswered listed asked answers))
  | askPartBroken listed _ ih => exact ih.part (.askPart listed)
  | askNoPart absent _ ih => exact ih.part (.noPart absent)

theorem Evaluates.mismatched_alternatives {alternatives : List Pattern}
    (evaluates : Evaluates context (.alternatives alternatives) state .mismatch after) :
    after.position = state.position := by
  induction alternatives generalizing state with
  | nil => cases evaluates; rfl
  | cons alternative rest ih =>
      cases evaluates with
      | nextAlternative _ ran =>
          have stays := ih ran
          exact stays

theorem Cursor.isGreatest_start (tokens : Array Token) (traced : Bool) :
    IsGreatest {(start tokens traced).position} (start tokens traced).highWater :=
  highWater_start tokens traced ▸ isGreatest_singleton

theorem Cursor.isGreatest_advance {tokens : Array Token} {cursor : Cursor} {been : Set Nat}
    (peak : IsGreatest been cursor.highWater) :
    IsGreatest (insert (cursor.advance tokens).position been) (cursor.advance tokens).highWater := by
  have furthest := peak.insert (cursor.advance tokens).position
  rwa [max_comm] at furthest

/-- The cursor is at one of the places where it has been, all of them are at hard tokens or at the end,
and the high-water mark is the greatest. -/
structure ParseContext.WellPlaced (context : ParseContext) (been : Set Nat) (state : ParseState) :
    Prop where
  here : state.position ∈ been
  rests : ∀ place ∈ been, Cursor.Rests context.tokens place
  peak : IsGreatest been state.cursor.highWater

/-- The states that a parse gets to, with the places where its cursor has been on the way. -/
inductive ParseContext.Reaches (context : ParseContext) : Set Nat → ParseState → Prop where
  | start (traced : Bool) :
      Reaches context {(Cursor.start context.tokens traced).position}
        ⟨.start context.tokens traced, 0⟩
  | advance {been state} (reached : Reaches context been state) :
      Reaches context (insert (state.advance context.tokens).position been)
        (state.advance context.tokens)
  | rewind {been state mark} (reached : Reaches context been state) (member : mark ∈ been) :
      Reaches context been (state.rewind mark)
  | enter {been state} (reached : Reaches context been state) : Reaches context been state.deeper
  | evaluate {been state pattern outcome after} (reached : Reaches context been state)
      (tethered : pattern.Tethered)
      (evaluates : Evaluates context (.pattern pattern) state outcome after) :
      Reaches context (been ∪ context.places (.pattern pattern) state) after

namespace ParseContext.WellPlaced

variable {been : Set Nat}

theorem restsAt (placed : context.WellPlaced been state) : context.RestsAt state :=
  placed.rests _ placed.here

theorem le_highWater (placed : context.WellPlaced been state) :
    state.position ≤ state.cursor.highWater := placed.peak.2 placed.here

theorem start (context : ParseContext) (traced : Bool) :
    context.WellPlaced {(Cursor.start context.tokens traced).position}
      ⟨.start context.tokens traced, 0⟩ where
  here := rfl
  rests := by rintro _ rfl; exact (Cursor.start_spec context.tokens traced).1
  peak := Cursor.isGreatest_start context.tokens traced

theorem advance (placed : context.WellPlaced been state) :
    context.WellPlaced (insert (state.advance context.tokens).position been)
      (state.advance context.tokens) where
  here := Set.mem_insert _ _
  rests := by
    rintro _ (rfl | member)
    · exact ParseState.rests_advance placed.restsAt.within
    · exact placed.rests _ member
  peak := Cursor.isGreatest_advance placed.peak

theorem rewind (placed : context.WellPlaced been state) {mark : Nat} (member : mark ∈ been) :
    context.WellPlaced been (state.rewind mark) := ⟨member, placed.rests, placed.peak⟩

theorem evaluate (placed : context.WellPlaced been state) (tethered : context.Tethered)
    {pattern : Pattern} (trusted : pattern.Tethered)
    (evaluates : Evaluates context (.pattern pattern) state outcome after) :
    context.WellPlaced (been ∪ context.places (.pattern pattern) state) after where
  here := .inr (mem_places (.left .refl evaluates))
  rests := by
    rintro _ (member | ⟨passed, passes, rfl⟩)
    · exact placed.rests _ member
    · exact passes.keeps context.invariant_rests tethered trusted placed.restsAt
  peak := by
    constructor
    · rcases evaluates.rises with same | member
      · exact .inl (same ▸ placed.peak.1)
      · exact .inr member
    · rintro _ (member | ⟨passed, passes, rfl⟩)
      · exact Nat.le_trans (placed.peak.2 member) evaluates.highWater_le
      · have low := passes.keeps context.invariant_highWater tethered trusted placed.le_highWater
        exact Nat.le_trans low (passes.highWater_le evaluates)

end ParseContext.WellPlaced

theorem ParseContext.Reaches.wellPlaced (tethered : context.Tethered) {been : Set Nat}
    (reached : context.Reaches been state) : context.WellPlaced been state := by
  induction reached with
  | start traced => exact .start context traced
  | advance _ ih => exact ih.advance
  | rewind _ member ih => exact ih.rewind member
  | enter _ ih => exact ⟨ih.here, ih.rests, ih.peak⟩
  | evaluate _ trusted evaluates ih => exact ih.evaluate tethered trusted evaluates

/-- The custom patterns that a task may run, and the script that it runs, go back only to these places
and those where they have been themselves. -/
abbrev Task.TetheredTo (been : Set Nat) (task : Task) : Prop :=
  task.Heeded (fun reader => reader.script.Tethered fun _ => False) (Script.Tethered (· ∈ been))

theorem Begins.reaches (tethered : context.Tethered) (begins : Begins context (task, state) (inner, begun))
    {been : Set Nat} (trusted : task.TetheredTo been) (reached : context.Reaches been state) :
    ∃ more, inner.TetheredTo more ∧ context.Reaches more begun := by
  have here := (reached.wellPlaced tethered).here
  cases begins with
  | rule found _ => exact ⟨been, tethered _ _ found, .enter reached⟩
  | sequence => exact ⟨been, Pattern.ReadBy.terms trusted, reached⟩
  | choice => exact ⟨been, Pattern.ReadBy.alternatives trusted, reached⟩
  | firstBody => exact ⟨been, (Pattern.ReadBy.repetition trusted).1, reached⟩
  | firstRound first =>
      have reads := Pattern.ReadBy.repetition trusted
      exact ⟨_, reads, .evaluate reached reads.1 first⟩
  | ignore => exact ⟨been, Pattern.ReadBy.ignored trusted, reached⟩
  | filter => exact ⟨been, Pattern.ReadBy.filtered trusted, reached⟩
  | custom =>
      exact ⟨been, ⟨(Pattern.ReadBy.reader trusted).mono fun _ => False.elim,
        Pattern.ReadBy.parts trusted⟩, reached⟩
  | firstTerm | firstAlternative => exact ⟨been, trusted _ (by simp), reached⟩
  | nextTerm first =>
      exact ⟨_, fun term member => trusted term (by simp [member]),
        .evaluate reached (trusted _ (by simp)) first⟩
  | nextAlternative first =>
      exact ⟨_, fun term member => trusted term (by simp [member]),
        .rewind (.evaluate reached (trusted _ (by simp)) first) (.inl here)⟩
  | separator => exact ⟨been, trusted.2, reached⟩
  | nextBody parted => exact ⟨_, trusted.1, .evaluate reached trusted.2 parted⟩
  | nextRound parted again _ =>
      exact ⟨_, trusted, .evaluate (.evaluate reached trusted.2 parted) trusted.1 again⟩
  | peek | ether => exact ⟨been, ⟨trusted.1 _, trusted.2⟩, reached⟩
  | cursor =>
      have wider := (trusted.1 state.position).mono fun _ marked => marked.elim id (· ▸ here)
      exact ⟨been, ⟨wider, trusted.2⟩, reached⟩
  | advance =>
      exact ⟨_, ⟨Script.Tethered.mono trusted.1 fun _ => .inr, trusted.2⟩, .advance reached⟩
  | rewind => exact ⟨been, ⟨trusted.1.2, trusted.2⟩, .rewind reached trusted.1.1⟩
  | askRule => exact ⟨been, Pattern.ReadBy.of_rule, reached⟩
  | ruleAnswered asked _ =>
      exact ⟨_, ⟨(trusted.1 _).mono fun _ => .inl, trusted.2⟩,
        .evaluate reached Pattern.ReadBy.of_rule asked⟩
  | askPart listed => exact ⟨been, trusted.2 _ (List.mem_of_getElem? listed), reached⟩
  | partAnswered listed asked _ =>
      exact ⟨_, ⟨(trusted.1 _).mono fun _ => .inl, trusted.2⟩,
        .evaluate reached (trusted.2 _ (List.mem_of_getElem? listed)) asked⟩
  | noPart => exact ⟨been, ⟨trusted.1 none, trusted.2⟩, reached⟩

/-- From any state that a parse gets to, an evaluation leaves the nesting as it was and the cursor at a
hard token or at the end, no further back than it began; the high-water mark has not fallen and is
the greatest place at which the cursor has ever been. A choice that mismatches, and a star that finds
nothing, leave the cursor where it was. -/
theorem evaluation_leaves_wellPlaced {been : Set Nat} {pattern : Pattern}
    (tethered : context.Tethered) (reached : context.Reaches been state)
    (trusted : pattern.Tethered)
    (evaluates : Evaluates context (.pattern pattern) state outcome after) :
    after.depth = state.depth ∧
    (after.position = context.tokens.size ∨
      ∃ kind text, after.cursor.peek? context.tokens = some (.hard kind text)) ∧
    state.cursor.highWater ≤ after.cursor.highWater ∧
    IsGreatest (been ∪ context.places (.pattern pattern) state) after.cursor.highWater ∧
    state.position ≤ after.position ∧
    (∀ alternatives, pattern = .choice alternatives → outcome = .mismatch →
      after.position = state.position) ∧
    (∀ body separator left, pattern = .star body separator →
      Evaluates context (.pattern body) state .mismatch left →
      outcome = .matched (.list []) ∧ after.position = state.position) := by
  have placed := (reached.wellPlaced tethered).evaluate tethered trusted evaluates
  refine ⟨evaluates.depth_eq, ?_, evaluates.highWater_le, placed.peak, ?_, ?_, ?_⟩
  · rcases placed.restsAt.cases with ⟨atEnd, -, -⟩ | ⟨kind, text, -, peeked, -, -⟩
    · exact .inl atEnd
    · exact .inr ⟨kind, text, peeked⟩
  · exact evaluates.keeps (context.invariant_from state.position) tethered trusted (Nat.le_refl _)
  · rintro alternatives rfl rfl
    cases evaluates with
    | choice ran => exact ran.mismatched_alternatives
  · rintro body separator left rfl first
    obtain ⟨found, rfl⟩ := evaluates.unique (.noneFound first)
    exact ⟨found, rfl⟩

/-- Behind a name its end is missing, and the star goes back before the name. -/
theorem evaluation_leaves_wellPlaced_unended :
    let context := Builtin.Terminator.endedNames.parser.context
      [.soft " ", .hard "Name" "a", .hard "Name" "b"]
    let ended : Pattern := .sequence [.tokenClass "Name", Builtin.Terminator.pattern 0]
    let state : ParseState := ⟨.start context.tokens false, 0⟩
    let after : ParseState := ⟨⟨1, 2, none⟩, 0⟩
    context.Tethered ∧ context.Reaches {1} state ∧ (Pattern.star ended none).Tethered ∧
      Evaluates context (.pattern (.star ended none)) state (.matched (.list [])) after ∧
      IsGreatest ({1} ∪ context.places (.pattern (.star ended none)) state) 2 ∧
      after.cursor.peek? context.tokens = some (.hard "Name" "a") := by
  intro context ended state after
  have tethered : context.Tethered := Grammar.Tethered.context fun name body found =>
    (Builtin.Terminator.readBy_endedNames.grammar found).mono fun reader ends =>
      ends ▸ Builtin.Terminator.tethered _
  have trusted : (Pattern.star ended none).Tethered := by
    refine .of_repetition (.of_sequence fun term member => ?_) nofun
    simp only [List.mem_cons, List.not_mem_nil, or_false] at member
    rcases member with rfl | rfl
    · exact .of_token
    · exact (Builtin.Terminator.readBy 0).mono fun _ same => same ▸ Builtin.Terminator.tethered _
  have reached : context.Reaches {1} state := .start false
  have evaluates : Evaluates context (.pattern (.star ended none)) state (.matched (.list [])) after :=
    Evaluates.iff_run.mpr ⟨10, rfl⟩
  obtain ⟨-, -, -, peak, -⟩ := evaluation_leaves_wellPlaced tethered reached trusted evaluates
  exact ⟨tethered, reached, trusted, evaluates, peak, rfl⟩

end Parlance
