import Parlance.Proofs.Evaluation.Diagnostics

/-! Which changes to a choice nobody notices. Alternatives that mismatch leave nothing behind but
places in the diagnostics, and no run reads those. -/

namespace Parlance

open ParseContext

theorem foldr_max_le_iff {places : List Nat} {start bound : Nat} :
    places.foldr max start ≤ bound ↔ start ≤ bound ∧ ∀ place ∈ places, place ≤ bound := by
  induction places with
  | nil => simp
  | cons place rest ih =>
      rw [List.foldr_cons, Nat.max_le, ih, List.forall_mem_cons]
      exact and_left_comm

/-- The order of the places and how often each is visited do not matter to the high-water mark. -/
theorem foldr_max_congr {places others : List Nat} (same : ∀ place, place ∈ places ↔ place ∈ others)
    (start : Nat) : places.foldr max start = others.foldr max start := by
  refine Nat.le_antisymm (foldr_max_le_iff.mpr ?_) (foldr_max_le_iff.mpr ?_)
  · obtain ⟨least, all⟩ := foldr_max_le_iff.mp (Nat.le_refl (others.foldr max start))
    exact ⟨least, fun place member => all place ((same place).mp member)⟩
  · obtain ⟨least, all⟩ := foldr_max_le_iff.mp (Nat.le_refl (places.foldr max start))
    exact ⟨least, fun place member => all place ((same place).mpr member)⟩

/-- The run ends with an outcome, at a position and with a high-water mark. -/
def EndsAt (context : ParseContext) (task : Task) (state : ParseState) (outcome : Outcome)
    (position highWater : Nat) : Prop :=
  ∃ after, Evaluates context task state outcome after ∧ after.position = position ∧
    after.cursor.highWater = highWater

def Mismatches (context : ParseContext) (state : ParseState) (pattern : Pattern) : Prop :=
  ∃ after, Evaluates context (.pattern pattern) state .mismatch after

variable {context : ParseContext} {state : ParseState} {outcome : Outcome} {after : ParseState}

theorem SameView.mismatches {other : ParseContext} {twin : ParseState} {pattern : Pattern}
    (same : SameView context state other twin) (fails : Mismatches context state pattern) :
    Mismatches other twin pattern := by
  obtain ⟨after, ran⟩ := fails
  obtain ⟨places, replays⟩ := ran.replays
  exact ⟨_, replays.twin same⟩

theorem SameView.endsAt {task : Task} {other : ParseContext} {twin : ParseState}
    (same : SameView context state other twin) {position highWater : Nat}
    (ends : EndsAt context task state outcome position highWater) :
    ∃ high, EndsAt other task twin outcome position high ∧
      (twin.cursor.highWater = state.cursor.highWater → high = highWater) := by
  obtain ⟨after, ran, rfl, rfl⟩ := ends
  obtain ⟨places, replays⟩ := ran.replays
  refine ⟨_, ⟨_, replays.twin same, rfl, rfl⟩, fun level => ?_⟩
  rw [replays.left, ParseState.highWater_visiting, ParseState.highWater_visiting, level]

section Diagnostics

theorem sameView_visiting (context : ParseContext) (state : ParseState) (places others : List Nat) :
    SameView context (state.visiting places state.position) context
      (state.visiting others state.position) := ⟨rfl, rfl, rfl, rfl⟩

variable {task : Task} {position highWater : Nat}

theorem exists_endsAt_visiting (places others : List Nat) :
    (∃ high, EndsAt context task (state.visiting places state.position) outcome position high) ↔
      ∃ high, EndsAt context task (state.visiting others state.position) outcome position high := by
  have one {places others : List Nat}
      (ends : ∃ high, EndsAt context task (state.visiting places state.position) outcome position
        high) :
      ∃ high, EndsAt context task (state.visiting others state.position) outcome position high := by
    obtain ⟨_, ends⟩ := ends
    obtain ⟨high, endsToo, -⟩ := (sameView_visiting context state places others).endsAt ends
    exact ⟨high, endsToo⟩
  exact ⟨one, one⟩

theorem endsAt_visiting_congr {places others : List Nat}
    (same : ∀ place, place ∈ places ↔ place ∈ others) :
    EndsAt context task (state.visiting places state.position) outcome position highWater ↔
      EndsAt context task (state.visiting others state.position) outcome position highWater := by
  have one {places others : List Nat} (same : ∀ place, place ∈ places ↔ place ∈ others)
      (ends : EndsAt context task (state.visiting places state.position) outcome position
        highWater) :
      EndsAt context task (state.visiting others state.position) outcome position highWater := by
    obtain ⟨_, endsToo, high⟩ := (sameView_visiting context state places others).endsAt ends
    exact high (foldr_max_congr same state.cursor.highWater).symm ▸ endsToo
  exact ⟨one same, one fun place => (same place).symm⟩

end Diagnostics

theorem passes {alternative : Pattern} {middle : ParseState} {rest : List Pattern}
    (fails : Evaluates context (.pattern alternative) state .mismatch middle) :
    Evaluates context (.alternatives (alternative :: rest)) state outcome after ↔
      Evaluates context (.alternatives rest) (middle.rewind state.position) outcome after := by
  refine ⟨fun ran => ?_, .nextAlternative fails⟩
  cases ran with
  | decided first => cases (fails.unique first).1
  | nextAlternative first ran => rwa [(fails.unique first).2]
  | alternativeBroken first => cases (fails.unique first).1

/-- All the alternatives mismatch when they are run from the state. One after the other they add the
places to the diagnostics. -/
inductive Refuses (context : ParseContext) (state : ParseState) : List Pattern → List Nat → Prop where
  | none : Refuses context state [] []
  | next {alternative rest places more after}
      (fails : Replays context (.pattern alternative) state .mismatch after places)
      (others : Refuses context state rest more) :
      Refuses context state (alternative :: rest) (more ++ places)

namespace Refuses

variable {alternatives others : List Pattern} {places more : List Nat}

theorem of_mismatches (fail : ∀ alternative ∈ alternatives, Mismatches context state alternative) :
    ∃ places, Refuses context state alternatives places := by
  induction alternatives with
  | nil => exact ⟨[], .none⟩
  | cons alternative rest ih =>
      obtain ⟨after, first⟩ := fail alternative List.mem_cons_self
      obtain ⟨places, replays⟩ := first.replays
      obtain ⟨more, others⟩ := ih fun other member => fail other (List.mem_cons_of_mem _ member)
      exact ⟨_, .next replays others⟩

theorem append (refuses : Refuses context state alternatives places)
    (refusesToo : Refuses context state others more) :
    Refuses context state (alternatives ++ others) (more ++ places) := by
  induction refuses with
  | none => rwa [List.append_nil]
  | next fails _ ih =>
      rw [List.cons_append, ← List.append_assoc]
      exact .next fails ih

theorem again (refuses : Refuses context state alternatives places) {alternative : Pattern}
    (member : alternative ∈ alternatives) :
    ∃ visited, Refuses context state [alternative] visited ∧ ∀ place ∈ visited, place ∈ places := by
  induction refuses with
  | none => cases member
  | @next first rest placesFirst placesRest _ fails _ ih =>
      rcases List.mem_cons.mp member with rfl | member
      · exact ⟨_, .next fails .none, fun place here => by simpa using .inr here⟩
      · obtain ⟨visited, refuses, within⟩ := ih member
        exact ⟨visited, refuses, fun place here => List.mem_append_left _ (within place here)⟩

theorem goesOn (refuses : Refuses context state alternatives places) {rest : List Pattern} :
    Evaluates context (.alternatives (alternatives ++ rest)) state outcome after ↔
      Evaluates context (.alternatives rest) (state.visiting places state.position) outcome after := by
  -- On the alternatives, for a state that has visited other places before.
  have from_ (visited : List Nat) :
      Evaluates context (.alternatives (alternatives ++ rest)) (state.visiting visited state.position)
          outcome after ↔
        Evaluates context (.alternatives rest)
          (state.visiting (places ++ visited) state.position) outcome after := by
    induction refuses generalizing visited with
    | none => rfl
    | @next alternative tail places more left fails _ ih =>
        have same : SameView context state context (state.visiting visited state.position) :=
          ⟨rfl, rfl, rfl, rfl⟩
        rw [List.cons_append, passes (fails.twin same), ParseState.visiting_visiting,
          ParseState.rewind_visiting, ParseState.position_visiting, ih, List.append_assoc]
  simpa using from_ []

theorem endsAt (refuses : Refuses context state alternatives places) {rest : List Pattern}
    {position highWater : Nat} :
    EndsAt context (.alternatives (alternatives ++ rest)) state outcome position highWater ↔
      EndsAt context (.alternatives rest) (state.visiting places state.position) outcome position
        highWater :=
  exists_congr fun _ => and_congr_left fun _ => refuses.goesOn

end Refuses

/-- Some alternative does not mismatch when it is run from the state. -/
def Settles (context : ParseContext) (state : ParseState) (alternatives : List Pattern) : Prop :=
  ∃ alternative ∈ alternatives, ¬ Mismatches context state alternative

theorem settles_or_refuses (context : ParseContext) (state : ParseState)
    (alternatives : List Pattern) :
    Settles context state alternatives ∨ ∃ places, Refuses context state alternatives places := by
  by_cases settles : Settles context state alternatives
  · exact .inl settles
  · exact .inr (Refuses.of_mismatches fun alternative member =>
      Classical.byContradiction fun stays => settles ⟨alternative, member, stays⟩)

theorem decides {alternative : Pattern} (stays : ¬ Mismatches context state alternative)
    {rest : List Pattern} :
    Evaluates context (.alternatives (alternative :: rest)) state outcome after ↔
      Evaluates context (.pattern alternative) state outcome after := by
  constructor <;> intro ran
  · cases ran with
    | decided first => exact first
    | nextAlternative first => exact absurd ⟨_, first⟩ stays
    | alternativeBroken first => exact first
  · cases outcome with
    | matched value => exact .decided ran
    | mismatch => exact absurd ⟨_, ran⟩ stays
    | broken fault => exact .alternativeBroken ran

namespace Settles

variable {alternatives : List Pattern}

theorem goesNoFurther (settles : Settles context state alternatives) (rest others : List Pattern) :
    Evaluates context (.alternatives (alternatives ++ rest)) state outcome after ↔
      Evaluates context (.alternatives (alternatives ++ others)) state outcome after := by
  induction alternatives generalizing state with
  | nil =>
      obtain ⟨_, member, -⟩ := settles
      cases member
  | cons alternative tail ih =>
      rw [List.cons_append, List.cons_append]
      by_cases fails : Mismatches context state alternative
      · obtain ⟨middle, ran⟩ := fails
        obtain ⟨places, replays⟩ := ran.replays
        have same : SameView context state context (middle.rewind state.position) := by
          rw [replays.left]
          exact ⟨rfl, rfl, rfl, rfl⟩
        rw [passes ran, passes ran]
        obtain ⟨settler, member, stays⟩ := settles
        have later : settler ∈ tail := (List.mem_cons.mp member).resolve_left (by
          rintro rfl
          exact stays ⟨_, ran⟩)
        exact ih ⟨settler, later, fun fails => stays (same.symm.mismatches fails)⟩
      · rw [decides fails, decides fails]

theorem of_sameView (settles : Settles context state alternatives) {twin : ParseState}
    (same : SameView context state context twin) : Settles context twin alternatives := by
  obtain ⟨alternative, member, stays⟩ := settles
  exact ⟨alternative, member, fun fails => stays (same.symm.mismatches fails)⟩

theorem not_refuses (settles : Settles context state alternatives) {places : List Nat}
    (refuses : Refuses context state alternatives places) : False := by
  obtain ⟨alternative, member, stays⟩ := settles
  induction refuses with
  | none => cases member
  | next fails _ ih =>
      rcases List.mem_cons.mp member with rfl | member
      · exact stays ⟨_, fails.left ▸ fails.twin (.refl context state)⟩
      · exact ih member

/-- What stands behind an alternative that does not mismatch is never run. -/
theorem endsAt (settles : Settles context state alternatives) (rest others : List Pattern)
    {position highWater : Nat} :
    EndsAt context (.alternatives (alternatives ++ rest)) state outcome position highWater ↔
      EndsAt context (.alternatives (alternatives ++ others)) state outcome position highWater :=
  exists_congr fun _ => and_congr_left fun _ => settles.goesNoFurther rest others

end Settles

theorem endsAt_choice {alternatives : List Pattern} {position highWater : Nat} :
    EndsAt context (.pattern (.choice alternatives)) state outcome position highWater ↔
      EndsAt context (.alternatives alternatives) state outcome position highWater := by
  refine exists_congr fun _ => and_congr_left fun _ => ⟨fun ran => ?_, .choice⟩
  cases ran with
  | choice ran => exact ran

theorem Mismatches.refuses {pattern : Pattern} (fails : Mismatches context state pattern) :
    ∃ places, Refuses context state [pattern] places :=
  Refuses.of_mismatches fun _ member => List.mem_singleton.mp member ▸ fails

section Choices

variable (before between behind : List Pattern) {first second : Pattern}

/-- Alternatives that mismatch may change places. The high-water mark is the same afterwards, unless
an alternative between them decides, so that only the first of them has been run. -/
theorem swap_endsAt (fails : Mismatches context state first)
    (failsToo : Mismatches context state second) (outcome : Outcome) (position : Nat) :
    let written := Task.alternatives (before ++ first :: between ++ second :: behind)
    let swapped := Task.alternatives (before ++ second :: between ++ first :: behind)
    ((∃ high, EndsAt context written state outcome position high) ↔
      ∃ high, EndsAt context swapped state outcome position high) ∧
    (Settles context state before ∨ ¬ Settles context state between → ∀ high,
      EndsAt context written state outcome position high ↔
        EndsAt context swapped state outcome position high) := by
  intro written swapped
  rcases settles_or_refuses context state before with settles | ⟨earlier, refusesBefore⟩
  · have all (high : Nat) : EndsAt context written state outcome position high ↔
        EndsAt context swapped state outcome position high := by
      simp only [written, swapped, List.append_assoc]
      exact settles.endsAt _ _
    exact ⟨exists_congr all, fun _ => all⟩
  obtain ⟨places, refusesFirst⟩ := fails.refuses
  obtain ⟨placesToo, refusesSecond⟩ := failsToo.refuses
  have one := refusesBefore.append refusesFirst
  have two := refusesBefore.append refusesSecond
  rcases settles_or_refuses context state between with settles | ⟨middle, refusesBetween⟩
  · refine ⟨?_, fun known => ?_⟩
    · have there (visited : List Nat) :
          Settles context (state.visiting visited state.position) between :=
        settles.of_sameView ⟨rfl, rfl, rfl, rfl⟩
      have written_eq : before ++ first :: between ++ second :: behind =
          before ++ [first] ++ (between ++ second :: behind) := by simp
      have swapped_eq : before ++ second :: between ++ first :: behind =
          before ++ [second] ++ (between ++ first :: behind) := by simp
      simp only [written, swapped, written_eq, swapped_eq, one.endsAt, two.endsAt,
        (there _).endsAt (second :: behind) (first :: behind)]
      exact exists_endsAt_visiting _ _
    · rcases known with known | known
      · exact (known.not_refuses refusesBefore).elim
      · exact absurd settles known
  · have all (high : Nat) : EndsAt context written state outcome position high ↔
        EndsAt context swapped state outcome position high := by
      have written_eq : before ++ first :: between ++ second :: behind =
          before ++ [first] ++ between ++ [second] ++ behind := by simp
      have swapped_eq : before ++ second :: between ++ first :: behind =
          before ++ [second] ++ between ++ [first] ++ behind := by simp
      simp only [written, swapped, written_eq, swapped_eq]
      rw [((one.append refusesBetween).append refusesSecond).endsAt,
        ((two.append refusesBetween).append refusesFirst).endsAt]
      refine endsAt_visiting_congr fun place => ?_
      simp only [List.mem_append]
      grind
    exact ⟨exists_congr all, fun _ => all⟩

theorem copy_endsAt {alternatives : List Pattern} {original : Pattern}
    (listed : original ∈ alternatives) (outcome : Outcome) (position high : Nat) :
    EndsAt context (.alternatives (alternatives ++ behind)) state outcome position high ↔
      EndsAt context (.alternatives (alternatives ++ original :: behind)) state outcome position
        high := by
  rcases settles_or_refuses context state alternatives with settles | ⟨places, refuses⟩
  · exact settles.endsAt _ _
  · obtain ⟨again, refusesCopy, visited⟩ := refuses.again listed
    have copied : alternatives ++ original :: behind = alternatives ++ [original] ++ behind := by simp
    rw [copied, refuses.endsAt, (refuses.append refusesCopy).endsAt]
    refine endsAt_visiting_congr fun place => ?_
    rw [List.mem_append]
    exact ⟨.inr, fun member => member.elim (visited place) id⟩

end Choices

/-- The order of a choice matters only among alternatives that do not mismatch. Two that mismatch may
change places, and any may be repeated further on: outcome, position and high-water mark are the
same, but that the mark may differ where an alternative between the two decides, as then only the
first of them is run. This is since a run depends on nothing but what is in view, and adds the same
places to whatever the diagnostics tell. -/
theorem choice_order (context : ParseContext) (state : ParseState) :
    (∀ before first between second behind outcome position,
      Mismatches context state first → Mismatches context state second →
      let written := Task.pattern (.choice (before ++ first :: between ++ second :: behind))
      let swapped := Task.pattern (.choice (before ++ second :: between ++ first :: behind))
      ((∃ high, EndsAt context written state outcome position high) ↔
        ∃ high, EndsAt context swapped state outcome position high) ∧
      (Settles context state before ∨ ¬ Settles context state between → ∀ high,
        EndsAt context written state outcome position high ↔
          EndsAt context swapped state outcome position high)) ∧
    (∀ alternatives original behind outcome position high, original ∈ alternatives →
      (EndsAt context (.pattern (.choice (alternatives ++ behind))) state outcome position high ↔
        EndsAt context (.pattern (.choice (alternatives ++ original :: behind))) state outcome
          position high)) ∧
    ∀ task outcome after, Evaluates context task state outcome after →
      ∃ places, after = state.visiting places after.position ∧
        ∀ other twin, SameView context state other twin → ∀ result left,
          Evaluates other task twin result left ↔
            result = outcome ∧ left = twin.visiting places after.position := by
  refine ⟨fun before first between second behind outcome position fails failsToo => ?_,
    fun alternatives original behind outcome position high listed => ?_,
    fun task outcome after ran => ?_⟩
  · simp only [endsAt_choice]
    exact swap_endsAt before between behind fails failsToo outcome position
  · rw [endsAt_choice, endsAt_choice]
    exact copy_endsAt behind listed outcome position high
  · obtain ⟨places, replays⟩ := ran.replays
    refine ⟨places, replays.left, fun other twin same result left => ⟨fun ranToo => ?_, ?_⟩⟩
    · exact ranToo.unique (replays.twin same)
    · rintro ⟨rfl, rfl⟩
      exact replays.twin same

def fourLetters : ParseContext :=
  ⟨[], #[.literal "a", .literal "b", .literal "c", .literal "d"], none⟩

def inTurn (kinds : List String) : Pattern := .sequence (kinds.map (.token · none))

theorem fourLetters_mismatches :
    Mismatches fourLetters ⟨⟨0, 0, none⟩, 0⟩ (inTurn ["a", "z"]) ∧
      Mismatches fourLetters ⟨⟨0, 0, none⟩, 0⟩ (inTurn ["a", "b", "z"]) :=
  ⟨⟨⟨⟨1, 1, none⟩, 0⟩, Evaluates.iff_run.mpr ⟨3, rfl⟩⟩,
    ⟨⟨⟨2, 2, none⟩, 0⟩, Evaluates.iff_run.mpr ⟨3, rfl⟩⟩⟩

theorem choice_order_fourLetters :
    EndsAt fourLetters
        (.pattern (.choice [inTurn ["a", "b", "z"], inTurn ["a", "z"], .token "a" none]))
        ⟨⟨0, 0, none⟩, 0⟩ (.matched (.text "a")) 1 2 ∧
      EndsAt fourLetters
        (.pattern (.choice [inTurn ["a", "z"], inTurn ["a", "b", "z"], .token "a" none,
          inTurn ["a", "z"]])) ⟨⟨0, 0, none⟩, 0⟩ (.matched (.text "a")) 1 2 := by
  obtain ⟨fails, failsToo⟩ := fourLetters_mismatches
  obtain ⟨swap, copy, -⟩ := choice_order fourLetters ⟨⟨0, 0, none⟩, 0⟩
  have written : EndsAt fourLetters
      (.pattern (.choice [inTurn ["a", "z"], inTurn ["a", "b", "z"], .token "a" none]))
      ⟨⟨0, 0, none⟩, 0⟩ (.matched (.text "a")) 1 2 :=
    ⟨⟨⟨1, 2, none⟩, 0⟩, Evaluates.iff_run.mpr ⟨3, rfl⟩, rfl, rfl⟩
  obtain ⟨-, swapped⟩ := swap [] _ [] _ [.token "a" none] (.matched (.text "a")) 1 fails failsToo
  refine ⟨(swapped (.inr ?_) 2).mp written,
    (copy [inTurn ["a", "z"], inTurn ["a", "b", "z"], .token "a" none] _ [] (.matched (.text "a")) 1 2
      (by simp)).mp written⟩
  rintro ⟨_, member, -⟩
  cases member

/-- Two alternatives that mismatch around the one that decides. Whichever of them comes first is the
only one that is run, and they do not reach equally far. -/
theorem highWater_tells_order :
    Mismatches fourLetters ⟨⟨0, 0, none⟩, 0⟩ (inTurn ["a", "z"]) ∧
      Mismatches fourLetters ⟨⟨0, 0, none⟩, 0⟩ (inTurn ["a", "b", "z"]) ∧
      EndsAt fourLetters
        (.pattern (.choice [inTurn ["a", "z"], .token "a" none, inTurn ["a", "b", "z"]]))
        ⟨⟨0, 0, none⟩, 0⟩ (.matched (.text "a")) 1 1 ∧
      ¬ EndsAt fourLetters
        (.pattern (.choice [inTurn ["a", "b", "z"], .token "a" none, inTurn ["a", "z"]]))
        ⟨⟨0, 0, none⟩, 0⟩ (.matched (.text "a")) 1 1 := by
  refine ⟨fourLetters_mismatches.1, fourLetters_mismatches.2,
    ⟨⟨⟨1, 1, none⟩, 0⟩, Evaluates.iff_run.mpr ⟨3, rfl⟩, rfl, rfl⟩, ?_⟩
  rintro ⟨after, ran, -, high⟩
  have known : Evaluates fourLetters
      (.pattern (.choice [inTurn ["a", "b", "z"], .token "a" none, inTurn ["a", "z"]]))
      ⟨⟨0, 0, none⟩, 0⟩ (.matched (.text "a")) ⟨⟨1, 2, none⟩, 0⟩ :=
    Evaluates.iff_run.mpr ⟨3, rfl⟩
  obtain ⟨-, rfl⟩ := ran.unique known
  cases high

end Parlance
