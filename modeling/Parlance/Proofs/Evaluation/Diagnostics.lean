import Parlance.Proofs.Evaluation.BigStep

/-! What a run does not depend on. The high-water mark and the log tell where a run has been; they
are written and never read, and of the depth only the difference to the bound counts. So a run has
the same result in every context with the same rules and tokens, from every state at the same
position in which rules may still nest as deep, and it adds the same to what has been told before. -/

namespace Parlance

open ParseContext

/-- The cursor after it has come to rest at places, latest first, and then been put at a position. -/
def Cursor.visiting (places : List Nat) (position : Nat) (cursor : Cursor) : Cursor where
  position := position
  highWater := places.foldr max cursor.highWater
  log := cursor.log.map (places ++ ·)

namespace ParseState

def visiting (places : List Nat) (position : Nat) (state : ParseState) : ParseState :=
  { state with cursor := state.cursor.visiting places position }

variable (state : ParseState) (places more : List Nat) (position later : Nat)

@[simp] theorem position_visiting : (state.visiting places position).position = position := rfl

@[simp] theorem highWater_visiting :
    (state.visiting places position).cursor.highWater = places.foldr max state.cursor.highWater := rfl

@[simp] theorem visiting_visiting :
    (state.visiting places position).visiting more later = state.visiting (more ++ places) later := by
  simp [visiting, Cursor.visiting, List.foldr_append, Function.comp_def]

@[simp] theorem visiting_nil : state.visiting [] state.position = state := by
  simp [visiting, Cursor.visiting, ParseState.position]

@[simp] theorem rewind_visiting :
    (state.visiting places position).rewind later = state.visiting places later := rfl

theorem advance_eq_visiting (tokens : Array Token) :
    state.advance tokens =
      state.visiting [(state.advance tokens).position] (state.advance tokens).position := by
  simp [advance, visiting, Cursor.visiting, Cursor.advance, Cursor.restAt, ParseState.position,
    Nat.max_comm]

end ParseState

def ParseContext.remaining (context : ParseContext) (state : ParseState) : Option Nat :=
  context.maxDepth.map (· - state.depth)

/-- The rules, the tokens, the position and the depth that remains are the same. -/
structure SameView (context : ParseContext) (state : ParseState) (other : ParseContext)
    (twin : ParseState) : Prop where
  rules : other.rules = context.rules
  tokens : other.tokens = context.tokens
  position : twin.position = state.position
  remaining : other.remaining twin = context.remaining state

namespace SameView

variable {context other : ParseContext} {state twin : ParseState}

theorem refl (context : ParseContext) (state : ParseState) : SameView context state context state :=
  ⟨rfl, rfl, rfl, rfl⟩

variable (same : SameView context state other twin)

include same

theorem symm : SameView other twin context state :=
  ⟨same.rules.symm, same.tokens.symm, same.position.symm, same.remaining.symm⟩

theorem tooDeep : other.tooDeep twin = context.tooDeep state := by
  have remaining := same.remaining
  unfold ParseContext.remaining at remaining
  unfold ParseContext.tooDeep
  cases bound : context.maxDepth with
  | none =>
      rw [bound, Option.map_none, Option.map_eq_none_iff] at remaining
      rw [remaining]
  | some most =>
      rw [bound, Option.map_some, Option.map_eq_some_iff] at remaining
      obtain ⟨mostToo, boundToo, left⟩ := remaining
      simp only [boundToo, decide_eq_decide]
      omega

theorem deeper : SameView context state.deeper other twin.deeper where
  rules := same.rules
  tokens := same.tokens
  position := same.position
  remaining := by
    have remaining := same.remaining
    unfold ParseContext.remaining at remaining ⊢
    cases bound : context.maxDepth with
    | none =>
        rw [bound, Option.map_none, Option.map_eq_none_iff] at remaining
        rw [remaining]
        rfl
    | some most =>
        rw [bound, Option.map_some, Option.map_eq_some_iff] at remaining
        obtain ⟨mostToo, boundToo, left⟩ := remaining
        rw [boundToo, Option.map_some, Option.map_some]
        simp only [ParseState.deeper, Option.some.injEq]
        omega

theorem visiting (places : List Nat) (position : Nat) :
    SameView context (state.visiting places position) other (twin.visiting places position) where
  rules := same.rules
  tokens := same.tokens
  position := rfl
  remaining := same.remaining

theorem peek : twin.cursor.peek? other.tokens = state.cursor.peek? context.tokens := by
  unfold Cursor.peek?
  rw [same.tokens, show twin.cursor.position = state.cursor.position from same.position]

theorem ether : twin.cursor.ether other.tokens = state.cursor.ether context.tokens := by
  unfold Cursor.ether
  rw [same.tokens, show twin.cursor.position = state.cursor.position from same.position]

theorem position_advance :
    (twin.advance other.tokens).position = (state.advance context.tokens).position := by
  simp only [ParseState.advance, ParseState.position, Cursor.advance, Cursor.restAt]
  rw [same.tokens, show twin.cursor.position = state.cursor.position from same.position]

end SameView

/-- What leads from a state to another by way of places leads there from everything with the same
view. `leads` tells what a context takes from one state to the other. -/
structure Repeats (context : ParseContext) (state after : ParseState) (places : List Nat)
    (leads : ParseContext → ParseState → ParseState → Prop) : Prop where
  left : after = state.visiting places after.position
  twin : ∀ {other twin}, SameView context state other twin →
    leads other twin (twin.visiting places after.position)

namespace Repeats

variable {context : ParseContext} {state middle after : ParseState} {places more : List Nat}
  {leads leadsOn : ParseContext → ParseState → ParseState → Prop}

theorem view (repeats : Repeats context state after places leads) {other : ParseContext}
    {twin : ParseState} (same : SameView context state other twin) :
    SameView context after other (twin.visiting places after.position) :=
  repeats.left ▸ same.visiting places after.position

theorem wrap (repeats : Repeats context state after places leads)
    (wraps : ∀ {other twin left}, SameView context state other twin → leads other twin left →
      leadsOn other twin left) : Repeats context state after places leadsOn where
  left := repeats.left
  twin same := wraps same (repeats.twin same)

theorem still (context : ParseContext) (state : ParseState) :
    Repeats context state state [] fun _ twin left => left = twin where
  left := state.visiting_nil.symm
  twin {other twin} same := by rw [← same.position, twin.visiting_nil]

theorem advance (context : ParseContext) (state : ParseState) :
    Repeats context state (state.advance context.tokens) [(state.advance context.tokens).position]
      fun other twin left => left = twin.advance other.tokens where
  left := state.advance_eq_visiting context.tokens
  twin {other twin} same := by rw [twin.advance_eq_visiting, same.position_advance]

theorem rewind (repeats : Repeats context state after places leads) (mark : Nat) :
    Repeats context state (after.rewind mark) places fun other twin left =>
      ∃ reached, leads other twin reached ∧ SameView context after other reached ∧
        left = reached.rewind mark where
  left := by
    rw [repeats.left]
    rfl
  twin same := ⟨_, repeats.twin same, repeats.view same, rfl⟩

theorem back (repeats : Repeats context state after places leads) :
    Repeats context state (after.rewind state.position) places fun other twin left =>
      ∃ reached, leads other twin reached ∧ SameView context after other reached ∧
        left = reached.rewind twin.position :=
  (repeats.rewind state.position).wrap fun same ⟨reached, leads, view, left⟩ =>
    ⟨reached, leads, view, same.position ▸ left⟩

theorem andThen (repeats : Repeats context state middle places leads)
    (repeatsOn : Repeats context middle after more leadsOn) :
    Repeats context state after (more ++ places) fun other twin left =>
      ∃ between, leads other twin between ∧ SameView context middle other between ∧
        leadsOn other between left where
  left := by
    rw [← ParseState.visiting_visiting, ← repeats.left]
    exact repeatsOn.left
  twin same := by
    rw [← ParseState.visiting_visiting]
    exact ⟨_, repeats.twin same, repeats.view same, repeatsOn.twin (repeats.view same)⟩

end Repeats

abbrev Replays (context : ParseContext) (task : Task) (state : ParseState) (outcome : Outcome)
    (after : ParseState) (places : List Nat) : Prop :=
  Repeats context state after places fun other twin left => Evaluates other task twin outcome left

namespace Evaluates

variable {context : ParseContext} {task : Task} {state after : ParseState} {outcome : Outcome}

theorem token_eq {kind : String} {role : Option Role}
    (same : context.matchKind kind state = (outcome, after)) :
    Evaluates context (.pattern (.token kind role)) state outcome after := by
  have ran := @token context kind role state
  rwa [same] at ran

theorem token_replays (context : ParseContext) (kind : String) (role : Option Role)
    (state : ParseState) :
    ∃ places, Replays context (.pattern (.token kind role)) state (context.matchKind kind state).1
      (context.matchKind kind state).2 places := by
  by_cases fits : ∃ token, state.cursor.peek? context.tokens = some token ∧ token.kind? = some kind
  · obtain ⟨token, met, fits⟩ := fits
    have takes {other : ParseContext} {twin : ParseState}
        (met : twin.cursor.peek? other.tokens = some token) :
        other.matchKind kind twin = (.matched (.text token.text), twin.advance other.tokens) := by
      simp only [matchKind, met, if_pos fits]
    rw [takes met]
    refine ⟨_, (Repeats.advance context state).wrap fun same moved => ?_⟩
    exact moved ▸ token_eq (takes (same.peek.trans met))
  · have misses {other : ParseContext} {twin : ParseState}
        (same : twin.cursor.peek? other.tokens = state.cursor.peek? context.tokens) :
        other.matchKind kind twin = (.mismatch, twin) := by
      unfold matchKind
      rw [same]
      cases met : state.cursor.peek? context.tokens with
      | none => rfl
      | some token => exact if_neg fun here => fits ⟨token, met, here⟩
    rw [misses rfl]
    refine ⟨_, (Repeats.still context state).wrap fun same stays => ?_⟩
    subst stays
    exact token_eq (misses same.peek)

/-- Every run that ends can be repeated wherever the view is the same. -/
theorem replays (evaluates : Evaluates context task state outcome after) :
    ∃ places, Replays context task state outcome after places := by
  induction evaluates with
  | token => exact token_replays ..
  | @missing name state absent =>
      exact ⟨_, (Repeats.still context state).wrap fun same left =>
        left ▸ .missing (same.rules ▸ absent)⟩
  | @tooDeep name state body found deep =>
      refine ⟨_, (Repeats.still context state).wrap fun same stays => ?_⟩
      subst stays
      exact .tooDeep (same.rules ▸ found) (same.tooDeep.trans deep)
  | rule found shallow _ ih =>
      obtain ⟨places, ran⟩ := ih
      refine ⟨places, ?_, fun same => ?_⟩
      · rw [ran.left]
        rfl
      · exact .rule (same.rules ▸ found) (same.tooDeep.trans shallow) (ran.twin same.deeper)
  | sequence _ ih =>
      obtain ⟨places, ran⟩ := ih
      exact ⟨places, ran.wrap fun _ => .sequence⟩
  | choice _ ih =>
      obtain ⟨places, ran⟩ := ih
      exact ⟨places, ran.wrap fun _ => .choice⟩
  | begun _ _ ihFirst ihRounds =>
      obtain ⟨_, first⟩ := ihFirst
      obtain ⟨_, rounds⟩ := ihRounds
      exact ⟨_, (first.andThen rounds).wrap fun _ ⟨_, first, _, rounds⟩ => .begun first rounds⟩
  | noneFound _ ih =>
      obtain ⟨places, first⟩ := ih
      exact ⟨places, first.back.wrap fun _ ⟨_, first, _, left⟩ => left ▸ .noneFound first⟩
  | oneMissing _ ih =>
      obtain ⟨places, first⟩ := ih
      exact ⟨places, first.wrap fun _ => .oneMissing⟩
  | firstBroken _ ih =>
      obtain ⟨places, first⟩ := ih
      exact ⟨places, first.wrap fun _ => .firstBroken⟩
  | ignore _ ih =>
      obtain ⟨places, ran⟩ := ih
      exact ⟨places, ran.wrap fun _ => .ignore⟩
  | filter _ ih =>
      obtain ⟨places, ran⟩ := ih
      exact ⟨places, ran.wrap fun _ => .filter⟩
  | custom _ ih =>
      obtain ⟨places, ran⟩ := ih
      exact ⟨places, ran.wrap fun _ => .custom⟩
  | @empty state => exact ⟨_, (Repeats.still context state).wrap fun _ left => left ▸ .empty⟩
  | @noTerms kept state =>
      exact ⟨_, (Repeats.still context state).wrap fun _ left => left ▸ .noTerms⟩
  | nextTerm _ _ ihFirst ihRest =>
      obtain ⟨_, first⟩ := ihFirst
      obtain ⟨_, rest⟩ := ihRest
      exact ⟨_, (first.andThen rest).wrap fun _ ⟨_, first, _, rest⟩ => .nextTerm first rest⟩
  | termFails _ ih =>
      obtain ⟨places, first⟩ := ih
      exact ⟨places, first.wrap fun _ => .termFails⟩
  | termBroken _ ih =>
      obtain ⟨places, first⟩ := ih
      exact ⟨places, first.wrap fun _ => .termBroken⟩
  | @noAlternatives state =>
      exact ⟨_, (Repeats.still context state).wrap fun _ left => left ▸ .noAlternatives⟩
  | decided _ ih =>
      obtain ⟨places, first⟩ := ih
      exact ⟨places, first.wrap fun _ => .decided⟩
  | nextAlternative _ _ ihFirst ihRest =>
      obtain ⟨_, first⟩ := ihFirst
      obtain ⟨_, rest⟩ := ihRest
      exact ⟨_, (first.back.andThen rest).wrap fun _ ⟨_, ⟨_, first, _, back⟩, _, rest⟩ =>
        .nextAlternative first (back ▸ rest)⟩
  | alternativeBroken _ ih =>
      obtain ⟨places, first⟩ := ih
      exact ⟨places, first.wrap fun _ => .alternativeBroken⟩
  | nextRound _ _ moved _ ihParted ihAgain ihRounds =>
      obtain ⟨_, parted⟩ := ihParted
      obtain ⟨_, again⟩ := ihAgain
      obtain ⟨_, rounds⟩ := ihRounds
      refine ⟨_, ((parted.andThen again).andThen rounds).wrap
        fun same ⟨_, ⟨_, parted, _, again⟩, sameNext, rounds⟩ => .nextRound parted again ?_ rounds⟩
      rw [same.position, sameNext.position]
      exact moved
  | idleRound _ _ still ihParted ihAgain =>
      obtain ⟨_, parted⟩ := ihParted
      obtain ⟨_, again⟩ := ihAgain
      refine ⟨_, (parted.andThen again).back.wrap
        fun same ⟨_, ⟨_, parted, _, again⟩, sameNext, left⟩ => left ▸ .idleRound parted again ?_⟩
      rw [same.position, sameNext.position]
      exact still
  | lastBody _ _ ihParted ihAgain =>
      obtain ⟨_, parted⟩ := ihParted
      obtain ⟨_, again⟩ := ihAgain
      exact ⟨_, (parted.andThen again).back.wrap fun _ ⟨_, ⟨_, parted, _, again⟩, _, left⟩ =>
        left ▸ .lastBody parted again⟩
  | lastSeparator _ ih =>
      obtain ⟨places, parted⟩ := ih
      exact ⟨places, parted.back.wrap fun _ ⟨_, parted, _, left⟩ => left ▸ .lastSeparator parted⟩
  | bodyBroken _ _ ihParted ihAgain =>
      obtain ⟨_, parted⟩ := ihParted
      obtain ⟨_, again⟩ := ihAgain
      exact ⟨_, (parted.andThen again).wrap fun _ ⟨_, parted, _, again⟩ => .bodyBroken parted again⟩
  | separatorBroken _ ih =>
      obtain ⟨places, parted⟩ := ih
      exact ⟨places, parted.wrap fun _ => .separatorBroken⟩
  | @yield parts value state =>
      exact ⟨_, (Repeats.still context state).wrap fun _ left => left ▸ .yield⟩
  | @refuse parts state =>
      exact ⟨_, (Repeats.still context state).wrap fun _ left => left ▸ .refuse⟩
  | @abandon parts fault state =>
      exact ⟨_, (Repeats.still context state).wrap fun _ left => left ▸ .abandon⟩
  | peek _ ih =>
      obtain ⟨places, ran⟩ := ih
      exact ⟨places, ran.wrap fun same ran => .peek (same.peek ▸ ran)⟩
  | ether _ ih =>
      obtain ⟨places, ran⟩ := ih
      exact ⟨places, ran.wrap fun same ran => .ether (same.ether ▸ ran)⟩
  | cursor _ ih =>
      obtain ⟨places, ran⟩ := ih
      exact ⟨places, ran.wrap fun same ran => .cursor (same.position ▸ ran)⟩
  | @advance parts next state outcome after _ ih =>
      obtain ⟨_, ran⟩ := ih
      exact ⟨_, ((Repeats.advance context state).andThen ran).wrap fun _ ⟨_, moved, _, ran⟩ =>
        .advance (moved ▸ ran)⟩
  | @rewind parts mark next state outcome after _ ih =>
      obtain ⟨_, ran⟩ := ih
      exact ⟨_, (((Repeats.still context state).rewind mark).andThen ran).wrap
        fun _ ⟨_, ⟨_, stays, _, moved⟩, _, ran⟩ => .rewind (stays ▸ moved ▸ ran)⟩
  | askRule _ answers _ ihAsked ihRest =>
      obtain ⟨_, asked⟩ := ihAsked
      obtain ⟨_, rest⟩ := ihRest
      exact ⟨_, (asked.andThen rest).wrap fun _ ⟨_, asked, _, rest⟩ => .askRule asked answers rest⟩
  | askRuleBroken _ ih =>
      obtain ⟨places, asked⟩ := ih
      exact ⟨places, asked.wrap fun _ => .askRuleBroken⟩
  | askPart here _ answers _ ihAsked ihRest =>
      obtain ⟨_, asked⟩ := ihAsked
      obtain ⟨_, rest⟩ := ihRest
      exact ⟨_, (asked.andThen rest).wrap fun _ ⟨_, asked, _, rest⟩ =>
        .askPart here asked answers rest⟩
  | askPartBroken here _ ih =>
      obtain ⟨places, asked⟩ := ih
      exact ⟨places, asked.wrap fun _ => .askPartBroken here⟩
  | askNoPart absent _ ih =>
      obtain ⟨places, ran⟩ := ih
      exact ⟨places, ran.wrap fun _ => .askNoPart absent⟩

end Evaluates

end Parlance
