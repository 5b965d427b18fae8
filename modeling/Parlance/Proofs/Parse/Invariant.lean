import Parlance.Proofs.Evaluation.Layers
import Parlance.Proofs.Parse.Locality

/-! Invariants of a parse. What is kept by each move of the cursor, and where a rule is entered and
left, is kept by every evaluation, whatever its outcome, and holds wherever something is begun inside
it. Handlers are trusted with one thing: they go back only to where they have been. -/

namespace Parlance

open ParseContext
open Relation (ReflTransGen)

/-- Kept by every move of the cursor, and where a rule is entered and left. -/
structure ParseContext.Invariant (context : ParseContext) (good : ParseState → Prop) : Prop where
  advance : ∀ {state}, good state → good (state.advance context.tokens)
  back : ∀ {state after}, good state → good after →
    state.cursor.highWater ≤ after.cursor.highWater → good (after.rewind state.position)
  deeper : ∀ {state}, good state → good state.deeper
  shallower : ∀ {state}, good state → good state.shallower

/-- Its custom patterns go back only to where they have been. -/
abbrev Pattern.Tethered (pattern : Pattern) : Prop :=
  pattern.ReadBy fun reader => reader.script.Tethered fun _ => False

/-- The custom patterns of all rules go back only to where they have been. -/
def ParseContext.Tethered (context : ParseContext) : Prop :=
  ∀ name body, Index.get? name context.rules = some body → body.Tethered

theorem Grammar.Tethered.context {parser : Parser} {tokens : List Token}
    (tethered : parser.grammar.Tethered) : (parser.context tokens).Tethered :=
  Grammar.ReadBy.normalized tethered

variable {context : ParseContext} {good : ParseState → Prop} {state after begun : ParseState}
  {outcome : Outcome} {task inner : Task}

def Marked (good : ParseState → Prop) (state : ParseState) (mark : Nat) : Prop :=
  ∃ earlier, good earlier ∧ earlier.position = mark ∧
    earlier.cursor.highWater ≤ state.cursor.highWater

theorem Marked.later {mark : Nat} (marked : Marked good state mark)
    (le : state.cursor.highWater ≤ after.cursor.highWater) : Marked good after mark := by
  obtain ⟨earlier, held, here, below⟩ := marked
  exact ⟨earlier, held, here, Nat.le_trans below le⟩

theorem Marked.back (invariant : context.Invariant good) {mark : Nat}
    (marked : Marked good state mark) (here : good state) : good (state.rewind mark) := by
  obtain ⟨earlier, held, rfl, below⟩ := marked
  exact invariant.back held here below

/-- A script that goes back only to the places of good states. -/
def Script.Heeds (good : ParseState → Prop) (state : ParseState) (requests : Script) : Prop :=
  requests.Tethered (Marked good state)

theorem Script.Heeds.of_tethered {requests : Script}
    (tethered : requests.Tethered fun _ => False) : requests.Heeds good state :=
  tethered.mono fun _ => False.elim

theorem Script.Heeds.cursor {next : Nat → Script} (heeds : (Script.cursor next).Heeds good state)
    (here : good state) : (next state.position).Heeds good state :=
  (heeds state.position).mono fun _ marked =>
    marked.elim id fun same => ⟨state, here, same.symm, Nat.le_refl _⟩

theorem Script.Heeds.advance {next : Script} {tokens : Array Token}
    (heeds : (Script.advance next).Heeds good state) : next.Heeds good (state.advance tokens) :=
  Script.Tethered.mono heeds fun _ marked =>
    marked.later (ParseState.highWater_le_advance tokens state)

theorem Script.Heeds.ruleAnswered {name : String} {next : Option Tree → Script}
    (heeds : (Script.rule name next).Heeds good state)
    (le : state.cursor.highWater ≤ after.cursor.highWater) (answer : Option Tree) :
    (next answer).Heeds good after :=
  (heeds answer).mono fun _ marked => marked.later le

theorem Script.Heeds.partAnswered {index : Nat} {next : Option Tree → Script}
    (heeds : (Script.part index next).Heeds good state)
    (le : state.cursor.highWater ≤ after.cursor.highWater) (answer : Option Tree) :
    (next answer).Heeds good after :=
  (heeds answer).mono fun _ marked => marked.later le

/-- The custom patterns that a task may run, and the script that it runs, go back only to where the
parse has been. -/
abbrev Task.Heeds (good : ParseState → Prop) (state : ParseState) (task : Task) : Prop :=
  task.Heeded (fun reader => reader.script.Tethered fun _ => False) (Script.Heeds good state)

/-- An evaluation keeps what every move keeps, whatever its outcome. -/
theorem Evaluates.keeps (invariant : context.Invariant good) (tethered : context.Tethered)
    (evaluates : Evaluates context task state outcome after) (heeds : task.Heeds good state)
    (here : good state) : good after := by
  -- A script may go back to any good state it has come through, and the high-water mark has not
  -- fallen since; all others go back to where their own evaluation began.
  induction evaluates with
  | token =>
      unfold matchKind
      split
      · split
        · exact invariant.advance here
        · exact here
      · exact here
  | missing | tooDeep | empty | noTerms | noAlternatives | yield | refuse | abandon => exact here
  | rule found _ _ ih =>
      exact invariant.shallower (ih (tethered _ _ found) (invariant.deeper here))
  | sequence _ ih => exact ih (Pattern.ReadBy.terms heeds) here
  | choice _ ih => exact ih (Pattern.ReadBy.alternatives heeds) here
  | begun _ _ ihFirst ihRounds =>
      have reads := Pattern.ReadBy.repetition heeds
      exact ihRounds reads (ihFirst reads.1 here)
  | noneFound first ih =>
      exact invariant.back here (ih (Pattern.ReadBy.repetition heeds).1 here) first.highWater_le
  | oneMissing _ ih | firstBroken _ ih => exact ih (Pattern.ReadBy.repetition heeds).1 here
  | ignore _ ih => exact ih (Pattern.ReadBy.ignored heeds) here
  | filter _ ih => exact ih (Pattern.ReadBy.filtered heeds) here
  | custom _ ih =>
      exact ih ⟨.of_tethered (Pattern.ReadBy.reader heeds), Pattern.ReadBy.parts heeds⟩ here
  | nextTerm _ _ ihFirst ihRest =>
      exact ihRest (fun term member => heeds term (by simp [member]))
        (ihFirst (heeds _ (by simp)) here)
  | termFails _ ih | termBroken _ ih | decided _ ih | alternativeBroken _ ih =>
      exact ih (heeds _ (by simp)) here
  | nextAlternative first _ ihFirst ihRest =>
      exact ihRest (fun term member => heeds term (by simp [member]))
        (invariant.back here (ihFirst (heeds _ (by simp)) here) first.highWater_le)
  | nextRound _ _ _ _ ihParted ihAgain ihRounds =>
      exact ihRounds heeds (ihAgain heeds.1 (ihParted heeds.2 here))
  | idleRound parted again _ ihParted ihAgain | lastBody parted again ihParted ihAgain =>
      exact invariant.back here (ihAgain heeds.1 (ihParted heeds.2 here))
        (Nat.le_trans parted.highWater_le again.highWater_le)
  | lastSeparator parted ih =>
      exact invariant.back here (ih heeds.2 here) parted.highWater_le
  | bodyBroken _ _ ihParted ihAgain => exact ihAgain heeds.1 (ihParted heeds.2 here)
  | separatorBroken _ ih => exact ih heeds.2 here
  | peek _ ih | ether _ ih => exact ih ⟨heeds.1 _, heeds.2⟩ here
  | cursor _ ih => exact ih ⟨heeds.1.cursor here, heeds.2⟩ here
  | advance _ ih => exact ih ⟨heeds.1.advance, heeds.2⟩ (invariant.advance here)
  | rewind _ ih => exact ih ⟨heeds.1.2, heeds.2⟩ (heeds.1.1.back invariant here)
  | askRule asked _ _ ihAsked ihRest =>
      exact ihRest ⟨heeds.1.ruleAnswered asked.highWater_le _, heeds.2⟩
        (ihAsked Pattern.ReadBy.of_rule here)
  | askRuleBroken _ ih => exact ih Pattern.ReadBy.of_rule here
  | askPart listed asked _ _ ihAsked ihRest =>
      exact ihRest ⟨heeds.1.partAnswered asked.highWater_le _, heeds.2⟩
        (ihAsked (heeds.2 _ (List.mem_of_getElem? listed)) here)
  | askPartBroken listed _ ih => exact ih (heeds.2 _ (List.mem_of_getElem? listed)) here
  | askNoPart _ _ ih => exact ih ⟨heeds.1 none, heeds.2⟩ here

theorem Begins.keeps (invariant : context.Invariant good) (tethered : context.Tethered)
    (begins : Begins context (task, state) (inner, begun)) (heeds : task.Heeds good state)
    (here : good state) : inner.Heeds good begun ∧ good begun := by
  cases begins with
  | rule found _ => exact ⟨tethered _ _ found, invariant.deeper here⟩
  | sequence => exact ⟨Pattern.ReadBy.terms heeds, here⟩
  | choice => exact ⟨Pattern.ReadBy.alternatives heeds, here⟩
  | firstBody => exact ⟨(Pattern.ReadBy.repetition heeds).1, here⟩
  | firstRound first =>
      have reads := Pattern.ReadBy.repetition heeds
      exact ⟨reads, first.keeps invariant tethered reads.1 here⟩
  | ignore => exact ⟨Pattern.ReadBy.ignored heeds, here⟩
  | filter => exact ⟨Pattern.ReadBy.filtered heeds, here⟩
  | custom => exact ⟨⟨.of_tethered (Pattern.ReadBy.reader heeds), Pattern.ReadBy.parts heeds⟩, here⟩
  | firstTerm | firstAlternative => exact ⟨heeds _ (by simp), here⟩
  | nextTerm first =>
      exact ⟨fun term member => heeds term (by simp [member]),
        first.keeps invariant tethered (heeds _ (by simp)) here⟩
  | nextAlternative first =>
      have left := first.keeps invariant tethered (heeds _ (by simp)) here
      exact ⟨fun term member => heeds term (by simp [member]),
        invariant.back here left first.highWater_le⟩
  | separator => exact ⟨heeds.2, here⟩
  | nextBody parted => exact ⟨heeds.1, parted.keeps invariant tethered heeds.2 here⟩
  | nextRound parted again _ =>
      exact ⟨heeds, again.keeps invariant tethered heeds.1
        (parted.keeps invariant tethered heeds.2 here)⟩
  | peek | ether => exact ⟨⟨heeds.1 _, heeds.2⟩, here⟩
  | cursor => exact ⟨⟨heeds.1.cursor here, heeds.2⟩, here⟩
  | advance => exact ⟨⟨heeds.1.advance, heeds.2⟩, invariant.advance here⟩
  | rewind => exact ⟨⟨heeds.1.2, heeds.2⟩, heeds.1.1.back invariant here⟩
  | askRule => exact ⟨Pattern.ReadBy.of_rule, here⟩
  | ruleAnswered asked _ =>
      exact ⟨⟨heeds.1.ruleAnswered asked.highWater_le _, heeds.2⟩,
        asked.keeps invariant tethered Pattern.ReadBy.of_rule here⟩
  | askPart listed => exact ⟨heeds.2 _ (List.mem_of_getElem? listed), here⟩
  | partAnswered listed asked _ =>
      exact ⟨⟨heeds.1.partAnswered asked.highWater_le _, heeds.2⟩,
        asked.keeps invariant tethered (heeds.2 _ (List.mem_of_getElem? listed)) here⟩
  | noPart => exact ⟨⟨heeds.1 none, heeds.2⟩, here⟩

theorem Begins.keeps_within (invariant : context.Invariant good) (tethered : context.Tethered)
    (heeds : task.Heeds good state) (here : good state)
    (leads : ReflTransGen (Begins context) (task, state) (inner, begun)) :
    inner.Heeds good begun ∧ good begun := by
  generalize same : (inner, begun) = last at leads
  induction leads generalizing inner begun with
  | refl => cases same; exact ⟨heeds, here⟩
  | @tail middle _ _ begins ih =>
      obtain ⟨between, there⟩ := middle
      cases same
      obtain ⟨heeds, here⟩ := ih rfl
      exact begins.keeps invariant tethered heeds here

theorem ParseState.le_advance (tokens : Array Token) (state : ParseState) :
    state.position ≤ (state.advance tokens).position := by
  refine Nat.le_trans ?_ (Cursor.le_pastEther _ _)
  show state.cursor.position ≤ _
  split
  · exact Nat.le_succ _
  · exact Nat.le_refl _

theorem ParseState.advance_le {tokens : Array Token} {state : ParseState} {limit : Nat}
    (within : state.position ≤ limit) (room : tokens.size ≤ limit) :
    (state.advance tokens).position ≤ limit := by
  by_cases inside : state.position ≤ tokens.size
  · exact Nat.le_trans (ParseState.advance_spec inside).1 room
  · have beyond : ¬ state.cursor.position < tokens.size := by
      have : state.cursor.position = state.position := rfl
      omega
    have none : tokens.size - state.cursor.position = 0 := by omega
    have stays : (state.advance tokens).position = state.position := by
      simp only [ParseState.advance, ParseState.position, Cursor.advance, Cursor.restAt,
        if_neg beyond, none, Cursor.pastEther]
    omega

theorem ParseContext.invariant_from (context : ParseContext) (start : Nat) :
    context.Invariant (start ≤ ·.position) where
  advance here := Nat.le_trans here (ParseState.le_advance _ _)
  back here _ _ := here
  deeper here := here
  shallower here := here

/-- Nothing goes past a place that is no less than the number of the tokens. -/
theorem ParseContext.invariant_within (context : ParseContext) {limit : Nat}
    (room : context.tokens.size ≤ limit) : context.Invariant (·.position ≤ limit) where
  advance here := ParseState.advance_le here room
  back here _ _ := here
  deeper here := here
  shallower here := here

theorem ParseContext.invariant_rests (context : ParseContext) :
    context.Invariant context.RestsAt where
  advance here := ParseState.rests_advance here.within
  back here _ _ := here
  deeper here := here
  shallower here := here

theorem ParseContext.invariant_highWater (context : ParseContext) :
    context.Invariant fun state => state.position ≤ state.cursor.highWater where
  advance _ := Nat.le_max_right _ _
  back here _ le := Nat.le_trans here le
  deeper here := here
  shallower here := here

end Parlance
