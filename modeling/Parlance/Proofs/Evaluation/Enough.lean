import Mathlib.Data.Finset.Card
import Mathlib.Data.Finset.Prod
import Parlance.Parse.Parser
import Parlance.Proofs.Evaluation.Readers
import Parlance.Proofs.Peg.Remaining

/-! Without a bound on nesting, a parse that ends at all ends with the fuel that a parser gives it. A
rule that is run inside itself without moving on never ends, so in a run that ends the rules being
run at one time are all at different places, and there are only so many rules and places. -/

namespace Parlance

open ParseContext

def Script.Onward : Script → Prop
  | .yield _ | .mismatch | .abandon _ => True
  | .peek next => ∀ token, (next token).Onward
  | .ether next => ∀ tokens, (next tokens).Onward
  | .cursor next => ∀ position, (next position).Onward
  | .advance next => next.Onward
  | .rewind .. | .rule .. | .part .. => False

abbrev Pattern.Onward (pattern : Pattern) : Prop := pattern.ReadBy fun reader => reader.script.Onward

/-- Rules without a bound on nesting, whose readers go through the tokens and ask for nothing. -/
structure ParseContext.Onward (context : ParseContext) : Prop where
  unbounded : context.maxDepth = none
  readers : ∀ name body, Index.get? name context.rules = some body → body.Onward

variable {context : ParseContext}

theorem ParseState.advance_spec {tokens : Array Token} {state : ParseState}
    (within : state.position ≤ tokens.size) :
    (state.advance tokens).position ≤ tokens.size ∧
      state.position ≤ (state.advance tokens).position := by
  obtain ⟨rests, forward, -⟩ := state.cursor.advance_spec within
  exact ⟨rests.within, forward⟩

theorem Evaluates.onward (onward : context.Onward) {task : Task} {state after : ParseState}
    {outcome : Outcome} (evaluates : Evaluates context task state outcome after)
    (read : task.ReadBy (fun reader => reader.script.Onward) Script.Onward)
    (within : state.position ≤ context.tokens.size) :
    after.position ≤ context.tokens.size ∧
      ∀ value, outcome = .matched value → state.position ≤ after.position := by
  induction evaluates with
  | @token kind _ state =>
      unfold matchKind
      split
      · split
        · obtain ⟨inside, forward⟩ := ParseState.advance_spec within
          exact ⟨inside, fun _ _ => forward⟩
        · exact ⟨within, nofun⟩
      · exact ⟨within, nofun⟩
  | missing | tooDeep | noAlternatives | refuse | abandon => exact ⟨within, nofun⟩
  | empty | noTerms | yield => exact ⟨within, fun _ _ => Nat.le_refl _⟩
  | rule found _ _ ih => exact ih (onward.readers _ _ found) within
  | sequence _ ih => exact ih read.terms within
  | choice _ ih => exact ih read.alternatives within
  | begun _ _ ihFirst ihRounds =>
      obtain ⟨inside, forward⟩ := ihFirst read.repetition.1 within
      obtain ⟨insideToo, forwardToo⟩ := ihRounds read.repetition inside
      exact ⟨insideToo, fun value same => Nat.le_trans (forward _ rfl) (forwardToo value same)⟩
  | noneFound => exact ⟨within, fun _ _ => Nat.le_refl _⟩
  | oneMissing _ ih | firstBroken _ ih => exact ⟨(ih read.repetition.1 within).1, nofun⟩
  | @ignore _ _ inner _ _ ih =>
      obtain ⟨inside, forward⟩ := ih read.ignored within
      refine ⟨inside, fun value same => ?_⟩
      cases inner with
      | matched value => exact forward value rfl
      | mismatch | broken => cases same
  | @filter _ _ _ _ inner _ _ ih =>
      obtain ⟨inside, forward⟩ := ih read.filtered within
      refine ⟨inside, fun value same => ?_⟩
      cases inner with
      | matched value => exact forward value rfl
      | mismatch | broken => cases same
  | custom _ ih => exact ih read.reader within
  | nextTerm _ _ ihFirst ihRest =>
      obtain ⟨inside, forward⟩ := ihFirst (read _ (by simp)) within
      obtain ⟨insideToo, forwardToo⟩ :=
        ihRest (fun term member => read term (by simp [member])) inside
      exact ⟨insideToo, fun value same => Nat.le_trans (forward _ rfl) (forwardToo value same)⟩
  | termFails _ ih | termBroken _ ih => exact ⟨(ih (read _ (by simp)) within).1, nofun⟩
  | decided _ ih => exact ih (read _ (by simp)) within
  | nextAlternative _ _ _ ihRest =>
      exact ihRest (fun term member => read term (by simp [member])) within
  | alternativeBroken _ ih => exact ⟨(ih (read _ (by simp)) within).1, nofun⟩
  | nextRound _ _ _ _ ihParted ihAgain ihRounds =>
      obtain ⟨inside, forward⟩ := ihParted read.2 within
      obtain ⟨insideToo, forwardToo⟩ := ihAgain read.1 inside
      obtain ⟨insideLast, forwardLast⟩ := ihRounds read insideToo
      exact ⟨insideLast, fun value same =>
        Nat.le_trans (forward _ rfl) (Nat.le_trans (forwardToo _ rfl) (forwardLast value same))⟩
  | idleRound | lastBody | lastSeparator => exact ⟨within, fun _ _ => Nat.le_refl _⟩
  | bodyBroken _ _ ihParted ihAgain =>
      exact ⟨(ihAgain read.1 (ihParted read.2 within).1).1, nofun⟩
  | separatorBroken _ ih => exact ⟨(ih read.2 within).1, nofun⟩
  | peek _ ih | ether _ ih | cursor _ ih => exact ih (read _) within
  | advance _ ih =>
      obtain ⟨inside, forward⟩ := ParseState.advance_spec within
      obtain ⟨insideToo, forwardToo⟩ := ih read inside
      exact ⟨insideToo, fun value same => Nat.le_trans forward (forwardToo value same)⟩
  | rewind | askRule | askRuleBroken | askPart | askPartBroken | askNoPart => exact read.elim

theorem ParseContext.Onward.congruence (onward : context.Onward) :
    context.Congruence (fun state other => state.position = other.position) fun _ => True where
  position same := same
  marked _ := trivial
  advance {state other} same := by
    have same : state.cursor.position = other.cursor.position := same
    show (Cursor.advance context.tokens state.cursor).position =
      (Cursor.advance context.tokens other.cursor).position
    simp only [Cursor.advance, Cursor.restAt, same]
  rewind _ _ _ := rfl
  deeper same := same
  shallower same := same
  tooDeep _ := by simp only [ParseContext.tooDeep, onward.unbounded]

def Inside (tokens : Array Token) (state other : ParseState) : Prop :=
  state = other ∧ state.position ≤ tokens.size

theorem ParseContext.inside (context : ParseContext) :
    context.Congruence (Inside context.tokens) fun mark => mark ≤ context.tokens.size where
  position same := congrArg _ same.1
  marked same := same.2
  advance same := ⟨congrArg _ same.1, (ParseState.advance_spec same.2).1⟩
  rewind same _ marked := ⟨congrArg _ same.1, marked⟩
  deeper := by rintro state _ ⟨rfl, within⟩; exact ⟨rfl, within⟩
  shallower := by rintro state _ ⟨rfl, within⟩; exact ⟨rfl, within⟩
  tooDeep same := congrArg _ same.1

theorem Pattern.size_le_of_mem {part : Pattern} {parts : List Pattern} (member : part ∈ parts) :
    part.size ≤ (parts.flatMap Pattern.walk).length := by
  obtain ⟨before, after, rfl⟩ := List.append_of_mem member
  simp only [Pattern.size, List.flatMap_append, List.flatMap_cons, List.length_append]
  omega

theorem runRound_taken {fuel : Nat} {body : Pattern} {separator : Option Pattern}
    {state after : ParseState} {values : List Tree}
    (ends : runRound (context.run fuel) body separator state = some (.taken values after)) :
    ∃ between middle value, Evaluates context (.pattern (separator.getD .empty)) state
        (.matched between) middle ∧
      Evaluates context (.pattern body) middle (.matched value) after ∧
      after.position ≠ state.position := by
  obtain ⟨reached, middle, parted, comes⟩ := (context.sound_run fuel).runRound ends
  cases reached with
  | mismatch => cases comes
  | broken fault => cases comes
  | matched between =>
      simp only [runBody] at comes
      cases ran : context.run fuel body middle with
      | none => simp [ran] at comes
      | some last =>
          obtain ⟨reached, next⟩ := last
          have again := context.sound_run fuel _ _ _ _ ran
          rw [ran] at comes
          cases reached with
          | mismatch => cases comes
          | broken fault => cases comes
          | matched value =>
              simp only at comes
              split at comes
              · cases comes
              next moved =>
                cases comes
                exact ⟨between, middle, value, parted, again, moved⟩

/-- Every round that is taken moves on, so there are no more rounds than tokens left, and one. -/
theorem runRounds_grown (onward : context.Onward) {fuel : Nat} {wider : Runner} {body : Pattern}
    {separator : Option Pattern} (read : body.Onward) (readToo : (separator.getD .empty).Onward)
    {scope : Pattern → Prop} (inScope : scope body)
    (inScopeToo : ∀ part, separator = some part → scope part)
    (covers : Covers (Inside context.tokens) scope (context.run fuel) wider) {rounds more : Nat}
    {items : List Tree} {state after : ParseState} {outcome : Outcome}
    (within : state.position ≤ context.tokens.size)
    (room : context.tokens.size < more + state.position)
    (ends : runRounds (context.run fuel) body separator rounds items state =
      some (outcome, after)) :
    runRounds wider body separator more items state = some (outcome, after) := by
  induction rounds generalizing more items state with
  | zero => simp [runRounds] at ends
  | succ rounds ih =>
      obtain ⟨more, rfl⟩ : ∃ rest, more = rest + 1 := ⟨more - 1, by omega⟩
      simp only [runRounds] at ends ⊢
      cases ran : runRound (context.run fuel) body separator state with
      | none => simp [ran] at ends
      | some round =>
          obtain ⟨again, ranToo, same⟩ := runRound_covers covers context.inside inScope inScopeToo
            ⟨rfl, within⟩ ran
          rw [ran] at ends
          rw [ranToo]
          cases same with
          | taken same =>
              obtain ⟨rfl, within⟩ := same
              obtain ⟨_, _, _, parted, body, moved⟩ := runRound_taken ran
              obtain ⟨inside, forward⟩ := parted.onward onward readToo (by assumption)
              obtain ⟨-, forwardToo⟩ := body.onward onward read inside
              have forward := forward _ rfl
              have forwardToo := forwardToo _ rfl
              exact ih within (by omega) ends
          | stopped same => obtain ⟨rfl, -⟩ := same; exact ends
          | broken same => obtain ⟨rfl, -⟩ := same; exact ends

theorem runScript_onward {script : Script} (onward : script.Onward) (run wider : Runner)
    (parts : List Pattern) (state : ParseState) :
    context.runScript run parts script state = context.runScript wider parts script state := by
  induction script generalizing state with
  | yield | mismatch | abandon => rfl
  | peek next ih | ether next ih | cursor next ih => exact ih _ (onward _) _
  | advance next ih => exact ih onward _
  | rewind | rule | part => exact onward.elim

theorem covers_parts (onward : context.Onward) {parts : List Pattern}
    (read : ∀ part ∈ parts, part.Onward) {fuel room total : Nat}
    (smaller : ∀ part ∈ parts, part.size ≤ total)
    (each : ∀ part ∈ parts, ∀ state outcome after, state.position ≤ context.tokens.size →
      context.run fuel part state = some (outcome, after) →
      context.run (room + part.size) part state = some (outcome, after)) :
    Covers (Inside context.tokens) (· ∈ parts) (context.run fuel) (context.run (room + total)) := by
  rintro part member state _ ⟨rfl, within⟩ outcome after ends
  have grown := each part member state outcome after within ends
  have le : room + part.size ≤ room + total := Nat.add_le_add_left (smaller part member) room
  have inside := ((context.sound_run _ _ _ _ _ ends).onward onward (read part member) within).1
  exact ⟨after, context.run_mono le _ _ _ grown, rfl, inside⟩

section Growth

variable (onward : context.Onward) {bound room : Nat} (ample : context.tokens.size < room)
  (rulesGrow : ∀ name state result, state.position ≤ context.tokens.size →
    context.run bound (.rule name) state = some result →
    context.run room (.rule name) state = some result)

include onward ample rulesGrow

theorem run_grown (pattern : Pattern) (read : pattern.Onward) {fuel : Nat} (le : fuel ≤ bound)
    {state after : ParseState} {outcome : Outcome}
    (within : state.position ≤ context.tokens.size)
    (ends : context.run fuel pattern state = some (outcome, after)) :
    context.run (room + pattern.size) pattern state = some (outcome, after) := by
  induction pattern using Pattern.parts_induction generalizing fuel state outcome after with
  | rule name =>
      have grown := rulesGrow name state _ within (context.run_mono le _ _ _ ends)
      exact context.run_mono (Nat.le_add_right ..) _ _ _ grown
  | token | empty =>
      cases fuel with
      | zero => simp [ParseContext.run] at ends
      | succ fuel => exact ends
  | sequence terms ih =>
      cases fuel with
      | zero => simp [ParseContext.run] at ends
      | succ fuel =>
          have covers := covers_parts onward read.terms (fun _ => Pattern.size_le_of_mem)
            fun term member _ _ _ => ih term member (read.terms term member) (Nat.le_of_succ_le le)
          obtain ⟨_, ran, rfl, -⟩ := runSequence_covers covers (fun _ => id) ⟨rfl, within⟩ ends
          rw [Pattern.size, Pattern.walk_sequence]
          exact ran
  | choice alternatives ih =>
      cases fuel with
      | zero => simp [ParseContext.run] at ends
      | succ fuel =>
          have covers := covers_parts onward read.alternatives (fun _ => Pattern.size_le_of_mem)
            fun term member _ _ _ =>
              ih term member (read.alternatives term member) (Nat.le_of_succ_le le)
          obtain ⟨_, ran, rfl, -⟩ :=
            runChoice_covers covers context.inside (fun _ => id) ⟨rfl, within⟩ ends
          rw [Pattern.size, Pattern.walk_choice]
          exact ran
  | ignore term ih | filter term action arity ih =>
      cases fuel with
      | zero => simp [ParseContext.run] at ends
      | succ fuel =>
          have inner : term.Onward := read.of_subset (by simp [Pattern.walk])
          have covers : Covers (Inside context.tokens) (· ∈ [term]) (context.run fuel)
              (context.run (room + term.size)) := by
            refine covers_parts onward (by simpa using inner) (by simp) fun part member _ _ _ => ?_
            obtain rfl := List.mem_singleton.mp member
            exact ih inner (Nat.le_of_succ_le le)
          obtain ⟨_, ran, rfl, -⟩ :=
            mapMatched_covers covers (List.mem_singleton_self _) ⟨rfl, within⟩ ends
          exact ran
  | custom reader parts =>
      cases fuel with
      | zero => simp [ParseContext.run] at ends
      | succ fuel =>
          rw [Pattern.size, Pattern.walk_custom]
          exact (runScript_onward read.reader ..).trans ends
  | repetition body separator allowEmpty ihBody ihSeparator =>
      cases fuel with
      | zero => simp [ParseContext.run] at ends
      | succ fuel =>
          obtain ⟨readBody, readToo⟩ := read.repetition
          have listed (part : Pattern) :
              part ∈ body :: separator.toList ↔ part = body ∨ separator = some part := by
            cases separator <;> simp [eq_comm]
          obtain ⟨total, same⟩ : ∃ total, total = body.size + (separator.elim [] Pattern.walk).length :=
            ⟨_, rfl⟩
          have size : (Pattern.repetition body separator allowEmpty).size = total + 1 := by
            rw [Pattern.size, Pattern.walk_repetition, List.length_cons, List.length_append, same]
            rfl
          have covers : Covers (Inside context.tokens) (· ∈ body :: separator.toList)
              (context.run fuel) (context.run (room + total)) := by
            rw [same]
            refine covers_parts onward (fun part member => ?_) (fun part member => ?_)
              fun part member _ _ _ => ?_ <;> rcases (listed part).mp member with rfl | rfl
            · exact readBody
            · exact readToo
            · exact Nat.le_add_right ..
            · exact Nat.le_add_left ..
            · exact ihBody readBody (Nat.le_of_succ_le le)
            · exact ihSeparator part rfl readToo (Nat.le_of_succ_le le)
          have inScope : body ∈ body :: separator.toList := (listed body).mpr (.inl rfl)
          have inScopeToo (part : Pattern) (same : separator = some part) :
              part ∈ body :: separator.toList := (listed part).mpr (.inr same)
          rw [size, ← Nat.add_assoc]
          simp only [ParseContext.run, step, runRepetition] at ends ⊢
          cases ran : context.run fuel body state with
          | none => simp [ran] at ends
          | some first =>
              obtain ⟨reached, middle⟩ := first
              obtain ⟨_, ranToo, rfl, inside⟩ := covers body inScope _ _ ⟨rfl, within⟩ _ _ ran
              rw [ran] at ends
              rw [ranToo]
              cases reached with
              | matched value =>
                  exact runRounds_grown onward readBody readToo inScope inScopeToo covers inside
                    (by omega) ends
              | mismatch => exact ends
              | broken fault => exact ends

end Growth

def ParseContext.Finishes (context : ParseContext) (fuel : Nat) (call : String × Nat) : Prop :=
  ∃ state, state.position = call.2 ∧ ∃ result, context.run fuel (.rule call.1) state = some result

open Classical in
/-- The calls of rules, at all places, that finish with this much fuel. -/
noncomputable def ParseContext.finished (context : ParseContext) (fuel : Nat) :
    Finset (String × Nat) :=
  ((context.rules.map Prod.fst).toFinset ×ˢ Finset.range (context.tokens.size + 1)).filter
    (context.Finishes fuel)

theorem mem_finished_iff {fuel : Nat} {call : String × Nat} :
    call ∈ context.finished fuel ↔
      (call.1 ∈ context.rules.map Prod.fst ∧ call.2 ≤ context.tokens.size) ∧
        context.Finishes fuel call := by
  classical
  unfold ParseContext.finished
  rw [Finset.mem_filter, Finset.mem_product, List.mem_toFinset, Finset.mem_range,
    Nat.lt_succ_iff]

theorem mem_finished {fuel : Nat} {name : String} {body : Pattern} {state : ParseState}
    (found : Index.get? name context.rules = some body)
    (within : state.position ≤ context.tokens.size) :
    (name, state.position) ∈ context.finished fuel ↔ context.Finishes fuel (name, state.position) := by
  have listed : name ∈ context.rules.map Prod.fst :=
    List.mem_map.mpr ⟨(name, body), Index.mem_of_get? found, rfl⟩
  rw [mem_finished_iff]
  exact and_iff_right ⟨listed, within⟩

theorem finished_mono (fuel : Nat) : context.finished fuel ⊆ context.finished (fuel + 1) := by
  intro call member
  rw [mem_finished_iff] at member ⊢
  obtain ⟨known, state, here, result, ends⟩ := member
  exact ⟨known, state, here, result, context.run_mono (Nat.le_succ fuel) _ _ _ ends⟩

theorem card_finished_le (fuel : Nat) :
    (context.finished fuel).card ≤ context.rules.length * (context.tokens.size + 1) := by
  classical
  calc (context.finished fuel).card
      ≤ ((context.rules.map Prod.fst).toFinset ×ˢ
          Finset.range (context.tokens.size + 1)).card := Finset.card_filter_le _ _
    _ = (context.rules.map Prod.fst).toFinset.card * (context.tokens.size + 1) := by
        rw [Finset.card_product, Finset.card_range]
    _ ≤ context.rules.length * (context.tokens.size + 1) := by
        refine Nat.mul_le_mul_right _ ?_
        simpa using List.toFinset_card_le (context.rules.map Prod.fst)

def ParseContext.budget (context : ParseContext) (width calls : Nat) : Nat :=
  context.tokens.size + 1 + calls * (width + 1)

theorem budget_mono {width calls more : Nat} (le : calls ≤ more) :
    context.budget width calls ≤ context.budget width more :=
  Nat.add_le_add_left (Nat.mul_le_mul_right _ le) _

theorem rule_grown (onward : context.Onward) {width : Nat}
    (narrow : ∀ name body, Index.get? name context.rules = some body → body.size ≤ width)
    (fuel : Nat) (name : String) (state : ParseState) (result : Outcome × ParseState)
    (within : state.position ≤ context.tokens.size)
    (ends : context.run fuel (.rule name) state = some result) :
    context.run (context.budget width (context.finished fuel).card) (.rule name) state =
      some result := by
  induction fuel generalizing name state result with
  | zero => simp [ParseContext.run] at ends
  | succ fuel ih =>
      cases found : Index.get? name context.rules with
      | none =>
          obtain ⟨less, same⟩ : ∃ less,
              context.budget width (context.finished (fuel + 1)).card = less + 1 :=
            ⟨context.tokens.size + (context.finished (fuel + 1)).card * (width + 1), by
              unfold ParseContext.budget; omega⟩
          rw [same]
          simp only [ParseContext.run, step, runRule, found] at ends ⊢
          exact ends
      | some body =>
          by_cases known : context.Finishes fuel (name, state.position)
          · obtain ⟨other, here, ⟨outcome, after⟩, earlier⟩ := known
            obtain ⟨left, ran, -⟩ := run_covers onward.congruence (Nat.le_refl fuel) _ trivial
              other state here _ _ earlier
            rw [context.run_unique ends ran]
            refine context.run_mono (budget_mono ?_) _ _ _ (ih name state _ within ran)
            exact Finset.card_le_card (finished_mono fuel)
          · -- the call is new, so those that finish before it are fewer
            have fewer : (context.finished fuel).card + 1 ≤ (context.finished (fuel + 1)).card := by
              refine Finset.card_lt_card (Finset.ssubset_iff_of_subset (finished_mono fuel) |>.mpr ?_)
              exact ⟨(name, state.position),
                (mem_finished found within).mpr ⟨state, rfl, result, ends⟩,
                fun member => known ((mem_finished found within).mp member)⟩
            have room : context.budget width (context.finished fuel).card + body.size + 1 ≤
                context.budget width (context.finished (fuel + 1)).card := by
              have le := narrow name body found
              have more : context.budget width _ ≤ context.budget width _ := budget_mono fewer
              unfold ParseContext.budget at more ⊢
              rw [Nat.add_mul] at more
              omega
            refine context.run_mono room _ _ _ ?_
            simp only [ParseContext.run, step, runRule, found] at ends ⊢
            split at ends
            next deep => rw [if_pos deep]; exact ends
            next shallow =>
              rw [if_neg shallow]
              obtain ⟨⟨outcome, after⟩, ran, comes⟩ := Option.map_eq_some_iff.mp ends
              have ample : context.tokens.size <
                  context.budget width (context.finished fuel).card := by
                unfold ParseContext.budget; omega
              have grown := run_grown onward ample ih body (onward.readers name body found)
                (Nat.le_refl fuel) (show state.deeper.position ≤ _ from within) ran
              exact (congrArg (Option.map _) grown).trans (congrArg some comes)

theorem Parser.le_foldl_widest (patterns : List Pattern) (widest : Nat) :
    widest ≤ patterns.foldl (fun widest pattern => max widest pattern.size) widest := by
  induction patterns generalizing widest with
  | nil => exact Nat.le_refl _
  | cons pattern rest ih => exact Nat.le_trans (Nat.le_max_left _ _) (ih _)

theorem Parser.size_le_widest {patterns : List Pattern} {pattern : Pattern}
    (member : pattern ∈ patterns) : pattern.size ≤ Parser.widest patterns := by
  obtain ⟨before, after, rfl⟩ := List.append_of_mem member
  unfold Parser.widest
  rw [List.foldl_append, List.foldl_cons]
  exact Nat.le_trans (Nat.le_max_right _ _) (Parser.le_foldl_widest after _)

/-- A rule that comes to something does so with enough fuel. -/
theorem run_enough (onward : context.Onward) {fuel : Nat} {name : String} {state : ParseState}
    {result : Outcome × ParseState} (within : state.position ≤ context.tokens.size)
    (ends : context.run fuel (.rule name) state = some result) :
    context.run (context.enoughFuel (.rule name)) (.rule name) state = some result := by
  obtain ⟨width, wide⟩ : ∃ width,
      width = Parser.widest (.rule name :: context.rules.map Prod.snd) := ⟨_, rfl⟩
  have narrow (other : String) (body : Pattern)
      (found : Index.get? other context.rules = some body) : body.size ≤ width := by
    rw [wide]
    exact Parser.size_le_widest (List.mem_cons_of_mem _
      (List.mem_map.mpr ⟨(other, body), Index.mem_of_get? found, rfl⟩))
  have grown := rule_grown onward narrow fuel name state result within ends
  refine context.run_mono (Nat.le_trans (budget_mono (card_finished_le fuel)) ?_) _ _ _ grown
  have product : context.rules.length * (context.tokens.size + 1) * (width + 1) ≤
      (context.tokens.size + 2) * (context.rules.length + 2) * (width + 2) := by
    rw [Nat.mul_comm context.rules.length]
    gcongr <;> omega
  simp only [ParseContext.budget, ParseContext.enoughFuel, onward.unbounded, ← wide]
  omega

/-- What a parse comes to with any fuel, it comes to with the fuel that it is given. -/
theorem Parser.run_of_runWith {parser : Parser} {tokens : List Token}
    (onward : (parser.context tokens).Onward) {fuel : Nat} {start : String}
    {origin : Option String} {traced : Bool} {verdict : Verdict}
    (ends : parser.runWith fuel start tokens origin traced = some verdict) :
    parser.run start tokens origin traced = some verdict := by
  obtain ⟨result, ran, rfl⟩ := Option.map_eq_some_iff.mp ends
  have within : ParseState.position ⟨.start tokens.toArray traced, 0⟩ ≤ tokens.toArray.size :=
    (Cursor.start_spec tokens.toArray traced).1.within
  exact congrArg (Option.map _) (run_enough onward within ran)

end Parlance
