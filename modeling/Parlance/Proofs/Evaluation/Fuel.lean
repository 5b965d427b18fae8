import Parlance.Parse.Evaluate

/-! What a run comes to is kept when it is given another runner, or another state that parsing cannot
tell from its own. With the same state and more fuel this says that more fuel never changes the
result of a run that ends. -/

namespace Parlance.ParseContext

/-- A relation between states that no step of a run tells apart, as long as the cursor goes back to
certain marks only. -/
structure Congruence (context : ParseContext) (alike : ParseState → ParseState → Prop)
    (marks : Nat → Prop) : Prop where
  position : ∀ {state other}, alike state other → state.position = other.position
  marked : ∀ {state other}, alike state other → marks state.position
  advance : ∀ {state other}, alike state other →
    alike (state.advance context.tokens) (other.advance context.tokens)
  rewind : ∀ {state other}, alike state other → ∀ {mark}, marks mark →
    alike (state.rewind mark) (other.rewind mark)
  deeper : ∀ {state other}, alike state other →
    alike { state with depth := state.depth + 1 } { other with depth := other.depth + 1 }
  shallower : ∀ {state other}, alike state other →
    alike { state with depth := state.depth - 1 } { other with depth := other.depth - 1 }
  tooDeep : ∀ {state other}, alike state other → context.tooDeep state = context.tooDeep other

theorem Congruence.eq (context : ParseContext) : context.Congruence Eq fun _ => True where
  position := congrArg _
  marked _ := trivial
  advance := congrArg _
  rewind same _ _ := congrArg _ same
  deeper := by rintro state _ rfl; rfl
  shallower := by rintro state _ rfl; rfl
  tooDeep := congrArg _

theorem Congruence.flip {context : ParseContext} {alike : ParseState → ParseState → Prop}
    {marks : Nat → Prop} (congruence : context.Congruence alike marks) :
    context.Congruence (fun state other => alike other state) marks where
  position same := (congruence.position same).symm
  marked same := congruence.position same ▸ congruence.marked same
  advance same := congruence.advance same
  rewind same _ marked := congruence.rewind same marked
  deeper same := congruence.deeper same
  shallower same := congruence.shallower same
  tooDeep same := (congruence.tooDeep same).symm

/-- Whatever the first runner comes to on the patterns in scope, the second comes to as well from
states that are alike, and the states after it are alike again. -/
def Covers (alike : ParseState → ParseState → Prop) (scope : Pattern → Prop)
    (run wider : Runner) : Prop :=
  ∀ pattern, scope pattern → ∀ state other, alike state other →
    ∀ outcome after, run pattern state = some (outcome, after) →
      ∃ left, wider pattern other = some (outcome, left) ∧ alike after left

inductive Round.Alike (alike : ParseState → ParseState → Prop) : Round → Round → Prop where
  | taken {values state other} (same : alike state other) :
      Alike alike (.taken values state) (.taken values other)
  | stopped {state other} (same : alike state other) : Alike alike (.stopped state) (.stopped other)
  | broken {fault state other} (same : alike state other) :
      Alike alike (.broken fault state) (.broken fault other)

section Covers

variable {context : ParseContext} {alike : ParseState → ParseState → Prop}
  {scope : Pattern → Prop} {run wider : Runner} (covers : Covers alike scope run wider)
  {state other after : ParseState} {outcome : Outcome}

include covers

theorem runSequence_covers {terms : List Pattern} (inScope : ∀ term ∈ terms, scope term)
    {kept : List Tree} (same : alike state other)
    (ends : runSequence run terms kept state = some (outcome, after)) :
    ∃ left, runSequence wider terms kept other = some (outcome, left) ∧ alike after left := by
  induction terms generalizing kept state other with
  | nil =>
      simp only [runSequence, Option.some.injEq, Prod.mk.injEq] at ends ⊢
      obtain ⟨rfl, rfl⟩ := ends
      exact ⟨other, ⟨rfl, rfl⟩, same⟩
  | cons term rest ih =>
      simp only [runSequence] at ends ⊢
      cases ran : run term state with
      | none => simp [ran] at ends
      | some first =>
          obtain ⟨reached, middle⟩ := first
          obtain ⟨left, ranToo, same⟩ := covers term (inScope term (by simp)) _ _ same _ _ ran
          rw [ran] at ends
          rw [ranToo]
          cases reached with
          | matched value => exact ih (fun term member => inScope term (by simp [member])) same ends
          | mismatch => cases ends; exact ⟨left, rfl, same⟩
          | broken fault => cases ends; exact ⟨left, rfl, same⟩

theorem mapMatched_covers {change : Tree → Tree} {pattern : Pattern} (inScope : scope pattern)
    (same : alike state other)
    (ends : mapMatched change (run pattern state) = some (outcome, after)) :
    ∃ left, mapMatched change (wider pattern other) = some (outcome, left) ∧ alike after left := by
  cases ran : run pattern state with
  | none => simp [ran, mapMatched] at ends
  | some first =>
      obtain ⟨reached, middle⟩ := first
      obtain ⟨left, ranToo, same⟩ := covers pattern inScope _ _ same _ _ ran
      rw [ran] at ends
      rw [ranToo]
      cases reached <;> cases ends <;> exact ⟨left, rfl, same⟩

variable {marks : Nat → Prop} (congruence : context.Congruence alike marks)

include congruence

theorem runRule_covers {name : String}
    (inScope : ∀ body, Index.get? name context.rules = some body → scope body)
    (same : alike state other) (ends : context.runRule run name state = some (outcome, after)) :
    ∃ left, context.runRule wider name other = some (outcome, left) ∧ alike after left := by
  unfold runRule at ends ⊢
  cases found : Index.get? name context.rules with
  | none =>
      simp only [found, Option.some.injEq, Prod.mk.injEq] at ends ⊢
      obtain ⟨rfl, rfl⟩ := ends
      exact ⟨other, ⟨rfl, rfl⟩, same⟩
  | some body =>
      simp only [found] at ends ⊢
      rw [congruence.tooDeep same] at ends
      split at ends
      next deep =>
        simp only [if_pos deep, Option.some.injEq, Prod.mk.injEq] at ends ⊢
        obtain ⟨rfl, rfl⟩ := ends
        exact ⟨other, ⟨rfl, rfl⟩, same⟩
      next shallow =>
        obtain ⟨⟨inner, last⟩, ran, comes⟩ := Option.map_eq_some_iff.mp ends
        simp only [Prod.mk.injEq] at comes
        obtain ⟨rfl, rfl⟩ := comes
        obtain ⟨left, ran, kept⟩ := covers body (inScope body found) _ _ (congruence.deeper same) _ _ ran
        rw [if_neg shallow, ran]
        exact ⟨_, rfl, congruence.shallower kept⟩

theorem runChoice_covers {alternatives : List Pattern}
    (inScope : ∀ alternative ∈ alternatives, scope alternative) (same : alike state other)
    (ends : runChoice run alternatives state = some (outcome, after)) :
    ∃ left, runChoice wider alternatives other = some (outcome, left) ∧ alike after left := by
  induction alternatives generalizing state other with
  | nil => cases ends; exact ⟨other, rfl, same⟩
  | cons alternative rest ih =>
      simp only [runChoice] at ends ⊢
      cases ran : run alternative state with
      | none => simp [ran] at ends
      | some first =>
          obtain ⟨reached, middle⟩ := first
          obtain ⟨left, ranToo, sameToo⟩ :=
            covers alternative (inScope alternative (by simp)) _ _ same _ _ ran
          rw [ran] at ends
          rw [ranToo]
          cases reached with
          | mismatch =>
              rw [← congruence.position same]
              exact ih (fun term member => inScope term (by simp [member]))
                (congruence.rewind sameToo (congruence.marked same)) ends
          | matched value => cases ends; exact ⟨left, rfl, sameToo⟩
          | broken fault => cases ends; exact ⟨left, rfl, sameToo⟩

theorem runBody_covers {body : Pattern} (inScope : scope body) {mark : Nat} (marked : marks mark)
    {values : List Tree} {round : Round} (same : alike state other)
    (ends : runBody run body mark values state = some round) :
    ∃ again, runBody wider body mark values other = some again ∧ Round.Alike alike round again := by
  unfold runBody at ends ⊢
  cases ran : run body state with
  | none => simp [ran] at ends
  | some first =>
      obtain ⟨reached, middle⟩ := first
      obtain ⟨left, ranToo, same⟩ := covers body inScope _ _ same _ _ ran
      rw [ran] at ends
      rw [ranToo]
      cases reached with
      | matched value =>
          simp only at ends ⊢
          rw [← congruence.position same]
          split at ends
          next still => cases ends; exact ⟨_, if_pos still, .stopped (congruence.rewind same marked)⟩
          next moved => cases ends; exact ⟨_, if_neg moved, .taken same⟩
      | mismatch => cases ends; exact ⟨_, rfl, .stopped (congruence.rewind same marked)⟩
      | broken fault => cases ends; exact ⟨_, rfl, .broken same⟩

theorem runRound_covers {body : Pattern} {separator : Option Pattern} (inScope : scope body)
    (inScopeToo : ∀ part, separator = some part → scope part) {round : Round}
    (same : alike state other) (ends : runRound run body separator state = some round) :
    ∃ again, runRound wider body separator other = some again ∧ Round.Alike alike round again := by
  cases separator with
  | none =>
      simp only [runRound] at ends ⊢
      rw [← congruence.position same]
      exact runBody_covers covers congruence inScope (congruence.marked same) same ends
  | some separator =>
      simp only [runRound] at ends ⊢
      cases ran : run separator state with
      | none => simp [ran] at ends
      | some first =>
          obtain ⟨reached, middle⟩ := first
          obtain ⟨left, ranToo, sameToo⟩ := covers separator (inScopeToo separator rfl) _ _ same _ _ ran
          rw [ran] at ends
          rw [ranToo, ← congruence.position same]
          cases reached with
          | matched value =>
              exact runBody_covers covers congruence inScope (congruence.marked same) sameToo ends
          | mismatch =>
              cases ends
              exact ⟨_, rfl, .stopped (congruence.rewind sameToo (congruence.marked same))⟩
          | broken fault => cases ends; exact ⟨_, rfl, .broken sameToo⟩

theorem runRounds_covers {body : Pattern} {separator : Option Pattern} (inScope : scope body)
    (inScopeToo : ∀ part, separator = some part → scope part) {fuel more : Nat} (le : fuel ≤ more)
    {items : List Tree} (same : alike state other)
    (ends : runRounds run body separator fuel items state = some (outcome, after)) :
    ∃ left, runRounds wider body separator more items other = some (outcome, left) ∧
      alike after left := by
  induction fuel generalizing more items state other with
  | zero => simp [runRounds] at ends
  | succ fuel ih =>
      obtain ⟨more, rfl⟩ : ∃ rest, more = rest + 1 := ⟨more - 1, by omega⟩
      simp only [runRounds] at ends ⊢
      cases ran : runRound run body separator state with
      | none => simp [ran] at ends
      | some round =>
          obtain ⟨again, ranToo, rounds⟩ :=
            runRound_covers covers congruence inScope inScopeToo same ran
          rw [ran] at ends
          rw [ranToo]
          cases rounds with
          | taken same => exact ih (by omega) same ends
          | stopped same => cases ends; exact ⟨_, rfl, same⟩
          | broken same => cases ends; exact ⟨_, rfl, same⟩

theorem runScript_covers {parts : List Pattern} (inScope : ∀ part ∈ parts, scope part)
    (rulesInScope : ∀ name body, Index.get? name context.rules = some body → scope body)
    (anywhere : ∀ mark, marks mark) {script : Script} (same : alike state other)
    (ends : context.runScript run parts script state = some (outcome, after)) :
    ∃ left, context.runScript wider parts script other = some (outcome, left) ∧
      alike after left := by
  have here {state other : ParseState} (same : alike state other) :
      state.cursor.position = other.cursor.position := congruence.position same
  induction script generalizing state other with
  | yield value => cases ends; exact ⟨other, rfl, same⟩
  | mismatch => cases ends; exact ⟨other, rfl, same⟩
  | abandon fault => cases ends; exact ⟨other, rfl, same⟩
  | peek next ih =>
      simp only [runScript, Cursor.peek?, here same] at ends ⊢
      exact ih _ same ends
  | ether next ih =>
      simp only [runScript, Cursor.ether, here same] at ends ⊢
      exact ih _ same ends
  | cursor next ih =>
      simp only [runScript, congruence.position same] at ends ⊢
      exact ih _ same ends
  | advance next ih => exact ih (congruence.advance same) ends
  | rewind mark next ih => exact ih (congruence.rewind same (anywhere mark)) ends
  | rule name next ih =>
      simp only [runScript] at ends ⊢
      cases ran : context.runRule run name state with
      | none => simp [ran] at ends
      | some answer =>
          obtain ⟨reached, middle⟩ := answer
          obtain ⟨left, ranToo, same⟩ :=
            runRule_covers covers congruence (rulesInScope name) same ran
          rw [ran] at ends
          rw [ranToo]
          cases reached with
          | matched value => exact ih _ same ends
          | mismatch => exact ih _ same ends
          | broken fault => cases ends; exact ⟨left, rfl, same⟩
  | part index next ih =>
      simp only [runScript] at ends ⊢
      cases found : parts[index]? with
      | none => simp only [found] at ends ⊢; exact ih _ same ends
      | some part =>
          simp only [found] at ends ⊢
          cases ran : run part state with
          | none => simp [ran] at ends
          | some answer =>
              obtain ⟨reached, middle⟩ := answer
              obtain ⟨left, ranToo, same⟩ :=
                covers part (inScope part (List.mem_of_getElem? found)) _ _ same _ _ ran
              rw [ran] at ends
              rw [ranToo]
              cases reached with
              | matched value => exact ih _ same ends
              | mismatch => exact ih _ same ends
              | broken fault => cases ends; exact ⟨left, rfl, same⟩

end Covers

variable {context : ParseContext}

/-- One step comes to whatever it came to when the runner below it does. -/
theorem step_covers {alike : ParseState → ParseState → Prop}
    (congruence : context.Congruence alike fun _ => True) {run wider : Runner}
    (covers : Covers alike (fun _ => True) run wider) {fuel more : Nat} (le : fuel ≤ more) :
    Covers alike (fun _ => True) (context.step fuel run) (context.step more wider) := by
  intro pattern _ state other same outcome after ends
  cases pattern with
  | token kind role =>
      have here : state.cursor.position = other.cursor.position := congruence.position same
      simp only [step, matchKind, Cursor.peek?, here] at ends ⊢
      split at ends
      · split at ends
        next fits => cases ends; exact ⟨_, by rw [if_pos fits], congruence.advance same⟩
        next differs => cases ends; exact ⟨_, by rw [if_neg differs], same⟩
      · cases ends; exact ⟨_, rfl, same⟩
  | rule name => exact runRule_covers covers congruence (fun _ _ => trivial) same ends
  | sequence terms => exact runSequence_covers covers (fun _ _ => trivial) same ends
  | choice alternatives => exact runChoice_covers covers congruence (fun _ _ => trivial) same ends
  | repetition body separator allowEmpty =>
      simp only [step, runRepetition] at ends ⊢
      cases ran : run body state with
      | none => simp [ran] at ends
      | some first =>
          obtain ⟨reached, middle⟩ := first
          obtain ⟨left, ranToo, sameToo⟩ := covers body trivial _ _ same _ _ ran
          rw [ran] at ends
          rw [ranToo]
          cases reached with
          | matched value =>
              exact runRounds_covers covers congruence trivial (fun _ _ => trivial) le sameToo ends
          | mismatch =>
              simp only [← congruence.position same] at ends ⊢
              cases allowEmpty with
              | true => cases ends; exact ⟨_, rfl, congruence.rewind sameToo trivial⟩
              | false => cases ends; exact ⟨_, rfl, sameToo⟩
          | broken fault => cases ends; exact ⟨left, rfl, sameToo⟩
  | ignore term => exact mapMatched_covers covers trivial same ends
  | filter term action arity => exact mapMatched_covers covers trivial same ends
  | custom reader parts =>
      exact runScript_covers covers congruence (fun _ _ => trivial) (fun _ _ _ => trivial)
        (fun _ => trivial) same ends
  | empty => cases ends; exact ⟨other, rfl, same⟩

theorem run_covers {alike : ParseState → ParseState → Prop}
    (congruence : context.Congruence alike fun _ => True) {fuel more : Nat} (le : fuel ≤ more) :
    Covers alike (fun _ => True) (context.run fuel) (context.run more) := by
  induction fuel generalizing more with
  | zero => intro pattern _ state other _ outcome after ends; simp [ParseContext.run] at ends
  | succ fuel ih =>
      obtain ⟨more, rfl⟩ : ∃ rest, more = rest + 1 := ⟨more - 1, by omega⟩
      exact step_covers congruence (ih (by omega)) (by omega)

theorem run_eq_none_iff {alike : ParseState → ParseState → Prop}
    (congruence : context.Congruence alike fun _ => True) {fuel : Nat} {pattern : Pattern}
    {state other : ParseState} (same : alike state other) :
    context.run fuel pattern state = none ↔ context.run fuel pattern other = none := by
  have ends {alike : ParseState → ParseState → Prop}
      (congruence : context.Congruence alike fun _ => True) {state other : ParseState}
      (same : alike state other) (never : context.run fuel pattern other = none) :
      context.run fuel pattern state = none := by
    cases ran : context.run fuel pattern state with
    | none => rfl
    | some result =>
        obtain ⟨_, ranToo, -⟩ := run_covers congruence (Nat.le_refl fuel) pattern trivial _ _ same
          result.1 result.2 ran
        cases never.symm.trans ranToo
  exact ⟨ends congruence.flip same, ends congruence same⟩

def Covered (run wider : Runner) : Prop :=
  ∀ pattern state result, run pattern state = some result → wider pattern state = some result

theorem Covered.covers {run wider : Runner} (covered : Covered run wider) :
    Covers Eq (fun _ => True) run wider := by
  rintro pattern _ state _ rfl outcome after ends
  exact ⟨after, covered _ _ _ ends, rfl⟩

theorem run_mono (context : ParseContext) {fuel more : Nat} (le : fuel ≤ more) :
    Covered (context.run fuel) (context.run more) := by
  rintro pattern state ⟨outcome, after⟩ ends
  obtain ⟨_, ends, rfl⟩ := run_covers (.eq context) le pattern trivial state state rfl _ _ ends
  exact ends

theorem runRule_mono {fuel more : Nat} (le : fuel ≤ more) {name : String} {state : ParseState}
    {result : Outcome × ParseState}
    (ends : context.runRule (context.run fuel) name state = some result) :
    context.runRule (context.run more) name state = some result := by
  obtain ⟨outcome, after⟩ := result
  obtain ⟨_, ends, rfl⟩ := runRule_covers (context.run_mono le).covers (.eq context)
    (fun _ _ => trivial) rfl ends
  exact ends

theorem runRounds_mono {fuel more rounds further : Nat} (le : fuel ≤ more)
    (leToo : rounds ≤ further) {body : Pattern} {separator : Option Pattern} {items : List Tree}
    {state : ParseState} {result : Outcome × ParseState}
    (ends : runRounds (context.run fuel) body separator rounds items state = some result) :
    runRounds (context.run more) body separator further items state = some result := by
  obtain ⟨outcome, after⟩ := result
  obtain ⟨_, ends, rfl⟩ := runRounds_covers (context.run_mono le).covers (.eq context) trivial
    (fun _ _ => trivial) leToo rfl ends
  exact ends

/-- The result of a run does not depend on the fuel it ends with. -/
theorem run_unique (context : ParseContext) {fuel other : Nat} {pattern : Pattern}
    {state : ParseState} {result answer : Outcome × ParseState}
    (ends : context.run fuel pattern state = some result)
    (endsToo : context.run other pattern state = some answer) : result = answer := by
  have first := context.run_mono (Nat.le_max_left fuel other) _ _ _ ends
  have second := context.run_mono (Nat.le_max_right fuel other) _ _ _ endsToo
  exact Option.some.inj (first.symm.trans second)

end Parlance.ParseContext
