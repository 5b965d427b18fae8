import Parlance.Proofs.Evaluation.Fuel

/-! Evaluation without fuel: a big-step relation between what is run, the state it starts in, its
outcome and the state it leaves behind. The relation holds of exactly the runs that end. -/

namespace Parlance

/-- What is run: a pattern, or what is left of one that has been begun. -/
inductive Task where
  | pattern (pattern : Pattern)
  | terms (terms : List Pattern) (kept : List Tree)
  | alternatives (alternatives : List Pattern)
  | rounds (body : Pattern) (separator : Option Pattern) (items : List Tree)
  | script (parts : List Pattern) (script : Script)

def Outcome.mapValue (change : Tree → Tree) : Outcome → Outcome
  | .matched value => .matched (change value)
  | .mismatch => .mismatch
  | .broken fault => .broken fault

/-- The answer a script gets for a rule or a part that did not break. -/
def Outcome.answer? : Outcome → Option (Option Tree)
  | .matched value => some (some value)
  | .mismatch => some none
  | .broken _ => none

namespace ParseState

def deeper (state : ParseState) : ParseState := { state with depth := state.depth + 1 }

def shallower (state : ParseState) : ParseState := { state with depth := state.depth - 1 }

end ParseState

open ParseContext in
/-- A separator that is missing is like the empty pattern: it matches, moves nothing and has no
value to keep. -/
inductive Evaluates (context : ParseContext) :
    Task → ParseState → Outcome → ParseState → Prop where
  | token {kind role state} :
      Evaluates context (.pattern (.token kind role)) state
        (context.matchKind kind state).1 (context.matchKind kind state).2
  | missing {name state} (absent : Index.get? name context.rules = none) :
      Evaluates context (.pattern (.rule name)) state (.broken (.unresolvedRule name)) state
  | tooDeep {name state body} (found : Index.get? name context.rules = some body)
      (deep : context.tooDeep state = true) :
      Evaluates context (.pattern (.rule name)) state .mismatch state
  | rule {name state body outcome after} (found : Index.get? name context.rules = some body)
      (shallow : context.tooDeep state = false)
      (ran : Evaluates context (.pattern body) state.deeper outcome after) :
      Evaluates context (.pattern (.rule name)) state outcome after.shallower
  | sequence {terms state outcome after}
      (ran : Evaluates context (.terms terms []) state outcome after) :
      Evaluates context (.pattern (.sequence terms)) state outcome after
  | choice {alternatives state outcome after}
      (ran : Evaluates context (.alternatives alternatives) state outcome after) :
      Evaluates context (.pattern (.choice alternatives)) state outcome after
  | begun {body separator allowEmpty state value middle outcome after}
      (first : Evaluates context (.pattern body) state (.matched value) middle)
      (ran : Evaluates context (.rounds body separator (used body value)) middle outcome after) :
      Evaluates context (.pattern (.repetition body separator allowEmpty)) state outcome after
  | noneFound {body separator state after}
      (first : Evaluates context (.pattern body) state .mismatch after) :
      Evaluates context (.pattern (.repetition body separator true)) state
        (.matched (.list [])) (after.rewind state.position)
  | oneMissing {body separator state after}
      (first : Evaluates context (.pattern body) state .mismatch after) :
      Evaluates context (.pattern (.repetition body separator false)) state .mismatch after
  | firstBroken {body separator allowEmpty state fault after}
      (first : Evaluates context (.pattern body) state (.broken fault) after) :
      Evaluates context (.pattern (.repetition body separator allowEmpty)) state
        (.broken fault) after
  | ignore {term state outcome after} (ran : Evaluates context (.pattern term) state outcome after) :
      Evaluates context (.pattern (.ignore term)) state (outcome.mapValue fun _ => .null) after
  | filter {term action arity state outcome after}
      (ran : Evaluates context (.pattern term) state outcome after) :
      Evaluates context (.pattern (.filter term action arity)) state
        (outcome.mapValue (action.invoke (arity.getD term.arity))) after
  | custom {reader parts state outcome after}
      (ran : Evaluates context (.script parts reader.script) state outcome after) :
      Evaluates context (.pattern (.custom reader parts)) state outcome after
  | empty {state} : Evaluates context (.pattern .empty) state (.matched .null) state
  | noTerms {kept state} : Evaluates context (.terms [] kept) state (.matched (gather kept)) state
  | nextTerm {term rest kept state value middle outcome after}
      (first : Evaluates context (.pattern term) state (.matched value) middle)
      (ran : Evaluates context (.terms rest (kept ++ used term value)) middle outcome after) :
      Evaluates context (.terms (term :: rest) kept) state outcome after
  | termFails {term rest kept state after}
      (first : Evaluates context (.pattern term) state .mismatch after) :
      Evaluates context (.terms (term :: rest) kept) state .mismatch after
  | termBroken {term rest kept state fault after}
      (first : Evaluates context (.pattern term) state (.broken fault) after) :
      Evaluates context (.terms (term :: rest) kept) state (.broken fault) after
  | noAlternatives {state} : Evaluates context (.alternatives []) state .mismatch state
  | decided {alternative rest state value after}
      (first : Evaluates context (.pattern alternative) state (.matched value) after) :
      Evaluates context (.alternatives (alternative :: rest)) state (.matched value) after
  | nextAlternative {alternative rest state middle outcome after}
      (first : Evaluates context (.pattern alternative) state .mismatch middle)
      (ran : Evaluates context (.alternatives rest) (middle.rewind state.position) outcome after) :
      Evaluates context (.alternatives (alternative :: rest)) state outcome after
  | alternativeBroken {alternative rest state fault after}
      (first : Evaluates context (.pattern alternative) state (.broken fault) after) :
      Evaluates context (.alternatives (alternative :: rest)) state (.broken fault) after
  | nextRound {body separator items state between middle value next outcome after}
      (parted : Evaluates context (.pattern (separator.getD .empty)) state (.matched between) middle)
      (again : Evaluates context (.pattern body) middle (.matched value) next)
      (moved : next.position ≠ state.position)
      (ran : Evaluates context (.rounds body separator
        (items ++ (used (separator.getD .empty) between ++ used body value))) next outcome after) :
      Evaluates context (.rounds body separator items) state outcome after
  | idleRound {body separator items state between middle value next}
      (parted : Evaluates context (.pattern (separator.getD .empty)) state (.matched between) middle)
      (again : Evaluates context (.pattern body) middle (.matched value) next)
      (still : next.position = state.position) :
      Evaluates context (.rounds body separator items) state (.matched (.list items))
        (next.rewind state.position)
  | lastBody {body separator items state between middle next}
      (parted : Evaluates context (.pattern (separator.getD .empty)) state (.matched between) middle)
      (again : Evaluates context (.pattern body) middle .mismatch next) :
      Evaluates context (.rounds body separator items) state (.matched (.list items))
        (next.rewind state.position)
  | lastSeparator {body separator items state middle}
      (parted : Evaluates context (.pattern (separator.getD .empty)) state .mismatch middle) :
      Evaluates context (.rounds body separator items) state (.matched (.list items))
        (middle.rewind state.position)
  | bodyBroken {body separator items state between middle fault next}
      (parted : Evaluates context (.pattern (separator.getD .empty)) state (.matched between) middle)
      (again : Evaluates context (.pattern body) middle (.broken fault) next) :
      Evaluates context (.rounds body separator items) state (.broken fault) next
  | separatorBroken {body separator items state fault middle}
      (parted : Evaluates context (.pattern (separator.getD .empty)) state (.broken fault) middle) :
      Evaluates context (.rounds body separator items) state (.broken fault) middle
  | yield {parts value state} :
      Evaluates context (.script parts (.yield value)) state (.matched value) state
  | refuse {parts state} : Evaluates context (.script parts .mismatch) state .mismatch state
  | abandon {parts fault state} :
      Evaluates context (.script parts (.abandon fault)) state (.broken fault) state
  | peek {parts next state outcome after}
      (ran : Evaluates context (.script parts (next (state.cursor.peek? context.tokens))) state
        outcome after) :
      Evaluates context (.script parts (.peek next)) state outcome after
  | ether {parts next state outcome after}
      (ran : Evaluates context (.script parts (next (state.cursor.ether context.tokens))) state
        outcome after) :
      Evaluates context (.script parts (.ether next)) state outcome after
  | cursor {parts next state outcome after}
      (ran : Evaluates context (.script parts (next state.position)) state outcome after) :
      Evaluates context (.script parts (.cursor next)) state outcome after
  | advance {parts next state outcome after}
      (ran : Evaluates context (.script parts next) (state.advance context.tokens) outcome after) :
      Evaluates context (.script parts (.advance next)) state outcome after
  | rewind {parts mark next state outcome after}
      (ran : Evaluates context (.script parts next) (state.rewind mark) outcome after) :
      Evaluates context (.script parts (.rewind mark next)) state outcome after
  | askRule {parts name next state answered answer middle outcome after}
      (asked : Evaluates context (.pattern (.rule name)) state answered middle)
      (answers : answered.answer? = some answer)
      (ran : Evaluates context (.script parts (next answer)) middle outcome after) :
      Evaluates context (.script parts (.rule name next)) state outcome after
  | askRuleBroken {parts name next state fault after}
      (asked : Evaluates context (.pattern (.rule name)) state (.broken fault) after) :
      Evaluates context (.script parts (.rule name next)) state (.broken fault) after
  | askPart {parts index next part state answered answer middle outcome after}
      (here : parts[index]? = some part)
      (asked : Evaluates context (.pattern part) state answered middle)
      (answers : answered.answer? = some answer)
      (ran : Evaluates context (.script parts (next answer)) middle outcome after) :
      Evaluates context (.script parts (.part index next)) state outcome after
  | askPartBroken {parts index next part state fault after} (here : parts[index]? = some part)
      (asked : Evaluates context (.pattern part) state (.broken fault) after) :
      Evaluates context (.script parts (.part index next)) state (.broken fault) after
  | askNoPart {parts index next state outcome after} (absent : parts[index]? = none)
      (ran : Evaluates context (.script parts (next none)) state outcome after) :
      Evaluates context (.script parts (.part index next)) state outcome after

namespace ParseContext

theorem kept_append_used (kept : List Tree) (term : Pattern) (value : Tree) :
    (if term.usesValue then kept ++ [value] else kept) = kept ++ used term value := by
  unfold used
  split <;> simp

def Sound (context : ParseContext) (run : Runner) : Prop :=
  ∀ pattern state outcome after, run pattern state = some (outcome, after) →
    Evaluates context (.pattern pattern) state outcome after

variable {context : ParseContext} {run : Runner}

theorem Sound.runRule (sound : context.Sound run) {name : String} {state after : ParseState}
    {outcome : Outcome} (ends : context.runRule run name state = some (outcome, after)) :
    Evaluates context (.pattern (.rule name)) state outcome after := by
  unfold ParseContext.runRule at ends
  cases found : Index.get? name context.rules with
  | none =>
      simp only [found, Option.some.injEq, Prod.mk.injEq] at ends
      obtain ⟨rfl, rfl⟩ := ends
      exact .missing found
  | some body =>
      simp only [found] at ends
      split at ends
      next deep =>
        simp only [Option.some.injEq, Prod.mk.injEq] at ends
        obtain ⟨rfl, rfl⟩ := ends
        exact .tooDeep found deep
      next shallow =>
        obtain ⟨⟨inner, left⟩, ran, same⟩ := Option.map_eq_some_iff.mp ends
        simp only [Prod.mk.injEq] at same
        obtain ⟨rfl, rfl⟩ := same
        exact .rule found (by simpa using shallow) (sound _ _ _ _ ran)

theorem Sound.runSequence (sound : context.Sound run) {terms : List Pattern} {kept : List Tree}
    {state after : ParseState} {outcome : Outcome}
    (ends : runSequence run terms kept state = some (outcome, after)) :
    Evaluates context (.terms terms kept) state outcome after := by
  induction terms generalizing kept state with
  | nil =>
      simp only [ParseContext.runSequence, Option.some.injEq, Prod.mk.injEq] at ends
      obtain ⟨rfl, rfl⟩ := ends
      exact .noTerms
  | cons term rest ih =>
      simp only [ParseContext.runSequence] at ends
      cases ran : run term state with
      | none => simp [ran] at ends
      | some first =>
          obtain ⟨reached, middle⟩ := first
          have first := sound _ _ _ _ ran
          rw [ran] at ends
          cases reached with
          | matched value =>
              simp only [kept_append_used] at ends
              exact .nextTerm first (ih ends)
          | mismatch => cases ends; exact .termFails first
          | broken fault => cases ends; exact .termBroken first

theorem Sound.runChoice (sound : context.Sound run) {alternatives : List Pattern}
    {state after : ParseState} {outcome : Outcome}
    (ends : runChoice run alternatives state = some (outcome, after)) :
    Evaluates context (.alternatives alternatives) state outcome after := by
  induction alternatives generalizing state with
  | nil => cases ends; exact .noAlternatives
  | cons alternative rest ih =>
      simp only [ParseContext.runChoice] at ends
      cases ran : run alternative state with
      | none => simp [ran] at ends
      | some first =>
          obtain ⟨reached, middle⟩ := first
          have first := sound _ _ _ _ ran
          rw [ran] at ends
          cases reached with
          | mismatch => exact .nextAlternative first (ih ends)
          | matched value => cases ends; exact .decided first
          | broken fault => cases ends; exact .alternativeBroken first

theorem Sound.runRound (sound : context.Sound run) {body : Pattern} {separator : Option Pattern}
    {state : ParseState} {round : Round} (ends : runRound run body separator state = some round) :
    ∃ reached middle,
      Evaluates context (.pattern (separator.getD .empty)) state reached middle ∧
        match reached with
        | .matched between =>
            runBody run body state.position (used (separator.getD .empty) between) middle =
              some round
        | .mismatch => round = .stopped (middle.rewind state.position)
        | .broken fault => round = .broken fault middle := by
  cases separator with
  | none => exact ⟨.matched .null, state, .empty, ends⟩
  | some separator =>
      simp only [ParseContext.runRound] at ends
      cases ran : run separator state with
      | none => simp [ran] at ends
      | some first =>
          obtain ⟨reached, middle⟩ := first
          refine ⟨reached, middle, sound _ _ _ _ ran, ?_⟩
          rw [ran] at ends
          cases reached with
          | matched between => exact ends
          | mismatch => exact (Option.some.inj ends).symm
          | broken fault => exact (Option.some.inj ends).symm

theorem Sound.runRounds (sound : context.Sound run) {body : Pattern} {separator : Option Pattern}
    {fuel : Nat} {items : List Tree} {state after : ParseState} {outcome : Outcome}
    (ends : runRounds run body separator fuel items state = some (outcome, after)) :
    Evaluates context (.rounds body separator items) state outcome after := by
  induction fuel generalizing items state with
  | zero => simp [ParseContext.runRounds] at ends
  | succ fuel ih =>
      simp only [ParseContext.runRounds] at ends
      cases ran : ParseContext.runRound run body separator state with
      | none => simp [ran] at ends
      | some round =>
          rw [ran] at ends
          obtain ⟨reached, middle, parted, round'⟩ := sound.runRound ran
          cases reached with
          | mismatch => subst round'; cases ends; exact .lastSeparator parted
          | broken fault => subst round'; cases ends; exact .separatorBroken parted
          | matched between =>
              simp only [runBody] at round'
              cases again : run body middle with
              | none => simp [again] at round'
              | some second =>
                  obtain ⟨reached, next⟩ := second
                  have again' := sound _ _ _ _ again
                  rw [again] at round'
                  cases reached with
                  | mismatch => cases round'; cases ends; exact .lastBody parted again'
                  | broken fault => cases round'; cases ends; exact .bodyBroken parted again'
                  | matched value =>
                      simp only at round'
                      split at round'
                      next still => cases round'; cases ends; exact .idleRound parted again' still
                      next moved => cases round'; exact .nextRound parted again' moved (ih ends)

theorem Sound.runScript (sound : context.Sound run) {parts : List Pattern} {script : Script}
    {state after : ParseState} {outcome : Outcome}
    (ends : context.runScript run parts script state = some (outcome, after)) :
    Evaluates context (.script parts script) state outcome after := by
  induction script generalizing state with
  | yield value => cases ends; exact .yield
  | mismatch => cases ends; exact .refuse
  | abandon fault => cases ends; exact .abandon
  | peek next ih => exact .peek (ih _ ends)
  | ether next ih => exact .ether (ih _ ends)
  | cursor next ih => exact .cursor (ih _ ends)
  | advance next ih => exact .advance (ih ends)
  | rewind mark next ih => exact .rewind (ih ends)
  | rule name next ih =>
      simp only [ParseContext.runScript] at ends
      cases ran : context.runRule run name state with
      | none => simp [ran] at ends
      | some answer =>
          obtain ⟨answered, middle⟩ := answer
          have asked := sound.runRule ran
          rw [ran] at ends
          cases answered with
          | matched value => exact .askRule asked rfl (ih _ ends)
          | mismatch => exact .askRule asked rfl (ih _ ends)
          | broken fault => cases ends; exact .askRuleBroken asked
  | part index next ih =>
      simp only [ParseContext.runScript] at ends
      cases here : parts[index]? with
      | none => simp only [here] at ends; exact .askNoPart here (ih _ ends)
      | some part =>
          simp only [here] at ends
          cases ran : run part state with
          | none => simp [ran] at ends
          | some answer =>
              obtain ⟨answered, middle⟩ := answer
              have asked := sound _ _ _ _ ran
              rw [ran] at ends
              cases answered with
              | matched value => exact .askPart here asked rfl (ih _ ends)
              | mismatch => exact .askPart here asked rfl (ih _ ends)
              | broken fault => cases ends; exact .askPartBroken here asked

theorem mapMatched_eq_some {change : Tree → Tree} {attempt : Attempt} {outcome : Outcome}
    {after : ParseState} (ends : mapMatched change attempt = some (outcome, after)) :
    ∃ inner, attempt = some (inner, after) ∧ outcome = inner.mapValue change := by
  match attempt, ends with
  | some (.matched value, _), ends => cases ends; exact ⟨_, rfl, rfl⟩
  | some (.mismatch, _), ends => cases ends; exact ⟨_, rfl, rfl⟩
  | some (.broken fault, _), ends => cases ends; exact ⟨_, rfl, rfl⟩

theorem Sound.step (sound : context.Sound run) (fuel : Nat) :
    context.Sound (context.step fuel run) := by
  intro pattern state outcome after ends
  cases pattern with
  | token kind role =>
      have same := Option.some.inj ends
      rw [show outcome = (context.matchKind kind state).1 by rw [same],
        show after = (context.matchKind kind state).2 by rw [same]]
      exact .token
  | rule name => exact sound.runRule ends
  | sequence terms => exact .sequence (sound.runSequence ends)
  | choice alternatives => exact .choice (sound.runChoice ends)
  | repetition body separator allowEmpty =>
      simp only [ParseContext.step, runRepetition] at ends
      cases ran : run body state with
      | none => simp [ran] at ends
      | some first =>
          obtain ⟨reached, middle⟩ := first
          have first := sound _ _ _ _ ran
          rw [ran] at ends
          cases reached with
          | matched value => exact .begun first (sound.runRounds ends)
          | broken fault => cases ends; exact .firstBroken first
          | mismatch =>
              cases allowEmpty with
              | true => cases ends; exact .noneFound first
              | false => cases ends; exact .oneMissing first
  | ignore term =>
      obtain ⟨inner, ran, rfl⟩ := mapMatched_eq_some ends
      exact .ignore (sound _ _ _ _ ran)
  | filter term action arity =>
      obtain ⟨inner, ran, rfl⟩ := mapMatched_eq_some ends
      exact .filter (sound _ _ _ _ ran)
  | custom reader parts => exact .custom (sound.runScript ends)
  | empty => cases ends; exact .empty

theorem sound_run (context : ParseContext) (fuel : Nat) : context.Sound (context.run fuel) := by
  induction fuel with
  | zero => intro pattern state outcome after ends; simp [ParseContext.run] at ends
  | succ fuel ih => exact ih.step fuel

end ParseContext

def Task.run (context : ParseContext) (fuel : Nat) : Task → ParseState → Attempt
  | .pattern whole => context.run fuel whole
  | .terms rest kept => ParseContext.runSequence (context.run fuel) rest kept
  | .alternatives rest => ParseContext.runChoice (context.run fuel) rest
  | .rounds body separator items =>
      ParseContext.runRounds (context.run fuel) body separator fuel items
  | .script parts requests => context.runScript (context.run fuel) parts requests

namespace Evaluates

open ParseContext

variable {context : ParseContext}

theorem taskRun_mono {fuel more : Nat} (le : fuel ≤ more) {task : Task} {state : ParseState}
    {result : Outcome × ParseState} (ends : task.run context fuel state = some result) :
    task.run context more state = some result := by
  obtain ⟨outcome, after⟩ := result
  have covers := (context.run_mono le).covers
  have congruence := Congruence.eq context
  have kept : ∃ left, task.run context more state = some (outcome, left) ∧ after = left := by
    cases task with
    | pattern whole => exact covers whole trivial state state rfl _ _ ends
    | terms rest kept => exact runSequence_covers covers (fun _ _ => trivial) rfl ends
    | alternatives rest => exact runChoice_covers covers congruence (fun _ _ => trivial) rfl ends
    | rounds body separator items =>
        exact runRounds_covers covers congruence trivial (fun _ _ => trivial) le rfl ends
    | script parts requests =>
        exact runScript_covers covers congruence (fun _ _ => trivial) (fun _ _ _ => trivial)
          (fun _ => trivial) rfl ends
  obtain ⟨_, ends, rfl⟩ := kept
  exact ends

theorem common_fuel {first second : Task} {state middle : ParseState}
    {result answer : Outcome × ParseState}
    (endsFirst : ∃ fuel, first.run context fuel state = some result)
    (endsSecond : ∃ fuel, second.run context fuel middle = some answer) :
    ∃ fuel, first.run context fuel state = some result ∧
      second.run context fuel middle = some answer := by
  obtain ⟨fuel, ranFirst⟩ := endsFirst
  obtain ⟨more, ranSecond⟩ := endsSecond
  exact ⟨max fuel more, taskRun_mono (Nat.le_max_left ..) ranFirst,
    taskRun_mono (Nat.le_max_right ..) ranSecond⟩

theorem runRound_eq {fuel : Nat} {body : Pattern} {separator : Option Pattern}
    {state middle : ParseState} {reached : Outcome}
    (parted : context.run fuel (separator.getD .empty) state = some (reached, middle)) :
    runRound (context.run fuel) body separator state =
      match reached with
      | .matched between =>
          runBody (context.run fuel) body state.position
            (used (separator.getD .empty) between) middle
      | .mismatch => some (.stopped (middle.rewind state.position))
      | .broken fault => some (.broken fault middle) := by
  cases separator with
  | some separator =>
      simp only [Option.getD_some] at parted
      simp only [runRound, parted, Option.getD_some]
      cases reached <;> rfl
  | none =>
      obtain ⟨fuel, rfl⟩ : ∃ less, fuel = less + 1 := by
        cases fuel with
        | zero => simp [ParseContext.run] at parted
        | succ less => exact ⟨less, rfl⟩
      cases parted
      rfl

theorem runs {task : Task} {state after : ParseState} {outcome : Outcome}
    (evaluates : Evaluates context task state outcome after) :
    ∃ fuel, task.run context fuel state = some (outcome, after) := by
  induction evaluates with
  | token => exact ⟨1, rfl⟩
  | missing absent => exact ⟨1, by simp [Task.run, ParseContext.run, step, runRule, absent]⟩
  | tooDeep found deep =>
      exact ⟨1, by simp [Task.run, ParseContext.run, step, runRule, found, deep]⟩
  | rule found shallow ran ih =>
      obtain ⟨fuel, ends⟩ := ih
      refine ⟨fuel + 1, ?_⟩
      simp only [Task.run, ParseState.deeper] at ends
      simp [Task.run, ParseContext.run, step, runRule, found, shallow, ends, ParseState.shallower]
  | sequence ran ih => obtain ⟨fuel, ends⟩ := ih; exact ⟨fuel + 1, ends⟩
  | choice ran ih => obtain ⟨fuel, ends⟩ := ih; exact ⟨fuel + 1, ends⟩
  | begun first ran ihFirst ihRounds =>
      obtain ⟨fuel, ends, endsRounds⟩ := common_fuel ihFirst ihRounds
      refine ⟨fuel + 1, ?_⟩
      simp only [Task.run] at ends endsRounds
      simp [Task.run, ParseContext.run, step, runRepetition, ends, endsRounds]
  | noneFound first ih | oneMissing first ih | firstBroken first ih =>
      obtain ⟨fuel, ends⟩ := ih
      simp only [Task.run] at ends
      exact ⟨fuel + 1, by simp [Task.run, ParseContext.run, step, runRepetition, ends]⟩
  | @ignore _ _ outcome _ ran ih | @filter _ _ _ _ outcome _ ran ih =>
      obtain ⟨fuel, ends⟩ := ih
      simp only [Task.run] at ends
      refine ⟨fuel + 1, ?_⟩
      cases outcome <;>
        simp [Task.run, ParseContext.run, step, mapMatched, ends, Outcome.mapValue]
  | custom ran ih => obtain ⟨fuel, ends⟩ := ih; exact ⟨fuel + 1, ends⟩
  | empty => exact ⟨1, rfl⟩
  | noTerms | noAlternatives | yield | refuse | abandon => exact ⟨0, rfl⟩
  | nextTerm first ran ihFirst ihRest =>
      obtain ⟨fuel, ends, endsRest⟩ := common_fuel ihFirst ihRest
      simp only [Task.run] at ends endsRest
      exact ⟨fuel, by simp [Task.run, runSequence, ends, kept_append_used, endsRest]⟩
  | termFails first ih | termBroken first ih =>
      obtain ⟨fuel, ends⟩ := ih
      simp only [Task.run] at ends
      exact ⟨fuel, by simp [Task.run, runSequence, ends]⟩
  | decided first ih | alternativeBroken first ih =>
      obtain ⟨fuel, ends⟩ := ih
      simp only [Task.run] at ends
      exact ⟨fuel, by simp [Task.run, runChoice, ends]⟩
  | nextAlternative first ran ihFirst ihRest =>
      obtain ⟨fuel, ends, endsRest⟩ := common_fuel ihFirst ihRest
      simp only [Task.run] at ends endsRest
      exact ⟨fuel, by simp [Task.run, runChoice, ends, endsRest]⟩
  | nextRound parted again moved ran ihParted ihAgain ihRounds =>
      obtain ⟨fuel, endsParted, endsAgain⟩ := common_fuel ihParted ihAgain
      obtain ⟨more, endsRounds⟩ := ihRounds
      simp only [Task.run] at endsParted endsAgain endsRounds
      have covered := context.run_mono (Nat.le_max_left fuel more)
      refine ⟨max fuel more + 1, runRounds_mono (Nat.le_succ _) (Nat.le_refl _) ?_⟩
      simp only [runRounds]
      rw [runRound_eq (covered _ _ _ endsParted)]
      simp only [runBody, covered _ _ _ endsAgain, if_neg moved]
      exact runRounds_mono (Nat.le_max_right ..) (Nat.le_max_right ..) endsRounds
  | idleRound parted again still ihParted ihAgain =>
      obtain ⟨fuel, endsParted, endsAgain⟩ := common_fuel ihParted ihAgain
      simp only [Task.run] at endsParted endsAgain
      refine ⟨fuel + 1, runRounds_mono (Nat.le_succ fuel) (Nat.le_refl _) ?_⟩
      simp [runRounds, runRound_eq endsParted, runBody, endsAgain, still]
  | lastBody parted again ihParted ihAgain | bodyBroken parted again ihParted ihAgain =>
      obtain ⟨fuel, endsParted, endsAgain⟩ := common_fuel ihParted ihAgain
      simp only [Task.run] at endsParted endsAgain
      refine ⟨fuel + 1, runRounds_mono (Nat.le_succ fuel) (Nat.le_refl _) ?_⟩
      simp [runRounds, runRound_eq endsParted, runBody, endsAgain]
  | lastSeparator parted ih | separatorBroken parted ih =>
      obtain ⟨fuel, endsParted⟩ := ih
      simp only [Task.run] at endsParted
      refine ⟨fuel + 1, runRounds_mono (Nat.le_succ fuel) (Nat.le_refl _) ?_⟩
      simp [runRounds, runRound_eq endsParted]
  | peek ran ih | ether ran ih | cursor ran ih | advance ran ih | rewind ran ih => exact ih
  | @askRule _ _ _ _ answered _ _ _ _ asked answers ran ihAsked ihNext =>
      obtain ⟨fuel, endsAsked, endsNext⟩ := common_fuel ihAsked ihNext
      simp only [Task.run] at endsAsked endsNext
      cases fuel with
      | zero => simp [ParseContext.run] at endsAsked
      | succ fuel =>
          have asks := runRule_mono (Nat.le_succ fuel) endsAsked
          refine ⟨fuel + 1, ?_⟩
          simp only [Task.run, runScript, asks]
          cases answered <;> cases answers <;> exact endsNext
  | askRuleBroken asked ih =>
      obtain ⟨fuel, endsAsked⟩ := ih
      simp only [Task.run] at endsAsked
      cases fuel with
      | zero => simp [ParseContext.run] at endsAsked
      | succ fuel =>
          have asks := runRule_mono (Nat.le_succ fuel) endsAsked
          exact ⟨fuel + 1, by simp [Task.run, runScript, asks]⟩
  | @askPart _ _ _ _ _ answered _ _ _ _ here asked answers ran ihAsked ihNext =>
      obtain ⟨fuel, endsAsked, endsNext⟩ := common_fuel ihAsked ihNext
      simp only [Task.run] at endsAsked endsNext
      refine ⟨fuel, ?_⟩
      simp only [Task.run, runScript, here, endsAsked]
      cases answered <;> cases answers <;> exact endsNext
  | askPartBroken here asked ih =>
      obtain ⟨fuel, endsAsked⟩ := ih
      simp only [Task.run] at endsAsked
      exact ⟨fuel, by simp [Task.run, runScript, here, endsAsked]⟩
  | askNoPart absent ran ih =>
      obtain ⟨fuel, ends⟩ := ih
      simp only [Task.run] at ends
      exact ⟨fuel, by simp [Task.run, runScript, absent, ends]⟩

/-- The relation holds of exactly the runs that end. -/
theorem iff_run {pattern : Pattern} {state after : ParseState} {outcome : Outcome} :
    Evaluates context (.pattern pattern) state outcome after ↔
      ∃ fuel, context.run fuel pattern state = some (outcome, after) :=
  ⟨runs, fun ⟨fuel, ends⟩ => context.sound_run fuel _ _ _ _ ends⟩

theorem unique {task : Task} {state after left : ParseState} {outcome other : Outcome}
    (evaluates : Evaluates context task state outcome after)
    (evaluatesToo : Evaluates context task state other left) :
    outcome = other ∧ after = left := by
  obtain ⟨fuel, ends, endsToo⟩ := common_fuel evaluates.runs evaluatesToo.runs
  exact Prod.mk.inj (Option.some.inj (ends.symm.trans endsToo))

end Evaluates

end Parlance
