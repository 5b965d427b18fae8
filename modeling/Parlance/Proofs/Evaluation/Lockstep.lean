import Parlance.Proofs.Normalization.Rules

/-! Two evaluations in step with each other, over tokens that may differ. Where the states of both
runs stay alike, a task comes to the same outcome in both. The second run need follow the first only
as far as a given high-water mark, as that mark never falls. -/

namespace Parlance

open ParseContext

variable {context other : ParseContext}

theorem ParseState.highWater_le_advance (tokens : Array Token) (state : ParseState) :
    state.cursor.highWater ≤ (state.advance tokens).cursor.highWater := Nat.le_max_left ..

theorem Evaluates.highWater_le {task : Task} {state after : ParseState} {outcome : Outcome}
    (evaluates : Evaluates context task state outcome after) :
    state.cursor.highWater ≤ after.cursor.highWater := by
  induction evaluates with
  | @token kind _ state =>
      unfold matchKind
      split
      · split
        · exact state.highWater_le_advance context.tokens
        · exact Nat.le_refl _
      · exact Nat.le_refl _
  | missing | tooDeep | empty | noTerms | noAlternatives | yield | refuse | abandon =>
      exact Nat.le_refl _
  | rule _ _ _ ih | sequence _ ih | choice _ ih | noneFound _ ih | oneMissing _ ih
  | firstBroken _ ih | ignore _ ih | filter _ ih | custom _ ih | termFails _ ih | termBroken _ ih
  | decided _ ih | alternativeBroken _ ih | lastSeparator _ ih | separatorBroken _ ih | peek _ ih
  | ether _ ih | cursor _ ih | rewind _ ih | askRuleBroken _ ih | askPartBroken _ _ ih
  | askNoPart _ _ ih => exact ih
  | begun _ _ ih ihRest | nextTerm _ _ ih ihRest | nextAlternative _ _ ih ihRest
  | idleRound _ _ _ ih ihRest | lastBody _ _ ih ihRest | bodyBroken _ _ ih ihRest
  | askRule _ _ _ ih ihRest | askPart _ _ _ _ ih ihRest => exact Nat.le_trans ih ihRest
  | nextRound _ _ _ _ ihParted ihAgain ihRest =>
      exact Nat.le_trans ihParted (Nat.le_trans ihAgain ihRest)
  | advance _ ih => exact Nat.le_trans (ParseState.highWater_le_advance _ _) ih

/-- What a task may come to run has readers that are allowed, those of its own parts included, and a
script it runs is obeyed. -/
def Task.Heeded (allowed : Reader → Prop) (obeyed : Script → Prop) : Task → Prop
  | .script parts requests => obeyed requests ∧ ∀ part ∈ parts, part.ReadBy allowed
  | task => task.ReadBy allowed obeyed

/-- What keeps two runs in step up to a high-water mark. Scripts are told apart by what they heed at
a state; a script that is heeded goes on alike in both runs, with the same requests. -/
structure Lockstep (context other : ParseContext) (reach : Nat)
    (alike : ParseState → ParseState → Prop) (heeds : ParseState → Script → Prop) : Prop where
  rules : other.rules = context.rules
  readers : ∀ name body, Index.get? name context.rules = some body →
    body.ReadBy fun reader => ∀ state, heeds state reader.script
  tooDeep : ∀ {state twin}, alike state twin → other.tooDeep twin = context.tooDeep state
  deeper : ∀ {state twin}, alike state twin → alike state.deeper twin.deeper
  shallower : ∀ {state twin}, alike state twin → alike state.shallower twin.shallower
  position : ∀ {state twin after left}, alike state twin → alike after left →
    (after.position = state.position ↔ left.position = twin.position)
  back : ∀ {state twin after left}, alike state twin → alike after left →
    alike (after.rewind state.position) (left.rewind twin.position)
  peek : ∀ {state twin}, alike state twin →
    state.cursor.peek? context.tokens = twin.cursor.peek? other.tokens
  advance : ∀ {state twin}, alike state twin →
    (state.advance context.tokens).cursor.highWater ≤ reach →
    alike (state.advance context.tokens) (twin.advance other.tokens)
  peekHeeded : ∀ {state next}, heeds state (.peek next) →
    heeds state (next (state.cursor.peek? context.tokens))
  etherHeeded : ∀ {state twin next}, alike state twin → heeds state (.ether next) →
    next (state.cursor.ether context.tokens) = next (twin.cursor.ether other.tokens) ∧
      heeds state (next (state.cursor.ether context.tokens))
  cursorHeeded : ∀ {state twin next}, alike state twin → heeds state (.cursor next) →
    next state.position = next twin.position ∧ heeds state (next state.position)
  advanceHeeded : ∀ {state next}, heeds state (.advance next) →
    heeds (state.advance context.tokens) next
  rewindHeeded : ∀ {state twin mark next}, alike state twin → heeds state (.rewind mark next) →
    alike (state.rewind mark) (twin.rewind mark) ∧ heeds (state.rewind mark) next
  ruleHeeded : ∀ {state after name next}, heeds state (.rule name next) →
    ∀ answer, heeds after (next answer)
  partHeeded : ∀ {state after index next}, heeds state (.part index next) →
    ∀ answer, heeds after (next answer)

namespace Evaluates

variable {reach : Nat} {alike : ParseState → ParseState → Prop} {heeds : ParseState → Script → Prop}

theorem token_lockstep (lockstep : Lockstep context other reach alike heeds) {kind : String}
    {state twin : ParseState} (within : (context.matchKind kind state).2.cursor.highWater ≤ reach)
    (same : alike state twin) :
    (other.matchKind kind twin).1 = (context.matchKind kind state).1 ∧
      alike (context.matchKind kind state).2 (other.matchKind kind twin).2 := by
  unfold matchKind at within ⊢
  rw [← lockstep.peek same]
  cases peeked : state.cursor.peek? context.tokens with
  | none => exact ⟨rfl, same⟩
  | some token =>
      rw [peeked] at within
      by_cases fits : token.kind? = some kind
      · simp only [if_pos fits] at within ⊢
        exact ⟨trivial, lockstep.advance same within⟩
      · simp only [if_neg fits]
        exact ⟨trivial, same⟩

/-- A task comes to the same from states that are alike, as far as the first run reaches. -/
theorem lockstep (lockstep : Lockstep context other reach alike heeds) {task : Task}
    {state after twin : ParseState} {outcome : Outcome}
    (evaluates : Evaluates context task state outcome after)
    (read : task.Heeded (fun reader => ∀ state, heeds state reader.script) (heeds state))
    (within : after.cursor.highWater ≤ reach) (same : alike state twin) :
    ∃ left, Evaluates other task twin outcome left ∧ alike after left := by
  -- On the first run. Its parts end no further on than it does, abandoned ones included, since going
  -- back leaves the high-water mark as it is.
  induction evaluates generalizing twin with
  | token =>
      obtain ⟨outcome, kept⟩ := token_lockstep lockstep within same
      exact ⟨_, outcome ▸ .token, kept⟩
  | missing absent => exact ⟨twin, .missing (lockstep.rules ▸ absent), same⟩
  | tooDeep found deep =>
      exact ⟨twin, .tooDeep (lockstep.rules ▸ found) ((lockstep.tooDeep same).trans deep), same⟩
  | rule found shallow _ ih =>
      obtain ⟨left, ran, kept⟩ := ih (lockstep.readers _ _ found) within (lockstep.deeper same)
      have shallow := (lockstep.tooDeep same).trans shallow
      exact ⟨_, .rule (lockstep.rules ▸ found) shallow ran, lockstep.shallower kept⟩
  | sequence _ ih =>
      obtain ⟨left, ran, kept⟩ := ih (Pattern.ReadBy.terms read) within same
      exact ⟨left, .sequence ran, kept⟩
  | choice _ ih =>
      obtain ⟨left, ran, kept⟩ := ih (Pattern.ReadBy.alternatives read) within same
      exact ⟨left, .choice ran, kept⟩
  | begun _ ran ihFirst ihRounds =>
      have reads := Pattern.ReadBy.repetition read
      obtain ⟨_, first, kept⟩ := ihFirst reads.1 (Nat.le_trans ran.highWater_le within) same
      obtain ⟨left, rounds, kept⟩ := ihRounds reads within kept
      exact ⟨left, .begun first rounds, kept⟩
  | noneFound _ ih =>
      obtain ⟨_, first, kept⟩ := ih (Pattern.ReadBy.repetition read).1 within same
      exact ⟨_, .noneFound first, lockstep.back same kept⟩
  | oneMissing _ ih =>
      obtain ⟨left, first, kept⟩ := ih (Pattern.ReadBy.repetition read).1 within same
      exact ⟨left, .oneMissing first, kept⟩
  | firstBroken _ ih =>
      obtain ⟨left, first, kept⟩ := ih (Pattern.ReadBy.repetition read).1 within same
      exact ⟨left, .firstBroken first, kept⟩
  | ignore _ ih =>
      obtain ⟨left, ran, kept⟩ := ih (Pattern.ReadBy.ignored read) within same
      exact ⟨left, .ignore ran, kept⟩
  | filter _ ih =>
      obtain ⟨left, ran, kept⟩ := ih (Pattern.ReadBy.filtered read) within same
      exact ⟨left, .filter ran, kept⟩
  | custom _ ih =>
      obtain ⟨left, ran, kept⟩ :=
        ih ⟨Pattern.ReadBy.reader read _, Pattern.ReadBy.parts read⟩ within same
      exact ⟨left, .custom ran, kept⟩
  | empty => exact ⟨twin, .empty, same⟩
  | noTerms => exact ⟨twin, .noTerms, same⟩
  | nextTerm _ ran ihFirst ihRest =>
      obtain ⟨_, first, kept⟩ :=
        ihFirst (read _ (by simp)) (Nat.le_trans ran.highWater_le within) same
      obtain ⟨left, rest, kept⟩ :=
        ihRest (fun term member => read term (by simp [member])) within kept
      exact ⟨left, .nextTerm first rest, kept⟩
  | termFails _ ih =>
      obtain ⟨left, first, kept⟩ := ih (read _ (by simp)) within same
      exact ⟨left, .termFails first, kept⟩
  | termBroken _ ih =>
      obtain ⟨left, first, kept⟩ := ih (read _ (by simp)) within same
      exact ⟨left, .termBroken first, kept⟩
  | noAlternatives => exact ⟨twin, .noAlternatives, same⟩
  | decided _ ih =>
      obtain ⟨left, first, kept⟩ := ih (read _ (by simp)) within same
      exact ⟨left, .decided first, kept⟩
  | nextAlternative _ ran ihFirst ihRest =>
      obtain ⟨_, first, kept⟩ :=
        ihFirst (read _ (by simp)) (Nat.le_trans ran.highWater_le within) same
      obtain ⟨left, rest, kept⟩ := ihRest (fun term member => read term (by simp [member])) within
        (lockstep.back same kept)
      exact ⟨left, .nextAlternative first rest, kept⟩
  | alternativeBroken _ ih =>
      obtain ⟨left, first, kept⟩ := ih (read _ (by simp)) within same
      exact ⟨left, .alternativeBroken first, kept⟩
  | nextRound _ again moved ran ihParted ihAgain ihRounds =>
      have reached := Nat.le_trans ran.highWater_le within
      obtain ⟨_, parted, keptMiddle⟩ := ihParted read.2 (Nat.le_trans again.highWater_le reached) same
      obtain ⟨_, body, keptNext⟩ := ihAgain read.1 reached keptMiddle
      obtain ⟨left, rounds, kept⟩ := ihRounds read within keptNext
      have moved := mt (lockstep.position same keptNext).mpr moved
      exact ⟨left, .nextRound parted body moved rounds, kept⟩
  | idleRound _ again still ihParted ihAgain =>
      obtain ⟨_, parted, keptMiddle⟩ := ihParted read.2 (Nat.le_trans again.highWater_le within) same
      obtain ⟨_, body, keptNext⟩ := ihAgain read.1 within keptMiddle
      have still := (lockstep.position same keptNext).mp still
      exact ⟨_, .idleRound parted body still, lockstep.back same keptNext⟩
  | lastBody _ again ihParted ihAgain =>
      obtain ⟨_, parted, keptMiddle⟩ := ihParted read.2 (Nat.le_trans again.highWater_le within) same
      obtain ⟨_, body, keptNext⟩ := ihAgain read.1 within keptMiddle
      exact ⟨_, .lastBody parted body, lockstep.back same keptNext⟩
  | lastSeparator _ ih =>
      obtain ⟨_, parted, kept⟩ := ih read.2 within same
      exact ⟨_, .lastSeparator parted, lockstep.back same kept⟩
  | bodyBroken _ again ihParted ihAgain =>
      obtain ⟨_, parted, keptMiddle⟩ := ihParted read.2 (Nat.le_trans again.highWater_le within) same
      obtain ⟨left, body, kept⟩ := ihAgain read.1 within keptMiddle
      exact ⟨left, .bodyBroken parted body, kept⟩
  | separatorBroken _ ih =>
      obtain ⟨left, parted, kept⟩ := ih read.2 within same
      exact ⟨left, .separatorBroken parted, kept⟩
  | yield => exact ⟨twin, .yield, same⟩
  | refuse => exact ⟨twin, .refuse, same⟩
  | abandon => exact ⟨twin, .abandon, same⟩
  | peek _ ih =>
      obtain ⟨heeded, parts⟩ := read
      obtain ⟨left, ran, kept⟩ := ih ⟨lockstep.peekHeeded heeded, parts⟩ within same
      exact ⟨left, .peek (lockstep.peek same ▸ ran), kept⟩
  | ether _ ih =>
      obtain ⟨heeded, parts⟩ := read
      obtain ⟨goesOn, heeded⟩ := lockstep.etherHeeded same heeded
      obtain ⟨left, ran, kept⟩ := ih ⟨heeded, parts⟩ within same
      exact ⟨left, .ether (goesOn ▸ ran), kept⟩
  | cursor _ ih =>
      obtain ⟨heeded, parts⟩ := read
      obtain ⟨goesOn, heeded⟩ := lockstep.cursorHeeded same heeded
      obtain ⟨left, ran, kept⟩ := ih ⟨heeded, parts⟩ within same
      exact ⟨left, .cursor (goesOn ▸ ran), kept⟩
  | advance ran ih =>
      have moved := lockstep.advance same (Nat.le_trans ran.highWater_le within)
      obtain ⟨left, ran, kept⟩ := ih ⟨lockstep.advanceHeeded read.1, read.2⟩ within moved
      exact ⟨left, .advance ran, kept⟩
  | rewind _ ih =>
      obtain ⟨heeded, parts⟩ := read
      obtain ⟨back, heeded⟩ := lockstep.rewindHeeded same heeded
      obtain ⟨left, ran, kept⟩ := ih ⟨heeded, parts⟩ within back
      exact ⟨left, .rewind ran, kept⟩
  | askRule _ answers ran ihAsked ihRest =>
      obtain ⟨_, asked, kept⟩ :=
        ihAsked Pattern.ReadBy.of_rule (Nat.le_trans ran.highWater_le within) same
      obtain ⟨left, rest, kept⟩ := ihRest ⟨lockstep.ruleHeeded read.1 _, read.2⟩ within kept
      exact ⟨left, .askRule asked answers rest, kept⟩
  | askRuleBroken _ ih =>
      obtain ⟨left, asked, kept⟩ := ih Pattern.ReadBy.of_rule within same
      exact ⟨left, .askRuleBroken asked, kept⟩
  | askPart here _ answers ran ihAsked ihRest =>
      have part := read.2 _ (List.mem_of_getElem? here)
      obtain ⟨_, asked, kept⟩ := ihAsked part (Nat.le_trans ran.highWater_le within) same
      obtain ⟨left, rest, kept⟩ := ihRest ⟨lockstep.partHeeded read.1 _, read.2⟩ within kept
      exact ⟨left, .askPart here asked answers rest, kept⟩
  | askPartBroken here _ ih =>
      obtain ⟨left, asked, kept⟩ := ih (read.2 _ (List.mem_of_getElem? here)) within same
      exact ⟨left, .askPartBroken here asked, kept⟩
  | askNoPart absent _ ih =>
      obtain ⟨left, ran, kept⟩ := ih ⟨lockstep.partHeeded read.1 none, read.2⟩ within same
      exact ⟨left, .askNoPart absent ran, kept⟩

end Evaluates

/-- All rules have readers that are allowed. -/
def Grammar.ReadBy (allowed : Reader → Prop) (grammar : Grammar) : Prop :=
  ∀ name body, Index.get? name grammar.raw = some body → body.ReadBy allowed

theorem Grammar.ReadBy.normalized {obeyed : Script → Prop} {grammar : Grammar}
    (read : grammar.ReadBy fun reader => obeyed reader.script) (name : String) (body : Pattern)
    (found : Index.get? name grammar.normalized = some body) :
    body.ReadBy fun reader => obeyed reader.script := by
  obtain ⟨raw, listed, rfl⟩ := Grammar.raw_of_normalized found
  exact (read name raw listed).normalize fun _ same => same

/-- The verdict that a parse ends with, given as much fuel as it needs. -/
def Parser.ComesTo (parser : Parser) (start : String) (tokens : List Token)
    (origin : Option String) (traced : Bool) (verdict : Verdict) : Prop :=
  ∃ fuel, parser.runWith fuel start tokens origin traced = some verdict

def ParseState.initial (tokens : List Token) (traced : Bool) : ParseState :=
  ⟨.start tokens.toArray traced, 0⟩

theorem Parser.comesTo_iff {parser : Parser} {start : String} {tokens : List Token}
    {origin : Option String} {traced : Bool} {verdict : Verdict} :
    parser.ComesTo start tokens origin traced verdict ↔
      ∃ outcome after, Evaluates (parser.context tokens) (.pattern (.rule start))
          (.initial tokens traced) outcome after ∧
        Parser.verdict tokens origin (outcome, after) = verdict := by
  constructor
  · rintro ⟨fuel, ends⟩
    obtain ⟨⟨outcome, after⟩, ran, same⟩ := Option.map_eq_some_iff.mp ends
    exact ⟨outcome, after, Evaluates.iff_run.mpr ⟨fuel, ran⟩, same⟩
  · rintro ⟨outcome, after, ran, rfl⟩
    obtain ⟨fuel, ends⟩ := Evaluates.iff_run.mp ran
    exact ⟨fuel, congrArg (Option.map (Parser.verdict tokens origin)) ends⟩

/-- A mismatch, or a match that leaves tokens over. -/
def Outcome.FallsShort (tokens : List Token) (outcome : Outcome) (after : ParseState) : Prop :=
  outcome = .mismatch ∨ ∃ value, outcome = .matched value ∧ after.position < tokens.length

theorem Parser.verdict_eq_error_iff {tokens : List Token} {origin : Option String}
    {outcome : Outcome} {after : ParseState} {error : SyntaxError} {log : List Nat} :
    Parser.verdict tokens origin (outcome, after) = .parsed (.error error) log ↔
      outcome.FallsShort tokens after ∧ error = ⟨origin, tokens, after.cursor.highWater⟩ ∧
        log = after.cursor.trace?.getD [] := by
  unfold Outcome.FallsShort
  cases outcome with
  | broken fault => simp [Parser.verdict]
  | mismatch => simp [Parser.verdict, eq_comm]
  | matched value =>
      have atEnd : after.cursor.atEnd tokens.toArray = true ↔ ¬ after.position < tokens.length := by
        simp [Cursor.atEnd, ParseState.position]
      by_cases short : after.position < tokens.length
      · simp [Parser.verdict, atEnd, short, eq_comm]
      · simp [Parser.verdict, atEnd, short]

end Parlance
