import Parlance.Parse.Parser
import Parlance.Proofs.Evaluation.Fuel

/-! Parses with and without a trace. No step of a run looks at the log, so both come to the same; and
as going back neither lowers the high-water mark nor adds to the log, the furthest entry of a log is
where a syntax error is reported. -/

namespace Parlance

def Cursor.unlogged (cursor : Cursor) : Cursor := { cursor with log := none }

def ParseState.unlogged (state : ParseState) : ParseState :=
  { state with cursor := state.cursor.unlogged }

def Cursor.Peaks (cursor : Cursor) : Prop :=
  ∃ log, cursor.log = some log ∧ cursor.highWater ∈ log ∧ ∀ position ∈ log, position ≤ cursor.highWater

theorem Cursor.Peaks.restAt {cursor : Cursor} (peaks : cursor.Peaks) (tokens : Array Token)
    (position : Nat) : (cursor.restAt tokens position).Peaks := by
  obtain ⟨log, kept, reached, furthest⟩ := peaks
  unfold Cursor.restAt
  generalize pastEther tokens (tokens.size - position) position = rest
  refine ⟨rest :: log, by simp [kept], ?_, fun entry member => ?_⟩
  · rcases Nat.le_total cursor.highWater rest with le | le
    · simp [Nat.max_eq_right le]
    · simp [Nat.max_eq_left le, reached]
  · rcases List.mem_cons.mp member with rfl | member
    · exact Nat.le_max_right _ _
    · exact Nat.le_trans (furthest entry member) (Nat.le_max_left _ _)

theorem Cursor.peaks_start (tokens : Array Token) : (Cursor.start tokens true).Peaks := by
  refine ⟨[(Cursor.start tokens true).position], rfl, ?_, ?_⟩
  · simp [Cursor.start, Cursor.restAt]
  · simp [Cursor.start, Cursor.restAt]

/-- The first state is that of a trace, the second what it is without one. -/
structure Traces (state other : ParseState) : Prop where
  unlogged : other = state.unlogged
  peaks : state.cursor.Peaks

theorem ParseContext.traces (context : ParseContext) : context.Congruence Traces fun _ => True where
  position := by rintro state _ ⟨rfl, -⟩; rfl
  marked _ := trivial
  advance := by rintro state _ ⟨rfl, peaks⟩; exact ⟨rfl, peaks.restAt _ _⟩
  rewind := by rintro state _ ⟨rfl, peaks⟩ mark -; exact ⟨rfl, peaks⟩
  deeper := by rintro state _ ⟨rfl, peaks⟩; exact ⟨rfl, peaks⟩
  shallower := by rintro state _ ⟨rfl, peaks⟩; exact ⟨rfl, peaks⟩
  tooDeep := by rintro state _ ⟨rfl, -⟩; rfl

theorem traces_start (tokens : Array Token) :
    Traces ⟨.start tokens true, 0⟩ ⟨.start tokens false, 0⟩ := ⟨rfl, Cursor.peaks_start tokens⟩

def Verdict.untraced : Verdict → Verdict
  | .parsed outcome _ => .parsed outcome []
  | .broken fault => .broken fault

theorem Parser.verdict_unlogged (tokens : List Token) (origin : Option String) (outcome : Outcome)
    (state : ParseState) : Parser.verdict tokens origin (outcome, state.unlogged) =
      (Parser.verdict tokens origin (outcome, state)).untraced := by
  cases outcome <;> rfl

theorem Parser.runWith_untraced (parser : Parser) (fuel : Nat) (start : String)
    (tokens : List Token) (origin : Option String) :
    parser.runWith fuel start tokens origin false =
      (parser.runWith fuel start tokens origin true).map Verdict.untraced := by
  have same := traces_start (parser.context tokens).tokens
  have congruence := (parser.context tokens).traces
  unfold Parser.runWith
  cases ran : (parser.context tokens).run fuel (.rule start)
      ⟨.start (parser.context tokens).tokens true, 0⟩ with
  | none =>
      have never := (ParseContext.run_eq_none_iff congruence same).mp ran
      simp only [ran, never, Option.map_none]
  | some result =>
      obtain ⟨outcome, after⟩ := result
      obtain ⟨_, ranToo, rfl, -⟩ := ParseContext.run_covers congruence (Nat.le_refl fuel) _ trivial
        _ _ same outcome after ran
      simp only [ran, ranToo, Option.map_some, Parser.verdict_unlogged]

theorem Parser.run_untraced (parser : Parser) (start : String) (tokens : List Token)
    (origin : Option String) : parser.run start tokens origin false =
      (parser.run start tokens origin true).map Verdict.untraced :=
  parser.runWith_untraced _ start tokens origin

theorem Parser.runWith_furthest {parser : Parser} {fuel : Nat} {start : String}
    {tokens : List Token} {origin : Option String} {error : SyntaxError} {log : List Nat}
    (fails : parser.runWith fuel start tokens origin true = some (.parsed (.error error) log)) :
    error.index ∈ log ∧ ∀ position ∈ log, position ≤ error.index := by
  obtain ⟨⟨outcome, after⟩, ran, shows⟩ := Option.map_eq_some_iff.mp fails
  obtain ⟨_, -, -, kept, logged, reached, furthest⟩ := ParseContext.run_covers
    (parser.context tokens).traces (Nat.le_refl fuel) _ trivial _ _ (traces_start _) outcome after ran
  have told : error.index = after.cursor.highWater ∧ log = kept.reverse := by
    cases outcome with
    | broken => cases shows
    | mismatch => cases shows; simp [Cursor.trace?, logged]
    | matched value =>
        simp only [Parser.verdict, Verdict.parsed.injEq] at shows
        obtain ⟨short, rfl⟩ := shows
        split at short
        · cases short
        · cases short
          simp [Cursor.trace?, logged]
  obtain ⟨here, rfl⟩ := told
  simpa [here] using ⟨reached, furthest⟩

end Parlance
