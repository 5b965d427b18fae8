import Parlance.Proofs.Parse.Locality

/-! Ether matters only for what is heard of it. Two token lists of the same hard tokens are parsed to
the same value, or fail at the same hard token, if nothing that a custom handler can hear tells the
ether before their tokens apart. A terminator hears whether a line break stands there.

Positions count soft tokens too, so those of the two parses differ. What they have in common is how
many hard tokens are left, and at places of rest that tells which of two comes first. -/

namespace Parlance

open ParseContext
open Cursor (Rests remaining)

def Landed.heard {κ : Type} (key : List Token → κ) (landed : Landed) : Token × κ :=
  (landed.token, key landed.ether)

namespace Cursor

variable {tokens : Array Token}

theorem Rests.peek?_eq {cursor : Cursor} (rests : Rests tokens cursor.position) :
    cursor.peek? tokens = (remaining tokens cursor.position).head?.map Landed.token := by
  rcases rests.cases with ⟨-, peeked, none⟩ | ⟨kind, text, -, peeked, -, some⟩
  · rw [peeked, none]
    rfl
  · rw [peeked, some]
    rfl

theorem Rests.ether_eq {cursor : Cursor} {token : Token} (rests : Rests tokens cursor.position)
    (ahead : cursor.peek? tokens = some token) :
    (remaining tokens cursor.position).head? = some ⟨cursor.ether tokens, token⟩ := by
  rcases rests.cases with ⟨-, peeked, -⟩ | ⟨kind, text, -, peeked, -, some⟩
  · rw [peeked] at ahead
    cases ahead
  · rw [peeked] at ahead
    cases ahead
    rw [some]
    rfl

theorem Rests.advance {cursor : Cursor} (rests : Rests tokens cursor.position) :
    Rests tokens (cursor.advance tokens).position ∧
      remaining tokens (cursor.advance tokens).position =
        (remaining tokens cursor.position).tail := by
  rcases rests.cases with ⟨atEnd, -, none⟩ | ⟨kind, text, -, -, restsToo, some⟩
  · have stays : cursor.advance tokens = restAt tokens cursor.position cursor := by
      rw [Cursor.advance, if_neg (by omega)]
    obtain ⟨restsToo, same, -⟩ := restAt_spec cursor rests.within
    rw [stays, same, none]
    exact ⟨restsToo, rfl⟩
  · rw [some]
    exact ⟨restsToo, rfl⟩

theorem Rests.le_iff {position later : Nat} (rests : Rests tokens position)
    (restsToo : Rests tokens later) :
    position ≤ later ↔ (remaining tokens later).length ≤ (remaining tokens position).length := by
  constructor
  · exact length_remaining_anti
  · intro fewer
    by_contra behind
    have more := restsToo.length_lt (Nat.lt_of_not_le behind) rests.within
    omega

theorem token_remaining (position : Nat) :
    (remaining tokens position).map Landed.token =
      (tokens.toList.drop position).filter Token.isHard :=
  Token.token_landedAfter _ _

end Cursor

/-- Places of rest in two token lists, with as much left behind them as far as it can be heard. -/
structure Level {κ : Type} (key : List Token → κ) (tokens others : Array Token)
    (place twin : Nat) : Prop where
  rests : Rests tokens place
  restsToo : Rests others twin
  left : (remaining tokens place).map (Landed.heard key) =
    (remaining others twin).map (Landed.heard key)

namespace Level

variable {κ : Type} {key : List Token → κ} {tokens others : Array Token} {place twin : Nat}

theorem length_eq (level : Level key tokens others place twin) :
    (remaining tokens place).length = (remaining others twin).length := by
  have same := congrArg List.length level.left
  simpa only [List.length_map] using same

theorem token_eq (level : Level key tokens others place twin) :
    (remaining tokens place).map Landed.token = (remaining others twin).map Landed.token := by
  have same := congrArg (List.map Prod.fst) level.left
  rwa [List.map_map, List.map_map] at same

theorem le_iff {later laterTwin : Nat} (level : Level key tokens others place twin)
    (ahead : Level key tokens others later laterTwin) : place ≤ later ↔ twin ≤ laterTwin := by
  rw [level.rests.le_iff ahead.rests, level.restsToo.le_iff ahead.restsToo, level.length_eq,
    ahead.length_eq]

theorem eq_iff {later laterTwin : Nat} (level : Level key tokens others place twin)
    (ahead : Level key tokens others later laterTwin) : later = place ↔ laterTwin = twin := by
  have forward := level.le_iff ahead
  have backward := ahead.le_iff level
  omega

theorem max {later laterTwin : Nat} (level : Level key tokens others place twin)
    (ahead : Level key tokens others later laterTwin) :
    Level key tokens others (Max.max place later) (Max.max twin laterTwin) := by
  have ordered := level.le_iff ahead
  by_cases le : place ≤ later
  · rw [Nat.max_eq_right le, Nat.max_eq_right (ordered.mp le)]
    exact ahead
  · have le' : ¬ twin ≤ laterTwin := mt ordered.mpr le
    rw [Nat.max_eq_left (Nat.le_of_not_le le), Nat.max_eq_left (Nat.le_of_not_le le')]
    exact level

variable {cursor other : Cursor}

theorem peek?_eq (level : Level key tokens others cursor.position other.position) :
    cursor.peek? tokens = other.peek? others := by
  rw [level.rests.peek?_eq, level.restsToo.peek?_eq, ← List.head?_map, ← List.head?_map,
    level.token_eq]

theorem atEnd_eq (level : Level key tokens others cursor.position other.position) :
    cursor.atEnd tokens = other.atEnd others := by
  rw [Bool.eq_iff_iff, level.rests.atEnd_iff, level.restsToo.atEnd_iff,
    ← List.length_eq_zero_iff, level.length_eq, List.length_eq_zero_iff]

theorem key_ether {token : Token} (level : Level key tokens others cursor.position other.position)
    (ahead : cursor.peek? tokens = some token) :
    key (cursor.ether tokens) = key (other.ether others) := by
  have heads := congrArg List.head? level.left
  rw [List.head?_map, List.head?_map, level.rests.ether_eq ahead,
    level.restsToo.ether_eq (level.peek?_eq ▸ ahead)] at heads
  exact congrArg Prod.snd (Option.some.inj heads)

theorem advance (level : Level key tokens others cursor.position other.position) :
    Level key tokens others (cursor.advance tokens).position (other.advance others).position := by
  obtain ⟨rests, left⟩ := level.rests.advance
  obtain ⟨restsToo, leftToo⟩ := level.restsToo.advance
  exact ⟨rests, restsToo, by rw [left, leftToo, List.map_tail, List.map_tail, level.left]⟩

end Level

inductive SamePlace (tokens others : List Token) : Nat → Nat → Prop where
  | atEnd : SamePlace tokens others tokens.length others.length
  | hard {place twin : Nat} {token : Token} (hard : token.isHard)
      (here : tokens[place]? = some token) (there : others[twin]? = some token)
      (before : (tokens.take place).filter Token.isHard = (others.take twin).filter Token.isHard) :
      SamePlace tokens others place twin

theorem Level.samePlace {κ : Type} {key : List Token → κ} {tokens others : List Token}
    {place twin : Nat} (level : Level key tokens.toArray others.toArray place twin)
    (same : tokens.filter Token.isHard = others.filter Token.isHard) :
    SamePlace tokens others place twin := by
  have behind : (tokens.drop place).filter Token.isHard = (others.drop twin).filter Token.isHard := by
    have left := level.token_eq
    rwa [Cursor.token_remaining, Cursor.token_remaining] at left
  have before : (tokens.take place).filter Token.isHard =
      (others.take twin).filter Token.isHard := by
    have whole : (tokens.take place).filter Token.isHard ++ (tokens.drop place).filter Token.isHard =
        (others.take twin).filter Token.isHard ++ (tokens.drop place).filter Token.isHard := by
      rw [← List.filter_append, List.take_append_drop, same, behind, ← List.filter_append,
        List.take_append_drop]
    exact List.append_cancel_right whole
  let cursor : Cursor := ⟨place, 0, none⟩
  let other : Cursor := ⟨twin, 0, none⟩
  have level : Level key tokens.toArray others.toArray cursor.position other.position := level
  rcases level.rests.cases with ⟨atEnd, peeked, -⟩ | ⟨kind, text, -, peeked, -, -⟩
  · have atEndToo : twin = others.length := by
      rcases level.restsToo.cases with ⟨atEndToo, -, -⟩ | ⟨kind, text, -, peekedToo, -, -⟩
      · exact atEndToo
      · rw [level.peek?_eq, peekedToo] at peeked
        cases peeked
    have atEnd : place = tokens.length := atEnd
    rw [atEnd, atEndToo]
    exact .atEnd
  · have there : other.peek? others.toArray = some (.hard kind text) := level.peek?_eq ▸ peeked
    have here : tokens[place]? = some (.hard kind text) := by simpa [Cursor.peek?] using peeked
    exact .hard rfl here (by simpa [Cursor.peek?] using there) before

/-- Looks at tokens ahead and at what is heard of the ether before them, and neither asks for places
nor goes back. The ether before the end of input is not looked at. -/
def Script.Hears {κ : Type} (key : List Token → κ) : Bool → Script → Prop
  | _, .yield _ | _, .mismatch | _, .abandon _ => True
  | _, .peek next => (next none).Hears key false ∧ ∀ token, (next (some token)).Hears key true
  | ahead, .ether next => ahead = true ∧ ∀ ether, (next ether).Hears key true ∧
      ∀ other, key ether = key other → next ether = next other
  | _, .cursor _ | _, .rewind _ _ => False
  | _, .advance next => next.Hears key false
  | _, .rule _ next | _, .part _ next => ∀ answer, (next answer).Hears key false

theorem Builtin.Terminator.hears (ahead : Bool) : script.Hears breaksLine ahead := by
  refine ⟨trivial, fun next => ?_⟩
  by_cases semicolon : next.kind? = some ";"
  · simp only [if_pos semicolon, Script.Hears]
  · simp only [if_neg semicolon, Script.Hears]
    refine ⟨trivial, fun ether => ⟨?_, fun other same => by rw [same]⟩⟩
    split <;> trivial

def Script.HeardAt {κ : Type} (key : List Token → κ) (tokens : Array Token) (state : ParseState)
    (script : Script) : Prop :=
  ∃ ahead, script.Hears key ahead ∧ (ahead = true → (state.cursor.peek? tokens).isSome)

structure ParseState.Level {κ : Type} (key : List Token → κ) (tokens others : Array Token)
    (state twin : ParseState) : Prop where
  depth : twin.depth = state.depth
  here : Parlance.Level key tokens others state.position twin.position
  furthest : Parlance.Level key tokens others state.cursor.highWater twin.cursor.highWater

section Parser

variable {κ : Type} {key : List Token → κ} {parser : Parser} {tokens others : List Token}

theorem ParseState.Level.initial
    (same : (Token.landed tokens).map (Landed.heard key) =
      (Token.landed others).map (Landed.heard key)) (traced : Bool) :
    ParseState.Level key tokens.toArray others.toArray (.initial tokens traced)
      (.initial others traced) := by
  obtain ⟨rests, left⟩ := Cursor.start_spec tokens.toArray traced
  obtain ⟨restsToo, leftToo⟩ := Cursor.start_spec others.toArray traced
  have level : Parlance.Level key tokens.toArray others.toArray
      (Cursor.start tokens.toArray traced).position (Cursor.start others.toArray traced).position :=
    ⟨rests, restsToo, by rw [left, leftToo]; exact same⟩
  refine ⟨rfl, level, ?_⟩
  show Parlance.Level key _ _ (Cursor.start tokens.toArray traced).highWater
    (Cursor.start others.toArray traced).highWater
  rw [Cursor.highWater_start, Cursor.highWater_start]
  exact level

theorem ParseState.Level.advance {state twin : ParseState}
    (level : state.Level key tokens.toArray others.toArray twin) :
    (state.advance tokens.toArray).Level key tokens.toArray others.toArray
      (twin.advance others.toArray) :=
  ⟨level.depth, level.here.advance, level.furthest.max level.here.advance⟩

/-- Parses of the same hard tokens stay in step, however far they go. -/
theorem Grammar.ReadBy.level
    (hears : parser.grammar.ReadBy fun reader => reader.script.Hears key false) (reach : Nat) :
    Lockstep (parser.context tokens) (parser.context others) reach
      (ParseState.Level key tokens.toArray others.toArray)
      (Script.HeardAt key tokens.toArray) where
  rules := rfl
  readers name body found := (hears.normalized name body found).mono fun reader heard _ =>
    ⟨false, heard, nofun⟩
  tooDeep level := by
    unfold ParseContext.tooDeep
    rw [level.depth]
    rfl
  deeper level := ⟨congrArg (· + 1) level.depth, level.here, level.furthest⟩
  shallower level := ⟨congrArg (· - 1) level.depth, level.here, level.furthest⟩
  position level ahead := level.here.eq_iff ahead.here
  back level ahead := ⟨ahead.depth, level.here, ahead.furthest⟩
  peek level := level.here.peek?_eq
  advance level _ := level.advance
  peekHeeded := by
    rintro state next ⟨_, ⟨atEnd, ahead⟩, -⟩
    cases peeked : state.cursor.peek? tokens.toArray with
    | none => exact ⟨false, peeked ▸ atEnd, nofun⟩
    | some token => exact ⟨true, peeked ▸ ahead token, fun _ => peeked ▸ rfl⟩
  etherHeeded := by
    rintro state twin next level ⟨_, ⟨rfl, heard⟩, ahead⟩
    obtain ⟨token, peeked⟩ := Option.isSome_iff_exists.mp (ahead rfl)
    exact ⟨(heard _).2 _ (level.here.key_ether peeked), true, (heard _).1, ahead⟩
  cursorHeeded := by rintro _ _ _ - ⟨_, none, -⟩; exact none.elim
  advanceHeeded := by rintro _ _ ⟨_, heard, -⟩; exact ⟨false, heard, nofun⟩
  rewindHeeded := by rintro _ _ _ _ - ⟨_, none, -⟩; exact none.elim
  ruleHeeded := by rintro _ _ _ _ ⟨_, heard, -⟩ answer; exact ⟨false, heard answer, nofun⟩
  partHeeded := by rintro _ _ _ _ ⟨_, heard, -⟩ answer; exact ⟨false, heard answer, nofun⟩

/-- The same value, a syntax error at the same place, or the same fault of the grammar. -/
inductive Verdict.SameReading (tokens others : List Token) (origin : Option String) :
    Verdict → Verdict → Prop where
  | value {tree : Tree} {log logToo : List Nat} :
      SameReading tokens others origin (.parsed (.ok tree) log) (.parsed (.ok tree) logToo)
  | error {place twin : Nat} {log logToo : List Nat}
      (samePlace : SamePlace tokens others place twin) :
      SameReading tokens others origin (.parsed (.error ⟨origin, tokens, place⟩) log)
        (.parsed (.error ⟨origin, others, twin⟩) logToo)
  | broken {fault : DefinitionFault} :
      SameReading tokens others origin (.broken fault) (.broken fault)

theorem ParseState.Level.sameReading {after left : ParseState} {outcome : Outcome}
    {origin : Option String} (level : after.Level key tokens.toArray others.toArray left)
    (same : tokens.filter Token.isHard = others.filter Token.isHard) :
    (Parser.verdict tokens origin (outcome, after)).SameReading tokens others origin
      (Parser.verdict others origin (outcome, left)) := by
  cases outcome with
  | broken fault => exact .broken
  | mismatch => exact .error (level.furthest.samePlace same)
  | matched value =>
      have atEnd : after.cursor.atEnd tokens.toArray = left.cursor.atEnd others.toArray :=
        level.here.atEnd_eq
      unfold Parser.verdict
      simp only [atEnd]
      split
      · exact .value
      · exact .error (level.furthest.samePlace same)

theorem Parser.ComesTo.sameReading {start : String} {origin : Option String} {traced : Bool}
    {verdict : Verdict}
    (hears : parser.grammar.ReadBy fun reader => reader.script.Hears key false)
    (same : (Token.landed tokens).map (Landed.heard key) =
      (Token.landed others).map (Landed.heard key))
    (ends : parser.ComesTo start tokens origin traced verdict) :
    ∃ again, parser.ComesTo start others origin traced again ∧
      verdict.SameReading tokens others origin again := by
  obtain ⟨outcome, after, ran, rfl⟩ := Parser.comesTo_iff.mp ends
  obtain ⟨left, again, level⟩ := ran.lockstep (hears.level after.cursor.highWater)
    Pattern.ReadBy.of_rule (Nat.le_refl _) (ParseState.Level.initial same traced)
  have hard : tokens.filter Token.isHard = others.filter Token.isHard := by
    have same := congrArg (List.map Prod.fst) same
    rw [List.map_map, List.map_map] at same
    rw [← Token.token_landedAfter [], ← Token.token_landedAfter []]
    exact same
  exact ⟨_, Parser.comesTo_iff.mpr ⟨outcome, left, again, rfl⟩, level.sameReading hard⟩

theorem SamePlace.symm {place twin : Nat} (same : SamePlace tokens others place twin) :
    SamePlace others tokens twin place := by
  cases same with
  | atEnd => exact .atEnd
  | hard hard here there before => exact .hard hard there here before.symm

theorem Verdict.SameReading.symm {origin : Option String} {verdict again : Verdict}
    (same : verdict.SameReading tokens others origin again) :
    again.SameReading others tokens origin verdict := by
  cases same with
  | value => exact .value
  | error samePlace => exact .error samePlace.symm
  | broken => exact .broken

end Parser

/-- Of the ether between hard tokens a parse notices no more than whether it breaks a line, and that
only where the grammar has terminators. -/
theorem parse_ether_invisible {parser : Parser} {tokens others : List Token}
    (sameTokens : tokens.filter Token.isHard = others.filter Token.isHard)
    (heard : (parser.grammar.ReadBy fun _ => False) ∨
      (parser.grammar.ReadBy fun reader => reader.script = Builtin.Terminator.script) ∧
        (Token.landed tokens).map (fun landed => Builtin.Terminator.breaksLine landed.ether) =
          (Token.landed others).map (fun landed => Builtin.Terminator.breaksLine landed.ether))
    (start : String) (origin : Option String) (traced : Bool) :
    (∀ verdict, parser.ComesTo start tokens origin traced verdict →
      ∃ again, parser.ComesTo start others origin traced again ∧
        verdict.SameReading tokens others origin again) ∧
    ∀ again, parser.ComesTo start others origin traced again →
      ∃ verdict, parser.ComesTo start tokens origin traced verdict ∧
        verdict.SameReading tokens others origin again := by
  have sameTokens : (Token.landed tokens).map Landed.token =
      (Token.landed others).map Landed.token := by
    have (list : List Token) : (Token.landed list).map Landed.token = list.filter Token.isHard :=
      Token.token_landedAfter [] list
    rw [this, this, sameTokens]
  obtain ⟨κ, key, hears, sameKeys⟩ : ∃ (κ : Type) (key : List Token → κ),
      (parser.grammar.ReadBy fun reader => reader.script.Hears key false) ∧
        (Token.landed tokens).map (fun landed => key landed.ether) =
          (Token.landed others).map (fun landed => key landed.ether) := by
    rcases heard with plain | ⟨terminated, sameBreaks⟩
    -- Where there is no handler, nothing is heard of any ether.
    · refine ⟨Unit, fun _ => (), fun name body found => ?_, ?_⟩
      · exact (plain name body found).mono fun _ => False.elim
      · have lengths := congrArg List.length sameTokens
        simpa [List.map_const'] using lengths
    · refine ⟨Bool, Builtin.Terminator.breaksLine, fun name body found => ?_, sameBreaks⟩
      exact (terminated name body found).mono fun reader ends => ends ▸ Builtin.Terminator.hears false
  have same : (Token.landed tokens).map (Landed.heard key) =
      (Token.landed others).map (Landed.heard key) := by
    unfold Landed.heard
    rw [← List.zip_map', ← List.zip_map', sameTokens, sameKeys]
  refine ⟨fun verdict ends => ends.sameReading hears same, fun again ends => ?_⟩
  obtain ⟨verdict, endsToo, reading⟩ := ends.sameReading hears same.symm
  exact ⟨verdict, endsToo, reading.symm⟩

/-- A brace closes nothing in either list, though a statement may end before it. -/
theorem parse_ether_invisible_unopened :
    let parser := Builtin.Terminator.endedNames.parser
    let tokens : List Token := [.hard "Name" "a", .soft "\n", .literal "\x7d"]
    let others : List Token :=
      [.soft " ", .hard "Name" "a", .soft " ", .soft "\n", .literal "\x7d"]
    tokens.filter Token.isHard = others.filter Token.isHard ∧
      (parser.grammar.ReadBy fun reader => reader.script = Builtin.Terminator.script) ∧
      (Token.landed tokens).map (fun landed => Builtin.Terminator.breaksLine landed.ether) =
        (Token.landed others).map (fun landed => Builtin.Terminator.breaksLine landed.ether) ∧
      parser.ComesTo "S" tokens none false (.parsed (.error ⟨none, tokens, 2⟩) []) ∧
      ∃ again, parser.ComesTo "S" others none false again ∧
        (Verdict.parsed (.error ⟨none, tokens, 2⟩) []).SameReading tokens others none again := by
  intro parser tokens others
  have sameTokens : tokens.filter Token.isHard = others.filter Token.isHard := by decide
  have terminated : parser.grammar.ReadBy fun reader => reader.script = Builtin.Terminator.script :=
    fun name body found => Builtin.Terminator.readBy_endedNames.grammar found
  have sameBreaks :
      (Token.landed tokens).map (fun landed => Builtin.Terminator.breaksLine landed.ether) =
        (Token.landed others).map (fun landed => Builtin.Terminator.breaksLine landed.ether) := by
    simp [tokens, others, Token.landed, Token.landedAfter, Token.literal, Token.text,
      Builtin.Terminator.breaksLine]
  have ends : parser.ComesTo "S" tokens none false (.parsed (.error ⟨none, tokens, 2⟩) []) :=
    ⟨20, rfl⟩
  obtain ⟨again, endsToo, reading⟩ :=
    (parse_ether_invisible sameTokens (.inr ⟨terminated, sameBreaks⟩) "S" none false).1 _ ends
  exact ⟨sameTokens, terminated, sameBreaks, ends, again, endsToo, reading⟩

end Parlance
