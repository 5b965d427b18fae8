import Parlance.Proofs.Parse.Invariant
import Parlance.Proofs.Token.Lossless

/-! Where a syntax error points. The high-water mark is set where the cursor comes to rest and nowhere
else, so there is a hard token at it or nothing; and as the tokens join to the source, the text before
that token is what the tokens before it take of the source. -/

namespace Parlance

open ParseContext
open Token (chars)

def Cursor.PeaksHard (tokens : Array Token) (cursor : Cursor) : Prop :=
  ∀ text, tokens[cursor.highWater]? ≠ some (.soft text)

theorem Cursor.pastEther_hard (tokens : Array Token) (position : Nat) (text : String) :
    tokens[pastEther tokens (tokens.size - position) position]? ≠ some (.soft text) := by
  rcases Nat.le_total position tokens.size with within | beyond
  · exact (pastEther_spec within (Nat.le_refl _)).1.hard text
  · rw [Nat.sub_eq_zero_of_le beyond, pastEther, Array.getElem?_eq_none beyond]
    exact (Option.some_ne_none _).symm

theorem Cursor.PeaksHard.restAt {tokens : Array Token} {cursor : Cursor}
    (peaks : cursor.PeaksHard tokens) (position : Nat) :
    (cursor.restAt tokens position).PeaksHard tokens := by
  intro text
  show tokens[max cursor.highWater (pastEther tokens (tokens.size - position) position)]? ≠ _
  rcases Nat.le_total cursor.highWater (pastEther tokens (tokens.size - position) position) with
    le | le
  · rw [Nat.max_eq_right le]
    exact pastEther_hard tokens position text
  · rw [Nat.max_eq_left le]
    exact peaks text

theorem Cursor.peaksHard_start (tokens : Array Token) (traced : Bool) :
    (Cursor.start tokens traced).PeaksHard tokens := by
  intro text
  show tokens[max 0 (pastEther tokens (tokens.size - 0) 0)]? ≠ _
  rw [Nat.max_eq_right (Nat.zero_le _)]
  exact pastEther_hard tokens 0 text

/-- The mark is at a hard token or behind all of them after each move, also if scripts go back to
places where the parse has never been. -/
theorem ParseContext.peaksHard (context : ParseContext) :
    context.Congruence (fun state other => other = state ∧ state.cursor.PeaksHard context.tokens)
      fun _ => True where
  position := by rintro state _ ⟨rfl, -⟩; rfl
  marked _ := trivial
  advance := by rintro state _ ⟨rfl, peaks⟩; exact ⟨rfl, peaks.restAt _⟩
  rewind := by rintro state _ ⟨rfl, peaks⟩ mark -; exact ⟨rfl, peaks⟩
  deeper := by rintro state _ ⟨rfl, peaks⟩; exact ⟨rfl, peaks⟩
  shallower := by rintro state _ ⟨rfl, peaks⟩; exact ⟨rfl, peaks⟩
  tooDeep := by rintro state _ ⟨rfl, -⟩; rfl

theorem ParseContext.invariant_inside (context : ParseContext) :
    context.Invariant fun state =>
      state.position ≤ context.tokens.size ∧ state.cursor.highWater ≤ context.tokens.size where
  advance here :=
    have moved := ParseState.advance_le here.1 (Nat.le_refl _)
    ⟨moved, Nat.max_le.mpr ⟨here.2, moved⟩⟩
  back here there _ := ⟨here.1, there.2⟩
  deeper here := here
  shallower here := here

section Parser

variable {parser : Parser} {start : String} {tokens : List Token} {origin : Option String}
  {traced : Bool} {error : SyntaxError} {log : List Nat}

theorem Parser.ComesTo.error_hard
    (fails : parser.ComesTo start tokens origin traced (.parsed (.error error) log)) :
    error.origin = origin ∧ error.tokens = tokens ∧
      ∀ text, tokens[error.index]? ≠ some (.soft text) := by
  obtain ⟨fuel, fails⟩ := fails
  obtain ⟨⟨outcome, after⟩, ran, shows⟩ := Option.map_eq_some_iff.mp fails
  obtain ⟨-, rfl, -⟩ := Parser.verdict_eq_error_iff.mp shows
  obtain ⟨_, -, -, peaks⟩ := ParseContext.run_covers (parser.context tokens).peaksHard
    (Nat.le_refl fuel) _ trivial _ _ ⟨rfl, Cursor.peaksHard_start _ traced⟩ outcome after ran
  exact ⟨rfl, rfl, fun text => by simpa [Parser.context] using peaks text⟩

theorem Parser.ComesTo.error_inside (tethered : parser.grammar.Tethered)
    (fails : parser.ComesTo start tokens origin traced (.parsed (.error error) log)) :
    error.index ≤ tokens.length := by
  obtain ⟨outcome, after, ran, shows⟩ := Parser.comesTo_iff.mp fails
  obtain ⟨-, rfl, -⟩ := Parser.verdict_eq_error_iff.mp shows
  have begun : (Cursor.start tokens.toArray traced).position ≤ tokens.toArray.size :=
    (Cursor.start_spec tokens.toArray traced).1.within
  have ends := ran.keeps (parser.context tokens).invariant_inside tethered.context
    Pattern.ReadBy.of_rule ⟨begun, Nat.max_le.mpr ⟨Nat.zero_le _, begun⟩⟩
  simpa [Parser.context] using ends.2

end Parser

/-- What is left of the source where an error points: it begins with the hard token there, or nothing
is left. -/
inductive SyntaxError.PointsAt (error : SyntaxError) : List Char → Prop where
  | token {kind text : String} {more : List Char}
      (here : error.tokens[error.index]? = some (.hard kind text))
      (shown : error.offender = text) : PointsAt error (text.toList ++ more)
  | finish (beyond : error.tokens.length ≤ error.index) (shown : error.offender = "end of input") :
      PointsAt error []

theorem SyntaxError.line_eq (error : SyntaxError) :
    error.line = 1 + (chars (error.tokens.take error.index)).count '\n' := by
  rw [line, newlines, Token.toList_join]

theorem SyntaxError.pointsAt {error : SyntaxError}
    (hard : ∀ text, error.tokens[error.index]? ≠ some (.soft text)) :
    error.PointsAt (chars (error.tokens.drop error.index)) := by
  cases here : error.tokens[error.index]? with
  | none =>
      have beyond := List.getElem?_eq_none_iff.mp here
      rw [List.drop_eq_nil_of_le beyond]
      exact .finish beyond (by simp only [offender, here])
  | some token =>
      cases token with
      | soft text => exact absurd here (hard text)
      | hard kind text =>
          obtain ⟨inside, same⟩ := List.getElem?_eq_some_iff.mp here
          rw [List.drop_eq_getElem_cons inside, same, Token.chars_cons]
          exact .token here (by simp only [offender, here, Token.text])

theorem SyntaxError.splits {error : SyntaxError} {lexicon : Lexicon} {source : String}
    (reads : error.tokens = lexicon.tokenize source)
    (hard : ∀ text, error.tokens[error.index]? ≠ some (.soft text)) :
    ∃ rest, source.toList = chars (error.tokens.take error.index) ++ rest ∧ error.PointsAt rest := by
  refine ⟨chars (error.tokens.drop error.index), ?_, pointsAt hard⟩
  rw [← Token.chars_append, List.take_append_drop, reads]
  exact (lexicon.chars_tokenize source).symm

end Parlance
