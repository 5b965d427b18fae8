import Parlance.Builtin.Terminator
import Parlance.Proofs.Evaluation.Lockstep
import Parlance.Proofs.Peg.Parsing

/-! A syntax error depends on nothing behind it. Whatever a parse looks at, on abandoned branches too,
lies at or before the furthest token that it reached, so other tokens from there on change neither
where the parse fails nor what it says about the failure. -/

namespace Parlance

open ParseContext

/-- Goes back only to marks that are allowed, and to where the cursor was when it was asked for. -/
def Script.Tethered (marks : Nat → Prop) : Script → Prop
  | .yield _ | .mismatch | .abandon _ => True
  | .peek next => ∀ token, (next token).Tethered marks
  | .ether next => ∀ tokens, (next tokens).Tethered marks
  | .cursor next => ∀ position, (next position).Tethered fun mark => marks mark ∨ mark = position
  | .advance next => next.Tethered marks
  | .rewind mark next => marks mark ∧ next.Tethered marks
  | .rule _ next | .part _ next => ∀ answer, (next answer).Tethered marks

theorem Script.Tethered.mono {script : Script} {marks wider : Nat → Prop}
    (tethered : script.Tethered marks) (widens : ∀ mark, marks mark → wider mark) :
    script.Tethered wider := by
  induction script generalizing marks wider with
  | yield | mismatch | abandon => trivial
  | peek next ih | ether next ih | rule _ next ih | part _ next ih =>
      exact fun answer => ih answer (tethered answer) widens
  | cursor next ih =>
      exact fun position => ih position (tethered position) fun mark => Or.imp_left (widens mark)
  | advance next ih => exact ih tethered widens
  | rewind mark next ih => exact ⟨widens mark tethered.1, ih tethered.2 widens⟩

/-- All custom handlers look at the current token, at the ether before it and at the end of input
alone, and go back only to where they have been. -/
def Grammar.Tethered (grammar : Grammar) : Prop :=
  grammar.ReadBy fun reader => reader.script.Tethered fun _ => False

theorem Builtin.Terminator.tethered (marks : Nat → Prop) : script.Tethered marks := by
  intro next?
  cases next? with
  | none => trivial
  | some next =>
      by_cases semicolon : next.kind? = some ";"
      · simp only [if_pos semicolon, Script.Tethered]
      · simp only [if_neg semicolon, Script.Tethered]
        intro ether
        split <;> trivial

namespace Cursor

variable {tokens others : Array Token} {reach : Nat}

/-- The tokens up to a place are the same, and there is one at that place. -/
structure Agree (tokens others : Array Token) (reach : Nat) : Prop where
  same : ∀ place ≤ reach, tokens[place]? = others[place]?
  inside : reach < tokens.size

theorem Agree.insideToo (agree : Agree tokens others reach) : reach < others.size := by
  have here := agree.same reach (Nat.le_refl _)
  rw [Array.getElem?_eq_getElem agree.inside] at here
  exact (Array.getElem?_eq_some_iff.mp here.symm).1

theorem le_pastEther (fuel position : Nat) : position ≤ pastEther tokens fuel position := by
  induction fuel generalizing position with
  | zero => exact Nat.le_refl _
  | succ fuel ih =>
      simp only [pastEther]
      split
      · exact Nat.le_of_succ_le (ih (position + 1))
      · exact Nat.le_refl _

theorem Agree.pastEther (agree : Agree tokens others reach) {fuel more position : Nat}
    (enough : tokens.size - position ≤ fuel) (enoughToo : others.size - position ≤ more)
    (within : pastEther tokens fuel position ≤ reach) :
    pastEther others more position = pastEther tokens fuel position := by
  have inside := agree.inside
  have insideToo := agree.insideToo
  -- Each list allows for its own length, so the two run on different fuel.
  induction fuel generalizing more position with
  | zero => simp only [Cursor.pastEther] at within; omega
  | succ fuel ih =>
      have here : position ≤ reach := Nat.le_trans (le_pastEther _ _) within
      obtain ⟨more, rfl⟩ : ∃ less, more = less + 1 := ⟨more - 1, by omega⟩
      simp only [Cursor.pastEther, ← agree.same position here] at within ⊢
      split
      next soft =>
        simp only [soft] at within
        exact ih (by omega) (by omega) within
      next => rfl

theorem Agree.restAt (agree : Agree tokens others reach) {position : Nat} {cursor : Cursor}
    (within : (restAt tokens position cursor).highWater ≤ reach) :
    Cursor.restAt others position cursor = Cursor.restAt tokens position cursor := by
  have rests : Cursor.pastEther tokens (tokens.size - position) position ≤ reach :=
    Nat.le_trans (Nat.le_max_right ..) within
  have same := agree.pastEther (Nat.le_refl _) (Nat.le_refl _) rests
  simp only [Cursor.restAt, same]

theorem Agree.etherEndingAt (agree : Agree tokens others reach) {position : Nat}
    (within : position ≤ reach) (collected : List Token) :
    etherEndingAt others position collected = etherEndingAt tokens position collected := by
  induction position generalizing collected with
  | zero => rfl
  | succ position ih =>
      have within := Nat.le_of_succ_le within
      simp only [Cursor.etherEndingAt, ← agree.same position within, ih within]

end Cursor

def SameUpTo (reach : Nat) (state twin : ParseState) : Prop :=
  twin = state ∧ state.position ≤ reach

section Agree

variable {parser : Parser} {tokens others : List Token} {reach : Nat}
  (agree : Cursor.Agree tokens.toArray others.toArray reach)

include agree

theorem Cursor.Agree.advance {state : ParseState}
    (within : (state.advance tokens.toArray).cursor.highWater ≤ reach)
    (here : state.position ≤ reach) :
    SameUpTo reach (state.advance tokens.toArray) (state.advance others.toArray) := by
  have inside : state.cursor.position < tokens.toArray.size := Nat.lt_of_le_of_lt here agree.inside
  have insideToo : state.cursor.position < others.toArray.size :=
    Nat.lt_of_le_of_lt here agree.insideToo
  have moved : state.cursor.advance tokens.toArray =
      state.cursor.restAt tokens.toArray (state.cursor.position + 1) := by
    rw [Cursor.advance, if_pos inside]
  have movedToo : state.cursor.advance others.toArray =
      state.cursor.restAt others.toArray (state.cursor.position + 1) := by
    rw [Cursor.advance, if_pos insideToo]
  have within : (state.cursor.advance tokens.toArray).highWater ≤ reach := within
  refine ⟨?_, Nat.le_trans ?_ within⟩
  · rw [moved] at within
    simp only [ParseState.advance, moved, movedToo, agree.restAt within]
  · show (state.cursor.advance tokens.toArray).position ≤ _
    rw [moved]
    exact Nat.le_max_right ..

theorem Cursor.Agree.ether {state : ParseState} (here : state.position ≤ reach) :
    state.cursor.ether others.toArray = state.cursor.ether tokens.toArray := by
  have inside : state.cursor.position ≤ tokens.toArray.size :=
    Nat.le_of_lt (Nat.lt_of_le_of_lt here agree.inside)
  have insideToo : state.cursor.position ≤ others.toArray.size :=
    Nat.le_of_lt (Nat.lt_of_le_of_lt here agree.insideToo)
  rw [Cursor.ether, Cursor.ether, Nat.min_eq_left inside, Nat.min_eq_left insideToo]
  exact agree.etherEndingAt here []

/-- As long as a parse stays where the tokens agree, another keeps step with it. -/
theorem Grammar.Tethered.lockstep (tethered : parser.grammar.Tethered) :
    Lockstep (parser.context tokens) (parser.context others) reach (SameUpTo reach)
      fun _ script => script.Tethered (· ≤ reach) where
  rules := rfl
  readers := by
    intro name body found
    refine (tethered.normalized name body found).mono fun reader kept _ => ?_
    exact kept.mono fun _ => False.elim
  tooDeep := by rintro state _ ⟨rfl, -⟩; rfl
  deeper := by rintro state _ ⟨rfl, here⟩; exact ⟨rfl, here⟩
  shallower := by rintro state _ ⟨rfl, here⟩; exact ⟨rfl, here⟩
  position := by rintro state _ after _ ⟨rfl, -⟩ ⟨rfl, -⟩; rfl
  back := by rintro state _ after _ ⟨rfl, here⟩ ⟨rfl, -⟩; exact ⟨rfl, here⟩
  peek := by rintro state _ ⟨rfl, here⟩; exact agree.same _ here
  advance := by rintro state _ ⟨rfl, here⟩ within; exact agree.advance within here
  peekHeeded kept := kept _
  etherHeeded := by
    rintro state _ next ⟨rfl, here⟩ kept
    exact ⟨congrArg next (agree.ether here).symm, kept _⟩
  cursorHeeded := by
    rintro state _ next ⟨rfl, here⟩ kept
    refine ⟨rfl, (kept _).mono fun mark seen => ?_⟩
    rcases seen with seen | rfl
    · exact seen
    · exact here
  advanceHeeded kept := kept
  rewindHeeded := by
    rintro state _ mark next ⟨rfl, -⟩ ⟨seen, kept⟩
    exact ⟨⟨rfl, seen⟩, kept⟩
  ruleHeeded kept := kept
  partHeeded kept := kept

end Agree

theorem SameUpTo.initial {tokens others : List Token} {reach : Nat}
    (agree : Cursor.Agree tokens.toArray others.toArray reach) {traced : Bool}
    (within : (ParseState.initial tokens traced).cursor.highWater ≤ reach) :
    SameUpTo reach (.initial tokens traced) (.initial others traced) := by
  refine ⟨?_, Nat.le_trans (Nat.le_max_right ..) within⟩
  have same := agree.restAt within
  exact congrArg (ParseState.mk · 0) same

/-- A parse that fails at a token fails there, with the same token and line, whatever tokens stand
behind that one. -/
theorem syntaxError_local {parser : Parser} (tethered : parser.grammar.Tethered) {start : String}
    {tokens others : List Token} {origin : Option String} {traced : Bool} {error : SyntaxError}
    {log : List Nat}
    (ends : parser.ComesTo start tokens origin traced (.parsed (.error error) log))
    (inside : error.index < tokens.length)
    (agree : ∀ place ≤ error.index, others[place]? = tokens[place]?) :
    ∃ again, parser.ComesTo start others origin traced (.parsed (.error again) log) ∧
      again.index = error.index ∧ again.offender = error.offender ∧ again.line = error.line := by
  obtain ⟨outcome, after, ran, comes⟩ := Parser.comesTo_iff.mp ends
  obtain ⟨short, rfl, rfl⟩ := Parser.verdict_eq_error_iff.mp comes
  let reach := after.cursor.highWater
  have same : Cursor.Agree tokens.toArray others.toArray reach :=
    ⟨fun place le => by simpa using (agree place le).symm, by simpa using inside⟩
  obtain ⟨left, again, still, here⟩ := ran.lockstep (tethered.lockstep same)
    Pattern.ReadBy.of_rule (Nat.le_refl _) (SameUpTo.initial same ran.highWater_le)
  rw [still] at again
  have insideToo : reach < others.length := by simpa using same.insideToo
  have shortToo : outcome.FallsShort others after :=
    short.imp_right fun ⟨value, matched, _⟩ => ⟨value, matched, Nat.lt_of_le_of_lt here insideToo⟩
  refine ⟨⟨origin, others, reach⟩, Parser.comesTo_iff.mpr ⟨outcome, after, again, ?_⟩, rfl, ?_, ?_⟩
  · exact Parser.verdict_eq_error_iff.mpr ⟨shortToo, rfl, rfl⟩
  · simp only [SyntaxError.offender, agree reach (Nat.le_refl _)]
    rfl
  · have before : others.take reach = tokens.take reach := by
      refine List.ext_getElem? fun place => ?_
      simp only [List.getElem?_take]
      split
      next le => exact agree place (Nat.le_of_lt le)
      next => rfl
    simp only [SyntaxError.line, before]
    rfl

def Builtin.Terminator.endedNames : RuleSet :=
  [("S", [.ofPattern (.plus (.sequence [.tokenClass "Name", pattern 0]) none)])]

theorem Builtin.Terminator.readBy_endedNames :
    endedNames.ReadBy fun reader => reader.script = script := by
  refine RuleSet.readBy_of_entries fun entry listed production member reader parts met => ?_
  obtain rfl := List.mem_singleton.mp listed
  obtain rfl := List.mem_singleton.mp member
  simp only [Production.ofPattern, Pattern.plus, Pattern.walk, Pattern.walk.walkAll,
    Pattern.tokenClass, Builtin.Terminator.pattern, Pattern.punctuator, List.mem_cons,
    List.mem_append, List.not_mem_nil, reduceCtorEq, Pattern.custom.injEq, false_or, or_false] at met
  obtain ⟨rfl, -⟩ := met
  rfl

/-- A terminator is missing between two names, whatever stands behind the second. -/
theorem syntaxError_local_unterminated :
    let parser := Builtin.Terminator.endedNames.parser
    let tokens : List Token := [.hard "Name" "a", .hard "Name" "b", .literal ";"]
    let others : List Token := [.hard "Name" "a", .hard "Name" "b", .soft "\n", .literal "("]
    parser.grammar.Tethered ∧
      parser.ComesTo "S" tokens none false (.parsed (.error ⟨none, tokens, 1⟩) []) ∧
      (∀ place ≤ 1, others[place]? = tokens[place]?) ∧
      ∃ again, parser.ComesTo "S" others none false (.parsed (.error again) []) ∧
        again.index = 1 ∧ again.offender = "b" ∧ again.line = 1 := by
  intro parser tokens others
  have tethered : parser.grammar.Tethered := fun name body found =>
    (Builtin.Terminator.readBy_endedNames.grammar found).mono fun reader ends =>
      ends ▸ Builtin.Terminator.tethered _
  have ends : parser.ComesTo "S" tokens none false (.parsed (.error ⟨none, tokens, 1⟩) []) :=
    ⟨20, rfl⟩
  have agree : ∀ place ≤ 1, others[place]? = tokens[place]? := by decide
  have line : SyntaxError.line ⟨none, tokens, 1⟩ = 1 := by decide
  obtain ⟨again, endsToo, index, offender, sameLine⟩ :=
    syntaxError_local tethered ends (by decide) agree
  exact ⟨tethered, ends, agree, again, endsToo, index, offender, sameLine.trans line⟩

end Parlance
