import Parlance.Parse.Parser
import Parlance.Proofs.Evaluation.Readers
import Parlance.Proofs.Normalization.Meaning

/-! The normalized rules of a grammar run like the rules as they were written. Readers that ask for
a rule or a part could notice where a mismatch left the cursor, so the readers here ask for neither.
-/

namespace Parlance

open ParseContext

def Script.Quiet : Script → Prop
  | .yield _ | .mismatch | .abandon _ => True
  | .peek next => ∀ token, (next token).Quiet
  | .ether next => ∀ tokens, (next tokens).Quiet
  | .cursor next => ∀ position, (next position).Quiet
  | .advance next => next.Quiet
  | .rewind _ next => next.Quiet
  | .rule .. | .part .. => False

abbrev Pattern.Quiet (pattern : Pattern) : Prop := pattern.ReadBy fun reader => reader.script.Quiet

abbrev Task.Quiet (task : Task) : Prop := task.ReadBy (fun reader => reader.script.Quiet) Script.Quiet

theorem evaluates_quiet_script {context : ParseContext} {script : Script} (quiet : script.Quiet)
    (parts others : List Pattern) {state after : ParseState} {outcome : Outcome}
    (evaluates : Evaluates context (.script parts script) state outcome after) :
    Evaluates context (.script others script) state outcome after := by
  induction script generalizing state with
  | yield value => cases evaluates; exact .yield
  | mismatch => cases evaluates; exact .refuse
  | abandon fault => cases evaluates; exact .abandon
  | peek next ih => cases evaluates with | peek ran => exact .peek (ih _ (quiet _) ran)
  | ether next ih => cases evaluates with | ether ran => exact .ether (ih _ (quiet _) ran)
  | cursor next ih => cases evaluates with | cursor ran => exact .cursor (ih _ (quiet _) ran)
  | advance next ih => cases evaluates with | advance ran => exact .advance (ih quiet ran)
  | rewind mark next ih => cases evaluates with | rewind ran => exact .rewind (ih quiet ran)
  | rule name next => exact quiet.elim
  | part index next => exact quiet.elim

theorem runAlike_normalize_of_quiet {context : ParseContext} {pattern : Pattern}
    (quiet : pattern.Quiet) : RunAlike context pattern pattern.normalize := by
  refine runAlike_normalizeWith pattern fun ⟨reader, parts⟩ member normal made => ?_
  have silent := quiet reader parts (Pattern.mem_walk_of_mem_customs member)
  obtain ⟨-, rfl⟩ := Option.ite_some_none_eq_some.mp made
  refine ⟨⟨?_, ?_⟩, ⟨rfl, rfl⟩⟩ <;> refine .of_imp fun evaluates => ?_
  · cases evaluates with | custom ran => exact .custom (evaluates_quiet_script silent _ _ ran)
  · cases evaluates with | custom ran => exact .custom (evaluates_quiet_script silent _ _ ran)

/-- The same tokens and bound, and quiet rules whose counterparts simulate them. -/
structure ParseContext.Supports (other context : ParseContext) : Prop where
  tokens : other.tokens = context.tokens
  maxDepth : other.maxDepth = context.maxDepth
  absent : ∀ {name}, Index.get? name context.rules = none → Index.get? name other.rules = none
  present : ∀ {name body}, Index.get? name context.rules = some body → body.Quiet ∧
    ∃ copy, Index.get? name other.rules = some copy ∧
      Task.Simulates other (.pattern body) (.pattern copy)

section Supports

variable {context other : ParseContext} (supports : other.Supports context)

include supports

theorem ParseContext.Supports.tooDeep (state : ParseState) :
    other.tooDeep state = context.tooDeep state := by
  unfold ParseContext.tooDeep
  rw [supports.maxDepth]

theorem ParseContext.Supports.matchKind (kind : String) (state : ParseState) :
    other.matchKind kind state = context.matchKind kind state := by
  unfold ParseContext.matchKind
  rw [supports.tokens]

/-- A quiet task comes to something alike over rules that support those it is run with. -/
theorem Evaluates.supported {task : Task} {state after : ParseState} {outcome : Outcome}
    (evaluates : Evaluates context task state outcome after) (quiet : task.Quiet) :
    ∃ reached left, Evaluates other task state reached left ∧ Alike outcome after reached left := by
  induction evaluates with
  | token => rw [← supports.matchKind]; exact ⟨_, _, .token, .refl _ _⟩
  | missing absent => exact ⟨_, _, .missing (supports.absent absent), .refl _ _⟩
  | tooDeep found deep =>
      obtain ⟨_, copy, found, -⟩ := supports.present found
      exact ⟨_, _, .tooDeep found (by rwa [supports.tooDeep]), .refl _ _⟩
  | rule found shallow ran ih =>
      obtain ⟨silent, copy, found, simulates⟩ := supports.present found
      obtain ⟨_, _, ran, alike⟩ := ih silent
      obtain ⟨reached, left, ran, alikeToo⟩ := simulates ran
      refine ⟨_, _, .rule found (by rwa [supports.tooDeep]) ran, ?_⟩
      cases alike.trans alikeToo with
      | matched => exact .matched
      | mismatch same => exact .mismatch ⟨same.highWater, same.log, congrArg (· - 1) same.depth⟩
      | broken same => exact .broken ⟨same.highWater, same.log, congrArg (· - 1) same.depth⟩
  | sequence ran ih =>
      obtain ⟨_, _, ran, alike⟩ :=
        ih (Pattern.ReadBy.terms quiet)
      exact ⟨_, _, .sequence ran, alike⟩
  | choice ran ih =>
      obtain ⟨_, _, ran, alike⟩ :=
        ih (Pattern.ReadBy.alternatives quiet)
      exact ⟨_, _, .choice ran, alike⟩
  | begun first ran ihFirst ihRounds =>
      obtain ⟨again, parted⟩ := Pattern.ReadBy.repetition quiet
      obtain ⟨_, _, first, alike⟩ := ihFirst again
      cases alike
      obtain ⟨_, _, ran, alike⟩ := ihRounds ⟨again, parted⟩
      exact ⟨_, _, .begun first ran, alike⟩
  | noneFound first ih =>
      obtain ⟨_, _, first, alike⟩ := ih (Pattern.ReadBy.repetition quiet).1
      cases alike with
      | mismatch same => exact ⟨_, _, .noneFound first, by rw [same.rewind]; exact .matched⟩
  | oneMissing first ih =>
      obtain ⟨_, _, first, alike⟩ := ih (Pattern.ReadBy.repetition quiet).1
      cases alike with | mismatch same => exact ⟨_, _, .oneMissing first, .mismatch same⟩
  | firstBroken first ih =>
      obtain ⟨_, _, first, alike⟩ := ih (Pattern.ReadBy.repetition quiet).1
      cases alike with | broken same => exact ⟨_, _, .firstBroken first, .broken same⟩
  | ignore ran ih =>
      obtain ⟨_, _, ran, alike⟩ := ih (Pattern.ReadBy.ignored quiet)
      exact ⟨_, _, .ignore ran, alike.mapValue _⟩
  | filter ran ih =>
      obtain ⟨_, _, ran, alike⟩ := ih (Pattern.ReadBy.filtered quiet)
      exact ⟨_, _, .filter ran, alike.mapValue _⟩
  | custom ran ih =>
      obtain ⟨_, _, ran, alike⟩ := ih (Pattern.ReadBy.reader quiet)
      exact ⟨_, _, .custom ran, alike⟩
  | empty => exact ⟨_, _, .empty, .refl _ _⟩
  | noTerms => exact ⟨_, _, .noTerms, .refl _ _⟩
  | nextTerm first ran ihFirst ihRest =>
      obtain ⟨_, _, first, alike⟩ := ihFirst (quiet _ (by simp))
      cases alike
      obtain ⟨_, _, ran, alike⟩ := ihRest fun term member => quiet term (by simp [member])
      exact ⟨_, _, .nextTerm first ran, alike⟩
  | termFails first ih =>
      obtain ⟨_, _, first, alike⟩ := ih (quiet _ (by simp))
      cases alike with | mismatch same => exact ⟨_, _, .termFails first, .mismatch same⟩
  | termBroken first ih =>
      obtain ⟨_, _, first, alike⟩ := ih (quiet _ (by simp))
      cases alike with | broken same => exact ⟨_, _, .termBroken first, .broken same⟩
  | noAlternatives => exact ⟨_, _, .noAlternatives, .refl _ _⟩
  | decided first ih =>
      obtain ⟨_, _, first, alike⟩ := ih (quiet _ (by simp))
      cases alike
      exact ⟨_, _, .decided first, .matched⟩
  | nextAlternative first ran ihFirst ihRest =>
      obtain ⟨_, _, first, alike⟩ := ihFirst (quiet _ (by simp))
      cases alike with
      | mismatch same =>
          obtain ⟨_, _, ran, alike⟩ := ihRest fun term member => quiet term (by simp [member])
          rw [same.rewind] at ran
          exact ⟨_, _, .nextAlternative first ran, alike⟩
  | alternativeBroken first ih =>
      obtain ⟨_, _, first, alike⟩ := ih (quiet _ (by simp))
      cases alike with | broken same => exact ⟨_, _, .alternativeBroken first, .broken same⟩
  | nextRound parted again moved ran ihParted ihAgain ihRounds =>
      obtain ⟨_, _, parted, alike⟩ := ihParted quiet.2
      cases alike
      obtain ⟨_, _, again, alike⟩ := ihAgain quiet.1
      cases alike
      obtain ⟨_, _, ran, alike⟩ := ihRounds quiet
      exact ⟨_, _, .nextRound parted again moved ran, alike⟩
  | idleRound parted again still ihParted ihAgain =>
      obtain ⟨_, _, parted, alike⟩ := ihParted quiet.2
      cases alike
      obtain ⟨_, _, again, alike⟩ := ihAgain quiet.1
      cases alike
      exact ⟨_, _, .idleRound parted again still, .matched⟩
  | lastBody parted again ihParted ihAgain =>
      obtain ⟨_, _, parted, alike⟩ := ihParted quiet.2
      cases alike
      obtain ⟨_, _, again, alike⟩ := ihAgain quiet.1
      cases alike with
      | mismatch same => exact ⟨_, _, .lastBody parted again, by rw [same.rewind]; exact .matched⟩
  | lastSeparator parted ih =>
      obtain ⟨_, _, parted, alike⟩ := ih quiet.2
      cases alike with
      | mismatch same => exact ⟨_, _, .lastSeparator parted, by rw [same.rewind]; exact .matched⟩
  | bodyBroken parted again ihParted ihAgain =>
      obtain ⟨_, _, parted, alike⟩ := ihParted quiet.2
      cases alike
      obtain ⟨_, _, again, alike⟩ := ihAgain quiet.1
      cases alike with | broken same => exact ⟨_, _, .bodyBroken parted again, .broken same⟩
  | separatorBroken parted ih =>
      obtain ⟨_, _, parted, alike⟩ := ih quiet.2
      cases alike with | broken same => exact ⟨_, _, .separatorBroken parted, .broken same⟩
  | yield => exact ⟨_, _, .yield, .refl _ _⟩
  | refuse => exact ⟨_, _, .refuse, .refl _ _⟩
  | abandon => exact ⟨_, _, .abandon, .refl _ _⟩
  | peek ran ih =>
      obtain ⟨_, _, ran, alike⟩ := ih (quiet _)
      exact ⟨_, _, .peek (by rwa [supports.tokens]), alike⟩
  | ether ran ih =>
      obtain ⟨_, _, ran, alike⟩ := ih (quiet _)
      exact ⟨_, _, .ether (by rwa [supports.tokens]), alike⟩
  | cursor ran ih =>
      obtain ⟨_, _, ran, alike⟩ := ih (quiet _)
      exact ⟨_, _, .cursor ran, alike⟩
  | advance ran ih =>
      obtain ⟨_, _, ran, alike⟩ := ih quiet
      exact ⟨_, _, .advance (by rwa [supports.tokens]), alike⟩
  | rewind ran ih =>
      obtain ⟨_, _, ran, alike⟩ := ih quiet
      exact ⟨_, _, .rewind ran, alike⟩
  | askRule | askRuleBroken | askPart | askPartBroken | askNoPart => exact quiet.elim

end Supports

def Grammar.Quiet (grammar : Grammar) : Prop :=
  ∀ name body, Index.get? name grammar.raw = some body → body.Quiet

def Parser.rawContext (parser : Parser) (tokens : List Token) : ParseContext :=
  ⟨parser.grammar.raw, tokens.toArray, parser.maxDepth⟩

section Grammar

variable {parser : Parser}

theorem Grammar.get?_normalized (grammar : Grammar) (name : String) :
    Index.get? name grammar.normalized = (Index.get? name grammar.raw).map Pattern.normalize :=
  Index.get?_mapValues ..

theorem Grammar.raw_of_normalized {grammar : Grammar} {name : String} {body : Pattern}
    (found : Index.get? name grammar.normalized = some body) :
    ∃ raw, Index.get? name grammar.raw = some raw ∧ raw.normalize = body :=
  Option.map_eq_some_iff.mp (grammar.get?_normalized name ▸ found)

theorem normalized_supports_raw (quiet : parser.grammar.Quiet) (tokens : List Token) :
    (parser.context tokens).Supports (parser.rawContext tokens) where
  tokens := rfl
  maxDepth := rfl
  absent := by
    intro name absent
    show Index.get? name parser.grammar.normalized = none
    rw [Grammar.get?_normalized, Option.map_eq_none_iff]
    exact absent
  present := by
    intro name body found
    have silent := quiet name body found
    refine ⟨silent, body.normalize, ?_, (runAlike_normalize_of_quiet silent).1⟩
    show Index.get? name parser.grammar.normalized = _
    rw [Grammar.get?_normalized]
    exact congrArg _ found

theorem raw_supports_normalized (quiet : parser.grammar.Quiet) (tokens : List Token) :
    (parser.rawContext tokens).Supports (parser.context tokens) where
  tokens := rfl
  maxDepth := rfl
  absent := by
    intro name absent
    have absent : Index.get? name parser.grammar.normalized = none := absent
    rwa [Grammar.get?_normalized, Option.map_eq_none_iff] at absent
  present := by
    intro name body found
    obtain ⟨body, raw, rfl⟩ := Grammar.raw_of_normalized found
    have silent := quiet name body raw
    exact ⟨silent.normalize (fun _ same => same), body, raw,
      (runAlike_normalize_of_quiet silent).2⟩

end Grammar

end Parlance
