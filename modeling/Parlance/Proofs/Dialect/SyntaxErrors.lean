import Parlance.Proofs.Dialect.Validity
import Parlance.Proofs.Parse.Offender

/-! The syntax errors that parsing with a dialect raises, and the places in the source that they tell
of. -/

namespace Parlance.Registry

open Index (get?)
open Token (chars)

variable {registry : Registry} {name : String}

theorem comesTo_of_syntaxError (settled : registry.Settled) {grammar : Grammar}
    (answered : (registry.grammar name).1 = .ok grammar) {source : String} {origin : Option String}
    {error : SyntaxError}
    (fails : ((parseSource name source origin).run.run registry).1 = .error (.source error)) :
    ∃ lexicon maxDepth start log, (registry.lexicon name).1 = .ok lexicon ∧
      Parser.ComesTo ⟨grammar, maxDepth⟩ start (lexicon.tokenize source) origin false
        (.parsed (.error error) log) := by
  obtain ⟨dialect, found⟩ := grammarDerivation.registered (grammar_eq ▸ answered)
  obtain ⟨lexicon, after, known, ran⟩ := run_prepared_lexicon settled answered found source _
  rw [parseSource_eq, ran, run_settle_bind] at fails
  split at fails
  next outcome log comes =>
    cases outcome with
    | ok tree => cases fails
    | error raised =>
        obtain rfl : raised = error := Failure.source.inj (Except.error.inj fails)
        exact ⟨lexicon, dialect.maxDepth, dialect.start, log, known, _, comes⟩
  next => cases fails
  next => cases fails

/-- A syntax error has the tokens of its source and splits it where it points: what stands before is
what the tokens before the index take, and what is left begins with the hard token that is told of, or
nothing is left and the end of input is told of. The line is counted by the line feeds before that
place. If custom handlers go back only to where they have been, the index is nowhere beyond the end. -/
theorem syntaxError_points_into_source (settings : Settings) (steps : List Step) {name : String}
    {grammar : Grammar} (answered : ((after settings steps).grammar name).1 = .ok grammar)
    {source : String} {origin : Option String} {error : SyntaxError}
    (fails : ((parseSource name source origin).run.run (after settings steps)).1 =
      .error (.source error)) :
    error.origin = origin ∧
      (∃ lexicon, ((after settings steps).lexicon name).1 = .ok lexicon ∧
        error.tokens = lexicon.tokenize source) ∧
      (grammar.Tethered → error.index ≤ error.tokens.length) ∧
      ∃ before rest, source.toList = before ++ rest ∧
        before = chars (error.tokens.take error.index) ∧ error.PointsAt rest ∧
        error.line = 1 + before.count '\n' := by
  obtain ⟨lexicon, maxDepth, start, log, known, comes⟩ :=
    comesTo_of_syntaxError (settled_after settings steps) answered fails
  obtain ⟨same, reads, hard⟩ := comes.error_hard
  rw [← reads] at hard
  obtain ⟨rest, splits, points⟩ := SyntaxError.splits reads hard
  refine ⟨same, ⟨lexicon, known, reads⟩, fun tethered => ?_, _, rest, splits, rfl, points,
    error.line_eq⟩
  rw [reads]
  exact comes.error_inside tethered

/-- Looks at the token behind the current one, and goes back to where it was. -/
def secondToken : Script :=
  .cursor fun mark => .advance (.peek fun next? => .rewind mark (.settle (next?.map (.text ·.text))))

def namedStatement : RuleSet := [("Program", [.ofPattern (.sequence
  [.custom ⟨⟨0, 0⟩, fun _ => "second", secondToken, 1, false, .never⟩ [], .tokenClass "Identifier",
    .punctuator ";"])])]

theorem tethered_namedStatement : (Grammar.ofRules namedStatement).Tethered := by
  have settles (answer : Option Tree) {marks : Nat → Prop} : (Script.settle answer).Tethered marks := by
    cases answer <;> trivial
  have tethered : secondToken.Tethered fun _ => False :=
    fun _ _ => ⟨.inr rfl, settles _⟩
  have read : namedStatement.ReadBy fun reader => reader.script.Tethered fun _ => False := by
    refine RuleSet.readBy_of_entries fun entry listed production member => ?_
    obtain rfl := List.mem_singleton.mp listed
    obtain rfl := List.mem_singleton.mp member
    refine .of_sequence fun term member => ?_
    simp only [List.mem_cons, List.not_mem_nil, or_false] at member
    rcases member with rfl | rfl | rfl
    · exact .of_custom tethered nofun
    · exact .of_token
    · exact .of_token
  exact fun name body found => read.grammar found

def nameSteps : List Step := [
  .fragment (.make "names" (some namedStatement) []),
  .dialect (.define "names" none ["names"]) (underived_define ..)]

/-- The semicolon is missing in the third line, as the comment before the name has a line feed. -/
theorem syntaxError_points_into_source_nameSteps :
    ∃ error, ((after .defaults nameSteps).grammar "names").1 = .ok (.ofRules namedStatement) ∧
      ((parseSource "names" "/*\n*/ a\nb" none).run.run (after .defaults nameSteps)).1 =
        .error (.source error) ∧
      error.index ≤ error.tokens.length ∧
      ∃ before rest, "/*\n*/ a\nb".toList = before ++ rest ∧ error.PointsAt rest ∧
        before = "/*\n*/ a\n".toList ∧ error.line = 3 := by
  have answered : ((after .defaults nameSteps).grammar "names").1 =
      .ok (.ofRules namedStatement) := rfl
  have fails : ((parseSource "names" "/*\n*/ a\nb" none).run.run (after .defaults nameSteps)).1 =
      .error (.source ⟨none, [.soft "/*\n*/", .soft " ", .hard "Identifier" "a", .soft "\n",
        .hard "Identifier" "b"], 4⟩) := rfl
  obtain ⟨-, -, inside, before, rest, splits, known, points, line⟩ :=
    syntaxError_points_into_source .defaults nameSteps answered fails
  exact ⟨_, answered, fails, inside tethered_namedStatement, before, rest, splits, points, known,
    by decide⟩

end Parlance.Registry
