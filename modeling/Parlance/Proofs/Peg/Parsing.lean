import Parlance.Proofs.Evaluation.Enough
import Parlance.Proofs.Peg.Refinement

/-! What the verdict of a parse without a bound on nesting says, in terms of what the grammar derives
from the hard tokens. -/

namespace Parlance

open Cursor (Rests)

def RuleSet.ReadBy (allowed : Reader → Prop) (rules : RuleSet) : Prop :=
  ∀ name productions, Index.get? name rules = some productions →
    ∀ production ∈ productions, production.pattern.ReadBy allowed

theorem RuleSet.readBy_of_entries {allowed : Reader → Prop} {rules : RuleSet}
    (read : ∀ entry ∈ rules, ∀ production ∈ entry.2, production.pattern.ReadBy allowed) :
    rules.ReadBy allowed :=
  fun name productions found => read (name, productions) (Index.mem_of_get? found)

theorem Production.readBy_expression {allowed : Reader → Prop} {production : Production}
    (read : production.pattern.ReadBy allowed) : production.expression.ReadBy allowed := by
  unfold Production.expression
  split
  · exact read
  · exact .of_filtered read

theorem RuleSet.readBy_choiceOf {allowed : Reader → Prop} {productions : List Production}
    (read : ∀ production ∈ productions, production.pattern.ReadBy allowed) :
    (RuleSet.choiceOf productions).ReadBy allowed := by
  refine .of_choice fun alternative member => ?_
  obtain ⟨production, listed, rfl⟩ := List.mem_map.mp member
  exact Production.readBy_expression (read production listed)

theorem Grammar.get?_ofRules (rules : RuleSet) (name : String) :
    Index.get? name (Grammar.ofRules rules).raw =
      (Index.get? name rules).map RuleSet.choiceOf :=
  Index.get?_mapValues (fun _ => RuleSet.choiceOf) name rules

def RuleSet.parser (rules : RuleSet) : Parser := ⟨.ofRules rules, none⟩

theorem RuleSet.ReadBy.grammar {allowed : Reader → Prop} {rules : RuleSet}
    (read : rules.ReadBy allowed) {name : String} {body : Pattern}
    (found : Index.get? name (Grammar.ofRules rules).raw = some body) : body.ReadBy allowed := by
  rw [Grammar.get?_ofRules] at found
  obtain ⟨productions, listed, rfl⟩ := Option.map_eq_some_iff.mp found
  exact RuleSet.readBy_choiceOf (read name productions listed)

inductive Verdict.Shows {α : Type} : Verdict → Option (Tree × List α) → Prop where
  | parsed {value log} : Shows (.parsed (.ok value) log) (some (value, []))
  | stopped {error log value rest} (left : rest ≠ []) :
      Shows (.parsed (.error error) log) (some (value, rest))
  | failed {error log} : Shows (.parsed (.error error) log) none

section Parser

variable {α : Type} {view : Landed → α} {peg : Peg α} {tokens : List Token}

theorem Script.Onward.quiet {script : Script} (onward : script.Onward) : script.Quiet := by
  induction script with
  | yield | mismatch | abandon => trivial
  | peek next ih | ether next ih | cursor next ih => exact fun answer => ih answer (onward answer)
  | advance next ih => exact ih onward
  | rewind | rule | part => exact onward.elim

/-- The grammar of a parser as its rules were written, with readers that ask for nothing. -/
structure Peg.Parses (peg : Peg α) (view : Landed → α) (parser : Parser) (tokens : List Token) :
    Prop where
  onward : ∀ name body, Index.get? name parser.grammar.raw = some body → body.Onward
  models : peg.Models view (parser.rawContext tokens)

theorem Peg.Parses.quiet {parser : Parser} (parses : peg.Parses view parser tokens) :
    parser.grammar.Quiet :=
  fun name body found => (parses.onward name body found).mono fun _ => Script.Onward.quiet

theorem Peg.Parses.normalized {parser : Parser} (parses : peg.Parses view parser tokens) :
    (parser.context tokens).Onward where
  unbounded := parses.models.unbounded
  readers := by
    intro name body found
    obtain ⟨body, raw, rfl⟩ := Grammar.raw_of_normalized found
    exact (parses.onward name body raw).normalize fun _ same => same

theorem Agrees.shows {origin : Option String} {outcome : Outcome} {state : ParseState}
    {result : Option (Tree × List α)} (agrees : Agrees view tokens.toArray id outcome state result) :
    (Parser.verdict tokens origin (outcome, state)).Shows result := by
  cases agrees with
  | mismatch => exact .failed
  | @matched value _ _ finished rests =>
      cases finished
      unfold Parser.verdict
      by_cases atEnd : state.cursor.atEnd tokens.toArray = true
      · have none : state.left view tokens.toArray = [] := by
          exact List.map_eq_nil_iff.mpr (rests.atEnd_iff.mp atEnd)
        simp only [if_pos atEnd, none]
        exact .parsed
      · have some : state.left view tokens.toArray ≠ [] := by
          exact fun none => atEnd (rests.atEnd_iff.mpr (List.map_eq_nil_iff.mp none))
        simp only [if_neg atEnd]
        exact .stopped some

variable {parser : Parser} (parses : peg.Parses view parser tokens) {start : String}

include parses

theorem Peg.Parses.run (origin : Option String) (traced : Bool) {result : Option (Tree × List α)}
    (derives : Derives peg (.pattern (.rule start)) ((Token.landed tokens).map view) result) :
    ∃ verdict, parser.run start tokens origin traced = some verdict ∧ verdict.Shows result := by
  obtain ⟨rests, left⟩ := Cursor.start_spec tokens.toArray traced
  let state : ParseState := ⟨.start tokens.toArray traced, 0⟩
  have silent : (Pattern.rule start).Quiet := .of_rule
  obtain ⟨_, _, ran, agrees⟩ := derives.evaluates parses.models (.pattern _) state rfl .of_rule rests
    (congrArg (List.map view) left)
  obtain ⟨outcome, after, ran, alike⟩ :=
    ran.supported (normalized_supports_raw parses.quiet tokens) silent
  obtain ⟨fuel, ends⟩ := Evaluates.iff_run.mp ran
  refine ⟨Parser.verdict tokens origin (outcome, after), ?_, ?_⟩
  · exact Parser.run_of_runWith parses.normalized
      (congrArg (Option.map (Parser.verdict tokens origin)) ends)
  · cases alike with
    | matched => exact agrees.shows
    | mismatch => cases agrees; exact .failed
    | broken => cases agrees

theorem Peg.Parses.shows {fuel : Nat} {origin : Option String} {traced : Bool} {verdict : Verdict}
    {result : Option (Tree × List α)}
    (ends : parser.runWith fuel start tokens origin traced = some verdict)
    (derives : Derives peg (.pattern (.rule start)) ((Token.landed tokens).map view) result) :
    verdict.Shows result := by
  obtain ⟨other, endsToo, shows⟩ := parses.run origin traced derives
  rw [Parser.run_of_runWith parses.normalized ends] at endsToo
  rwa [Option.some.inj endsToo]

/-- A run that ends without a broken rule shows something that is derived. -/
theorem Peg.Parses.derives {fuel : Nat} {origin : Option String} {traced : Bool}
    {outcome : Except SyntaxError Tree} {log : List Nat}
    (ends : parser.runWith fuel start tokens origin traced = some (.parsed outcome log)) :
    ∃ result, Derives peg (.pattern (.rule start)) ((Token.landed tokens).map view) result ∧
      (Verdict.parsed outcome log).Shows result := by
  obtain ⟨⟨reached, after⟩, ran, comes⟩ := Option.map_eq_some_iff.mp ends
  obtain ⟨rests, left⟩ := Cursor.start_spec tokens.toArray traced
  have silent : (Pattern.rule start).Quiet := .of_rule
  obtain ⟨other, last, raw, alike⟩ := (Evaluates.iff_run.mpr ⟨fuel, ran⟩).supported
    (raw_supports_normalized parses.quiet tokens) silent
  have whole : ∀ fault, other ≠ .broken fault := by
    rintro fault rfl
    cases alike
    cases comes
  obtain ⟨result, derives, -⟩ := raw.derives parses.models
    .of_rule rests whole rfl
  have input : ParseState.left view tokens.toArray ⟨.start tokens.toArray traced, 0⟩ =
      (Token.landed tokens).map view := congrArg (List.map view) left
  have derives : Derives peg (.pattern (.rule start)) ((Token.landed tokens).map view) result :=
    input ▸ derives
  exact ⟨result, derives, parses.shows ends derives⟩

end Parser

/-- A grammar that takes hard tokens alone and has no custom readers. -/
def RuleSet.peg (rules : RuleSet) : Peg Token := ⟨rules, id, fun _ _ => none⟩

def RuleSet.Plain (rules : RuleSet) : Prop := rules.ReadBy fun _ => False

theorem RuleSet.Plain.parses {rules : RuleSet} (plain : rules.Plain) (tokens : List Token) :
    rules.peg.Parses Landed.token rules.parser tokens where
  onward := fun _ _ found => (plain.grammar found).mono fun _ => False.elim
  models := {
    token := fun _ => rfl
    rules := Grammar.get?_ofRules rules
    unbounded := rfl
    heard := fun _ _ found => (plain.grammar found).mono fun _ => False.elim }

/-- Without a bound on nesting a parse that ends yields a tree exactly when that tree is derived from
all the hard tokens, and a syntax error exactly when failure or a match of only some is derived. -/
theorem parse_refines_peg {rules : RuleSet} (plain : rules.Plain) {fuel : Nat} {start : String}
    {tokens : List Token} {origin : Option String} {traced : Bool} {verdict : Verdict}
    (ends : rules.parser.runWith fuel start tokens origin traced = some verdict) :
    (∀ value, (∃ log, verdict = .parsed (.ok value) log) ↔
      Derives rules.peg (.pattern (.rule start)) (tokens.filter Token.isHard) (some (value, []))) ∧
    ((∃ error log, verdict = .parsed (.error error) log) ↔
      Derives rules.peg (.pattern (.rule start)) (tokens.filter Token.isHard) none ∨
        ∃ value rest, rest ≠ [] ∧
          Derives rules.peg (.pattern (.rule start)) (tokens.filter Token.isHard)
            (some (value, rest))) := by
  have parses := plain.parses tokens
  have input : (Token.landed tokens).map Landed.token = tokens.filter Token.isHard :=
    Token.token_landedAfter [] tokens
  rw [← input]
  constructor
  · intro value
    constructor
    · rintro ⟨log, rfl⟩
      obtain ⟨_, derives, shows⟩ := parses.derives ends
      cases shows
      exact derives
    · intro derives
      cases parses.shows ends derives with
      | parsed => exact ⟨_, rfl⟩
      | stopped left => exact absurd rfl left
  · constructor
    · rintro ⟨error, log, rfl⟩
      obtain ⟨_, derives, shows⟩ := parses.derives ends
      cases shows with
      | stopped left => exact .inr ⟨_, _, left, derives⟩
      | failed => exact .inl derives
    · rintro (derives | ⟨value, rest, left, derives⟩)
      · cases parses.shows ends derives
        exact ⟨_, _, rfl⟩
      · cases parses.shows ends derives with
        | parsed => exact absurd rfl left
        | stopped => exact ⟨_, _, rfl⟩

/-- Items up to a bracket, of which the input leaves one bracket over. -/
theorem parse_refines_peg_of_items :
    let items : RuleSet := [("S", [.ofPattern (.sequence [
      .star (.tokenClass "a") none, .ignoredToken "]"])])]
    let tokens : List Token := [.literal "a", .soft " ", .literal "]", .literal "]"]
    items.Plain ∧
      items.parser.runWith 20 "S" tokens none false = some (.parsed (.error ⟨none, tokens, 3⟩) []) ∧
      (Derives items.peg (.pattern (.rule "S")) (tokens.filter Token.isHard) none ∨
        ∃ value rest, rest ≠ [] ∧
          Derives items.peg (.pattern (.rule "S")) (tokens.filter Token.isHard)
            (some (value, rest))) := by
  intro items tokens
  have plain : items.Plain := by
    refine RuleSet.readBy_of_entries fun entry listed production member reader parts met => ?_
    obtain rfl := List.mem_singleton.mp listed
    obtain rfl := List.mem_singleton.mp member
    simp [Production.ofPattern, Pattern.walk, Pattern.walk.walkAll, Pattern.ignoredToken,
      Pattern.punctuator, Pattern.star, Pattern.tokenClass] at met
  have ends : items.parser.runWith 20 "S" tokens none false =
      some (.parsed (.error ⟨none, tokens, 3⟩) []) := rfl
  exact ⟨plain, ends, (parse_refines_peg plain ends).2.mp ⟨_, _, rfl⟩⟩

end Parlance
