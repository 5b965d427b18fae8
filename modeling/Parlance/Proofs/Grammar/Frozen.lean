import Parlance.Proofs.Grammar.Thorough

/-! What has been looked at is fixed. Whatever is authored, composed or asked afterwards, a composite
answers with the rules it had when one of them was first asked for, and a grammar with the patterns
that the rules of its syntax had when it was first used. -/

namespace Parlance.Workbench

open Index (get? names)

variable {bench later : Workbench}

theorem rules_of_composed {number : Nat} {rules : Drafts}
    (composite : (bench.draftAt number).isComposite)
    (given : (bench.draftAt number).composed = some rules) : (bench.rules number).1 = rules := by
  simp only [Workbench.rules, fix_of_composed given, SyntaxDraft.visible, composite, given, if_true,
    Option.getD_some]

theorem composed_rules {number : Nat} (sound : bench.Sound)
    (composite : (bench.draftAt number).isComposite) :
    ((bench.fix number).draftAt number).composed = some (bench.rules number).1 := by
  obtain ⟨rules, given⟩ := composed_fix sound composite
  have still := ((advances_fix sound number).keeps.syntaxes number).isComposite composite
  rw [given, Workbench.rules]
  simp only [SyntaxDraft.visible, still, given, if_true, Option.getD_some]

theorem Step.LooksAt.composed {number : Nat} {step : Step} (looks : step.LooksAt number)
    (sound : bench.Sound) (composite : (bench.draftAt number).isComposite) :
    ∃ rules, ((step.take bench).draftAt number).composed = some rules ∧
      Compiles (bench.rules number).1 rules := by
  have fixed := composed_rules sound composite
  have ordered := ((advances_fix sound number).sound.ordered number).composed _ fixed
  cases looks with
  | ruleNames | rule => exact ⟨_, fixed, .refl ordered⟩
  | expression name =>
      have advances := advances_compileRule (advances_fix sound number).sound number name
      have again : (bench.fix number).compileRule number name = bench.compileRule number name := by
        unfold compileRule
        simp only [Workbench.rules, fix_of_composed fixed]
      rw [again] at advances
      exact (advances.keeps.syntaxes number).composed _ fixed

theorem answers_after {number : Nat} {rules : Drafts} (sound : bench.Sound)
    (composite : (bench.draftAt number).isComposite)
    (given : (bench.draftAt number).composed = some rules) (steps : List Step) :
    ((bench.after steps).ruleNames number).1 = (bench.ruleNames number).1 ∧
      ∀ name, ((bench.after steps).rule? number name).1 = (bench.rule? number name).1 := by
  have keeps := (advances_after sound steps).keeps.syntaxes number
  obtain ⟨laterRules, givenLater, compiles⟩ := keeps.composed rules given
  have answers := compiles.answers
  rw [← rules_of_composed composite given,
    ← rules_of_composed (keeps.isComposite composite) givenLater] at answers
  exact answers

theorem compileRule_eq (number : Nat) (name : String) :
    (bench.compileRule number name).1 =
      (get? name (bench.rules number).1).map fun rule => rule.compile.1 := by
  unfold compileRule
  dsimp only [Workbench.rules]
  split
  next missing => rw [missing, Option.map_none]
  next rule found => rw [found, Option.map_some]

/-- After any steps, a composite whose rules are asked for answers the same about them whatever is done
next, and a grammar answers every query, the first one and all later ones, from the patterns that the
rules of its syntax have when it is used first. A composite is asked for its rules, too, when a grammar
over it is, or a composite of which it is a member. -/
theorem first_use_fixes (before : List Step) :
    let bench := empty.after before
    (∀ number, (bench.draftAt number).isComposite →
      ∀ step : Step, step.LooksAt number → ∀ steps,
        let later := (step.take bench).after steps
        (later.ruleNames number).1 = (bench.ruleNames number).1 ∧
          ∀ name, (later.rule? number name).1 = (bench.rule? number name).1) ∧
    (∀ (number : Nat) (draft : GrammarDraft), bench.grammars[number]? = some draft →
      (draft.grammar = none → ∀ name,
        get? name (bench.grammar number).1.raw = (bench.compileRule draft.source name).1) ∧
      ∀ query, (bench.ask number query).1 = query.answer (bench.grammar number).1 ∧
        ∀ steps asked, (((bench.ask number query).2.after steps).ask number asked).1 =
          asked.answer (bench.grammar number).1) ∧
    (empty.Given before → ∀ number, (bench.draftAt number).isComposite →
      ∀ step : Step, step.Reaches bench number → ∀ steps,
        let seen := step.take bench
        let later := seen.after steps
        (later.ruleNames number).1 = (seen.ruleNames number).1 ∧
          ∀ name, (later.rule? number name).1 = (seen.rule? number name).1) := by
  intro bench
  have sound : bench.Sound := sound_after before
  have still {number : Nat} (composite : (bench.draftAt number).isComposite) (step : Step) :
      ((step.take bench).draftAt number).isComposite :=
    ((step.advances sound).keeps.syntaxes number).isComposite composite
  refine ⟨fun number composite step looks steps => ?_, fun number draft found =>
    ⟨fun unused name => ?_, fun query => ⟨ask_eq sound number query, fun steps asked => ?_⟩⟩,
    fun given number composite step reaches steps => ?_⟩
  · obtain ⟨rules, given, compiles⟩ := looks.composed sound composite
    obtain ⟨names, productions⟩ :=
      answers_after (step.advances sound).sound (still composite step) given steps
    obtain ⟨sameNames, sameProductions⟩ := compiles.answers
    rw [← rules_of_composed (still composite step) given] at sameNames sameProductions
    exact ⟨names.trans sameNames, fun name => (productions name).trans (sameProductions name)⟩
  · rw [grammar_of_unused found unused, compileRule_eq, Index.get?_mapValues]
  · obtain ⟨kept, foundKept, used⟩ := used_ask sound found query
    have stepped := advances_ask sound number query
    have advances := advances_after stepped.sound steps
    obtain ⟨latest, foundLatest, keeps⟩ := advances.keeps.grammars number kept foundKept
    rw [ask_eq advances.sound, grammar_of_used foundLatest (keeps.grammar _ used)]
  · have thorough : bench.Thorough := thorough_after sound_empty thorough_empty given
    have fixed := reaches.fixed sound thorough (still composite step)
    obtain ⟨rules, given⟩ := Option.isSome_iff_exists.mp fixed
    exact answers_after (step.advances sound).sound (still composite step) given steps

/-- The rule `R` is extended after the composite of its syntax was looked at, after the grammar was
asked, and after a grammar over an outer composite was. -/
theorem extended_after_first_use :
    let first := Pattern.tokenClass "a"
    let second := Pattern.tokenClass "b"
    let before : List Step :=
      [.literal [("R", [.add first])], .compose 0 [], .grammar 0, .compose 1 [], .grammar 2]
    let bench := empty.after before
    let steps : List Step := [.author 0 "R" [.add second], .author 1 "S" [.add second]]
    let composed := ((Step.rule 1 "R").take bench).after steps
    let asked := (bench.ask 0 (.hasRule "R")).2.after steps
    let reached := ((Step.query 1 .validate).take bench).after steps
    (composed.ruleNames 1).1 = ["R"] ∧ (composed.rule? 1 "R").1 = some [.ofPattern first] ∧
      (asked.ask 0 .patterns).1 = .patterns [("R", .choice [first])] ∧
      empty.Given before ∧ (reached.ruleNames 1).1 = ["R"] := by
  intro first second before bench steps composed asked reached
  obtain ⟨composites, grammars, within⟩ := first_use_fixes before
  obtain ⟨names, productions⟩ := composites 1 rfl _ (.rule "R") steps
  obtain ⟨-, stays⟩ := (grammars 0 _ rfl).2 (.hasRule "R")
  have given : empty.Given before := by
    refine ⟨trivial, ?_, ?_, ?_, ?_, trivial⟩ <;> simp only [Step.Given, List.forall_mem_singleton] <;>
      decide +kernel
  have found : bench.grammars[1]? = some ⟨2, none, []⟩ := rfl
  have members : (bench.draftAt 2).members = [1] := rfl
  have reaches : (Step.query 1 .validate).Reaches bench 1 :=
    .member (.query rfl found) (members ▸ List.mem_singleton_self 1)
  obtain ⟨namesToo, -⟩ := within given 1 rfl _ reaches steps
  have namesNow : (bench.ruleNames 1).1 = ["R"] := by decide +kernel
  have productionsNow : (bench.rule? 1 "R").1 = some [.ofPattern first] := by rfl
  have patternsNow : Query.answer (bench.grammar 0).1 .patterns = .patterns [("R", .choice [first])] := by
    rfl
  have namesThen : (((Step.query 1 .validate).take bench).ruleNames 1).1 = ["R"] := by decide +kernel
  exact ⟨names.trans namesNow, (productions "R").trans productionsNow,
    (stays steps .patterns).trans patternsNow, given, namesToo.trans namesThen⟩

end Parlance.Workbench
