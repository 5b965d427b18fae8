import Parlance.Builtin.Terminator
import Parlance.Proofs.Dialect.History
import Parlance.Proofs.Dialect.Work
import Parlance.Proofs.Evaluation.Closed

/-! A grammar that a registry answers with has been found valid, whether it is derived on the spot or
has been kept. What is wrong with a definition then shows before a source is parsed, and no longer
while it is. -/

namespace Parlance.Registry

open Index (get?)

variable {source registry : Registry} {name : String}

/-- The grammars that are kept have been found valid for their dialects. -/
def KeepsValid (registry : Registry) : Prop :=
  ∀ name dialect grammar, get? name registry.dialects = some dialect →
    dialect.grammar = some grammar → ∃ rules, validGrammar dialect rules = .ok grammar

theorem KeepsValid.answer (valid : registry.KeepsValid) {grammar : Grammar}
    (answered : (registry.grammar name).1 = .ok grammar) :
    ∃ dialect rules, get? name registry.dialects = some dialect ∧
      validGrammar dialect rules = .ok grammar := by
  obtain ⟨dialect, found⟩ := grammarDerivation.registered (grammar_eq ▸ answered)
  cases kept : dialect.grammar with
  | some known =>
      rw [grammar_eq, grammarDerivation.query_kept found kept] at answered
      obtain rfl := Except.ok.inj answered
      obtain ⟨rules, validated⟩ := valid name dialect _ found kept
      exact ⟨dialect, rules, found, validated⟩
  | none =>
      rw [grammar_lacking found kept] at answered
      cases composed : (registry.rules name).1 with
      | error fault =>
          rw [composed] at answered
          cases answered
      | ok rules =>
          rw [composed] at answered
          exact ⟨dialect, rules, found, answered⟩

theorem KeepsValid.derives (valid : source.KeepsValid) (derives : Derives source [] registry) :
    registry.KeepsValid := by
  intro name now grammar found kept
  obtain ⟨dialect, foundFirst, grows⟩ := derives.origin found
  have answered : (source.grammar name).1 = .ok grammar :=
    (kept ▸ grows.grammar).right fun known => by
      rw [grammar_eq, grammarDerivation.query_kept foundFirst known]
  obtain ⟨dialectToo, rules, foundToo, validated⟩ := valid.answer answered
  obtain rfl := Option.some.inj (foundFirst.symm.trans foundToo)
  exact ⟨rules, (grows.validGrammar rules).trans validated⟩

theorem KeepsValid.take (settled : registry.Settled) (valid : registry.KeepsValid) (step : Step) :
    (step.take registry).KeepsValid := by
  cases step with
  | fragment added => exact valid
  | dialect added underived =>
      intro name held grammar found kept
      rw [Step.take, get?_registerDialect] at found
      split at found
      next =>
        obtain rfl := Option.some.inj found
        rw [← underived] at kept
        cases kept
      next => exact valid name held grammar found kept
  | query query name => exact valid.derives ((Derives.refl settled).leaves settled query name)

theorem keepsValid_after (settings : Settings) (steps : List Step) :
    (after settings steps).KeepsValid := by
  have grown (registry : Registry) (settled : registry.Settled) (valid : registry.KeepsValid) :
      (steps.foldl Step.take registry).KeepsValid := by
    induction steps generalizing registry with
    | nil => exact valid
    | cons step rest ih => exact ih _ (settled.take step) (valid.take settled step)
  exact grown _ (settled_empty settings) fun _ _ _ found => nomatch found

theorem hasRule_of_hasProductions {rules : RuleSet} {rule : String}
    (has : hasProductions rules rule = true) : (Grammar.ofRules rules).hasRule rule = true := by
  unfold Grammar.hasRule Index.contains Grammar.ofRules
  rw [Index.get?_mapValues, Option.isSome_map]
  unfold hasProductions at has
  split at has
  next found => rw [found]; rfl
  next => cases has

theorem terminator_confined {known : String → Prop} {faults : DefinitionFault → Prop} :
    Builtin.Terminator.script.Confined known faults := by
  intro next?
  cases next? with
  | none => trivial
  | some next =>
      dsimp only
      split
      · trivial
      · intro ether
        dsimp only
        split <;> trivial

theorem lexicon_of_grammar {grammar : Grammar} (answered : (registry.grammar name).1 = .ok grammar) :
    ∃ lexicon, (registry.lexicon name).1 = .ok lexicon := by
  obtain ⟨dialect, found⟩ := grammarDerivation.registered (grammar_eq ▸ answered)
  rw [lexicon_eq]
  cases kept : dialect.lexicon with
  | some lexicon =>
      rw [lexiconDerivation.query_kept found kept]
      exact ⟨lexicon, rfl⟩
  | none =>
      have first : (lexiconDerivation.first name registry).1 = .ok grammar := answered
      rw [lexiconDerivation.query_lacking found kept, keeping_fst, first]
      exact ⟨_, rfl⟩

theorem run_prepared_lexicon {α : Type} (settled : registry.Settled) {grammar : Grammar}
    (answered : (registry.grammar name).1 = .ok grammar) {dialect : Dialect}
    (found : get? name registry.dialects = some dialect) (text : String)
    (next : Dialect → List Token → Parser → Work α) :
    ∃ lexicon after, (registry.lexicon name).1 = .ok lexicon ∧
      (prepared name text next).run.run registry =
        (next dialect (lexicon.tokenize text) ⟨grammar, dialect.maxDepth⟩).run.run after := by
  obtain ⟨lexicon, known⟩ := lexicon_of_grammar answered
  obtain ⟨middle, ranLexicon, derives⟩ :=
    answers_lexicon settled name registry (Derives.refl settled)
  obtain ⟨after, ranGrammar, derives⟩ := answers_grammar settled name middle derives
  rw [known] at ranLexicon
  rw [answered] at ranGrammar
  obtain ⟨now, foundNow, grows⟩ := derives.grown found
  have first : registry.dialect name = .ok dialect := by simp only [Registry.dialect, found]
  have again : after.dialect name = .ok now := by simp only [Registry.dialect, foundNow]
  refine ⟨lexicon, after, known, ?_⟩
  rw [prepared_eq_ask, find, run_ask_bind]
  simp only [first, run_ask_bind, ranLexicon, ranGrammar, again, grows.maxDepth]

theorem run_prepared {α : Type} (settled : registry.Settled) {grammar : Grammar}
    (answered : (registry.grammar name).1 = .ok grammar) {dialect : Dialect}
    (found : get? name registry.dialects = some dialect) (text : String)
    (next : Dialect → List Token → Parser → Work α) :
    ∃ tokens after, (prepared name text next).run.run registry =
      (next dialect tokens ⟨grammar, dialect.maxDepth⟩).run.run after := by
  obtain ⟨lexicon, after, -, ran⟩ := run_prepared_lexicon settled answered found text next
  exact ⟨lexicon.tokenize text, after, ran⟩

/-- Parsing with a dialect whose grammar is answered ends in no fault of a definition, except for one
that a script raises itself: neither does any parse that ends break otherwise, nor does anything that
is done around it. A parse that does not end is told of by a fault of its own. -/
theorem parses_break_only_in_scripts (settings : Settings) (steps : List Step) {name : String}
    {grammar : Grammar} (answered : ((after settings steps).grammar name).1 = .ok grammar)
    {faults : DefinitionFault → Prop} (exposes : grammar.Exposes faults) :
    let registry := after settings steps
    (∀ source origin fault,
      ((parseSource name source origin).run.run registry).1 = .error (.definition fault) →
        fault = .unending ∨ faults fault) ∧
    (∀ source origin fault,
      ((traceSource name source origin).run.run registry).1 = .error (.definition fault) →
        fault = .unending ∨ faults fault) ∧
    ∃ dialect, get? name registry.dialects = some dialect ∧
      ∀ tokens origin traced fault, Parser.ComesTo ⟨grammar, dialect.maxDepth⟩ dialect.start tokens
        origin traced (.broken fault) → faults fault := by
  intro registry
  have settled : registry.Settled := settled_after settings steps
  obtain ⟨dialect, rules, found, valid⟩ := (keepsValid_after settings steps).answer answered
  obtain ⟨rfl, starts, validated⟩ := validGrammar_eq_ok valid
  have whole {tokens : List Token} {origin : Option String} {traced : Bool} {fault : DefinitionFault}
      (breaks : Parser.ComesTo ⟨.ofRules rules, dialect.maxDepth⟩ dialect.start tokens origin traced
        (.broken fault)) : faults fault :=
    breaks.breaksIn validated exposes (hasRule_of_hasProductions starts)
  refine ⟨fun source origin fault fails => ?_, fun source origin fault fails => ?_,
    dialect, found, fun _ _ _ _ breaks => whole breaks⟩
  · obtain ⟨tokens, after, ran⟩ := run_prepared settled answered found source _
    rw [parseSource_eq, ran, run_settle_bind] at fails
    split at fails
    next outcome log _ => cases outcome <;> cases fails
    next broke => cases fails; exact .inr (whole ⟨_, broke⟩)
    next => cases fails; exact .inl rfl
  · obtain ⟨tokens, after, ran⟩ := run_prepared settled answered found source _
    rw [traceSource_eq, ran, run_settle_bind] at fails
    split at fails
    next => cases fails
    next broke => cases fails; exact .inr (whole ⟨_, broke⟩)
    next => cases fails; exact .inl rfl

/-- A handler that runs a rule and has it as a part. -/
def reference (serial : Nat) (rule : String) : Pattern :=
  .custom ⟨⟨serial, 0⟩, fun _ => rule, .rule rule .settle, 1, true, .once⟩ [.rule rule]

theorem parses_break_only_in_scripts_reference :
    let grammar : Grammar := ⟨[("Item", .choice [.tokenClass "Name"]),
      ("Program", .choice [.plus (reference 0 "Item") (some (Builtin.Terminator.pattern 1))])]⟩
    let registry := after .defaults [
      .fragment (.make "f" (some [("Item", [.ofPattern (.tokenClass "Name")]), ("Program",
        [.ofPattern (.plus (reference 0 "Item") (some (Builtin.Terminator.pattern 1)))])]) []),
      .dialect (.define "d" none ["f"]) (underived_define ..)]
    (registry.grammar "d").1 = .ok grammar ∧ grammar.Exposes (fun _ => False) ∧
      ∀ source origin fault,
        ((parseSource "d" source origin).run.run registry).1 = .error (.definition fault) →
          fault = .unending := by
  intro grammar registry
  have answered : (registry.grammar "d").1 = .ok grammar := rfl
  have exposes : grammar.Exposes fun _ => False := by
    intro name body found reader parts member
    have listed : (name, body) ∈ grammar.raw := Index.mem_of_get? found
    simp only [grammar, List.mem_cons, Prod.mk.injEq, List.not_mem_nil, or_false] at listed
    rcases listed with ⟨rfl, rfl⟩ | ⟨rfl, rfl⟩
    · simp [Pattern.walk, Pattern.walk.walkAll, Pattern.tokenClass] at member
    · have met : Pattern.custom reader parts = reference 0 "Item" ∨
          Pattern.custom reader parts = Builtin.Terminator.pattern 1 := by
        simpa [Pattern.walk, Pattern.walk.walkAll, Pattern.plus, reference,
          Builtin.Terminator.pattern, Pattern.punctuator] using member
      rcases met with same | same <;> cases same
      · refine ⟨by decide, fun answer => ?_⟩
        cases answer <;> trivial
      · exact terminator_confined
  refine ⟨answered, exposes, fun source origin fault fails => ?_⟩
  exact ((parses_break_only_in_scripts .defaults _ answered exposes).1 source origin fault
    fails).resolve_right id

end Parlance.Registry
