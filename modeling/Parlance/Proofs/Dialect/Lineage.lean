import Parlance.Proofs.Dialect.Caching
import Parlance.Proofs.Grammar.Compose

/-! What the rules of a dialect are made of. A dialect stands at the end of a line of ancestors, and
its rules are composed of the fragments that each of them lists for itself, from the oldest ancestor
down, although they were composed one ancestor over another. -/

namespace Parlance.Registry

open Index (get? names)
open RuleSet (productionsFor choiceOf)

/-- The ancestors of a dialect from the oldest down, with the dialect itself at the end. -/
inductive Lineage (registry : Registry) : String → List Dialect → Prop where
  | oldest {name dialect} (found : get? name registry.dialects = some dialect)
      (parentless : dialect.parent = none) : Lineage registry name [dialect]
  | child {name dialect parent ancestors} (found : get? name registry.dialects = some dialect)
      (inherits : dialect.parent = some parent) (above : Lineage registry parent ancestors) :
      Lineage registry name (ancestors ++ [dialect])

variable {registry : Registry} {name : String}

theorem Lineage.unique {line other : List Dialect} (lineage : Lineage registry name line)
    (lineageToo : Lineage registry name other) : line = other := by
  induction lineage generalizing other with
  | oldest found parentless =>
      cases lineageToo with
      | oldest foundToo => rw [Option.some.inj (found.symm.trans foundToo)]
      | child foundToo inherits =>
          obtain rfl := Option.some.inj (found.symm.trans foundToo)
          cases parentless.symm.trans inherits
  | child found inherits above ih =>
      cases lineageToo with
      | oldest foundToo parentless =>
          obtain rfl := Option.some.inj (found.symm.trans foundToo)
          cases parentless.symm.trans inherits
      | child foundToo inheritsToo aboveToo =>
          obtain rfl := Option.some.inj (found.symm.trans foundToo)
          obtain rfl := Option.some.inj (inherits.symm.trans inheritsToo)
          rw [ih aboveToo]

/-- The rule sets that are provided for the fragments along a line of dialects, in its order. -/
def providedAlong (registry : Registry) (line : List Dialect) :
    Except DefinitionFault (List RuleSet) :=
  (line.flatMap Dialect.fragments).mapM registry.provided

theorem providedAlong_concat {line : List Dialect} {dialect : Dialect} {inherited own : List RuleSet}
    (above : registry.providedAlong line = .ok inherited)
    (provides : dialect.fragments.mapM registry.provided = .ok own) :
    registry.providedAlong (line ++ [dialect]) = .ok (inherited ++ own) := by
  unfold providedAlong at above ⊢
  rw [List.flatMap_append, List.flatMap_singleton, List.mapM_append, above, provides]
  rfl

theorem underived_registered {settings : Settings} {steps : List Step}
    (registering : ∀ step ∈ steps, step.registers) {dialect : Dialect}
    (found : get? name (after settings steps).dialects = some dialect) : dialect.Underived := by
  induction steps using List.reverseRecOn with
  | nil => cases found
  | append_singleton steps step ih =>
      have earlier := ih fun step member => registering step (List.mem_append_left _ member)
      rw [after_concat] at found
      cases step with
      | fragment added => exact earlier found
      | dialect added underived =>
          rw [Step.take, get?_registerDialect] at found
          split at found
          next => rwa [← Option.some.inj found]
          next => exact earlier found
      | query asked about => cases registering (.query asked about) (by simp)

/-- Where nobody has kept rules, those of a dialect are composed of all that is provided along its
line. The line may be read off a registry that has been asked since. -/
theorem Composes.lineage {source : Registry} (derives : Derives source [] registry)
    (lacking : ∀ name dialect, get? name source.dialects = some dialect → dialect.rules = none)
    {waiting : List String} {rules : RuleSet} (composes : Composes source waiting name (.ok rules)) :
    ∃ line members, Lineage registry name line ∧ registry.providedAlong line = .ok members ∧
      rules = .compose members := by
  generalize same : Except.ok rules = result at composes
  induction composes generalizing rules with
  | unknown | cyclic => cases same
  | kept found kept =>
      rw [lacking _ _ found] at kept
      cases kept
  | orphan found lacks free parentless =>
      obtain ⟨_, members, empty, provides, rfl⟩ := composed_eq_ok same.symm
      obtain rfl := Except.ok.inj empty
      obtain ⟨now, here, grows⟩ := derives.grown found
      refine ⟨[now], members, .oldest here (grows.parent.trans parentless), ?_, rfl⟩
      rw [providedAlong, List.flatMap_singleton, grows.fragments, derives.fragments.provided]
      exact provides
  | child found lacks free inherits base ih =>
      obtain ⟨inherited, own, rfl, provides, rfl⟩ := composed_eq_ok same.symm
      obtain ⟨line, members, lineage, along, rfl⟩ := ih rfl
      obtain ⟨now, here, grows⟩ := derives.grown found
      refine ⟨line ++ [now], members ++ own,
        .child here (grows.parent.trans inherits) lineage, ?_, RuleSet.compose_compose members own⟩
      apply providedAlong_concat along
      rw [grows.fragments, derives.fragments.provided]
      exact provides

theorem grammar_eq_ofRules
    (lacking : ∀ dialect, get? name registry.dialects = some dialect → dialect.grammar = none)
    {rules : RuleSet} (composed : (registry.rules name).1 = .ok rules) {grammar : Grammar}
    (answered : (registry.grammar name).1 = .ok grammar) : grammar = .ofRules rules := by
  obtain ⟨dialect, found⟩ := grammarDerivation.registered (grammar_eq ▸ answered)
  rw [grammar_lacking found (lacking dialect found), composed] at answered
  exact (validGrammar_eq_ok answered).1

theorem resolve_ofRules {rules : RuleSet} {rule : String} {productions : List Production}
    (found : get? rule rules = some productions) :
    (Grammar.ofRules rules).resolve rule = .ok (choiceOf productions).normalize := by
  unfold Grammar.resolve Grammar.normalized Grammar.ofRules
  rw [Index.get?_mapValues, Index.get?_mapValues, found]
  rfl

/-- A dialect has the rules that some fragment along its line has. Each has the productions of all
these fragments, from the oldest ancestor down and in the order in which each dialect lists its own,
and comes out of the grammar as the ordered choice of just these. -/
theorem rules_follow_lineage (settings : Settings) {steps : List Step} (additive : Additive steps)
    {name : String} {rules : RuleSet}
    (answered : ((after settings steps).rules name).1 = .ok rules) :
    let registry := after settings steps
    ∃ line members, Lineage registry name line ∧ registry.providedAlong line = .ok members ∧
      (∀ rule, rule ∈ names rules ↔ ∃ member ∈ members, rule ∈ names member) ∧
      (∀ rule ∈ names rules,
        get? rule rules = some (members.flatMap (productionsFor rule)) ∧
        (Grammar.ofRules rules).resolve rule =
          .ok (choiceOf (members.flatMap (productionsFor rule))).normalize) ∧
      ∀ grammar, (registry.grammar name).1 = .ok grammar → grammar = .ofRules rules := by
  intro registry
  -- Answers are those of a registry that nobody has asked, in which no rules are kept.
  let fresh := after settings (steps.filter Step.registers)
  have settled : fresh.Settled := settled_after settings _
  have derives : Derives fresh [] registry := derives_registrations settings additive.orderly
  have underived : ∀ name dialect, get? name fresh.dialects = some dialect → dialect.Underived :=
    fun _ _ found => underived_registered (fun _ member => (List.mem_filter.mp member).2) found
  have composed : (fresh.rules name).1 = .ok rules :=
    ((answers_rules settled name).fst_eq derives).symm.trans answered
  have composes : Composes fresh [] name (.ok rules) := composed ▸ composes_rules settled name
  obtain ⟨line, members, lineage, along, rfl⟩ := composes.lineage derives
    fun name dialect found => by rw [← underived name dialect found]; rfl
  refine ⟨line, members, lineage, along, fun rule => RuleSet.mem_names_compose,
    fun rule member => ?_, fun grammar answeredToo => ?_⟩
  · have found := RuleSet.get?_compose member
    exact ⟨found, resolve_ofRules found⟩
  · have first : (fresh.grammar name).1 = .ok grammar :=
      ((answers_grammar settled name).fst_eq derives).symm.trans answeredToo
    refine grammar_eq_ofRules (fun dialect found => ?_) composed first
    rw [← underived name dialect found]
    rfl

/-- A parent that lists a fragment twice is registered after its child has been asked about. -/
def lateParent : List Step := [
  .fragment (.make "first" (some [("Program", [.ofPattern (.tokenClass "Name")])]) []),
  .fragment (.make "second" (some [("Program", [.ofPattern (.tokenClass "Number")])]) []),
  .dialect (.define "child" (some "base") ["second"]) (underived_define ..),
  .query .types "child",
  .dialect (.define "base" none ["first", "first"]) (underived_define ..),
  .query .grammar "base"]

theorem rules_follow_lineage_lateParent :
    let registry := after .defaults lateParent
    let rules : RuleSet := [("Program",
      [.ofPattern (.tokenClass "Name"), .ofPattern (.tokenClass "Name"),
        .ofPattern (.tokenClass "Number")])]
    Additive lateParent ∧ (registry.rules "child").1 = .ok rules ∧
      ∃ line members, Lineage registry "child" line ∧ registry.providedAlong line = .ok members ∧
        get? "Program" rules = some (members.flatMap (productionsFor "Program")) := by
  intro registry rules
  have additive : Additive lateParent := ⟨by decide, by decide⟩
  have answered : (registry.rules "child").1 = .ok rules := rfl
  obtain ⟨line, members, lineage, along, -, listed, -⟩ :=
    rules_follow_lineage .defaults additive answered
  exact ⟨additive, answered, line, members, lineage, along, (listed "Program" (by decide)).1⟩

end Parlance.Registry
