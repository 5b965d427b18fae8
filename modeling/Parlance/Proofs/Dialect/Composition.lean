import Mathlib.Logic.Relation
import Parlance.Proofs.Dialect.Registry

/-! What the rules and the node types of a dialect are, said without the order in which they come to
be kept. Rules that are kept stand for the parents behind them; whoever has none needs those of its
parent, and a need that comes round to itself is a cycle. -/

namespace Parlance

open Index (get?)
open Relation (ReflTransGen TransGen)

theorem leads_cons {link : String → String → Prop} {path : List String} {name next : String}
    (first : link name next) (leads : ∀ other ∈ path, TransGen link other name) :
    ∀ other ∈ name :: path, TransGen link other next := by
  intro other member
  rcases List.mem_cons.mp member with rfl | member
  · exact .single first
  · exact (leads other member).tail first

/-- Following the links from a name leads round a circle. -/
def GoesRound (link : String → String → Prop) (name : String) : Prop :=
  ∃ met, ReflTransGen link name met ∧ TransGen link met met

namespace GoesRound

variable {link : String → String → Prop} {name next : String}

theorem of_transGen (round : TransGen link name name) : GoesRound link name := ⟨name, .refl, round⟩

theorem head (first : link name next) (round : GoesRound link next) : GoesRound link name := by
  obtain ⟨met, leads, circle⟩ := round
  exact ⟨met, leads.head first, circle⟩

theorem exists_next (round : GoesRound link name) : ∃ next, link name next ∧ GoesRound link next := by
  obtain ⟨met, leads, circle⟩ := round
  rcases leads.cases_head with rfl | ⟨next, first, rest⟩
  · obtain ⟨next, first, rest⟩ := TransGen.head'_iff.mp circle
    exact ⟨next, first, name, rest, circle⟩
  · exact ⟨next, first, met, rest, circle⟩

end GoesRound

namespace Registry

def composed (registry : Registry) (dialect : Dialect) (base : Except DefinitionFault RuleSet) :
    Except DefinitionFault RuleSet := do
  let base ← base
  let members ← dialect.fragments.mapM registry.provided
  pure (RuleSet.compose (base :: members))

/-- What the rules of a dialect are for those that wait for them. -/
inductive Composes (registry : Registry) :
    List String → String → Except DefinitionFault RuleSet → Prop where
  | unknown {waiting name} (absent : get? name registry.dialects = none) :
      Composes registry waiting name (.error (.unknownDialect name))
  | kept {waiting name dialect rules} (found : get? name registry.dialects = some dialect)
      (kept : dialect.rules = some rules) : Composes registry waiting name (.ok rules)
  | cyclic {waiting name dialect} (found : get? name registry.dialects = some dialect)
      (lacks : dialect.rules = none) (waits : name ∈ waiting) :
      Composes registry waiting name (.error (.cyclicDialect name))
  | orphan {waiting name dialect} (found : get? name registry.dialects = some dialect)
      (lacks : dialect.rules = none) (free : name ∉ waiting) (parentless : dialect.parent = none) :
      Composes registry waiting name (registry.composed dialect (.ok []))
  | child {waiting name dialect parent result} (found : get? name registry.dialects = some dialect)
      (lacks : dialect.rules = none) (free : name ∉ waiting) (inherits : dialect.parent = some parent)
      (base : Composes registry (name :: waiting) parent result) :
      Composes registry waiting name (registry.composed dialect result)

def NeedsRules (registry : Registry) (name parent : String) : Prop :=
  ∃ dialect, get? name registry.dialects = some dialect ∧ dialect.rules = none ∧
    dialect.parent = some parent

section Composition

variable {registry : Registry} {name : String} {waiting : List String}

theorem NeedsRules.inherits {parent : String} {dialect : Dialect}
    (needs : registry.NeedsRules name parent)
    (found : get? name registry.dialects = some dialect) :
    dialect.rules = none ∧ dialect.parent = some parent := by
  obtain ⟨_, foundToo, lacks, inherits⟩ := needs
  obtain rfl := Option.some.inj (found.symm.trans foundToo)
  exact ⟨lacks, inherits⟩

theorem composed_eq_ok {dialect : Dialect} {base : Except DefinitionFault RuleSet} {rules : RuleSet}
    (composes : registry.composed dialect base = .ok rules) :
    ∃ inherited members, base = .ok inherited ∧
      dialect.fragments.mapM registry.provided = .ok members ∧
      rules = RuleSet.compose (inherited :: members) := by
  cases base with
  | error fault => cases composes
  | ok inherited =>
      cases provides : dialect.fragments.mapM registry.provided with
      | error fault =>
          simp only [composed, provides] at composes
          cases composes
      | ok members =>
          simp only [composed, provides] at composes
          exact ⟨inherited, members, rfl, rfl, (Except.ok.inj composes).symm⟩

theorem mapM_eq_ok {α β ε : Type} {step : α → Except ε β} {items : List α} {values : List β}
    (all : items.mapM step = .ok values) {item : α} (member : item ∈ items) :
    ∃ value, step item = .ok value := by
  induction items generalizing values with
  | nil => cases member
  | cons first rest ih =>
      rw [List.mapM_cons] at all
      cases here : step first with
      | error fault => rw [here] at all; cases all
      | ok value =>
          rw [here] at all
          cases others : rest.mapM step with
          | error fault => rw [others] at all; cases all
          | ok values =>
              rcases List.mem_cons.mp member with rfl | member
              · exact ⟨value, here⟩
              · exact ih others member

/-- What fails for a list fails for the first of its items that does not succeed. -/
theorem mapM_eq_error {α β ε : Type} {step : α → Except ε β} {items : List α} {fault : ε}
    (fails : items.mapM step = .error fault) : ∃ before item rest, items = before ++ item :: rest ∧
      (∀ earlier ∈ before, ∃ value, step earlier = .ok value) ∧ step item = .error fault := by
  induction items with
  | nil => cases fails
  | cons first rest ih =>
      rw [List.mapM_cons] at fails
      cases here : step first with
      | error other =>
          rw [here] at fails
          obtain rfl := Except.error.inj fails
          exact ⟨[], first, rest, rfl, nofun, here⟩
      | ok value =>
          rw [here] at fails
          cases others : rest.mapM step with
          | ok values => rw [others] at fails; cases fails
          | error other =>
              rw [others] at fails
              obtain rfl := Except.error.inj fails
              obtain ⟨before, item, after, rfl, succeed, there⟩ := ih others
              exact ⟨first :: before, item, after, rfl,
                List.forall_mem_cons.mpr ⟨⟨value, here⟩, succeed⟩, there⟩

theorem provided_eq_error_iff {fault : DefinitionFault} : registry.provided name = .error fault ↔
    (get? name registry.fragments = none ∧ fault = .unknownFragment name) ∨
      ∃ fragment, get? name registry.fragments = some fragment ∧ fragment.provided = none ∧
        fault = .emptyFragment name := by
  unfold provided Registry.fragment
  cases found : get? name registry.fragments with
  | none => simp [eq_comm]
  | some fragment => cases provides : fragment.provided <;> simp [provides, eq_comm]

theorem provided_eq_error {fault : DefinitionFault} (fails : registry.provided name = .error fault) :
    fault = .unknownFragment name ∨ fault = .emptyFragment name := by
  rcases provided_eq_error_iff.mp fails with ⟨-, unknown⟩ | ⟨_, -, -, barren⟩
  · exact .inl unknown
  · exact .inr barren

theorem registered_of_provided {rules : RuleSet} (provides : registry.provided name = .ok rules) :
    ∃ fragment, get? name registry.fragments = some fragment := by
  cases found : get? name registry.fragments with
  | none => simp only [provided, fragment, found] at provides; cases provides
  | some fragment => exact ⟨fragment, rfl⟩

theorem composed_failed {dialect : Dialect} {base : Except DefinitionFault RuleSet}
    {fault : DefinitionFault} (fails : registry.composed dialect base = .error fault) :
    base = .error fault ∨ ∃ inherited, base = .ok inherited ∧
      dialect.fragments.mapM registry.provided = .error fault := by
  cases base with
  | error first => exact .inl fails
  | ok inherited =>
      refine .inr ⟨inherited, rfl, ?_⟩
      cases provides : dialect.fragments.mapM registry.provided with
      | error first =>
          simp only [composed, provides] at fails
          exact congrArg Except.error (Except.error.inj fails)
      | ok members =>
          simp only [composed, provides] at fails
          cases fails

theorem composed_eq_error {dialect : Dialect} {base : Except DefinitionFault RuleSet}
    {fault : DefinitionFault} (fails : registry.composed dialect base = .error fault) :
    base = .error fault ∨ ∃ name, fault = .unknownFragment name ∨ fault = .emptyFragment name := by
  rcases composed_failed fails with above | ⟨_, -, fails⟩
  · exact .inl above
  · obtain ⟨_, name, _, -, -, fails⟩ := mapM_eq_error fails
    exact .inr ⟨name, provided_eq_error fails⟩

namespace Composes

theorem unique {result other : Except DefinitionFault RuleSet}
    (composes : Composes registry waiting name result)
    (composesToo : Composes registry waiting name other) : result = other := by
  induction composes generalizing other with
  | unknown absent => cases composesToo <;> simp_all
  | kept found kept => cases composesToo <;> simp_all
  | cyclic found lacks waits => cases composesToo <;> simp_all
  | orphan found lacks free parentless => cases composesToo <;> simp_all
  | child found lacks free inherits base ih =>
      cases composesToo with
      | child foundToo _ _ inheritsToo baseToo =>
          obtain rfl := Option.some.inj (found.symm.trans foundToo)
          obtain rfl := Option.some.inj (inherits.symm.trans inheritsToo)
          rw [ih baseToo]
      | _ => simp_all

theorem of_goesRound {result : Except DefinitionFault RuleSet}
    (composes : Composes registry waiting name result)
    (round : GoesRound registry.NeedsRules name) :
    ∃ met, result = .error (.cyclicDialect met) := by
  induction composes with
  | unknown absent =>
      obtain ⟨_, ⟨dialect, found, -⟩, -⟩ := round.exists_next
      rw [absent] at found
      cases found
  | kept found kept =>
      obtain ⟨_, needs, -⟩ := round.exists_next
      cases kept.symm.trans (needs.inherits found).1
  | cyclic => exact ⟨_, rfl⟩
  | orphan found _ _ parentless =>
      obtain ⟨_, needs, -⟩ := round.exists_next
      cases parentless.symm.trans (needs.inherits found).2
  | child found _ _ inherits _ ih =>
      obtain ⟨_, needs, roundToo⟩ := round.exists_next
      obtain rfl := Option.some.inj (inherits.symm.trans (needs.inherits found).2)
      obtain ⟨met, rfl⟩ := ih roundToo
      exact ⟨met, rfl⟩

/-- A cycle that is told of is one: it leads to a dialect that waits or needs itself. -/
theorem cyclic_met {met : String}
    (composes : Composes registry waiting name (.error (.cyclicDialect met))) :
    ReflTransGen registry.NeedsRules name met ∧
      (met ∈ waiting ∨ TransGen registry.NeedsRules met met) := by
  generalize same : Except.error (DefinitionFault.cyclicDialect met) = result at composes
  induction composes with
  | unknown | kept => cases same
  | cyclic _ _ waits => cases same; exact ⟨.refl, .inl waits⟩
  | orphan =>
      rcases composed_eq_error same.symm with fault | ⟨_, fault | fault⟩ <;> cases fault
  | @child _ name dialect parent _ found lacks free inherits _ ih =>
      have needs : registry.NeedsRules name parent := ⟨dialect, found, lacks, inherits⟩
      rcases composed_eq_error same.symm with fault | ⟨_, fault | fault⟩
      · obtain ⟨leads, known⟩ := ih fault.symm
        refine ⟨leads.head needs, ?_⟩
        rcases known with waits | circle
        · rcases List.mem_cons.mp waits with rfl | waits
          · exact .inr (TransGen.head'_iff.mpr ⟨parent, needs, leads⟩)
          · exact .inl waits
        · exact .inr circle
      · cases fault
      · cases fault

theorem cyclic_iff {result : Except DefinitionFault RuleSet}
    (composes : Composes registry [] name result) :
    (∃ met, result = .error (.cyclicDialect met)) ↔ GoesRound registry.NeedsRules name := by
  constructor
  · rintro ⟨met, rfl⟩
    obtain ⟨leads, waits | circle⟩ := composes.cyclic_met
    · cases waits
    · exact ⟨met, leads, circle⟩
  · exact composes.of_goesRound

/-- Rules there are do not depend on who waits for them, as long as those are on the way. -/
theorem waiting_irrelevant {rules : RuleSet} {others : List String}
    (composes : Composes registry waiting name (.ok rules))
    (leads : ∀ other ∈ others, TransGen registry.NeedsRules other name) :
    Composes registry others name (.ok rules) := by
  generalize same : Except.ok rules = result at composes
  -- Whoever waits leads here. If it were the dialect itself, the dialect would go round, and there
  -- would be no rules.
  induction composes generalizing rules others with
  | unknown | cyclic => cases same
  | kept found kept => exact .kept found kept
  | orphan found lacks free parentless =>
      refine .orphan found lacks (fun waits => ?_) parentless
      obtain ⟨_, fault⟩ := of_goesRound (.orphan found lacks free parentless)
        (GoesRound.of_transGen (leads _ waits))
      rw [← same] at fault
      cases fault
  | @child _ name dialect parent result found lacks free inherits base ih =>
      have needs : registry.NeedsRules name parent := ⟨dialect, found, lacks, inherits⟩
      have freeToo : name ∉ others := by
        intro waits
        obtain ⟨_, fault⟩ := of_goesRound (.child found lacks free inherits base)
          (GoesRound.of_transGen (leads name waits))
        rw [← same] at fault
        cases fault
      obtain ⟨inherited, members, rfl, -, -⟩ := composed_eq_ok same.symm
      exact .child found lacks freeToo inherits (ih (leads_cons needs leads) rfl)

theorem not_unending (composes : Composes registry waiting name (.error .unending)) : False := by
  generalize same : Except.error DefinitionFault.unending = result at composes
  induction composes with
  | unknown | kept | cyclic => cases same
  | orphan => rcases composed_eq_error same.symm with fault | ⟨_, fault | fault⟩ <;> cases fault
  | child _ _ _ _ _ ih =>
      rcases composed_eq_error same.symm with fault | ⟨_, fault | fault⟩
      · exact ih fault.symm
      · cases fault
      · cases fault

end Composes

end Composition

def typesOver (registry : Registry) (dialect : Dialect) (own : NodeTypes)
    (inherited : Option NodeTypes) : NodeTypes :=
  mergeTypes (dialect.precedence.getD registry.settings.precedence) own inherited

/-- What the node types of a dialect are, where they come to anything: there is no rule for those
that need themselves. -/
inductive Typed (registry : Registry) : String → Except DefinitionFault NodeTypes → Prop where
  | unknown {name} (absent : get? name registry.dialects = none) :
      Typed registry name (.error (.unknownDialect name))
  | kept {name dialect types} (found : get? name registry.dialects = some dialect)
      (kept : dialect.types = some types) : Typed registry name (.ok types)
  | ruleless {name dialect fault} (found : get? name registry.dialects = some dialect)
      (lacks : dialect.types = none) (fails : Composes registry [] name (.error fault)) :
      Typed registry name (.error fault)
  | orphan {name dialect rules own} (found : get? name registry.dialects = some dialect)
      (lacks : dialect.types = none) (composes : Composes registry [] name (.ok rules))
      (owns : registry.ownTypes dialect.fragments [] = .ok own) (parentless : dialect.parent = none) :
      Typed registry name (.ok (registry.typesOver dialect own none))
  | child {name dialect rules own parent result} (found : get? name registry.dialects = some dialect)
      (lacks : dialect.types = none) (composes : Composes registry [] name (.ok rules))
      (owns : registry.ownTypes dialect.fragments [] = .ok own)
      (inherits : dialect.parent = some parent) (base : Typed registry parent result) :
      Typed registry name (result.map fun types => registry.typesOver dialect own (some types))

def NeedsTypes (registry : Registry) (name parent : String) : Prop :=
  ∃ dialect, get? name registry.dialects = some dialect ∧ dialect.types = none ∧
    dialect.parent = some parent ∧ ∃ rules, Composes registry [] name (.ok rules)

variable {registry : Registry} {name : String} {waiting : List String}

theorem NeedsTypes.inherits {parent : String} {dialect : Dialect}
    (needs : registry.NeedsTypes name parent)
    (found : get? name registry.dialects = some dialect) :
    dialect.types = none ∧ dialect.parent = some parent := by
  obtain ⟨_, foundToo, lacks, inherits, -⟩ := needs
  obtain rfl := Option.some.inj (found.symm.trans foundToo)
  exact ⟨lacks, inherits⟩

namespace Typed

theorem unique {result other : Except DefinitionFault NodeTypes} (typed : Typed registry name result)
    (typedToo : Typed registry name other) : result = other := by
  induction typed generalizing other with
  | unknown absent => cases typedToo <;> simp_all
  | kept found kept => cases typedToo <;> simp_all
  | ruleless found lacks fails =>
      cases typedToo with
      | ruleless _ _ failsToo => rw [Except.error.inj (fails.unique failsToo)]
      | orphan _ _ composes | child _ _ composes => cases fails.unique composes
      | _ => simp_all
  | orphan found lacks composes owns parentless =>
      cases typedToo with
      | ruleless _ _ fails => cases fails.unique composes
      | _ => simp_all
  | child found lacks composes owns inherits base ih =>
      cases typedToo with
      | ruleless _ _ fails => cases fails.unique composes
      | child foundToo _ _ ownsToo inheritsToo baseToo =>
          obtain rfl := Option.some.inj (found.symm.trans foundToo)
          obtain rfl := Option.some.inj (inherits.symm.trans inheritsToo)
          obtain rfl := Except.ok.inj (owns.symm.trans ownsToo)
          rw [ih baseToo]
      | _ => simp_all

/-- Node types that need themselves come to nothing. -/
theorem not_goesRound {result : Except DefinitionFault NodeTypes}
    (typed : Typed registry name result) : ¬ GoesRound registry.NeedsTypes name := by
  intro round
  induction typed with
  | unknown absent =>
      obtain ⟨_, ⟨dialect, found, -⟩, -⟩ := round.exists_next
      rw [absent] at found
      cases found
  | kept found kept =>
      obtain ⟨_, needs, -⟩ := round.exists_next
      cases kept.symm.trans (needs.inherits found).1
  | ruleless found _ fails =>
      obtain ⟨_, ⟨dialect, _, -, -, rules, composes⟩, -⟩ := round.exists_next
      cases fails.unique composes
  | orphan found _ _ _ parentless =>
      obtain ⟨_, needs, -⟩ := round.exists_next
      cases parentless.symm.trans (needs.inherits found).2
  | child found _ _ _ inherits _ ih =>
      obtain ⟨_, needs, roundToo⟩ := round.exists_next
      obtain rfl := Option.some.inj (inherits.symm.trans (needs.inherits found).2)
      exact ih roundToo

theorem not_unending (typed : Typed registry name (.error .unending)) : False := by
  generalize same : Except.error DefinitionFault.unending = result at typed
  induction typed with
  | unknown | kept | orphan => cases same
  | ruleless _ _ fails =>
      obtain rfl := Except.error.inj same
      exact fails.not_unending
  | @child _ _ _ _ _ result _ _ _ _ _ _ ih =>
      cases result with
      | error fault => exact ih same
      | ok types => cases same

end Typed

/-- What holds of a registry whenever no query is under way. -/
structure Settled (registry : Registry) : Prop where
  filed : registry.Filed
  idle : ∀ name dialect, get? name registry.dialects = some dialect → dialect.composing = false
  furnished : ∀ name dialect rules, get? name registry.dialects = some dialect →
    dialect.rules = some rules → ∀ member ∈ dialect.fragments,
      ∃ fragment, get? member registry.fragments = some fragment

theorem Composes.furnished {rules : RuleSet} (composes : Composes registry waiting name (.ok rules))
    (settled : registry.Settled) {dialect : Dialect}
    (found : get? name registry.dialects = some dialect) {member : String}
    (own : member ∈ dialect.fragments) :
    ∃ fragment, get? member registry.fragments = some fragment := by
  generalize same : Except.ok rules = result at composes
  have whole {base : Except DefinitionFault RuleSet}
      (composes : registry.composed dialect base = .ok rules) :
      ∃ fragment, get? member registry.fragments = some fragment := by
    obtain ⟨_, members, -, provides, -⟩ := composed_eq_ok composes
    obtain ⟨_, provided⟩ := mapM_eq_ok provides own
    exact registered_of_provided provided
  cases composes with
  | unknown | cyclic => cases same
  | kept foundToo kept =>
      obtain rfl := Option.some.inj (found.symm.trans foundToo)
      exact settled.furnished name dialect _ found kept member own
  | orphan foundToo =>
      obtain rfl := Option.some.inj (found.symm.trans foundToo)
      exact whole same.symm
  | child foundToo =>
      obtain rfl := Option.some.inj (found.symm.trans foundToo)
      exact whole same.symm

theorem ownTypes_ok {names : List String}
    (registered : ∀ name ∈ names, ∃ fragment, get? name registry.fragments = some fragment)
    (merged : NodeTypes) : ∃ own, registry.ownTypes names merged = .ok own := by
  induction names generalizing merged with
  | nil => exact ⟨merged, rfl⟩
  | cons name rest ih =>
      obtain ⟨fragment, found⟩ := registered name List.mem_cons_self
      simp only [ownTypes, Registry.fragment, found]
      exact ih (fun other member => registered other (List.mem_cons_of_mem _ member)) _

end Registry

end Parlance
