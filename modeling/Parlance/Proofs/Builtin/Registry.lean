import Parlance.Dialect.Work
import Parlance.Proofs.Builtin.Drawing
import Parlance.Proofs.Builtin.Totality
import Parlance.Proofs.Dialect.Registry

/-! What a registry with the built-in dialects answers: whatever it has kept of earlier work, it
answers as it would have at first, and goes on to do so. -/

namespace Parlance

namespace Builtin

open Index (get?)
open Registry (Work Answer)

def dialectName (sugar : Bool) : String := if sugar then sugarName else baseName

def expressionFragment : Fragment :=
  .make Expressions.fragmentName (some Expressions.rules) expressionTypes

def statementFragment : Fragment :=
  .make Statements.fragmentName (some Statements.rules) statementTypes

def unlessFragment : Fragment :=
  .make Unless.fragmentName (some Unless.rules) (.ofList [Unless.nodeType])

theorem fragments_eq :
    Builtin.fragments = [expressionFragment, statementFragment, unlessFragment] := rfl

def ownFragments (sugar : Bool) : List String :=
  if sugar then [Unless.fragmentName] else [Expressions.fragmentName, Statements.fragmentName]

def ownTypes (sugar : Bool) : NodeTypes :=
  if sugar then Index.merge [] (NodeTypes.ofList [Unless.nodeType])
  else Index.merge (Index.merge [] expressionTypes) statementTypes

def types (settings : Settings) (sugar : Bool) : NodeTypes :=
  Registry.mergeTypes settings.precedence (ownTypes sugar)
    (if sugar then some (ownTypes false) else none)

/-- A built-in dialect that has kept nothing but what is derived for it. -/
structure Keeps (settings : Settings) (sugar : Bool) (dialect : Dialect) : Prop where
  parent : dialect.parent = if sugar then some baseName else none
  fragments : dialect.fragments = ownFragments sugar
  start : dialect.start = Dialect.defaultStart
  precedence : dialect.precedence = none
  maxDepth : dialect.maxDepth = none
  composing : dialect.composing = false
  rules : ∀ kept ∈ dialect.rules, kept = Builtin.rules sugar
  grammar : ∀ kept ∈ dialect.grammar, kept = Grammar.ofRules (Builtin.rules sugar)
  types : ∀ kept ∈ dialect.types, kept = Builtin.types settings sugar
  lexicon : ∀ kept ∈ dialect.lexicon, kept = Builtin.lexicon sugar

variable {settings : Settings} {sugar : Bool} {registry : Registry}

def Holds (settings : Settings) (registry : Registry) (sugar : Bool) : Prop :=
  ∃ dialect, get? (dialectName sugar) registry.dialects = some dialect ∧
    Keeps settings sugar dialect

structure Provides (settings : Settings) (registry : Registry) : Prop where
  settings : registry.settings = settings
  fragments : ∀ fragment ∈ Builtin.fragments, ∃ held,
    get? fragment.name registry.fragments = some held ∧ held.name = fragment.name ∧
      held.provided = fragment.provided ∧ held.types = fragment.types

structure Serves (settings : Settings) (registry : Registry) : Prop where
  provides : Provides settings registry
  holds : ∀ sugar, Holds settings registry sugar

/-- The answer of a query wherever the built-in dialects are, and they still are there after it. -/
def Answers (settings : Settings) {α : Type} (query : Registry → Answer α) (value : α) : Prop :=
  ∀ registry, Serves settings registry →
    ∃ after, query registry = (.ok value, after) ∧ Serves settings after

theorem dialectName_inj {other : Bool} (same : dialectName sugar = dialectName other) :
    sugar = other := by
  revert same
  cases sugar <;> cases other <;> decide

theorem keeps_define (settings : Settings) (sugar : Bool) : Keeps settings sugar
    (.define (dialectName sugar) (if sugar then some baseName else none) (ownFragments sugar)) where
  parent := rfl
  fragments := rfl
  start := rfl
  precedence := rfl
  maxDepth := rfl
  composing := rfl
  rules := nofun
  grammar := nofun
  types := nofun
  lexicon := nofun

theorem serves_registry (settings : Settings) : Serves settings (Builtin.registry settings) where
  provides := by
    refine ⟨rfl, ?_⟩
    intro fragment member
    simp only [Builtin.fragments, List.mem_cons, List.not_mem_nil, or_false] at member
    rcases member with rfl | rfl | rfl <;> exact ⟨_, rfl, rfl, rfl, rfl⟩
  holds sugar := by
    refine ⟨_, ?_, keeps_define settings sugar⟩
    cases sugar <;> rfl

theorem Provides.update (provides : Provides settings registry) (name : String)
    (change : Dialect → Dialect) : Provides settings (registry.update name change) where
  settings := by rw [Registry.settings_update, provides.settings]
  fragments := by rw [Registry.fragments_update]; exact provides.fragments

theorem Holds.update_other {name : String} {other : Bool} (holds : Holds settings registry other)
    (differs : dialectName other ≠ name) (change : Dialect → Dialect) :
    Holds settings (registry.update name change) other := by
  obtain ⟨dialect, found, keeps⟩ := holds
  refine ⟨dialect, ?_, keeps⟩
  rw [Registry.get?_update, if_neg differs, found]

theorem holds_update {dialect : Dialect}
    (found : get? (dialectName sugar) registry.dialects = some dialect)
    {change : Dialect → Dialect} (keeps : Keeps settings sugar (change dialect)) :
    Holds settings (registry.update (dialectName sugar) change) sugar := by
  refine ⟨change dialect, ?_, keeps⟩
  rw [Registry.get?_update, if_pos rfl, found, Option.map_some]

theorem Serves.update (serves : Serves settings registry) {change : Dialect → Dialect}
    (each : ∀ dialect, Keeps settings sugar dialect → Keeps settings sugar (change dialect)) :
    Serves settings (registry.update (dialectName sugar) change) where
  provides := serves.provides.update _ _
  holds other := by
    by_cases same : other = sugar
    · obtain ⟨dialect, found, keeps⟩ := serves.holds sugar
      exact same ▸ holds_update found (each dialect keeps)
    · exact (serves.holds other).update_other (fun equal => same (dialectName_inj equal)) _

theorem Serves.fuel (serves : Serves settings registry) :
    ∃ fuel, registry.dialects.length = fuel + 1 := by
  obtain ⟨dialect, found, -⟩ := serves.holds true
  refine Nat.exists_eq_succ_of_ne_zero fun none => ?_
  rw [List.eq_nil_of_length_eq_zero none] at found
  cases found

theorem Provides.ran {after : Registry} (provides : Provides settings registry)
    (ran : Registry.Ran registry after) : Provides settings after where
  settings := ran.settings.trans provides.settings
  fragments fragment member := by
    obtain ⟨held, found, name, provided, types⟩ := provides.fragments fragment member
    rcases ran.fragments.cases fragment.name with
      ⟨absent, -⟩ | ⟨known, twin, foundKnown, foundTwin, nameToo, providedToo, typesToo⟩
    · rw [found] at absent
      cases absent
    · obtain rfl := Option.some.inj (found.symm.trans foundKnown)
      exact ⟨twin, foundTwin, nameToo.trans name, providedToo.trans provided, typesToo.trans types⟩

theorem fragmentRules_eq (provides : Provides settings registry) {fragment : Fragment}
    (member : fragment ∈ Builtin.fragments) {rules : RuleSet}
    (given : fragment.provided = some rules) :
    ∃ after, Registry.fragmentRules fragment.name registry = (.ok rules, after) ∧
      Provides settings after ∧ after.dialects = registry.dialects := by
  obtain ⟨held, found, name, provided, -⟩ := provides.fragments fragment member
  have ran : Registry.Ran registry (registry.build held) := Registry.ran_build (name ▸ found)
  refine ⟨registry.build held, ?_, provides.ran ran, ran.dialects⟩
  simp only [Registry.fragmentRules, Registry.fragment, found, provided, given]

def ownRules (sugar : Bool) : List RuleSet :=
  if sugar then [Unless.rules] else [Expressions.rules, Statements.rules]

theorem allFragmentRules_eq (provides : Provides settings registry) (sugar : Bool) :
    ∃ after, Registry.allFragmentRules (ownFragments sugar) registry =
        (.ok (ownRules sugar), after) ∧
      Provides settings after ∧ after.dialects = registry.dialects := by
  cases sugar with
  | false =>
      have expressions : expressionFragment ∈ Builtin.fragments := by simp [fragments_eq]
      have statements : statementFragment ∈ Builtin.fragments := by simp [fragments_eq]
      obtain ⟨middle, first, provides, same⟩ := fragmentRules_eq provides expressions rfl
      obtain ⟨after, second, provides, sameToo⟩ := fragmentRules_eq provides statements rfl
      refine ⟨after, ?_, provides, sameToo.trans same⟩
      simp only [expressionFragment, statementFragment, Fragment.make] at first second
      simp only [ownFragments, ownRules, Bool.false_eq_true, if_false, Registry.allFragmentRules,
        first, second]
  | true =>
      have sugared : unlessFragment ∈ Builtin.fragments := by simp [fragments_eq]
      obtain ⟨after, only, provides, same⟩ := fragmentRules_eq provides sugared rfl
      refine ⟨after, ?_, provides, same⟩
      simp only [unlessFragment, Fragment.make] at only
      simp only [ownFragments, ownRules, if_true, Registry.allFragmentRules, only]

/-- Rules that are kept end the composing, and are all that the dialect keeps anew. -/
theorem keeps_rules {dialect : Dialect} (keeps : Keeps settings sugar dialect) :
    Keeps settings sugar { dialect with composing := false, rules := some (rules sugar) } :=
  { keeps with
    composing := rfl
    rules := fun _ same => (Option.some.inj same).symm }

theorem composed {dialect : Dialect} (provides : Provides settings registry)
    (found : get? (dialectName sugar) registry.dialects = some { dialect with composing := true })
    (keeps : Keeps settings sugar dialect) :
    ∃ after, Registry.allFragmentRules dialect.fragments registry = (.ok (ownRules sugar), after) ∧
      Provides settings (after.keepRules (dialectName sugar) (rules sugar)) ∧
      Holds settings (after.keepRules (dialectName sugar) (rules sugar)) sugar ∧
      ∀ other, other ≠ dialectName sugar →
        get? other (after.keepRules (dialectName sugar) (rules sugar)).dialects =
          get? other registry.dialects := by
  obtain ⟨after, ran, provides, same⟩ := allFragmentRules_eq provides sugar
  refine ⟨after, keeps.fragments ▸ ran, provides.update _ _, ?_, fun other differs => ?_⟩
  · have marked : get? (dialectName sugar) after.dialects = _ := same ▸ found
    have kept := keeps_rules keeps
    exact holds_update marked kept
  · rw [Registry.keepRules, Registry.get?_update, if_neg differs, same]

theorem get?_setComposing {dialect : Dialect}
    (found : get? (dialectName sugar) registry.dialects = some dialect) (name : String) :
    get? name (registry.setComposing (dialectName sugar) true).dialects =
      if name = dialectName sugar then some { dialect with composing := true }
      else get? name registry.dialects := by
  rw [Registry.setComposing, Registry.get?_update, found]
  rfl

theorem baseRules_eq (provides : Provides settings registry)
    (holds : Holds settings registry false) (fuel : Nat) :
    ∃ after, Registry.rulesWithin (fuel + 1) (dialectName false) registry =
        (.ok (rules false), after) ∧
      Provides settings after ∧ Holds settings after false ∧
      ∀ other, other ≠ dialectName false →
        get? other after.dialects = get? other registry.dialects := by
  obtain ⟨dialect, found, keeps⟩ := holds
  cases kept : dialect.rules with
  | some composed =>
      rw [keeps.rules _ kept] at kept
      refine ⟨registry, ?_, provides, ⟨dialect, found, keeps⟩, fun _ _ => rfl⟩
      simp only [Registry.rulesWithin, Registry.dialect, found, kept]
  | none =>
      have marked := get?_setComposing found
      obtain ⟨after, ran, provides, holds, same⟩ := composed (provides.update (dialectName false) _)
        ((marked _).trans (if_pos rfl)) keeps
      refine ⟨_, ?_, provides, holds, fun other differs => ?_⟩
      · have ran : Registry.allFragmentRules dialect.fragments
            (registry.setComposing (dialectName false) true) = _ := ran
        simp only [Registry.rulesWithin, Registry.dialect, found, kept, keeps.composing,
          keeps.parent, Bool.false_eq_true, if_false, ran]
        rfl
      · exact (same other differs).trans ((marked other).trans (if_neg differs))

theorem answers_rules (settings : Settings) (sugar : Bool) :
    Answers settings (Registry.rules (dialectName sugar)) (rules sugar) := by
  intro registry serves
  cases sugar with
  | false =>
      obtain ⟨after, ran, provides, holds, same⟩ :=
        baseRules_eq serves.provides (serves.holds false) registry.dialects.length
      refine ⟨after, ran, provides, fun sugar => ?_⟩
      cases sugar with
      | false => exact holds
      | true =>
          obtain ⟨dialect, found, keeps⟩ := serves.holds true
          exact ⟨dialect, (same _ (by decide)).trans found, keeps⟩
  | true =>
      obtain ⟨dialect, found, keeps⟩ := serves.holds true
      cases kept : dialect.rules with
      | some composed =>
          rw [keeps.rules _ kept] at kept
          refine ⟨registry, ?_, serves⟩
          simp only [Registry.rules, Registry.rulesWithin, Registry.dialect, found, kept]
      | none =>
          have marked := get?_setComposing found
          obtain ⟨fuel, enough⟩ := serves.fuel
          have markedHolds : Holds settings (registry.setComposing (dialectName true) true) false :=
            (serves.holds false).update_other (by decide) _
          obtain ⟨middle, base, provides, holds, same⟩ :=
            baseRules_eq (serves.provides.update _ _) markedHolds fuel
          obtain ⟨after, ran, provides, holdsToo, sameToo⟩ := composed provides
            ((same _ (by decide)).trans ((marked _).trans (if_pos rfl))) keeps
          refine ⟨_, ?_, provides, fun sugar => ?_⟩
          · have base : Registry.rulesWithin (fuel + 1) baseName
                (registry.setComposing (dialectName true) true) = _ := base
            simp only [Registry.rules, enough, Registry.rulesWithin,
              Registry.dialect, found, kept, keeps.composing, keeps.parent, Bool.false_eq_true,
              if_false, if_true, base, ran]
            rfl
          · cases sugar with
            | true => exact holdsToo
            | false =>
                obtain ⟨other, foundToo, keepsToo⟩ := holds
                exact ⟨other, (sameToo _ (by decide)).trans foundToo, keepsToo⟩

theorem validGrammar_eq (sugar : Bool) {dialect : Dialect}
    (start : dialect.start = Dialect.defaultStart) :
    Registry.validGrammar dialect (rules sugar) = .ok (.ofRules (rules sugar)) := by
  have authored : Statements.program ∈ expressionEdits ++ statementEdits := by
    simp [statementEdits]
  have found := get?_rules sugar authored (by decide)
  have program : Registry.hasProductions (rules sugar) Dialect.defaultStart = true := by
    rw [Registry.hasProductions, Dialect.defaultStart, found]
    rfl
  have complete : (Grammar.ofRules (rules sugar)).dangling? = none := by
    cases sugar <;> decide +kernel
  simp only [Registry.validGrammar, start, program, if_true, Grammar.validate, complete]

theorem answers_grammar (settings : Settings) (sugar : Bool) :
    Answers settings (Registry.grammar (dialectName sugar)) (.ofRules (rules sugar)) := by
  intro registry serves
  obtain ⟨dialect, found, keeps⟩ := serves.holds sugar
  cases kept : dialect.grammar with
  | some grammar =>
      obtain rfl := keeps.grammar _ kept
      refine ⟨registry, ?_, serves⟩
      simp only [Registry.grammar, Registry.dialect, found, kept]
  | none =>
      obtain ⟨middle, ran, serves⟩ := answers_rules settings sugar _ serves
      refine ⟨middle.update (dialectName sugar) fun dialect =>
        { dialect with grammar := some (.ofRules (rules sugar)) }, ?_,
        serves.update fun _ keeps => { keeps with
          grammar := fun _ same => (Option.some.inj same).symm }⟩
      simp only [Registry.grammar, Registry.dialect, found, kept, ran,
        validGrammar_eq sugar keeps.start]

theorem answers_lexicon (settings : Settings) (sugar : Bool) :
    Answers settings (Registry.lexicon (dialectName sugar)) (lexicon sugar) := by
  intro registry serves
  obtain ⟨dialect, found, keeps⟩ := serves.holds sugar
  cases kept : dialect.lexicon with
  | some known =>
      obtain rfl := keeps.lexicon _ kept
      refine ⟨registry, ?_, serves⟩
      simp only [Registry.lexicon, Registry.dialect, found, kept]
  | none =>
      obtain ⟨middle, ran, serves⟩ := answers_grammar settings sugar _ serves
      refine ⟨middle.update (dialectName sugar) fun dialect =>
        { dialect with lexicon := some (lexicon sugar) }, ?_,
        serves.update fun _ keeps => { keeps with
          lexicon := fun _ same => (Option.some.inj same).symm }⟩
      simp only [Registry.lexicon, Registry.dialect, found, kept, ran]
      rfl

theorem ownTypes_eq (provides : Provides settings registry) (sugar : Bool) :
    Registry.ownTypes registry (ownFragments sugar) [] = .ok (ownTypes sugar) := by
  have named (fragment : Fragment) (member : fragment ∈ Builtin.fragments) :
      ∃ held, registry.fragment fragment.name = .ok held ∧ held.types = fragment.types := by
    obtain ⟨held, found, -, -, types⟩ := provides.fragments fragment member
    exact ⟨held, by rw [Registry.fragment, found], types⟩
  obtain ⟨first, expressions, expressionTypes⟩ :=
    named expressionFragment (by simp [fragments_eq])
  obtain ⟨second, statements, statementTypes⟩ := named statementFragment (by simp [fragments_eq])
  obtain ⟨third, sugared, unlessTypes⟩ := named unlessFragment (by simp [fragments_eq])
  simp only [expressionFragment, Fragment.make] at expressions expressionTypes
  simp only [statementFragment, Fragment.make] at statements statementTypes
  simp only [unlessFragment, Fragment.make] at sugared unlessTypes
  cases sugar with
  | false =>
      simp only [ownFragments, ownTypes, Bool.false_eq_true, if_false, Registry.ownTypes,
        expressions, statements, expressionTypes, statementTypes]
  | true =>
      simp only [ownFragments, ownTypes, if_true, Registry.ownTypes, sugared, unlessTypes]

theorem typesWithin_eq (sugar : Bool) {fuel : Nat} (serves : Serves settings registry)
    (parent : sugar = true → Answers settings (Registry.typesWithin fuel baseName)
      (types settings false)) :
    ∃ after, Registry.typesWithin (fuel + 1) (dialectName sugar) registry =
        (.ok (types settings sugar), after) ∧ Serves settings after := by
  obtain ⟨dialect, found, keeps⟩ := serves.holds sugar
  cases kept : dialect.types with
  | some known =>
      obtain rfl := keeps.types _ kept
      refine ⟨registry, ?_, serves⟩
      simp only [Registry.typesWithin, Registry.dialect, found, kept]
  | none =>
      obtain ⟨middle, ran, serves⟩ := answers_rules settings sugar _ serves
      have own := keeps.fragments ▸ ownTypes_eq serves.provides sugar
      have update {registry : Registry} (serves : Serves settings registry) : Serves settings
          (registry.update (dialectName sugar) fun dialect =>
            { dialect with types := some (types settings sugar) }) :=
        serves.update fun _ keeps => { keeps with
          types := fun _ same => (Option.some.inj same).symm }
      cases sugar with
      | false =>
          refine ⟨_, ?_, update serves⟩
          simp only [Registry.typesWithin, Registry.dialect, found, kept, ran, own, keeps.parent,
            keeps.precedence, Option.getD_none, serves.provides.settings, Bool.false_eq_true,
            if_false]
          rfl
      | true =>
          obtain ⟨last, base, serves⟩ := parent rfl _ serves
          refine ⟨_, ?_, update serves⟩
          simp only [Registry.typesWithin, Registry.dialect, found, kept, ran, own, keeps.parent,
            keeps.precedence, Option.getD_none, serves.provides.settings, if_true, base]
          rfl

theorem answers_types (settings : Settings) (sugar : Bool) :
    Answers settings (Registry.types (dialectName sugar)) (types settings sugar) := by
  intro registry serves
  obtain ⟨fuel, enough⟩ := serves.fuel
  rw [Registry.types, enough]
  exact typesWithin_eq sugar serves fun _ _ serves => typesWithin_eq false serves nofun

end Builtin

end Parlance
