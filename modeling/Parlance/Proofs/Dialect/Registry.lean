import Parlance.Dialect.Derive
import Parlance.Proofs.Index

/-! What a registry holds under a name after a change, and what of it no query changes: how its
dialects and fragments were defined. -/

namespace Parlance

open Index (get?)

def Dialect.bare (dialect : Dialect) : Dialect :=
  { dialect with composing := false, rules := none, grammar := none, types := none, lexicon := none }

def Dialect.Underived (dialect : Dialect) : Prop := dialect.bare = dialect

def Fragment.bare (fragment : Fragment) : Fragment := { fragment with built := false }

namespace Registry

theorem get?_update (registry : Registry) (name wanted : String) (change : Dialect → Dialect) :
    get? wanted (registry.update name change).dialects =
      if wanted = name then (get? name registry.dialects).map change
      else get? wanted registry.dialects := by
  unfold update
  split
  next dialect found => rw [Index.get?_insert, found, Option.map_some]
  next found =>
    by_cases same : wanted = name
    · rw [if_pos same, same, found, Option.map_none]
    · rw [if_neg same]

@[simp] theorem fragments_update (registry : Registry) (name : String)
    (change : Dialect → Dialect) : (registry.update name change).fragments = registry.fragments := by
  unfold update
  split <;> rfl

@[simp] theorem settings_update (registry : Registry) (name : String)
    (change : Dialect → Dialect) : (registry.update name change).settings = registry.settings := by
  unfold update
  split <;> rfl

theorem get?_registerFragment (registry : Registry) (fragment : Fragment) (wanted : String) :
    get? wanted (registry.registerFragment fragment).fragments =
      if wanted = fragment.name then some fragment else get? wanted registry.fragments :=
  Index.get?_insert ..

theorem get?_registerDialect (registry : Registry) (dialect : Dialect) (wanted : String) :
    get? wanted (registry.registerDialect dialect).dialects =
      if wanted = dialect.name then some dialect else get? wanted registry.dialects :=
  Index.get?_insert ..

/-- What the fragment of a name provides, whether or not its provider has run. -/
def provided (registry : Registry) (name : String) : Except DefinitionFault RuleSet :=
  match registry.fragment name with
  | .error fault => .error fault
  | .ok fragment =>
      match fragment.provided with
      | some rules => .ok rules
      | none => .error (.emptyFragment name)

/-- The registries differ at most in which providers have run. -/
structure SameFragments (registry other : Registry) : Prop where
  bare : ∀ name, (get? name other.fragments).map Fragment.bare =
    (get? name registry.fragments).map Fragment.bare

variable {registry other : Registry}

theorem SameFragments.trans {third : Registry} (same : SameFragments registry other)
    (sameToo : SameFragments other third) : SameFragments registry third :=
  ⟨fun name => (sameToo.bare name).trans (same.bare name)⟩

theorem SameFragments.cases (same : SameFragments registry other) (name : String) :
    (get? name registry.fragments = none ∧ get? name other.fragments = none) ∨
      ∃ fragment twin, get? name registry.fragments = some fragment ∧
        get? name other.fragments = some twin ∧ twin.name = fragment.name ∧
        twin.provided = fragment.provided ∧ twin.types = fragment.types := by
  have here := same.bare name
  cases found : get? name registry.fragments with
  | none =>
      rw [found, Option.map_none, Option.map_eq_none_iff] at here
      exact .inl ⟨rfl, here⟩
  | some fragment =>
      rw [found, Option.map_some, Option.map_eq_some_iff] at here
      obtain ⟨twin, foundToo, alike⟩ := here
      simp only [Fragment.bare, Fragment.mk.injEq] at alike
      exact .inr ⟨fragment, twin, rfl, foundToo, alike.1, alike.2.1, alike.2.2.1⟩

theorem SameFragments.provided (same : SameFragments registry other) :
    other.provided = registry.provided := by
  funext name
  unfold Registry.provided fragment
  rcases same.cases name with
    ⟨absent, absentToo⟩ | ⟨fragment, twin, found, foundToo, -, provides, -⟩
  · rw [absent, absentToo]
  · rw [found, foundToo]
    simp only [provides]

theorem SameFragments.ownTypes (same : SameFragments registry other) (names : List String)
    (merged : NodeTypes) : other.ownTypes names merged = registry.ownTypes names merged := by
  induction names generalizing merged with
  | nil => rfl
  | cons name rest ih =>
      unfold Registry.ownTypes fragment
      rcases same.cases name with
        ⟨absent, absentToo⟩ | ⟨fragment, twin, found, foundToo, -, -, types⟩
      · rw [absent, absentToo]
      · rw [found, foundToo]
        simp only [types, ih]

def Filed (registry : Registry) : Prop :=
  ∀ name fragment, get? name registry.fragments = some fragment → fragment.name = name

theorem SameFragments.filed (same : SameFragments registry other) (filed : registry.Filed) :
    other.Filed := by
  intro name twin foundToo
  rcases same.cases name with ⟨-, absent⟩ | ⟨fragment, twinToo, found, here, names, -⟩
  · rw [absent] at foundToo
    cases foundToo
  · obtain rfl := Option.some.inj (here.symm.trans foundToo)
    exact names.trans (filed name fragment found)

/-- Running providers changes nothing but which of them have run. -/
structure Ran (registry after : Registry) : Prop where
  fragments : SameFragments registry after
  dialects : after.dialects = registry.dialects
  settings : after.settings = registry.settings

theorem Ran.refl (registry : Registry) : Ran registry registry := ⟨⟨fun _ => rfl⟩, rfl, rfl⟩

theorem Ran.trans {third : Registry} (ran : Ran registry other) (ranToo : Ran other third) :
    Ran registry third :=
  ⟨ran.fragments.trans ranToo.fragments, ranToo.dialects.trans ran.dialects,
    ranToo.settings.trans ran.settings⟩

theorem ran_build {fragment : Fragment}
    (found : get? fragment.name registry.fragments = some fragment) :
    Ran registry (registry.build fragment) := by
  have registered : Ran registry (registry.registerFragment { fragment with built := true }) := by
    refine ⟨⟨fun name => ?_⟩, rfl, rfl⟩
    rw [get?_registerFragment]
    split
    next same => rw [same, found]; rfl
    next => rfl
  unfold build
  split
  · exact Ran.refl registry
  · dsimp only
    split
    · exact ⟨⟨registered.fragments.bare⟩, rfl, rfl⟩
    · exact registered

theorem fragmentRules_spec (filed : registry.Filed) (name : String) :
    ∃ after, fragmentRules name registry = (registry.provided name, after) ∧ Ran registry after := by
  unfold fragmentRules provided fragment
  cases found : get? name registry.fragments with
  | none => exact ⟨registry, rfl, Ran.refl registry⟩
  | some fragment =>
      refine ⟨registry.build fragment, rfl, ran_build ?_⟩
      rw [filed name fragment found, found]

theorem allFragmentRules_spec (filed : registry.Filed) (names : List String) :
    ∃ after, allFragmentRules names registry = (names.mapM registry.provided, after) ∧
      Ran registry after := by
  induction names generalizing registry with
  | nil => exact ⟨registry, rfl, Ran.refl registry⟩
  | cons name rest ih =>
      obtain ⟨middle, first, ran⟩ := fragmentRules_spec filed name
      unfold allFragmentRules
      rw [first, List.mapM_cons]
      cases registry.provided name with
      | error fault => exact ⟨middle, rfl, ran⟩
      | ok rules =>
          obtain ⟨after, others, ranToo⟩ := ih (ran.fragments.filed filed)
          rw [ran.fragments.provided] at others
          simp only [others]
          refine ⟨after, ?_, ran.trans ranToo⟩
          cases rest.mapM registry.provided <;> rfl

end Registry

end Parlance
