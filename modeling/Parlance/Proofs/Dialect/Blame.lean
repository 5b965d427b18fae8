import Mathlib.Data.Nat.Find
import Parlance.Proofs.Dialect.Lineage

/-! Why the rules of a dialect cannot be composed, where nobody has asked about a dialect yet. The first
thing that is wrong on the way up decides: a dialect that is met again, or a name that nobody has. On
a way that ends it is the first fragment on the way down that gives no rules. Whatever came of it, no
dialect stays marked, and none whose rules could not be composed has kept any. -/

namespace Parlance.Registry

open Index (get?)
open Relation (ReflTransGen TransGen)

/-- No dialect is marked or has rules. -/
structure Unasked (registry : Registry) : Prop where
  filed : registry.Filed
  idle : ∀ name dialect, get? name registry.dialects = some dialect → dialect.composing = false
  lacking : ∀ name dialect, get? name registry.dialects = some dialect → dialect.rules = none

variable {registry : Registry} {name root : String} {waiting : List String}

theorem Unasked.settled (unasked : registry.Unasked) : registry.Settled where
  filed := unasked.filed
  idle := unasked.idle
  furnished name dialect rules found kept := by
    rw [unasked.lacking name dialect found] at kept
    cases kept

theorem unasked_after (settings : Settings) {steps : List Step}
    (registering : ∀ step ∈ steps, step.registers) : (after settings steps).Unasked where
  filed := (settled_after settings steps).filed
  idle := (settled_after settings steps).idle
  lacking _ dialect found := by
    have underived : dialect.bare = dialect := underived_registered registering found
    rw [← underived]
    rfl

def ancestor? (registry : Registry) (name : String) : Nat → Option String
  | 0 => some name
  | steps + 1 => (registry.ancestor? name steps).bind fun ancestor =>
      (get? ancestor registry.dialects).bind Dialect.parent

/-- A name that fewer steps lead to. -/
def MetBefore (registry : Registry) (name : String) (steps : Nat) (met : String) : Prop :=
  ∃ earlier < steps, registry.ancestor? name earlier = some met

/-- The way up comes to a name for the second time. -/
def Loops (registry : Registry) (name : String) : Prop :=
  ∃ steps met, registry.ancestor? name steps = some met ∧ registry.MetBefore name steps met

/-- The first name that the way up comes to for the second time. -/
def FirstMetTwice (registry : Registry) (name met : String) : Prop :=
  ∃ steps, registry.ancestor? name steps = some met ∧ registry.MetBefore name steps met ∧
    ∀ fewer < steps, ∀ other, registry.ancestor? name fewer = some other →
      ¬ registry.MetBefore name fewer other

/-- The first name on the way up that is not registered. -/
def FirstUnregistered (registry : Registry) (name unknown : String) : Prop :=
  ∃ steps, registry.ancestor? name steps = some unknown ∧
    get? unknown registry.dialects = none ∧
    ∀ fewer < steps, ∀ other, registry.ancestor? name fewer = some other →
      ∃ dialect, get? other registry.dialects = some dialect

/-- A fragment is there and its provider gives rules. -/
def Provides (registry : Registry) (fragment : String) : Prop :=
  ∃ held rules, get? fragment registry.fragments = some held ∧ held.provided = some rules

/-- The first of several fragments that gives no rules. -/
def FirstOffending (registry : Registry) (fragments : List String) (fragment : String) : Prop :=
  ∃ before rest, fragments = before ++ fragment :: rest ∧
    (∀ earlier ∈ before, registry.Provides earlier) ∧ ¬ registry.Provides fragment

/-- The first thing that is wrong, going up to the oldest ancestor and from there down again. -/
inductive FirstFault (registry : Registry) (name : String) : DefinitionFault → Prop where
  | cyclic {met} (first : registry.FirstMetTwice name met) :
      FirstFault registry name (.cyclicDialect met)
  | unregistered {unknown} (straight : ¬ registry.Loops name)
      (first : registry.FirstUnregistered name unknown) :
      FirstFault registry name (.unknownDialect unknown)
  | absent {line fragment} (lineage : Lineage registry name line)
      (first : registry.FirstOffending (line.flatMap Dialect.fragments) fragment)
      (missing : get? fragment registry.fragments = none) :
      FirstFault registry name (.unknownFragment fragment)
  | barren {line fragment held} (lineage : Lineage registry name line)
      (first : registry.FirstOffending (line.flatMap Dialect.fragments) fragment)
      (found : get? fragment registry.fragments = some held) :
      FirstFault registry name (.emptyFragment fragment)

theorem loops_iff : registry.Loops name ↔ ∃ met, registry.FirstMetTwice name met := by
  constructor
  · rintro loops
    classical
    obtain ⟨met, here, before⟩ := Nat.find_spec loops
    refine ⟨met, Nat.find loops, here, before, fun fewer less other there again => ?_⟩
    exact Nat.find_min loops less ⟨other, there, again⟩
  · rintro ⟨met, steps, here, before, -⟩
    exact ⟨steps, met, here, before⟩

/-- At most one name is the first on the way up at which something is the case. -/
theorem first_unique {Here : Nat → String → Prop} {steps stepsToo : Nat} {one two : String}
    (leads : registry.ancestor? name steps = some one) (here : Here steps one)
    (before : ∀ fewer < steps, ∀ other, registry.ancestor? name fewer = some other →
      ¬ Here fewer other)
    (leadsToo : registry.ancestor? name stepsToo = some two) (hereToo : Here stepsToo two)
    (beforeToo : ∀ fewer < stepsToo, ∀ other, registry.ancestor? name fewer = some other →
      ¬ Here fewer other) : one = two := by
  rcases Nat.lt_trichotomy steps stepsToo with less | rfl | less
  · exact absurd here (beforeToo steps less one leads)
  · exact Option.some.inj (leads.symm.trans leadsToo)
  · exact absurd hereToo (before stepsToo less two leadsToo)

theorem FirstMetTwice.unique {met other : String} (first : registry.FirstMetTwice name met)
    (firstToo : registry.FirstMetTwice name other) : met = other := by
  obtain ⟨steps, leads, again, fresh⟩ := first
  obtain ⟨stepsToo, leadsToo, againToo, freshToo⟩ := firstToo
  exact first_unique leads again fresh leadsToo againToo freshToo

theorem FirstUnregistered.unique {unknown other : String}
    (first : registry.FirstUnregistered name unknown)
    (firstToo : registry.FirstUnregistered name other) : unknown = other := by
  obtain ⟨steps, leads, absent, registered⟩ := first
  obtain ⟨stepsToo, leadsToo, absentToo, registeredToo⟩ := firstToo
  have present {met : String} (found : ∃ dialect, get? met registry.dialects = some dialect) :
      get? met registry.dialects ≠ none := Option.ne_none_iff_exists'.mpr found
  exact @first_unique registry name (fun _ met => get? met registry.dialects = none) _ _ _ _
    leads absent (fun fewer less met there => present (registered fewer less met there))
    leadsToo absentToo fun fewer less met there => present (registeredToo fewer less met there)

theorem FirstOffending.unique {fragments : List String} {fragment other : String}
    (first : registry.FirstOffending fragments fragment)
    (firstToo : registry.FirstOffending fragments other) : fragment = other := by
  obtain ⟨before, rest, rfl, provide, offends⟩ := first
  obtain ⟨beforeToo, restToo, same, provideToo, offendsToo⟩ := firstToo
  rcases List.append_eq_append_iff.mp same with ⟨more, rfl, tail⟩ | ⟨more, rfl, tail⟩
  · cases more with
    | nil => exact (List.cons.inj tail).1
    | cons first more =>
        obtain ⟨rfl, -⟩ := List.cons.inj tail
        exact absurd (provideToo fragment (by simp)) offends
  · cases more with
    | nil => exact (List.cons.inj tail).1.symm
    | cons first more =>
        obtain ⟨rfl, -⟩ := List.cons.inj tail
        exact absurd (provide other (by simp)) offendsToo

theorem Unasked.needsRules_iff (unasked : registry.Unasked) {parent : String} :
    registry.NeedsRules name parent ↔
      (get? name registry.dialects).bind Dialect.parent = some parent := by
  rw [Option.bind_eq_some_iff]
  constructor
  · rintro ⟨dialect, found, -, inherits⟩
    exact ⟨dialect, found, inherits⟩
  · rintro ⟨dialect, found, inherits⟩
    exact ⟨dialect, found, unasked.lacking name dialect found, inherits⟩

theorem Unasked.needs_ancestor (unasked : registry.Unasked) {fewer more : Nat} {one two : String}
    (here : registry.ancestor? name fewer = some one)
    (there : registry.ancestor? name (fewer + more) = some two) :
    ReflTransGen registry.NeedsRules one two := by
  induction more generalizing two with
  | zero =>
      obtain rfl := Option.some.inj (here.symm.trans there)
      exact .refl
  | succ more ih =>
      obtain ⟨between, met, inherits⟩ := Option.bind_eq_some_iff.mp there
      exact (ih met).tail (unasked.needsRules_iff.mpr inherits)

theorem Unasked.goesRound (unasked : registry.Unasked) (loops : registry.Loops name) :
    GoesRound registry.NeedsRules name := by
  obtain ⟨steps, met, here, earlier, less, before⟩ := loops
  obtain ⟨more, rfl⟩ := Nat.exists_eq_add_of_lt less
  obtain ⟨between, last, inherits⟩ := Option.bind_eq_some_iff.mp here
  have circle := TransGen.tail' (unasked.needs_ancestor before last)
    (unasked.needsRules_iff.mpr inherits)
  exact ⟨met, unasked.needs_ancestor rfl (by rwa [Nat.zero_add]), circle⟩

theorem Lineage.registered {line : List Dialect} (lineage : Lineage registry name line)
    {other : String} (leads : ReflTransGen registry.NeedsRules name other) :
    ∃ dialect, get? other registry.dialects = some dialect := by
  induction lineage with
  | oldest found parentless =>
      rcases leads.cases_head with rfl | ⟨_, needs, -⟩
      · exact ⟨_, found⟩
      · cases parentless.symm.trans (needs.inherits found).2
  | child found inherits _ ih =>
      rcases leads.cases_head with rfl | ⟨_, needs, rest⟩
      · exact ⟨_, found⟩
      · obtain rfl := Option.some.inj (inherits.symm.trans (needs.inherits found).2)
        exact ih rest

theorem Lineage.not_goesRound {line : List Dialect} (lineage : Lineage registry name line) :
    ¬ GoesRound registry.NeedsRules name := by
  intro round
  induction lineage with
  | oldest found parentless =>
      obtain ⟨_, needs, -⟩ := round.exists_next
      cases parentless.symm.trans (needs.inherits found).2
  | child found inherits _ ih =>
      obtain ⟨_, needs, roundToo⟩ := round.exists_next
      obtain rfl := Option.some.inj (inherits.symm.trans (needs.inherits found).2)
      exact ih roundToo

theorem Lineage.not_unregistered (unasked : registry.Unasked) {line : List Dialect}
    (lineage : Lineage registry name line) {unknown : String} :
    ¬ registry.FirstUnregistered name unknown := by
  rintro ⟨steps, here, absent, -⟩
  have start : registry.ancestor? name 0 = some name := rfl
  obtain ⟨dialect, found⟩ := lineage.registered
    (unasked.needs_ancestor start ((Nat.zero_add steps).symm ▸ here))
  cases absent.symm.trans found

theorem provides_iff {fragment : String} :
    registry.Provides fragment ↔ ∃ rules, registry.provided fragment = .ok rules := by
  unfold Provides provided Registry.fragment
  cases found : get? fragment registry.fragments with
  | none => simp
  | some held => cases provides : held.provided <;> simp [provides]

theorem firstOffending_of_error {fragments : List String} {fault : DefinitionFault}
    (fails : fragments.mapM registry.provided = .error fault) :
    ∃ fragment, registry.FirstOffending fragments fragment ∧
      registry.provided fragment = .error fault := by
  obtain ⟨before, fragment, rest, rfl, succeed, there⟩ := mapM_eq_error fails
  refine ⟨fragment, ⟨before, rest, rfl, fun earlier member => ?_, fun provides => ?_⟩, there⟩
  · exact provides_iff.mpr (succeed earlier member)
  · obtain ⟨rules, given⟩ := provides_iff.mp provides
    cases there.symm.trans given

theorem provides_of_along {line : List Dialect} {members : List RuleSet}
    (along : registry.providedAlong line = .ok members) :
    ∀ fragment ∈ line.flatMap Dialect.fragments, registry.Provides fragment :=
  fun _ member => provides_iff.mpr (mapM_eq_ok along member)

theorem FirstOffending.concat {line : List Dialect} {dialect : Dialect} {fragment : String}
    (above : ∀ earlier ∈ line.flatMap Dialect.fragments, registry.Provides earlier)
    (first : registry.FirstOffending dialect.fragments fragment) :
    registry.FirstOffending ((line ++ [dialect]).flatMap Dialect.fragments) fragment := by
  obtain ⟨before, rest, same, provide, offends⟩ := first
  refine ⟨line.flatMap Dialect.fragments ++ before, rest, ?_, ?_, offends⟩
  · rw [List.flatMap_append, List.flatMap_singleton, same, List.append_assoc]
  · exact List.forall_mem_append.mpr ⟨above, provide⟩

theorem FirstOffending.extend {line : List Dialect} {dialect : Dialect} {fragment : String}
    (first : registry.FirstOffending (line.flatMap Dialect.fragments) fragment) :
    registry.FirstOffending ((line ++ [dialect]).flatMap Dialect.fragments) fragment := by
  obtain ⟨before, rest, same, provide, offends⟩ := first
  refine ⟨before, rest ++ dialect.fragments, ?_, provide, offends⟩
  rw [List.flatMap_append, List.flatMap_singleton, same, List.append_assoc, List.cons_append]

/-- The dialects that wait are those met on the way from the root to here, each of them once. -/
structure Climbs (registry : Registry) (root : String) (waiting : List String) (name : String) :
    Prop where
  here : registry.ancestor? root waiting.length = some name
  behind : ∀ other, other ∈ waiting ↔ registry.MetBefore root waiting.length other
  fresh : ∀ fewer < waiting.length, ∀ other, registry.ancestor? root fewer = some other →
    ¬ registry.MetBefore root fewer other
  registered : ∀ fewer < waiting.length, ∀ other, registry.ancestor? root fewer = some other →
    ∃ dialect, get? other registry.dialects = some dialect

theorem metBefore_succ {steps : Nat} (here : registry.ancestor? root steps = some name)
    (other : String) : registry.MetBefore root (steps + 1) other ↔
      other = name ∨ registry.MetBefore root steps other := by
  constructor
  · rintro ⟨earlier, less, there⟩
    rcases Nat.lt_succ_iff_lt_or_eq.mp less with less | rfl
    · exact .inr ⟨earlier, less, there⟩
    · exact .inl (Option.some.inj (there.symm.trans here))
  · rintro (rfl | ⟨earlier, less, there⟩)
    · exact ⟨steps, Nat.lt_succ_self steps, here⟩
    · exact ⟨earlier, Nat.lt_succ_of_lt less, there⟩

theorem climbs_root (registry : Registry) (root : String) : Climbs registry root [] root where
  here := rfl
  behind _ := ⟨nofun, fun ⟨_, less, _⟩ => absurd less (Nat.not_lt_zero _)⟩
  fresh _ less := absurd less (Nat.not_lt_zero _)
  registered _ less := absurd less (Nat.not_lt_zero _)

theorem Climbs.parent (climbs : Climbs registry root waiting name) (free : name ∉ waiting)
    {dialect : Dialect} (found : get? name registry.dialects = some dialect) {parent : String}
    (inherits : dialect.parent = some parent) : Climbs registry root (name :: waiting) parent where
  here := by
    simp only [List.length_cons, ancestor?, climbs.here, Option.bind_some, found, inherits]
  behind other := by
    rw [List.mem_cons, List.length_cons, metBefore_succ climbs.here, climbs.behind]
  fresh fewer less other there := by
    rcases Nat.lt_succ_iff_lt_or_eq.mp less with less | rfl
    · exact climbs.fresh fewer less other there
    · obtain rfl := Option.some.inj (there.symm.trans climbs.here)
      exact mt (climbs.behind other).mpr free
  registered fewer less other there := by
    rcases Nat.lt_succ_iff_lt_or_eq.mp less with less | rfl
    · exact climbs.registered fewer less other there
    · obtain rfl := Option.some.inj (there.symm.trans climbs.here)
      exact ⟨dialect, found⟩

/-- A fault found while others wait is that of the way from the root, or of a fragment above. -/
inductive Blamed (registry : Registry) (root name : String) : DefinitionFault → Prop where
  | cyclic {met} (first : registry.FirstMetTwice root met) :
      Blamed registry root name (.cyclicDialect met)
  | unregistered {unknown} (first : registry.FirstUnregistered root unknown) :
      Blamed registry root name (.unknownDialect unknown)
  | fragment {line fragment fault} (lineage : Lineage registry name line)
      (first : registry.FirstOffending (line.flatMap Dialect.fragments) fragment)
      (fails : registry.provided fragment = .error fault) : Blamed registry root name fault

theorem Blamed.child {parent : String} {dialect : Dialect} {fault : DefinitionFault}
    (found : get? name registry.dialects = some dialect) (inherits : dialect.parent = some parent)
    (blamed : Blamed registry root parent fault) : Blamed registry root name fault := by
  cases blamed with
  | cyclic first => exact .cyclic first
  | unregistered first => exact .unregistered first
  | fragment lineage first fails => exact .fragment (.child found inherits lineage) first.extend fails

theorem Unasked.blamed (unasked : registry.Unasked) {fault : DefinitionFault}
    (composes : Composes registry waiting name (.error fault))
    (climbs : Climbs registry root waiting name) : Blamed registry root name fault := by
  generalize same : Except.error fault = result at composes
  -- Going up a step, the root stays, and the dialect left behind is one more that waits.
  induction composes generalizing fault with
  | unknown absent =>
      obtain rfl := Except.error.inj same
      exact .unregistered ⟨_, climbs.here, absent, climbs.registered⟩
  | kept => cases same
  | cyclic _ _ waits =>
      obtain rfl := Except.error.inj same
      exact .cyclic ⟨_, climbs.here, (climbs.behind _).mp waits, climbs.fresh⟩
  | @orphan _ _ dialect found lacks free parentless =>
      rcases composed_failed same.symm with above | ⟨_, -, fails⟩
      · cases above
      · obtain ⟨fragment, first, fails⟩ := firstOffending_of_error fails
        have whole : registry.FirstOffending (([] ++ [dialect]).flatMap Dialect.fragments) fragment :=
          .concat nofun first
        exact .fragment (.oldest found parentless) whole fails
  | child found lacks free inherits base ih =>
      rcases composed_failed same.symm with above | ⟨_, rfl, fails⟩
      · exact (ih (climbs.parent free found inherits) above.symm).child found inherits
      · obtain ⟨fragment, first, fails⟩ := firstOffending_of_error fails
        obtain ⟨line, members, lineage, along, -⟩ :=
          base.lineage (.refl unasked.settled) unasked.lacking
        exact .fragment (.child found inherits lineage) (first.concat (provides_of_along along)) fails

theorem Lineage.straight (unasked : registry.Unasked) {line : List Dialect}
    (lineage : Lineage registry name line) : ¬ registry.Loops name :=
  fun loops => lineage.not_goesRound (unasked.goesRound loops)

theorem FirstFault.offending (unasked : registry.Unasked) {fault : DefinitionFault}
    (first : FirstFault registry name fault) {line : List Dialect}
    (lineage : Lineage registry name line) :
    ∃ fragment, registry.FirstOffending (line.flatMap Dialect.fragments) fragment ∧
      registry.provided fragment = .error fault := by
  cases first with
  | cyclic met => exact absurd (loops_iff.mpr ⟨_, met⟩) (lineage.straight unasked)
  | unregistered _ unknown => exact absurd unknown (lineage.not_unregistered unasked)
  | @absent _ fragment lineageToo offends missing =>
      obtain rfl := lineage.unique lineageToo
      exact ⟨fragment, offends, provided_eq_error_iff.mpr (.inl ⟨missing, rfl⟩)⟩
  | @barren _ fragment held lineageToo offends found =>
      obtain rfl := lineage.unique lineageToo
      refine ⟨fragment, offends, provided_eq_error_iff.mpr (.inr ⟨held, found, ?_, rfl⟩)⟩
      cases provides : held.provided with
      | none => rfl
      | some rules =>
          obtain ⟨_, _, _, _, gives⟩ := offends
          exact absurd ⟨held, rules, found, provides⟩ gives

theorem FirstFault.unique (unasked : registry.Unasked) {fault other : DefinitionFault}
    (first : FirstFault registry name fault) (firstToo : FirstFault registry name other) :
    fault = other := by
  by_cases ends : ∃ line, Lineage registry name line
  · obtain ⟨line, lineage⟩ := ends
    obtain ⟨fragment, offends, fails⟩ := first.offending unasked lineage
    obtain ⟨fragmentToo, offendsToo, failsToo⟩ := firstToo.offending unasked lineage
    obtain rfl := offends.unique offendsToo
    exact Except.error.inj (fails.symm.trans failsToo)
  · cases first with
    | absent lineage | barren lineage => exact absurd ⟨_, lineage⟩ ends
    | cyclic met =>
        cases firstToo with
        | absent lineage | barren lineage => exact absurd ⟨_, lineage⟩ ends
        | cyclic metToo => rw [met.unique metToo]
        | unregistered straight => exact absurd (loops_iff.mpr ⟨_, met⟩) straight
    | unregistered straight unknown =>
        cases firstToo with
        | absent lineage | barren lineage => exact absurd ⟨_, lineage⟩ ends
        | cyclic met => exact absurd (loops_iff.mpr ⟨_, met⟩) straight
        | unregistered _ unknownToo => rw [unknown.unique unknownToo]

namespace Unasked

variable (unasked : registry.Unasked)

include unasked

theorem firstFault {fault : DefinitionFault} (fails : (rules name registry).1 = .error fault) :
    FirstFault registry name fault := by
  have composes := composes_rules unasked.settled name
  rw [fails] at composes
  cases unasked.blamed composes (climbs_root registry name) with
  | cyclic first => exact .cyclic first
  | unregistered first =>
      refine .unregistered (fun loops => ?_) first
      obtain ⟨met, same⟩ := composes.of_goesRound (unasked.goesRound loops)
      cases same
  | fragment lineage first fails =>
      rcases provided_eq_error_iff.mp fails with ⟨missing, rfl⟩ | ⟨held, found, -, rfl⟩
      · exact .absent lineage first missing
      · exact .barren lineage first found

theorem not_firstFault {line : List Dialect} (lineage : Lineage registry name line)
    (provide : ∀ fragment ∈ line.flatMap Dialect.fragments, registry.Provides fragment)
    {fault : DefinitionFault} : ¬ FirstFault registry name fault := by
  intro first
  obtain ⟨fragment, ⟨before, rest, same, -, offends⟩, -⟩ := first.offending unasked lineage
  exact offends (provide fragment (by simp [same]))

theorem line_of_rules {composed : RuleSet} (answered : (rules name registry).1 = .ok composed) :
    ∃ line, Lineage registry name line ∧
      ∀ fragment ∈ line.flatMap Dialect.fragments, registry.Provides fragment := by
  have composes := composes_rules unasked.settled name
  rw [answered] at composes
  obtain ⟨line, members, lineage, along, -⟩ :=
    composes.lineage (.refl unasked.settled) unasked.lacking
  exact ⟨line, lineage, provides_of_along along⟩

theorem rules_ok_iff : (∃ composed, (rules name registry).1 = .ok composed) ↔
    ∃ line, Lineage registry name line ∧
      ∀ fragment ∈ line.flatMap Dialect.fragments, registry.Provides fragment := by
  refine ⟨fun ⟨_, answered⟩ => unasked.line_of_rules answered, fun ⟨line, lineage, provide⟩ => ?_⟩
  cases answered : (rules name registry).1 with
  | ok composed => exact ⟨composed, rfl⟩
  | error fault => exact absurd (unasked.firstFault answered) (unasked.not_firstFault lineage provide)

theorem rules_error_iff {fault : DefinitionFault} :
    (rules name registry).1 = .error fault ↔ FirstFault registry name fault := by
  refine ⟨unasked.firstFault, fun first => ?_⟩
  cases answered : (rules name registry).1 with
  | error other => rw [(unasked.firstFault answered).unique unasked first]
  | ok composed =>
      obtain ⟨line, lineage, provide⟩ := unasked.line_of_rules answered
      exact absurd first (unasked.not_firstFault lineage provide)

theorem cyclic_iff_loops :
    (∃ met, (rules name registry).1 = .error (.cyclicDialect met)) ↔ registry.Loops name := by
  rw [loops_iff]
  refine exists_congr fun met => unasked.rules_error_iff.trans ⟨fun first => ?_, .cyclic⟩
  cases first
  assumption

end Unasked

/-- Where nobody has asked yet, composing always ends, and fails for the first thing that is wrong: a
cycle exactly where the way up loops. It leaves no dialect marked and keeps rules of none that has no
rules, so whoever asks next is answered as if nobody had asked before. -/
theorem composing_blames_first (unasked : registry.Unasked) (name : String) :
    let answer := (rules name registry).1
    let after := (rules name registry).2
    answer ≠ .error .unending ∧
    (∀ fault, answer = .error fault ↔ FirstFault registry name fault) ∧
    ((∃ met, answer = .error (.cyclicDialect met)) ↔ registry.Loops name) ∧
    ((∃ composed, answer = .ok composed) ↔ ∃ line, Lineage registry name line ∧
      ∀ fragment ∈ line.flatMap Dialect.fragments, registry.Provides fragment) ∧
    (∀ other dialect, get? other after.dialects = some dialect → dialect.composing = false) ∧
    (∀ other fault dialect, (rules other registry).1 = .error fault →
      get? other after.dialects = some dialect → dialect.rules = none) ∧
    ∀ other, (rules other after).1 = (rules other registry).1 := by
  intro answer after
  have settled := unasked.settled
  have derives : Derives registry [] after := (answers_rules settled name).leaves (.refl settled)
  refine ⟨rules_ends settled name, fun _ => unasked.rules_error_iff, unasked.cyclic_iff_loops,
    unasked.rules_ok_iff, (derives.settled settled).idle, fun other fault now fails found => ?_,
    fun other => (answers_rules settled other).fst_eq derives⟩
  obtain ⟨-, absent⟩ | ⟨dialect, grown, here, foundToo, grows⟩ := derives.cases other
  · cases found.symm.trans absent
  · obtain rfl := Option.some.inj (foundToo.symm.trans found)
    cases kept : grown.rules with
    | none => rfl
    | some rules =>
        have right : Composes registry [] other (.ok rules) :=
          (kept ▸ grows.rules).right fun known => .kept here known
        have composes := composes_rules settled other
        rw [fails] at composes
        cases composes.unique right

/-- A tail that leads into a circle, beside a dialect whose parent nobody has. -/
def circleWithTail : List Step := [
  .dialect (.define "tail" (some "ping") ["missing"]) (underived_define ..),
  .dialect (.define "ping" (some "pong") []) (underived_define ..),
  .dialect (.define "pong" (some "ping") []) (underived_define ..),
  .dialect (.define "orphan" (some "nobody") ["missing"]) (underived_define ..)]

theorem composing_blames_first_circleWithTail :
    let registry := after .defaults circleWithTail
    registry.Unasked ∧ registry.FirstMetTwice "tail" "ping" ∧
      registry.FirstUnregistered "orphan" "nobody" ∧
      ((rules "orphan" (rules "tail" registry).2).1 = .error (.unknownDialect "nobody")) := by
  intro registry
  have unasked : registry.Unasked := unasked_after .defaults (by decide)
  have met := (composing_blames_first unasked "tail").2.1 (.cyclicDialect "ping")
  have unknown := (composing_blames_first unasked "orphan").2.1 (.unknownDialect "nobody")
  have again := (composing_blames_first unasked "tail").2.2.2.2.2.2 "orphan"
  refine ⟨unasked, ?_, ?_, again.trans rfl⟩
  · cases met.mp rfl
    assumption
  · cases unknown.mp rfl
    assumption

end Parlance.Registry
