import Mathlib.Data.List.Induction
import Parlance.Proofs.Dialect.History

/-! What is kept changes no answer, as long as no name is registered twice. Names that are new take
nothing away from what a registry has answered, so what earlier queries have kept is what a registry
without them would answer. -/

namespace Parlance.Registry

open Index (get?)

/-- All that is registered stays as it is, and more may be. -/
structure Extends (registry other : Registry) : Prop where
  settings : other.settings = registry.settings
  fragments : ∀ name fragment, get? name registry.fragments = some fragment →
    get? name other.fragments = some fragment
  dialects : ∀ name dialect, get? name registry.dialects = some dialect →
    get? name other.dialects = some dialect

theorem extends_registerFragment {registry : Registry} {fragment : Fragment}
    (fresh : get? fragment.name registry.fragments = none) :
    Extends registry (registry.registerFragment fragment) where
  settings := rfl
  fragments name held found := by
    have differs : name ≠ fragment.name := by
      rintro rfl
      rw [fresh] at found
      cases found
    rw [get?_registerFragment, if_neg differs, found]
  dialects _ _ found := found

theorem extends_registerDialect {registry : Registry} {dialect : Dialect}
    (fresh : get? dialect.name registry.dialects = none) :
    Extends registry (registry.registerDialect dialect) where
  settings := rfl
  fragments _ _ found := found
  dialects name held found := by
    have differs : name ≠ dialect.name := by
      rintro rfl
      rw [fresh] at found
      cases found
    rw [get?_registerDialect, if_neg differs, found]

namespace Extends

variable {registry other : Registry} (larger : Extends registry other)

include larger

theorem provided {name : String} {rules : RuleSet} (provides : registry.provided name = .ok rules) :
    other.provided name = .ok rules := by
  obtain ⟨fragment, found⟩ := registered_of_provided provides
  have foundToo := larger.fragments name fragment found
  simp only [Registry.provided, Registry.fragment, found] at provides
  simpa only [Registry.provided, Registry.fragment, foundToo] using provides

theorem mapM_provided {names : List String} {members : List RuleSet}
    (provides : names.mapM registry.provided = .ok members) :
    names.mapM other.provided = .ok members := by
  induction names generalizing members with
  | nil => exact provides
  | cons name rest ih =>
      rw [List.mapM_cons] at provides ⊢
      cases first : registry.provided name with
      | error fault => rw [first] at provides; cases provides
      | ok rules =>
          rw [first] at provides
          rw [larger.provided first]
          cases others : rest.mapM registry.provided with
          | error fault => rw [others] at provides; cases provides
          | ok rest => rw [others] at provides; rw [ih others]; exact provides

theorem ownTypes {names : List String} {merged own : NodeTypes}
    (owns : registry.ownTypes names merged = .ok own) : other.ownTypes names merged = .ok own := by
  induction names generalizing merged with
  | nil => exact owns
  | cons name rest ih =>
      simp only [Registry.ownTypes, Registry.fragment] at owns ⊢
      cases found : get? name registry.fragments with
      | none => rw [found] at owns; cases owns
      | some fragment =>
          rw [found] at owns
          rw [larger.fragments name fragment found]
          exact ih owns

theorem composed {dialect : Dialect} {base : RuleSet} {rules : RuleSet}
    (composes : registry.composed dialect (.ok base) = .ok rules) :
    other.composed dialect (.ok base) = .ok rules := by
  obtain ⟨inherited, members, same, provides, rfl⟩ := composed_eq_ok composes
  obtain rfl := Except.ok.inj same
  simp only [Registry.composed, larger.mapM_provided provides]
  rfl

theorem composes {waiting : List String} {name : String} {rules : RuleSet}
    (composes : Composes registry waiting name (.ok rules)) :
    Composes other waiting name (.ok rules) := by
  generalize same : Except.ok rules = result at composes
  induction composes generalizing rules with
  | unknown | cyclic => cases same
  | kept found kept =>
      obtain rfl := Except.ok.inj same
      exact .kept (larger.dialects _ _ found) kept
  | orphan found lacks free parentless =>
      rw [← same, ← larger.composed same.symm]
      exact .orphan (larger.dialects _ _ found) lacks free parentless
  | child found lacks free inherits _ ih =>
      obtain ⟨base, -, rfl, -⟩ := composed_eq_ok same.symm
      rw [← same, ← larger.composed same.symm]
      exact .child (larger.dialects _ _ found) lacks free inherits (ih rfl)

theorem typesOver (dialect : Dialect) (own : NodeTypes) (inherited : Option NodeTypes) :
    other.typesOver dialect own inherited = registry.typesOver dialect own inherited := by
  unfold Registry.typesOver
  rw [larger.settings]

theorem typed {name : String} {types : NodeTypes} (typed : Typed registry name (.ok types)) :
    Typed other name (.ok types) := by
  generalize same : Except.ok types = result at typed
  induction typed generalizing types with
  | unknown | ruleless => cases same
  | kept found kept =>
      obtain rfl := Except.ok.inj same
      exact .kept (larger.dialects _ _ found) kept
  | orphan found lacks composes owns parentless =>
      rw [← larger.typesOver]
      exact .orphan (larger.dialects _ _ found) lacks (larger.composes composes)
        (larger.ownTypes owns) parentless
  | @child _ _ _ _ _ result found lacks composes owns inherits _ ih =>
      cases result with
      | error fault => cases same
      | ok base =>
          rw [← funext fun types => larger.typesOver _ _ (some types)]
          exact .child (larger.dialects _ _ found) lacks (larger.composes composes)
            (larger.ownTypes owns) inherits (ih rfl)

theorem query {α β : Type} (derivation : Derivation α β) {name : String}
    (first : ∀ value, (derivation.first name registry).1 = .ok value →
      (derivation.first name other).1 = .ok value) {value : α}
    (answered : (derivation.query name registry).1 = .ok value) :
    (derivation.query name other).1 = .ok value := by
  cases found : get? name registry.dialects with
  | none =>
      rw [derivation.query_unknown found] at answered
      cases answered
  | some dialect =>
      have foundToo := larger.dialects name dialect found
      cases kept : derivation.slot dialect with
      | some known =>
          rw [derivation.query_kept found kept] at answered
          rw [derivation.query_kept foundToo kept]
          exact answered
      | none =>
          rw [derivation.query_lacking found kept, keeping_fst] at answered
          rw [derivation.query_lacking foundToo kept, keeping_fst]
          cases ran : (derivation.first name registry).1 with
          | error fault => rw [ran] at answered; cases answered
          | ok base => rw [ran] at answered; rw [first base ran]; exact answered

variable (settled : registry.Settled) (settledToo : other.Settled)

include settled settledToo

theorem rules {name : String} {rules : RuleSet} (answered : (registry.rules name).1 = .ok rules) :
    (other.rules name).1 = .ok rules := by
  have composes := composes_rules settled name
  rw [answered] at composes
  exact (composes_rules settledToo name).unique (larger.composes composes)

theorem grammar {name : String} {grammar : Grammar}
    (answered : (registry.grammar name).1 = .ok grammar) :
    (other.grammar name).1 = .ok grammar := by
  rw [grammar_eq] at answered ⊢
  exact larger.query grammarDerivation (fun _ => larger.rules settled settledToo) answered

theorem lexicon {name : String} {lexicon : Lexicon}
    (answered : (registry.lexicon name).1 = .ok lexicon) :
    (other.lexicon name).1 = .ok lexicon := by
  rw [lexicon_eq] at answered ⊢
  exact larger.query lexiconDerivation (fun _ => larger.grammar settled settledToo) answered

theorem grows {waiting : List String} {name : String} {dialect now : Dialect}
    (grows : Grows registry waiting name dialect now) : Grows other waiting name dialect now where
  bare := grows.bare
  composing := grows.composing
  rules := grows.rules.mono fun _ => larger.composes
  grammar := grows.grammar.mono fun _ => larger.grammar settled settledToo
  types := grows.types.mono fun _ => larger.typed
  lexicon := grows.lexicon.mono fun _ => larger.lexicon settled settledToo

end Extends

theorem rel_mono {α β : Type} {related other : α → β → Prop}
    (included : ∀ one two, related one two → other one two) {one : Option α} {two : Option β}
    (rel : Option.Rel related one two) : Option.Rel other one two := by
  cases rel with
  | none => exact .none
  | some here => exact .some (included _ _ here)

section Registering

variable {source registry : Registry} (settled : source.Settled) (derives : Derives source [] registry)

include settled derives

theorem Derives.registerFragment {fragment : Fragment}
    (fresh : get? fragment.name source.fragments = none) :
    Derives (source.registerFragment fragment) [] (registry.registerFragment fragment) where
  settings := derives.settings
  fragments := ⟨fun name => by
    rw [get?_registerFragment, get?_registerFragment]
    split
    · rfl
    · exact derives.fragments.bare name⟩
  dialects name := rel_mono (fun _ _ grows =>
    (extends_registerFragment fresh).grows settled (settled.registerFragment fragment) grows)
    (derives.dialects name)

theorem Derives.registerDialect {dialect : Dialect} (underived : dialect.Underived)
    (fresh : get? dialect.name source.dialects = none) :
    Derives (source.registerDialect dialect) [] (registry.registerDialect dialect) where
  settings := derives.settings
  fragments := ⟨derives.fragments.bare⟩
  dialects name := by
    rw [get?_registerDialect, get?_registerDialect]
    split
    next =>
      have idle : dialect.composing = false := by
        rw [← underived]
        rfl
      refine .some ⟨rfl, ?_, .same, .same, .same, .same⟩
      simp [idle]
    next =>
      exact rel_mono (fun _ _ grows =>
        (extends_registerDialect fresh).grows settled (settled.registerDialect underived) grows)
        (derives.dialects name)

end Registering

def Step.registers : Step → Bool
  | .fragment _ | .dialect .. => true
  | .query .. => false

def Step.fragmentName? : Step → Option String
  | .fragment added => some added.name
  | _ => none

def Step.dialectName? : Step → Option String
  | .dialect added _ => some added.name
  | _ => none

/-- No name of a fragment or of a dialect is registered twice. -/
structure Additive (steps : List Step) : Prop where
  fragments : (steps.filterMap Step.fragmentName?).Nodup
  dialects : (steps.filterMap Step.dialectName?).Nodup

/-- No name is registered again once a dialect has been asked about. -/
inductive Orderly : List Step → Prop where
  | unasked {steps} (registering : ∀ step ∈ steps, step.registers) : Orderly steps
  | asked {steps} (orderly : Orderly steps) (query : Query) (name : String) :
      Orderly (steps ++ [.query query name])
  | fragment {steps} (orderly : Orderly steps) {added : Fragment}
      (new : added.name ∉ steps.filterMap Step.fragmentName?) :
      Orderly (steps ++ [.fragment added])
  | dialect {steps} (orderly : Orderly steps) {added : Dialect} (underived : added.Underived)
      (new : added.name ∉ steps.filterMap Step.dialectName?) :
      Orderly (steps ++ [.dialect added underived])

theorem Additive.orderly {steps : List Step} (additive : Additive steps) : Orderly steps := by
  induction steps using List.reverseRecOn with
  | nil => exact .unasked nofun
  | append_singleton steps step ih =>
      obtain ⟨fragments, dialects⟩ := additive
      rw [List.filterMap_append] at fragments dialects
      have orderly := ih ⟨(List.nodup_append.mp fragments).1, (List.nodup_append.mp dialects).1⟩
      cases step with
      | query asked about => exact orderly.asked asked about
      | fragment added =>
          refine orderly.fragment fun before => ?_
          have distinct := (List.nodup_append.mp fragments).2.2 _ before added.name
          exact absurd rfl (distinct (by simp [Step.fragmentName?]))
      | dialect added underived =>
          refine orderly.dialect underived fun before => ?_
          have distinct := (List.nodup_append.mp dialects).2.2 _ before added.name
          exact absurd rfl (distinct (by simp [Step.dialectName?]))

theorem after_concat (settings : Settings) (steps : List Step) (step : Step) :
    after settings (steps ++ [step]) = step.take (after settings steps) := by
  simp [after]

theorem mem_fragmentNames {settings : Settings} {steps : List Step} {name : String}
    {fragment : Fragment} (found : get? name (after settings steps).fragments = some fragment) :
    name ∈ steps.filterMap Step.fragmentName? := by
  induction steps using List.reverseRecOn generalizing fragment with
  | nil => cases found
  | append_singleton steps step ih =>
      rw [after_concat] at found
      rw [List.filterMap_append, List.mem_append]
      cases step with
      | fragment added =>
          rw [Step.take, get?_registerFragment] at found
          split at found
          next same => exact .inr (by simp [Step.fragmentName?, same])
          next => exact .inl (ih found)
      | dialect added underived => exact .inl (ih found)
      | query asked about =>
          have settled := settled_after settings steps
          have same := ((Derives.refl settled).leaves settled asked about).fragments
          rcases same.cases name with ⟨-, absent⟩ | ⟨before, _, known, -⟩
          · rw [Step.take, absent] at found
            cases found
          · exact .inl (ih known)

theorem mem_dialectNames {settings : Settings} {steps : List Step} {name : String}
    {dialect : Dialect} (found : get? name (after settings steps).dialects = some dialect) :
    name ∈ steps.filterMap Step.dialectName? := by
  induction steps using List.reverseRecOn generalizing dialect with
  | nil => cases found
  | append_singleton steps step ih =>
      rw [after_concat] at found
      rw [List.filterMap_append, List.mem_append]
      cases step with
      | fragment added => exact .inl (ih found)
      | dialect added underived =>
          rw [Step.take, get?_registerDialect] at found
          split at found
          next same => exact .inr (by simp [Step.dialectName?, same])
          next => exact .inl (ih found)
      | query asked about =>
          have settled := settled_after settings steps
          have derives := (Derives.refl settled).leaves settled asked about
          obtain ⟨before, known, -⟩ := derives.origin found
          exact .inl (ih known)

theorem filterMap_filter_registers {name? : Step → Option String}
    (silent : ∀ query name, name? (.query query name) = none) (steps : List Step) :
    (steps.filter Step.registers).filterMap name? = steps.filterMap name? := by
  rw [List.filterMap_filter]
  congr 1
  funext step
  cases step with
  | query query name => simp [Step.registers, silent]
  | fragment | dialect => simp [Step.registers]

theorem derives_registrations (settings : Settings) {steps : List Step} (orderly : Orderly steps) :
    Derives (after settings (steps.filter Step.registers)) [] (after settings steps) := by
  -- A query lets the second registry grow; a registration changes both.
  induction orderly with
  | unasked registering =>
      rw [List.filter_eq_self.mpr registering]
      exact Derives.refl (settled_after settings _)
  | @asked steps orderly asked about ih =>
      rw [List.filter_append, show [Step.query asked about].filter Step.registers = [] from rfl,
        List.append_nil, after_concat]
      exact ih.leaves (settled_after settings _) asked about
  | @fragment steps orderly added new ih =>
      rw [List.filter_append, show [Step.fragment added].filter Step.registers = [.fragment added]
        from rfl, after_concat, after_concat]
      refine ih.registerFragment (settled_after settings _) ?_
      by_contra known
      obtain ⟨held, found⟩ := Option.ne_none_iff_exists'.mp known
      have before := mem_fragmentNames found
      rw [filterMap_filter_registers fun _ _ => rfl] at before
      exact new before
  | @dialect steps orderly added underived new ih =>
      rw [List.filter_append, show [Step.dialect added underived].filter Step.registers =
        [.dialect added underived] from rfl, after_concat, after_concat]
      refine ih.registerDialect (settled_after settings _) underived ?_
      by_contra known
      obtain ⟨held, found⟩ := Option.ne_none_iff_exists'.mp known
      have before := mem_dialectNames found
      rw [filterMap_filter_registers fun _ _ => rfl] at before
      exact new before

/-- As long as names are registered once, every query is answered as if it were the first. -/
theorem queries_as_if_first (settings : Settings) {steps : List Step} (additive : Additive steps)
    (name : String) :
    let fresh := after settings (steps.filter Step.registers)
    (rules name (after settings steps)).1 = (rules name fresh).1 ∧
      (grammar name (after settings steps)).1 = (grammar name fresh).1 ∧
      (types name (after settings steps)).1 = (types name fresh).1 ∧
      (lexicon name (after settings steps)).1 = (lexicon name fresh).1 := by
  intro fresh
  have settled : fresh.Settled := settled_after settings _
  have derives := derives_registrations settings additive.orderly
  exact ⟨(answers_rules settled name).fst_eq derives, (answers_grammar settled name).fst_eq derives,
    (answers_types settled name).fst_eq derives, (answers_lexicon settled name).fst_eq derives⟩

/-- A child is asked about before its parent and its fragment are there, and its parent before it. -/
theorem queries_as_if_first_lateParent :
    let member : Fragment := .make "f" (some [("Program", [.ofPattern (.tokenClass "Name")])]) []
    let steps : List Step := [
      .dialect (.define "child" (some "base") ["f"]) (underived_define ..),
      .query .types "child",
      .dialect (.define "base" none []) (underived_define ..),
      .query .rules "child", .query .lexicon "base",
      .fragment member,
      .query .rules "base", .query .grammar "child"]
    let fresh := after .defaults (steps.filter Step.registers)
    Additive steps ∧
      (rules "child" (after .defaults steps)).1 = (rules "child" fresh).1 ∧
      (grammar "child" (after .defaults steps)).1 = (grammar "child" fresh).1 ∧
      (types "child" (after .defaults steps)).1 = (types "child" fresh).1 ∧
      (lexicon "child" (after .defaults steps)).1 = (lexicon "child" fresh).1 := by
  intro member steps fresh
  have additive : Additive steps := ⟨by decide, by decide⟩
  exact ⟨additive, queries_as_if_first .defaults additive "child"⟩

end Parlance.Registry
