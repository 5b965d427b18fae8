import Parlance.Proofs.Dialect.Answers

/-! Registries as they come about: names are registered, some of them again, and in between dialects
are asked about. Every query ends, except that the one for node types can follow parents round and
round where rules that were kept hide a cycle made since. -/

namespace Parlance.Registry

open Index (get?)
open Relation (ReflTransGen TransGen)

inductive Query where
  | rules
  | grammar
  | types
  | lexicon

def Query.leaves (registry : Registry) (name : String) : Query → Registry
  | .rules => (registry.rules name).2
  | .grammar => (registry.grammar name).2
  | .types => (registry.types name).2
  | .lexicon => (registry.lexicon name).2

/-- What is done with a registry. A dialect has had nothing derived when it is registered. -/
inductive Step where
  | fragment (fragment : Fragment)
  | dialect (dialect : Dialect) (underived : dialect.Underived)
  | query (query : Query) (name : String)

def Step.take (registry : Registry) : Step → Registry
  | .fragment added => registry.registerFragment added
  | .dialect added _ => registry.registerDialect added
  | .query asked name => asked.leaves registry name

/-- The registry that steps make of an empty one. -/
def after (settings : Settings) (steps : List Step) : Registry :=
  steps.foldl Step.take (.empty settings)

variable {source registry : Registry}

theorem Derives.leaves (settled : source.Settled) (derives : Derives source [] registry)
    (query : Query) (name : String) : Derives source [] (query.leaves registry name) := by
  cases query with
  | rules => exact (answers_rules settled name).leaves derives
  | grammar => exact (answers_grammar settled name).leaves derives
  | types => exact (answers_types settled name).leaves derives
  | lexicon => exact (answers_lexicon settled name).leaves derives

theorem settled_empty (settings : Settings) : (empty settings).Settled where
  filed _ _ found := by cases found
  idle _ _ found := by cases found
  furnished _ _ _ found := by cases found

theorem Settled.registerFragment (settled : registry.Settled) (fragment : Fragment) :
    (registry.registerFragment fragment).Settled where
  filed name held found := by
    rw [get?_registerFragment] at found
    split at found
    next same => rw [← Option.some.inj found, same]
    next => exact settled.filed name held found
  idle := settled.idle
  furnished name dialect rules found kept member own := by
    obtain ⟨held, there⟩ := settled.furnished name dialect rules found kept member own
    rw [get?_registerFragment]
    split
    · exact ⟨fragment, rfl⟩
    · exact ⟨held, there⟩

theorem Settled.registerDialect (settled : registry.Settled) {dialect : Dialect}
    (underived : dialect.Underived) : (registry.registerDialect dialect).Settled where
  filed := settled.filed
  idle name held found := by
    rw [get?_registerDialect] at found
    split at found
    next =>
      obtain rfl := Option.some.inj found
      rw [← underived]
      rfl
    next => exact settled.idle name held found
  furnished name held rules found kept := by
    rw [get?_registerDialect] at found
    split at found
    next =>
      obtain rfl := Option.some.inj found
      rw [← underived] at kept
      cases kept
    next => exact settled.furnished name held rules found kept

theorem Settled.take (settled : registry.Settled) (step : Step) : (step.take registry).Settled := by
  cases step with
  | fragment fragment => exact settled.registerFragment fragment
  | dialect dialect underived => exact settled.registerDialect underived
  | query query name =>
      exact ((Derives.refl settled).leaves settled query name).settled settled

theorem settled_after (settings : Settings) (steps : List Step) : (after settings steps).Settled := by
  unfold after
  have settled := settled_empty settings
  generalize empty settings = registry at settled ⊢
  induction steps generalizing registry with
  | nil => exact settled
  | cons step rest ih => exact ih _ (settled.take step)

theorem rules_ends (settled : registry.Settled) (name : String) :
    (rules name registry).1 ≠ .error .unending := by
  intro unending
  have composes := composes_rules settled name
  rw [unending] at composes
  exact composes.not_unending

theorem validGrammar_ends (dialect : Dialect) (rules : RuleSet) :
    validGrammar dialect rules ≠ .error .unending := by
  unfold validGrammar Grammar.validate
  split
  · dsimp only
    split
    · nofun
    next fails =>
      split at fails
      · cases fails; nofun
      · cases fails
  · nofun

theorem grammar_ends (settled : registry.Settled) (name : String) :
    (grammar name registry).1 ≠ .error .unending := by
  rw [grammar_eq]
  exact grammarDerivation.ends (rules_ends settled name) validGrammar_ends

theorem lexicon_ends (settled : registry.Settled) (name : String) :
    (lexicon name registry).1 ≠ .error .unending := by
  rw [lexicon_eq]
  refine lexiconDerivation.ends (grammar_ends settled name) fun _ _ fails => ?_
  cases fails

/-- After any steps every query has an answer, but for the node types that need themselves. A cycle is
told of where nobody on it has kept rules. -/
theorem queries_end_iff (settings : Settings) (steps : List Step) (name : String) :
    (rules name (after settings steps)).1 ≠ .error .unending ∧
    (grammar name (after settings steps)).1 ≠ .error .unending ∧
    (lexicon name (after settings steps)).1 ≠ .error .unending ∧
    ((types name (after settings steps)).1 = .error .unending ↔
      GoesRound (after settings steps).NeedsTypes name) ∧
    ((∃ met, (rules name (after settings steps)).1 = .error (.cyclicDialect met)) ↔
      GoesRound (after settings steps).NeedsRules name) := by
  have settled := settled_after settings steps
  exact ⟨rules_ends settled name, grammar_ends settled name, lexicon_ends settled name,
    types_unending_iff settled name, (composes_rules settled name).cyclic_iff⟩

theorem underived_define (name : String) (parent : Option String) (fragments : List String) :
    (Dialect.define name parent fragments).Underived := rfl

/-- The rules of `a` are kept when `b`, its parent, becomes its child. Then `b` inherits from itself
and keeps nothing, but composes its rules out of what `a` has kept, and has no node types. -/
theorem cycle_hidden_by_kept_rules :
    let registry := after .defaults [
      .dialect (.define "b" none []) (underived_define ..),
      .dialect (.define "a" (some "b") []) (underived_define ..),
      .query .rules "a",
      .dialect (.define "b" (some "a") []) (underived_define ..)]
    (get? "a" registry.dialects).map Dialect.parent = some (some "b") ∧
      get? "b" registry.dialects = some (.define "b" (some "a") []) ∧
      (rules "b" registry).1 = .ok [] ∧ (types "b" registry).1 = .error .unending := by
  exact ⟨rfl, rfl, rfl, rfl⟩

end Parlance.Registry
