import Parlance.Proofs.Dialect.Keeping

/-! What the queries of a settled registry answer. Each gives, in every registry that has grown out of
it by queries, the answer that it gives there, and leaves a registry that has grown out of it too. Of
all queries only the one for node types can go on for ever, and does so where node types need
themselves. -/

namespace Parlance.Registry

open Index (get?)
open Relation (TransGen)

/-- The result of a query in all registries that have grown out of `source`, which they still have
after it. -/
def Answers (source : Registry) {α : Type} (query : Registry → Answer α)
    (result : Except DefinitionFault α) : Prop :=
  ∀ registry, Derives source [] registry →
    ∃ after, query registry = (result, after) ∧ Derives source [] after

section Answers

variable {source registry : Registry} {α : Type} {query : Registry → Answer α}
  {result : Except DefinitionFault α}

theorem Answers.fst_eq (answers : Answers source query result)
    (derives : Derives source [] registry) : (query registry).1 = result := by
  obtain ⟨after, ran, -⟩ := answers registry derives
  rw [ran]

theorem Answers.leaves (answers : Answers source query result)
    (derives : Derives source [] registry) : Derives source [] (query registry).2 := by
  obtain ⟨after, ran, derives⟩ := answers registry derives
  rwa [ran]

end Answers

/-- How a value is derived of a dialect from another answer, and where it is kept. -/
structure Derivation (α β : Type) where
  slot : Dialect → Option α
  keep : α → Dialect → Dialect
  first : String → Registry → Answer β
  refine : Dialect → β → Except DefinitionFault α

def Derivation.query {α β : Type} (derivation : Derivation α β) (name : String)
    (registry : Registry) : Answer α :=
  match registry.dialect name with
  | .error fault => (.error fault, registry)
  | .ok dialect =>
      match derivation.slot dialect with
      | some value => (.ok value, registry)
      | none =>
          let (result, after) := derivation.first name registry
          keeping name derivation.keep (result >>= derivation.refine dialect, after)

def grammarDerivation : Derivation Grammar RuleSet where
  slot := Dialect.grammar
  keep grammar dialect := { dialect with grammar := some grammar }
  first := rules
  refine := validGrammar

def lexiconDerivation : Derivation Lexicon Grammar where
  slot := Dialect.lexicon
  keep lexicon dialect := { dialect with lexicon := some lexicon }
  first := grammar
  refine _ grammar := .ok (Lexicon.ofWords (grammar.words .keyword) (grammar.words .punctuator))

theorem grammar_eq : grammar = grammarDerivation.query := by
  funext name registry
  unfold grammar Derivation.query
  cases registry.dialect name with
  | error fault => rfl
  | ok dialect =>
      simp only [grammarDerivation]
      cases dialect.grammar with
      | some known => rfl
      | none =>
          rcases rules name registry with ⟨fault | rules, after⟩
          · rfl
          · show _ = keeping name _ (validGrammar dialect rules, after)
            dsimp only
            cases validGrammar dialect rules <;> rfl

theorem validGrammar_eq_ok {dialect : Dialect} {rules : RuleSet} {grammar : Grammar}
    (valid : validGrammar dialect rules = .ok grammar) :
    grammar = .ofRules rules ∧ hasProductions rules dialect.start = true ∧
      grammar.validate = .ok () := by
  unfold validGrammar at valid
  split at valid
  next starts =>
    dsimp only at valid
    split at valid
    next validated =>
      obtain rfl := Except.ok.inj valid
      exact ⟨rfl, starts, validated⟩
    next => cases valid
  next => cases valid

theorem lexicon_eq : lexicon = lexiconDerivation.query := by
  funext name registry
  unfold lexicon Derivation.query
  cases registry.dialect name with
  | error fault => rfl
  | ok dialect =>
      simp only [lexiconDerivation]
      cases dialect.lexicon with
      | some known => rfl
      | none => rcases grammar name registry with ⟨fault | grammar, after⟩ <;> rfl

namespace Derivation

variable {α β : Type} (derivation : Derivation α β) {registry : Registry} {name : String}
  {dialect : Dialect}

theorem query_unknown (absent : get? name registry.dialects = none) :
    derivation.query name registry = (.error (.unknownDialect name), registry) := by
  simp only [query, Registry.dialect, absent]

theorem query_kept (found : get? name registry.dialects = some dialect) {value : α}
    (kept : derivation.slot dialect = some value) :
    derivation.query name registry = (.ok value, registry) := by
  simp only [query, Registry.dialect, found, kept]

theorem query_lacking (found : get? name registry.dialects = some dialect)
    (lacks : derivation.slot dialect = none) :
    derivation.query name registry = keeping name derivation.keep
      ((derivation.first name registry).1 >>= derivation.refine dialect,
        (derivation.first name registry).2) := by
  simp only [query, Registry.dialect, found, lacks]

theorem registered {value : α} (answered : (derivation.query name registry).1 = .ok value) :
    ∃ dialect, get? name registry.dialects = some dialect := by
  cases found : get? name registry.dialects with
  | none =>
      rw [derivation.query_unknown found] at answered
      cases answered
  | some dialect => exact ⟨dialect, rfl⟩

/-- A value that is derived from a right answer is right, in every registry that has grown out of the
same one. -/
theorem answers {source : Registry}
    (first : Answers source (derivation.first name) (derivation.first name source).1)
    (grown : ∀ dialect now, Grows source [] name dialect now →
      Kept (fun value => (derivation.query name source).1 = .ok value) (derivation.slot dialect)
        (derivation.slot now))
    (same : ∀ dialect now, Grows source [] name dialect now →
      derivation.refine now = derivation.refine dialect)
    (grows : ∀ value dialect now, (derivation.query name source).1 = .ok value →
      derivation.slot dialect = none → Grows source [] name dialect now →
        Grows source [] name dialect (derivation.keep value now)) :
    Answers source (derivation.query name) (derivation.query name source).1 := by
  intro registry derives
  rcases derives.cases name with ⟨absent, absentToo⟩ | ⟨dialect, now, found, foundToo, here⟩
  · rw [derivation.query_unknown absent, derivation.query_unknown absentToo]
    exact ⟨registry, rfl, derives⟩
  · have slots := grown dialect now here
    cases kept : derivation.slot now with
    | some value =>
        have right := (kept ▸ slots).right fun known => by rw [derivation.query_kept found known]
        rw [derivation.query_kept foundToo kept, right]
        exact ⟨registry, rfl, derives⟩
    | none =>
        have lacks := (kept ▸ slots).lacks
        have answer : (derivation.query name source).1 =
            (derivation.first name source).1 >>= derivation.refine dialect := by
          rw [derivation.query_lacking found lacks, keeping_fst]
        rw [derivation.query_lacking foundToo kept, first.fst_eq derives, same dialect now here,
          ← answer]
        refine (first.leaves derives).keeping fun value right other now foundOther here => ?_
        obtain rfl := Option.some.inj (found.symm.trans foundOther)
        exact grows value dialect now right lacks here

theorem ends (first : (derivation.first name registry).1 ≠ .error .unending)
    (refine : ∀ dialect value, derivation.refine dialect value ≠ .error .unending) :
    (derivation.query name registry).1 ≠ .error .unending := by
  intro unending
  cases found : get? name registry.dialects with
  | none =>
      rw [derivation.query_unknown found] at unending
      cases unending
  | some dialect =>
      cases kept : derivation.slot dialect with
      | some value =>
          rw [derivation.query_kept found kept] at unending
          cases unending
      | none =>
          rw [derivation.query_lacking found kept, keeping_fst] at unending
          cases ran : (derivation.first name registry).1 with
          | error fault =>
              rw [ran] at unending
              obtain rfl := Except.error.inj unending
              exact first ran
          | ok value =>
              rw [ran] at unending
              exact refine dialect value unending

end Derivation

theorem grammar_lacking {registry : Registry} {name : String} {dialect : Dialect}
    (found : get? name registry.dialects = some dialect) (lacks : dialect.grammar = none) :
    (registry.grammar name).1 = (registry.rules name).1 >>= validGrammar dialect := by
  rw [grammar_eq, grammarDerivation.query_lacking found lacks, keeping_fst]
  rfl

variable {source registry : Registry} {name : String} (settled : source.Settled)

include settled

theorem answers_composes (name : String) :
    ∃ result, Composes source [] name result ∧ Answers source (rules name) result := by
  have spec {registry : Registry} (derives : Derives source [] registry) :=
    @rulesWithin_spec source registry [] name settled _ derives.atMost (registry.dialects.length + 1)
      derives List.nodup_nil nofun (by simp)
  obtain ⟨result, _, -, composes, -⟩ := spec (Derives.refl settled)
  refine ⟨result, composes, fun registry derives => ?_⟩
  obtain ⟨other, after, ran, composesToo, derivesToo⟩ := spec derives
  exact ⟨after, composesToo.unique composes ▸ ran, derivesToo⟩

theorem composes_rules (name : String) : Composes source [] name (rules name source).1 := by
  obtain ⟨result, composes, answers⟩ := answers_composes settled name
  obtain ⟨after, ran, -⟩ := answers source (Derives.refl settled)
  rwa [ran]

theorem answers_rules (name : String) : Answers source (rules name) (rules name source).1 := by
  obtain ⟨result, composes, answers⟩ := answers_composes settled name
  rwa [(composes_rules settled name).unique composes]

theorem answers_grammar (name : String) : Answers source (grammar name) (grammar name source).1 := by
  have firstly := answers_rules settled name
  rw [grammar_eq]
  refine grammarDerivation.answers firstly (fun _ _ grows => ?_)
    (fun _ _ grows => funext grows.validGrammar) fun value _ _ right lacks grows => ?_
  · exact grammar_eq ▸ grows.grammar
  · exact { grows with bare := grows.bare, grammar := Kept.fill lacks (grammar_eq ▸ right) }

theorem answers_lexicon (name : String) : Answers source (lexicon name) (lexicon name source).1 := by
  have firstly := answers_grammar settled name
  rw [lexicon_eq]
  refine lexiconDerivation.answers firstly (fun _ _ grows => ?_) (fun _ _ _ => rfl)
    fun value _ _ right lacks grows => ?_
  · exact lexicon_eq ▸ grows.lexicon
  · exact { grows with bare := grows.bare, lexicon := Kept.fill lacks (lexicon_eq ▸ right) }

section Lacking

omit settled

variable {dialect : Dialect} (found : get? name registry.dialects = some dialect)
  (lacks : dialect.types = none) {composed : RuleSet} {after : Registry}
  (ran : rules name registry = (.ok composed, after)) {own : NodeTypes}
  (owns : after.ownTypes dialect.fragments [] = .ok own)

include found lacks ran owns

theorem typesWithin_orphan (parentless : dialect.parent = none) (fuel : Nat) :
    typesWithin (fuel + 1) name registry =
      keeping name (fun types dialect => { dialect with types := some types })
        (.ok (after.typesOver dialect own none), after) := by
  simp only [typesWithin, Registry.dialect, found, lacks, ran, owns, parentless]
  rfl

theorem typesWithin_child {parent : String} (inherits : dialect.parent = some parent) {fuel : Nat}
    {result : Except DefinitionFault NodeTypes} {last : Registry}
    (ranParent : typesWithin fuel parent after = (result, last)) :
    typesWithin (fuel + 1) name registry =
      keeping name (fun types dialect => { dialect with types := some types })
        (result.map fun types => last.typesOver dialect own (some types), last) := by
  simp only [typesWithin, Registry.dialect, found, lacks, ran, owns, inherits, ranParent]
  cases result <;> rfl

end Lacking

omit settled in
theorem Derives.keepTypes (derives : Derives source [] registry) {dialect : Dialect}
    (found : get? name source.dialects = some dialect) (lacks : dialect.types = none)
    {result : Except DefinitionFault NodeTypes}
    (right : ∀ types, result = .ok types → Typed source name (.ok types)) :
    ∃ after, Registry.keeping name (fun types dialect => { dialect with types := some types })
        (result, registry) = (result, after) ∧ Derives source [] after := by
  refine derives.keeping fun types same other now foundOther grows => ?_
  obtain rfl := Option.some.inj (found.symm.trans foundOther)
  exact { grows with bare := grows.bare, types := Kept.fill lacks (right types same) }

omit settled in
theorem Derives.typesOver (derives : Derives source [] registry) {dialect now : Dialect}
    (grows : Grows source [] name dialect now) (own : NodeTypes) (inherited : Option NodeTypes) :
    registry.typesOver now own inherited = source.typesOver dialect own inherited := by
  unfold Registry.typesOver
  rw [grows.precedence, derives.settings]

omit settled in
/-- So much fuel runs out at a dialect only where the way goes round, unless dialects were gone
through before it. -/
def RunsOut (source : Registry) (fuel : Nat) (name : String) : Prop :=
  ∀ (size : Nat) (path : List String), source.AtMost size → path.Nodup →
    (∀ other ∈ path, TransGen source.NeedsTypes other name) → size < path.length + fuel →
      GoesRound source.NeedsTypes name

omit settled in
theorem runsOut_zero (source : Registry) (name : String) : RunsOut source 0 name := by
  intro size path atMost distinct leads enough
  have few := atMost.length_le (fun ⟨dialect, found, _⟩ => ⟨dialect, found⟩) distinct leads
  omega

omit settled in
theorem RunsOut.child {fuel : Nat} {parent : String} (needs : source.NeedsTypes name parent)
    (runsOut : RunsOut source fuel parent) : RunsOut source (fuel + 1) name := by
  intro size path atMost distinct leads enough
  by_cases visited : name ∈ path
  · exact .of_transGen (leads name visited)
  · have longer : size < (name :: path).length + fuel := by
      rw [List.length_cons]
      omega
    exact .head needs (runsOut size (name :: path) atMost (List.nodup_cons.mpr ⟨visited, distinct⟩)
      (leads_cons needs leads) longer)

theorem typesWithin_spec (fuel : Nat) (derives : Derives source [] registry) :
    ∃ result after, typesWithin fuel name registry = (result, after) ∧ Derives source [] after ∧
      (Typed source name result ∨ result = .error .unending ∧ RunsOut source fuel name) := by
  induction fuel generalizing name registry with
  | zero => exact ⟨_, registry, rfl, derives, .inr ⟨rfl, runsOut_zero source name⟩⟩
  | succ fuel ih =>
      rcases derives.cases name with ⟨absent, absentToo⟩ | ⟨dialect, now, found, foundToo, grows⟩
      · refine ⟨_, registry, ?_, derives, .inl (.unknown absent)⟩
        simp only [typesWithin, Registry.dialect, absentToo]
      cases kept : now.types with
      | some types =>
          have right : Typed source name (.ok types) :=
            (kept ▸ grows.types).right fun known => .kept found known
          refine ⟨.ok types, registry, ?_, derives, .inl right⟩
          simp only [typesWithin, Registry.dialect, foundToo, kept]
      | none =>
      have lacks : dialect.types = none := (kept ▸ grows.types).lacks
      obtain ⟨composed, composes, answers⟩ := answers_composes settled name
      obtain ⟨after, ran, derivesAfter⟩ := answers registry derives
      cases composed with
      | error fault =>
          refine ⟨.error fault, after, ?_, derivesAfter, .inl (.ruleless found lacks composes)⟩
          simp only [typesWithin, Registry.dialect, foundToo, kept, ran]
      | ok composed =>
      -- The fragments are there, as the rules were composed of them.
      obtain ⟨own, owns⟩ := ownTypes_ok (fun member own => composes.furnished settled found own) []
      have ownsToo : after.ownTypes now.fragments [] = .ok own := by
        rw [derivesAfter.fragments.ownTypes, grows.fragments, owns]
      cases inherits : dialect.parent with
      | none =>
          have right := Typed.orphan found lacks composes owns inherits
          obtain ⟨last, keeps, derivesLast⟩ := derivesAfter.keepTypes found lacks
            fun types same => same ▸ right
          refine ⟨_, last, ?_, derivesLast, .inl right⟩
          rw [typesWithin_orphan foundToo kept ran ownsToo (grows.parent.trans inherits),
            derivesAfter.typesOver grows]
          exact keeps
      | some parent =>
          have needs : source.NeedsTypes name parent := ⟨dialect, found, lacks, inherits, _, composes⟩
          obtain ⟨result, last, ranParent, derivesLast, outcome⟩ := @ih _ parent derivesAfter
          let combine (types : NodeTypes) : NodeTypes := source.typesOver dialect own (some types)
          have outcome : Typed source name (result.map combine) ∨
              result = .error .unending ∧ RunsOut source fuel parent :=
            outcome.imp_left (Typed.child found lacks composes owns inherits)
          obtain ⟨final, keeps, derivesFinal⟩ := derivesLast.keepTypes found lacks
            fun types (same : result.map combine = .ok types) => by
              rcases outcome with right | ⟨rfl, -⟩
              · exact same ▸ right
              · cases same
          have run : typesWithin (fuel + 1) name registry = (result.map combine, final) := by
            rw [typesWithin_child foundToo kept ran ownsToo (grows.parent.trans inherits) ranParent,
              funext fun types => derivesLast.typesOver grows own (some types)]
            exact keeps
          refine ⟨_, final, run, derivesFinal, outcome.imp_right fun spent => ?_⟩
          obtain ⟨unending, runsOut⟩ := spent
          exact ⟨by rw [unending]; rfl, runsOut.child needs⟩

theorem types_spec (derives : Derives source [] registry) (name : String) :
    ∃ result after, types name registry = (result, after) ∧ Derives source [] after ∧
      (Typed source name result ∨
        result = .error .unending ∧ GoesRound source.NeedsTypes name) := by
  obtain ⟨result, after, ran, derivesAfter, outcome⟩ :=
    @typesWithin_spec _ _ name settled (registry.dialects.length + 1) derives
  refine ⟨result, after, ran, derivesAfter, outcome.imp_right fun spent => ?_⟩
  obtain ⟨same, runsOut⟩ := spent
  exact ⟨same, runsOut registry.dialects.length [] derives.atMost List.nodup_nil nofun (by simp)⟩

theorem answers_types (name : String) : Answers source (types name) (types name source).1 := by
  intro registry derives
  obtain ⟨known, _, ranSource, -, outcome⟩ := types_spec settled (Derives.refl settled) name
  obtain ⟨result, after, ran, derivesAfter, outcomeToo⟩ := types_spec settled derives name
  refine ⟨after, ?_, derivesAfter⟩
  rw [ran, ranSource]
  rcases outcome, outcomeToo with ⟨typed | ⟨rfl, round⟩, typedToo | ⟨rfl, roundToo⟩⟩
  · rw [typed.unique typedToo]
  · exact absurd roundToo typed.not_goesRound
  · exact absurd round typedToo.not_goesRound
  · rfl

/-- The query for node types goes on for ever exactly where they need themselves. -/
theorem types_unending_iff (name : String) :
    (types name source).1 = .error .unending ↔ GoesRound source.NeedsTypes name := by
  obtain ⟨result, _, ran, -, outcome⟩ := types_spec settled (Derives.refl settled) name
  rw [ran]
  rcases outcome with typed | ⟨rfl, round⟩
  · have goes := typed.not_goesRound
    simp only [goes, iff_false]
    rintro rfl
    exact typed.not_unending
  · simp only [round]

end Parlance.Registry
