import Parlance.Proofs.Dialect.Work
import Parlance.Proofs.Parse.Tracing

/-! Work with and without a trace. The record of a trace holds what the work alone gives as its
result, be it a value or a syntax error. Whatever else goes wrong goes wrong in both alike. -/

namespace Parlance.Registry

variable {α β γ : Type}

/-- Two pieces of work that leave the same registry behind, with results that are related. -/
def Mirrors (related : Except Failure α → Except Failure β → Prop) (work : Work α)
    (other : Work β) : Prop :=
  ∀ registry, (work.run.run registry).2 = (other.run.run registry).2 ∧
    related (work.run.run registry).1 (other.run.run registry).1

theorem Mirrors.ask {related : Except Failure α → Except Failure β → Prop}
    (faults : ∀ fault, related (.error (.definition fault)) (.error (.definition fault)))
    {query : Registry → Answer γ} {next : γ → Work α} {other : γ → Work β}
    (each : ∀ value, Mirrors related (next value) (other value)) :
    Mirrors related (Registry.ask query >>= next) (Registry.ask query >>= other) := by
  intro registry
  rw [run_ask_bind, run_ask_bind]
  rcases query registry with ⟨fault | value, after⟩
  · exact ⟨rfl, faults fault⟩
  · exact each value after

/-- A result as it is recorded and as it comes alone; `embed` makes a tree of a value. -/
inductive Recorded (embed : α → Tree) : Except Failure TraceRecord → Except Failure α → Prop where
  | value {log tokens value} : Recorded embed (.ok ⟨log, tokens, .ok (embed value)⟩) (.ok value)
  | refused {log tokens error} :
      Recorded embed (.ok ⟨log, tokens, .error error⟩) (.error (.source error))
  | failed {failure} (otherwise : ∀ error, failure ≠ .source error) :
      Recorded embed (.error failure) (.error failure)

namespace Recorded

variable {embed : α → Tree} {recorded : Except Failure TraceRecord} {alone : Except Failure α}
  (both : Recorded embed recorded alone)

include both

theorem value_iff (injective : Function.Injective embed) (value : α) :
    (∃ record, recorded = .ok record ∧ record.outcome = .ok (embed value)) ↔ alone = .ok value := by
  cases both with
  | @value log tokens held =>
      constructor
      · rintro ⟨_, ⟨⟩, same⟩
        rw [injective (Except.ok.inj same)]
      · rintro ⟨⟩
        exact ⟨_, rfl, rfl⟩
  | refused => refine ⟨?_, nofun⟩; rintro ⟨_, ⟨⟩, same⟩; cases same
  | failed => refine ⟨?_, nofun⟩; rintro ⟨_, same, -⟩; cases same

theorem refused_iff (error : SyntaxError) :
    (∃ record, recorded = .ok record ∧ record.outcome = .error error) ↔
      alone = .error (.source error) := by
  cases both with
  | value => refine ⟨?_, nofun⟩; rintro ⟨_, ⟨⟩, same⟩; cases same
  | refused =>
      constructor
      · rintro ⟨_, ⟨⟩, ⟨⟩⟩
        rfl
      · rintro ⟨⟩
        exact ⟨_, rfl, rfl⟩
  | failed otherwise =>
      refine ⟨?_, fun same => (otherwise _ (Except.error.inj same)).elim⟩
      rintro ⟨_, same, -⟩
      cases same

theorem failed_iff (failure : Failure) : recorded = .error failure ↔
    alone = .error failure ∧ ∀ error, failure ≠ .source error := by
  cases both with
  | value => exact ⟨nofun, nofun⟩
  | refused => exact ⟨nofun, fun ⟨same, otherwise⟩ => (otherwise _ (Except.error.inj same).symm).elim⟩
  | failed otherwise =>
      constructor
      · rintro ⟨⟩
        exact ⟨rfl, otherwise⟩
      · rintro ⟨⟨⟩, -⟩
        rfl

end Recorded

theorem Recorded.fault {embed : α → Tree} (fault : DefinitionFault) :
    Recorded embed (.error (.definition fault)) (.error (.definition fault)) := .failed nofun

theorem traceSource_mirrors (name source : String) (origin : Option String) :
    Mirrors (Recorded id) (traceSource name source origin) (parseSource name source origin) := by
  rw [traceSource_eq, parseSource_eq, prepared_eq_ask, prepared_eq_ask]
  refine .ask .fault fun dialect => .ask .fault fun lexicon => .ask .fault fun grammar =>
    .ask .fault fun again => ?_
  intro registry
  rw [run_settle_bind, run_settle_bind, Parser.run_untraced]
  generalize Parser.run _ _ _ _ _ = verdict
  rcases verdict with _ | ⟨error | tree, log⟩ | fault
  · exact ⟨rfl, .fault _⟩
  · exact ⟨rfl, .refused⟩
  · exact ⟨rfl, .value⟩
  · exact ⟨rfl, .fault _⟩

/-- Work that finds no fault with a source. -/
def Blameless (work : Work α) : Prop :=
  ∀ registry error, (work.run.run registry).1 ≠ .error (.source error)

theorem Blameless.bind {work : Work α} (blameless : Blameless work) {next : α → Work β}
    (each : ∀ value, Blameless (next value)) : Blameless (work >>= next) := by
  intro registry error
  rw [run_bind]
  rcases ran : work.run.run registry with ⟨failure | value, after⟩
  · intro same
    apply blameless registry error
    rw [ran, Except.error.inj same]
  · exact each value after error

theorem blameless_ask (query : Registry → Answer α) : Blameless (ask query) := by
  intro registry error
  rw [run_ask]
  cases (query registry).1 <;> nofun

theorem blameless_treeResult (result : Except TreeFault α) : Blameless (treeResult result) := by
  intro registry error
  cases result <;> nofun

theorem blameless_rendering (name : String) (tree : Tree) :
    Blameless (translateTree name tree >>= unparse name) := by
  refine .bind (.bind (blameless_ask _) fun types => blameless_treeResult _) fun translated => ?_
  refine .bind (blameless_ask _) fun types => .bind ?_ fun registry => blameless_treeResult _
  exact fun registry error => nofun

theorem Blameless.recorded {work : Work α} (blameless : Blameless work) (embed : α → Tree)
    (log : List Nat) (tokens : List Token) :
    Mirrors (Recorded embed) (work >>= fun value => pure ⟨log, tokens, .ok (embed value)⟩) work := by
  intro registry
  rw [run_bind]
  rcases ran : work.run.run registry with ⟨failure | value, after⟩
  · exact ⟨rfl, .failed fun error same => blameless registry error (by rw [ran, same])⟩
  · exact ⟨rfl, .value⟩

theorem traceTranslate_mirrors (name source : String) (origin : Option String) :
    Mirrors (Recorded .text) (traceTranslate name source origin) (translate name source origin) := by
  intro registry
  obtain ⟨left, both⟩ := traceSource_mirrors name source origin registry
  unfold traceTranslate translate
  rw [run_bind, run_bind (parseSource name source origin)]
  generalize (traceSource name source origin).run.run registry = traced at left both
  generalize (parseSource name source origin).run.run registry = alone at left both
  obtain ⟨recorded, after⟩ := traced
  obtain ⟨result, afterToo⟩ := alone
  obtain rfl : after = afterToo := left
  dsimp only at both ⊢
  cases both with
  | refused => exact ⟨rfl, .refused⟩
  | failed otherwise => exact ⟨rfl, .failed otherwise⟩
  | @value log tokens tree =>
      have rendering := (blameless_rendering name tree).recorded .text log tokens after
      rw [bind_assoc] at rendering
      exact rendering

/-- A trace changes nothing. A parse comes to the same without it, but for the log, and a syntax error
stands at the furthest position of the log. A text translates to what its trace records, a syntax
error of the one is recorded by the other, and both fail alike otherwise. -/
theorem traced_as_untraced :
    (∀ (parser : Parser) (fuel : Nat) (start : String) (tokens : List Token) (origin : Option String),
      let traced := parser.runWith fuel start tokens origin true
      parser.runWith fuel start tokens origin false = traced.map Verdict.untraced ∧
        ∀ error log, traced = some (.parsed (.error error) log) →
          error.index ∈ log ∧ ∀ position ∈ log, position ≤ error.index) ∧
    ∀ (registry : Registry) (name source : String) (origin : Option String),
      let traced := (traceTranslate name source origin).run.run registry
      let alone := (translate name source origin).run.run registry
      traced.2 = alone.2 ∧
      (∀ text, (∃ record, traced.1 = .ok record ∧ record.outcome = .ok (.text text)) ↔
        alone.1 = .ok text) ∧
      (∀ error, (∃ record, traced.1 = .ok record ∧ record.outcome = .error error) ↔
        alone.1 = .error (.source error)) ∧
      ∀ failure, traced.1 = .error failure ↔
        alone.1 = .error failure ∧ ∀ error, failure ≠ .source error := by
  constructor
  · intro parser fuel start tokens origin traced
    exact ⟨parser.runWith_untraced fuel start tokens origin, fun _ _ => Parser.runWith_furthest⟩
  · intro registry name source origin traced alone
    obtain ⟨left, both⟩ := traceTranslate_mirrors name source origin registry
    exact ⟨left, both.value_iff fun _ _ => Tree.text.inj, both.refused_iff, both.failed_iff⟩

end Parlance.Registry
