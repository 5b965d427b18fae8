import Parlance.Dialect.Work

/-! Work on source text begins alike however it goes on: the dialect is looked up, the text is cut
into tokens, and the parser of the dialect is made. -/

namespace Parlance.Registry

variable {α β : Type}

/-- Work on a dialect, the tokens of a text and a parser, once all three are there. -/
def prepared (name source : String) (next : Dialect → List Token → Parser → Work α) : Work α := do
  let dialect ← find name
  let tokens ← tokenize name source
  let parser ← parser name
  next dialect tokens parser

theorem parseSource_eq (name source : String) (origin : Option String) :
    parseSource name source origin = (prepared name source fun dialect tokens parser => do
      let (outcome, _) ← settle (parser.run dialect.start tokens origin false)
      match outcome with
      | .ok tree => pure tree
      | .error error => throw (.source error)) := rfl

theorem traceSource_eq (name source : String) (origin : Option String) :
    traceSource name source origin = (prepared name source fun dialect tokens parser => do
      let (outcome, log) ← settle (parser.run dialect.start tokens origin true)
      pure ⟨log, tokens, outcome⟩) := rfl

theorem run_bind (work : Work α) (next : α → Work β) (registry : Registry) :
    (work >>= next).run.run registry =
      match work.run.run registry with
      | (.ok value, after) => (next value).run.run after
      | (.error failure, after) => (.error failure, after) := by
  rw [ExceptT.run_bind, StateT.run_bind]
  rcases work.run.run registry with ⟨failure | value, after⟩ <;> rfl

theorem run_ask (query : Registry → Answer α) (registry : Registry) :
    (ask query).run.run registry =
      ((query registry).1.mapError .definition, (query registry).2) := by
  simp only [ask, ExceptT.run, StateT.run]
  rcases query registry with ⟨fault | value, after⟩ <;> rfl

theorem run_ask_bind (query : Registry → Answer α) (next : α → Work β) (registry : Registry) :
    (ask query >>= next).run.run registry =
      match query registry with
      | (.ok value, after) => (next value).run.run after
      | (.error fault, after) => (.error (.definition fault), after) := by
  rw [run_bind, run_ask]
  rcases query registry with ⟨fault | value, after⟩ <;> rfl

theorem prepared_eq_ask (name source : String) (next : Dialect → List Token → Parser → Work α) :
    prepared name source next = (find name >>= fun dialect => ask (lexicon name) >>= fun lexicon =>
      ask (grammar name) >>= fun grammar => find name >>= fun again =>
        next dialect (lexicon.tokenize source) ⟨grammar, again.maxDepth⟩) := by
  simp only [prepared, tokenize, parser, bind_assoc, pure_bind]

theorem run_settle_bind (verdict : Option Verdict)
    (next : Except SyntaxError Tree × List Nat → Work α) (registry : Registry) :
    (settle verdict >>= next).run.run registry =
      match verdict with
      | some (.parsed outcome log) => (next (outcome, log)).run.run registry
      | some (.broken fault) => (.error (.definition fault), registry)
      | none => (.error (.definition .unending), registry) := by
  rcases verdict with _ | ⟨outcome, log⟩ | fault <;> rfl

end Parlance.Registry
