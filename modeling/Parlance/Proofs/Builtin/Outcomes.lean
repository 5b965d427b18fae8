import Parlance.Proofs.Builtin.Registry
import Parlance.Proofs.Builtin.StatementReading
import Parlance.Proofs.Dialect.Work

/-! What work with the built-in dialects comes to, on a registry that may have kept what earlier work
derived: tokens, trees and text, told by the lexicon, the grammar and the types alone. -/

namespace Parlance.Builtin

open Index (get? names)
open Registry (Work Answer)

variable {settings : Settings} {α β : Type}

/-- The result of work wherever the built-in dialects are, and they still are there after it. -/
def Yields (settings : Settings) (work : Work α) (result : Except Failure α) : Prop :=
  ∀ registry, Serves settings registry →
    ∃ after, work.run.run registry = (result, after) ∧ Serves settings after

/-- The result of work on a new registry with the built-in dialects. -/
def outcome (settings : Settings) (work : Work α) : Except Failure α :=
  (work.run.run (registry settings)).1

theorem Yields.outcome_eq {work : Work α} {result : Except Failure α}
    (yields : Yields settings work result) : outcome settings work = result := by
  obtain ⟨after, ran, -⟩ := yields _ (serves_registry settings)
  rw [outcome, ran]

theorem Answers.yields {query : Registry → Answer α} {value : α}
    (answers : Answers settings query value) : Yields settings (Registry.ask query) (.ok value) := by
  intro registry serves
  obtain ⟨after, ran, serves⟩ := answers registry serves
  refine ⟨after, ?_, serves⟩
  rw [Registry.run_ask, ran]
  rfl

theorem yields_pure (value : α) : Yields settings (pure value) (.ok value) :=
  fun _ serves => ⟨_, rfl, serves⟩

theorem yields_throw (failure : Failure) :
    Yields settings (throw failure : Work α) (.error failure) :=
  fun _ serves => ⟨_, rfl, serves⟩

theorem Yields.bind {work : Work α} {value : α} (first : Yields settings work (.ok value))
    {next : α → Work β} {result : Except Failure β} (second : Yields settings (next value) result) :
    Yields settings (work >>= next) result := by
  intro registry serves
  obtain ⟨middle, ran, serves⟩ := first registry serves
  obtain ⟨after, ranNext, serves⟩ := second middle serves
  refine ⟨after, ?_, serves⟩
  rw [Registry.run_bind, ran]
  exact ranNext

theorem Yields.bind_error {work : Work α} {failure : Failure}
    (fails : Yields settings work (.error failure)) (next : α → Work β) :
    Yields settings (work >>= next) (.error failure) := by
  intro registry serves
  obtain ⟨after, ran, serves⟩ := fails registry serves
  refine ⟨after, ?_, serves⟩
  rw [Registry.run_bind, ran]

theorem Yields.find {sugar : Bool} {next : Dialect → Work β} {result : Except Failure β}
    (each : ∀ dialect, Keeps settings sugar dialect → Yields settings (next dialect) result) :
    Yields settings (Registry.find (dialectName sugar) >>= next) result := by
  intro registry serves
  obtain ⟨dialect, found, keeps⟩ := serves.holds sugar
  obtain ⟨after, ran, serves⟩ := each dialect keeps registry serves
  refine ⟨after, ?_, serves⟩
  have first : registry.dialect (dialectName sugar) = .ok dialect := by
    simp only [Registry.dialect, found]
  rw [Registry.find, Registry.run_ask_bind]
  simp only [first]
  exact ran

theorem yields_tokenize (settings : Settings) (sugar : Bool) (source : String) :
    Yields settings (Registry.tokenize (dialectName sugar) source)
      (.ok ((lexicon sugar).tokenize source)) :=
  (answers_lexicon settings sugar).yields.bind (yields_pure _)

theorem yields_rulesParser (settings : Settings) (sugar : Bool) :
    Yields settings (Registry.parser (dialectName sugar)) (.ok (rules sugar).parser) := by
  refine (answers_grammar settings sugar).yields.bind (.find fun dialect keeps => ?_)
  rw [keeps.maxDepth]
  exact yields_pure _

theorem yields_treeResult (result : Except TreeFault α) :
    Yields settings (Registry.treeResult result) (result.mapError .tree) := by
  cases result with
  | ok value => exact yields_pure value
  | error fault => exact yields_throw (.tree fault)

theorem yields_translateTree (settings : Settings) (sugar : Bool) (tree : Tree) :
    Yields settings (Registry.translateTree (dialectName sugar) tree)
      ((tree.translate (types settings sugar)).mapError .tree) :=
  (answers_types settings sugar).yields.bind (yields_treeResult _)

theorem yields_unparse (settings : Settings) (sugar : Bool) (tree : Tree) :
    Yields settings (Registry.unparse (dialectName sugar) tree)
      ((tree.unparse (types settings sugar) settings.indentUnit).mapError .tree) := by
  refine (answers_types settings sugar).yields.bind ?_
  intro registry serves
  obtain rfl := serves.provides.settings
  exact yields_treeResult _ registry serves

theorem get?_ownTypes (name : String) :
    get? name (ownTypes false) = (get? name statementTypes).or (get? name expressionTypes) := by
  have distinct : (names statementTypes).Nodup ∧ (names expressionTypes).Nodup := by
    decide +kernel
  simp only [ownTypes, Bool.false_eq_true, if_false]
  rw [Index.get?_merge _ distinct.1, Index.get?_merge _ distinct.2, get?, Option.or_none]

/-- No fragment of `sugar` replaces a type of `base`, whichever side wins. -/
theorem get?_types (settings : Settings) (sugar : Bool) {name : String} {style : NodeType}
    (known : get? name (ownTypes false) = some style) :
    get? name (types settings sugar) = some style := by
  have apart : ∀ name ∈ names (ownTypes false), name ∉ names (ownTypes true) := by
    decide +kernel
  have absent : get? name (ownTypes true) = none :=
    Index.get?_eq_none_iff.mpr (apart name (Index.mem_names_of_get? known))
  have distinct (sugar : Bool) : (names (ownTypes sugar)).Nodup := by
    cases sugar <;> decide +kernel
  unfold types
  cases sugar with
  | false => cases settings.precedence <;> exact known
  | true =>
      cases settings.precedence with
      | parentWins =>
          simp only [if_true, Registry.mergeTypes]
          rw [Index.get?_merge _ (distinct false), known, Option.some_or]
      | childWins =>
          simp only [if_true, Registry.mergeTypes]
          rw [Index.get?_merge _ (distinct true), absent, known, Option.none_or]

theorem styles_types (settings : Settings) (sugar : Bool) : Styles (types settings sugar) where
  expressions name style known := by
    have apart : ∀ name ∈ names expressionTypes, name ∉ names statementTypes := by decide +kernel
    have absent : get? name statementTypes = none :=
      Index.get?_eq_none_iff.mpr (apart name (Index.mem_names_of_get? known))
    refine get?_types settings sugar ?_
    rw [get?_ownTypes, absent, known, Option.none_or]
  statements name style known := by
    refine get?_types settings sugar ?_
    rw [get?_ownTypes, known, Option.some_or]

theorem sweet_types (settings : Settings) {sugar : Bool} (sweet : sugar = true) :
    get? "UnlessStatement" (types settings sugar) = some Unless.nodeType := by
  subst sweet
  unfold types
  cases settings.precedence <;> rfl

def items (sugar : Bool) (source : String) : List Item :=
  (Token.landed ((lexicon sugar).tokenize source)).map Item.view

theorem items_tokens (sugar : Bool) (source : String) :
    (items sugar source).map Item.token = ((lexicon sugar).tokenize source).filter Token.isHard := by
  rw [items, List.map_map]
  exact Token.token_landedAfter [] _

theorem legible_items (sugar : Bool) (source : String) :
    Legible (lexicon sugar) (items sugar source) := by
  intro item member
  have among : item.token ∈ (items sugar source).map Item.token := List.mem_map_of_mem member
  rw [items_tokens] at among
  exact Lexicon.reads_of_tokenize (List.mem_filter.mp among).1

theorem parses (sugar : Bool) (tokens : List Token) :
    (peg sugar).Parses Item.view (rules sugar).parser tokens where
  onward _ _ found := ((rules_readBy sugar).grammar found).mono fun _ => ends_onward
  models := {
    token := fun _ => rfl
    rules := Grammar.get?_ofRules (rules sugar)
    unbounded := rfl
    heard := fun _ _ found =>
      ((rules_readBy sugar).grammar found).mono fun _ => hears_terminator sugar _ }

/-- The program is what the grammar derives from all the hard tokens of the text. -/
def ProgramOf (sugar : Bool) (source : String) (tree : Tree) : Prop :=
  Derives (peg sugar) (.pattern (.rule "Program")) (items sugar source) (some (tree, []))

/-- Every parse ends, with the program or with a syntax error where there is none. -/
theorem run_parsed (sugar : Bool) (source : String) (origin : Option String) :
    ∃ parsed log, (rules sugar).parser.run "Program" ((lexicon sugar).tokenize source) origin false =
        some (.parsed parsed log) ∧
      ∀ tree, parsed = .ok tree ↔ ProgramOf sugar source tree := by
  have own : "Program" ∈ Index.names (authored sugar) := by cases sugar <;> decide +kernel
  obtain ⟨result, derives⟩ := rule_ends sugar own (items sugar source)
  obtain ⟨verdict, ran, shows⟩ := (parses sugar _).run origin false derives
  have alone {tree : Tree} (program : ProgramOf sugar source tree) : result = some (tree, []) :=
    derives.unique program
  cases shows with
  | parsed =>
      refine ⟨_, _, ran, fun tree => ⟨?_, fun program => ?_⟩⟩
      · rintro ⟨⟩
        exact derives
      · cases alone program
        rfl
  | stopped left =>
      refine ⟨_, _, ran, fun tree => ⟨nofun, fun program => ?_⟩⟩
      cases alone program
      exact absurd rfl left
  | failed => exact ⟨_, _, ran, fun tree => ⟨nofun, fun program => nomatch alone program⟩⟩

theorem yields_parseSource {sugar : Bool} {source : String} {origin : Option String}
    {parsed : Except SyntaxError Tree} {log : List Nat}
    (ran : (rules sugar).parser.run "Program" ((lexicon sugar).tokenize source) origin false =
      some (.parsed parsed log)) :
    Yields settings (Registry.parseSource (dialectName sugar) source origin)
      (parsed.mapError .source) := by
  refine .find fun dialect keeps => ?_
  refine (yields_tokenize settings sugar source).bind ((yields_rulesParser settings sugar).bind ?_)
  rw [keeps.start, Dialect.defaultStart, ran]
  refine (yields_pure (parsed, log)).bind ?_
  cases parsed with
  | ok tree => exact yields_pure tree
  | error error => exact yields_throw (.source error)

theorem parseSource_cases (settings : Settings) (sugar : Bool) (source : String)
    (origin : Option String) :
    (∃ tree, ProgramOf sugar source tree ∧
        Yields settings (Registry.parseSource (dialectName sugar) source origin) (.ok tree)) ∨
      ∃ error, (∀ tree, ¬ ProgramOf sugar source tree) ∧
        Yields settings (Registry.parseSource (dialectName sugar) source origin)
          (.error (.source error)) := by
  obtain ⟨parsed, log, ran, same⟩ := run_parsed sugar source origin
  have yields : Yields settings _ _ := yields_parseSource ran
  cases parsed with
  | ok tree => exact .inl ⟨tree, (same tree).mp rfl, yields⟩
  | error error => exact .inr ⟨error, (fun tree program => nomatch (same tree).mpr program), yields⟩

theorem ProgramOf.yields {sugar : Bool} {source : String} {tree : Tree}
    (program : ProgramOf sugar source tree) (settings : Settings) (origin : Option String) :
    Yields settings (Registry.parseSource (dialectName sugar) source origin) (.ok tree) := by
  rcases parseSource_cases settings sugar source origin with
    ⟨found, same, yields⟩ | ⟨error, none, -⟩
  · cases same.unique program
    exact yields
  · exact absurd program (none tree)

theorem parseSource_ok_iff {sugar : Bool} {source : String} {origin : Option String} {tree : Tree} :
    outcome settings (Registry.parseSource (dialectName sugar) source origin) = .ok tree ↔
      ProgramOf sugar source tree := by
  rcases parseSource_cases settings sugar source origin with
    ⟨found, program, yields⟩ | ⟨error, none, yields⟩
  · refine ⟨fun same => ?_, fun programToo => (programToo.yields settings origin).outcome_eq⟩
    rw [yields.outcome_eq] at same
    cases same
    exact program
  · rw [yields.outcome_eq]
    exact ⟨nofun, fun program => absurd program (none tree)⟩

theorem ProgramOf.written {sugar : Bool} {source : String} {tree : Tree}
    (program : ProgramOf sugar source tree) (unit : String) :
    ∃ tokens, WrittenProgram (lexicon sugar) unit sugar tree tokens ∧
      Token.numerals ((lexicon sugar).tokenize source) = Token.numerals tokens ∧
      ¬ Dangles tree := by
  obtain ⟨tokens, written, ⟨read, whole, numbers⟩, placed⟩ :=
    program_sound (lexicon sugar) unit (legible_items sugar source) program
  rw [List.append_nil] at whole
  refine ⟨tokens, written, ?_, placed⟩
  rw [← numbers, ← whole, items_tokens, Token.numerals_hard]

end Parlance.Builtin
