import Parlance.Proofs.Builtin.Translation
import Parlance.Proofs.Evaluation.Extension

/-! Texts without the word `unless` mean the same in both dialects. They have the same tokens, and
the statement that `sugar` adds is tried where all others have failed, and fails without a move. -/

namespace Parlance.Builtin

open Index (get?)
open Statements (guarded)

variable {settings : Settings} {source : String} {origin : Option String} {tokens : List Token}

def unlessName : Token := .hard Lexicon.identifierClass "unless"

theorem isLiteral_base {word : String} (literal : (lexicon true).isLiteral word = true)
    (other : word ≠ "unless") : (lexicon false).isLiteral word = true := by
  have all : ∀ word ∈ keywords true, word ≠ "unless" → word ∈ keywords false := by decide
  simp only [lexicon_eq, Lexicon.isLiteral, Bool.or_eq_true, List.contains_iff_mem] at literal ⊢
  exact literal.imp_left fun listed => all word listed other

theorem classify_sugar {lexemeClass : LexemeClass} {text : String}
    (free : (lexicon false).classify lexemeClass text ≠ unlessName) :
    (lexicon true).classify lexemeClass text = (lexicon false).classify lexemeClass text := by
  cases lexemeClass with
  | whitespace | lineComment | blockComment | number | string => simp only [Lexicon.classify]
  | word =>
      simp only [Lexicon.classify] at free ⊢
      by_cases literal : (lexicon false).isLiteral text = true
      · rw [if_pos literal, if_pos (isLiteral_sugar literal)]
      · rw [if_neg literal] at free ⊢
        rw [if_neg fun sweet => literal (isLiteral_base sweet fun same => free (same ▸ rfl))]

theorem next_sugar {first : Char} {rest : List Char}
    (free : (lexicon false).next punctuation first rest ≠ unlessName) :
    (lexicon true).next punctuation first rest = (lexicon false).next punctuation first rest := by
  simp only [Lexicon.next] at free ⊢
  cases scanned : Lexeme.scan? (first :: rest) with
  | none => rfl
  | some found =>
      simp only [scanned] at free
      exact classify_sugar free

theorem tokensFrom_sugar {skip : Nat} {text : List Char}
    (free : unlessName ∉ (lexicon false).tokensFrom punctuation skip text) :
    (lexicon true).tokensFrom punctuation skip text =
      (lexicon false).tokensFrom punctuation skip text := by
  induction text generalizing skip with
  | nil => simp only [Lexicon.tokensFrom]
  | cons first rest ih =>
      cases skip with
      | succ skip => exact ih free
      | zero =>
          simp only [Lexicon.tokensFrom, List.mem_cons, not_or] at free ⊢
          rw [next_sugar (Ne.symm free.1), ih free.2]

theorem tokenize_sugar (free : unlessName ∉ (lexicon false).tokenize source) :
    (lexicon true).tokenize source = (lexicon false).tokenize source := by
  rw [Lexicon.tokenize_eq, lexicon_trie] at free ⊢
  rw [Lexicon.tokenize_eq, lexicon_trie, tokensFrom_sugar free]

theorem kind_tokenize {token : Token} (member : token ∈ (lexicon false).tokenize source) :
    token.kind? ≠ some "unless" := by
  intro kind
  have reads := Lexicon.reads_of_tokenize member
  rw [token_of_kind kind] at reads
  have literal := reads.isLiteral (by decide) (by decide)
  rw [lexicon_eq] at literal
  revert literal
  decide

def Unsweetened (tokens : List Token) : Prop := ∀ token ∈ tokens, token.kind? ≠ some "unless"

abbrev contextOf (sugar : Bool) (tokens : List Token) : ParseContext :=
  (rules sugar).parser.context tokens

theorem tokens_contextOf (sugar : Bool) (tokens : List Token) :
    (contextOf sugar tokens).tokens = tokens.toArray := rfl

theorem maxDepth_contextOf (sugar : Bool) (tokens : List Token) :
    (contextOf sugar tokens).maxDepth = none := rfl

theorem get?_contextOf (sugar : Bool) (tokens : List Token) (name : String) :
    get? name (contextOf sugar tokens).rules =
      (get? name (rules sugar)).map fun productions => (RuleSet.choiceOf productions).normalize := by
  show get? name (Grammar.ofRules (rules sugar)).normalized = _
  rw [Grammar.get?_normalized, Grammar.get?_ofRules, Option.map_map]
  rfl

theorem get?_statement_contextOf (sugar : Bool) (tokens : List Token) :
    get? "Statement" (contextOf sugar tokens).rules =
      some (.choice ((statementKinds sugar).map .rule)) := by
  rw [get?_contextOf, get?_statement]
  cases sugar <;> rfl

theorem get?_unless_contextOf (tokens : List Token) :
    get? "UnlessStatement" (contextOf true tokens).rules =
      some (.filter (.sequence (guarded "unless"))
        (.construct ⟨"UnlessStatement", ["test", "body"]⟩) (some 2)) := by
  rw [get?_contextOf, get?_unless]
  rfl

theorem matchKind_unless (free : Unsweetened tokens) (state : ParseState) :
    (contextOf true tokens).matchKind "unless" state = (.mismatch, state) := by
  unfold ParseContext.matchKind
  split
  next token peeked =>
    have among : token ∈ tokens.toArray := Array.mem_of_getElem? peeked
    rw [if_neg (free token (by simpa using among))]
  next => rfl

theorem unless_idle (free : Unsweetened tokens) (state : ParseState) :
    Evaluates (contextOf true tokens) (.alternatives [.rule "UnlessStatement"]) state .mismatch
      state := by
  have word : Evaluates (contextOf true tokens) (.pattern (.keyword "unless")) state.deeper
      .mismatch state.deeper := by
    have token := @Evaluates.token (contextOf true tokens) "unless" (some .keyword) state.deeper
    rw [matchKind_unless free] at token
    exact .ignore token
  have rule := Evaluates.rule (get?_unless_contextOf tokens) rfl
    (.filter (.sequence (.termFails word)))
  exact .nextAlternative rule .noAlternatives

/-- The rules of `sugar` come to whatever those of `base` come to, without the keyword. -/
theorem sugar_widens (free : Unsweetened tokens) :
    (contextOf true tokens).Widens (contextOf false tokens) where
  tokens := by rw [tokens_contextOf, tokens_contextOf]
  maxDepth := by rw [maxDepth_contextOf, maxDepth_contextOf]
  present := by
    intro name body found
    by_cases isStatement : name = "Statement"
    · subst isStatement
      rw [get?_statement_contextOf] at found
      cases found
      refine ⟨_, get?_statement_contextOf true tokens, fun evaluates => ?_⟩
      cases evaluates with
      | choice ran => exact .choice (ran.alternatives_append (unless_idle free))
    · have same : get? name (rules true) = get? name (rules false) := by
        rw [get?_sugar]
        split
        next => rfl
        next edits authored =>
          have listed : name = "Statement" ∨ name = "UnlessStatement" := by
            simpa [Index.names, unlessEdits] using Index.mem_names_of_get? authored
          obtain rfl := listed.resolve_left isStatement
          rw [get?_contextOf, get?_unless_base] at found
          cases found
      refine ⟨body, ?_, id⟩
      rw [get?_contextOf, same, ← get?_contextOf]
      exact found

/-- Where `base` ends with a tree or a syntax error, `sugar` ends with the same. -/
theorem run_sugar (free : Unsweetened tokens) {parsed : Except SyntaxError Tree} {log : List Nat}
    (ran : (rules false).parser.run "Program" tokens origin false = some (.parsed parsed log)) :
    (rules true).parser.run "Program" tokens origin false = some (.parsed parsed log) := by
  obtain ⟨⟨outcome, after⟩, ends, same⟩ := Option.map_eq_some_iff.mp ran
  have whole : outcome.Whole := by
    rintro fault rfl
    cases same
  have base : Evaluates (contextOf false tokens) (.pattern (.rule "Program"))
      ⟨.start tokens.toArray false, 0⟩ outcome after := Evaluates.iff_run.mpr ⟨_, ends⟩
  obtain ⟨fuel, again⟩ := Evaluates.iff_run.mp (base.extended whole (sugar_widens free))
  have ends : (rules true).parser.runWith fuel "Program" tokens origin false =
      some (.parsed parsed log) := by
    rw [← same]
    exact congrArg (Option.map (Parser.verdict tokens origin)) again
  exact Parser.run_of_runWith (parses true tokens).normalized ends

/-- A text in which no word is `unless` is parsed to the same tree or the same syntax error in both
dialects, and translated to the same text or the same syntax error. -/
theorem sugar_conservative (settings : Settings) (source : String) (origin : Option String)
    (free : ∀ token ∈ (lexicon false).tokenize source,
      token ≠ .hard Lexicon.identifierClass "unless") :
    outcome settings (Registry.parseSource (dialectName true) source origin) =
        outcome settings (Registry.parseSource (dialectName false) source origin) ∧
      outcome settings (Registry.translate (dialectName true) source origin) =
        outcome settings (Registry.translate (dialectName false) source origin) := by
  have absent : unlessName ∉ (lexicon false).tokenize source := fun member =>
    free _ member rfl
  obtain ⟨parsed, log, ran, isProgram⟩ := run_parsed false source origin
  have ranSugar := run_sugar (fun _ member => kind_tokenize member) ran
  rw [← tokenize_sugar absent] at ranSugar
  have base : Yields settings _ _ := yields_parseSource ran
  have sweet : Yields settings _ _ := yields_parseSource ranSugar
  refine ⟨by rw [base.outcome_eq, sweet.outcome_eq], ?_⟩
  cases parsed with
  | error error =>
      rw [Registry.translate, Registry.translate, (base.bind_error _).outcome_eq,
        (sweet.bind_error _).outcome_eq]
  | ok tree =>
      have program := (isProgram tree).mp rfl
      have programSugar : ProgramOf true source tree :=
        parseSource_ok_iff.mp sweet.outcome_eq
      obtain ⟨tokens, written, -⟩ := program.written settings.indentUnit
      have same (sugar : Bool) := written.unchanged (styles_types settings sugar)
      rw [(program.yields_translate origin (same false) written).outcome_eq,
        (programSugar.yields_translate origin (same true) written).outcome_eq]

theorem sugar_conservative_conditional :
    (∀ token ∈ (lexicon false).tokenize "if (a) b; else c",
        token ≠ .hard Lexicon.identifierClass "unless") ∧
      outcome .defaults (Registry.parseSource (dialectName true) "if (a) b; else c" none) =
        outcome .defaults (Registry.parseSource (dialectName false) "if (a) b; else c" none) ∧
      outcome .defaults (Registry.translate (dialectName true) "if (a) b; else c" none) =
        outcome .defaults (Registry.translate (dialectName false) "if (a) b; else c" none) := by
  have free : ∀ token ∈ (lexicon false).tokenize "if (a) b; else c",
      token ≠ .hard Lexicon.identifierClass "unless" := by
    rw [lexicon_eq]
    decide +kernel
  exact ⟨free, sugar_conservative .defaults _ none free⟩

end Parlance.Builtin
