import Parlance.Proofs.Builtin.RoundTrip
import Parlance.Proofs.Builtin.Translating

/-! Translating source text. Nothing but a syntax error stands in the way of the output, and `base`
reads the output as the translated program unless an `else` in it has come to stand behind an `if`
that was an `unless`. -/

namespace Parlance.Builtin

variable {settings : Settings} {sugar : Bool} {source : String} {tree : Tree}

theorem ProgramOf.translated (program : ProgramOf sugar source tree) (settings : Settings) :
    ∃ result tokens, tree.translate (types settings sugar) = .ok result ∧
      WrittenProgram (lexicon sugar) settings.indentUnit false result tokens ∧
      Token.numerals tokens = Token.numerals ((lexicon sugar).tokenize source) := by
  obtain ⟨tokens, written, numbers, -⟩ := program.written settings.indentUnit
  have styles := styles_types settings sugar
  cases sugar with
  | false => exact ⟨tree, tokens, written.unchanged styles, written, numbers.symm⟩
  | true =>
      obtain ⟨result, more, translated, writtenToo, same⟩ :=
        written.translated styles (sweet_types settings rfl)
      exact ⟨result, more, translated, writtenToo, same.trans numbers.symm⟩

theorem ProgramOf.yields_translate (program : ProgramOf sugar source tree) (origin : Option String)
    {result : Tree} {tokens : List Token} {reader : Bool}
    (translated : tree.translate (types settings sugar) = .ok result)
    (written : WrittenProgram (lexicon reader) settings.indentUnit false result tokens) :
    Yields settings (Registry.translate (dialectName sugar) source origin)
      (.ok (Token.join tokens)) := by
  have unparsed := written.unparsed (styles_types settings sugar) nofun
  have first := yields_translateTree settings sugar tree
  have second := yields_unparse settings sugar result
  rw [translated] at first
  rw [unparsed] at second
  exact (program.yields settings origin).bind (first.bind second)

/-- Whatever the settings, a text of a built-in dialect is translated if it can be parsed, and else
the syntax error of the parse is all that comes of it. -/
theorem translate_or_syntaxError (settings : Settings) (sugar : Bool) (source : String)
    (origin : Option String) :
    (∃ tree text,
        outcome settings (Registry.parseSource (dialectName sugar) source origin) = .ok tree ∧
          outcome settings (Registry.translate (dialectName sugar) source origin) = .ok text) ∨
      ∃ error,
        outcome settings (Registry.parseSource (dialectName sugar) source origin) =
            .error (.source error) ∧
          outcome settings (Registry.translate (dialectName sugar) source origin) =
            .error (.source error) := by
  rcases parseSource_cases settings sugar source origin with
    ⟨tree, program, parsed⟩ | ⟨error, -, fails⟩
  · obtain ⟨result, tokens, translated, written, -⟩ := program.translated settings
    exact .inl ⟨tree, _, parsed.outcome_eq,
      (program.yields_translate origin translated written).outcome_eq⟩
  · exact .inr ⟨error, fails.outcome_eq, (fails.bind_error _).outcome_eq⟩

theorem numerals_of_plain {tokens : List Token}
    (plain : ∀ token ∈ tokens, token.kind? ≠ some Lexicon.numberClass) :
    Token.numerals tokens = [] := by
  refine List.filterMap_eq_nil_iff.mpr fun token member => ?_
  cases token with
  | soft => rfl
  | hard kind text =>
      have other : kind ≠ Lexicon.numberClass := fun same => plain _ member (congrArg some same)
      rw [Token.numeral?, if_neg other]

/-- Where a text of `sugar` has no numbers, its translation is a text of `base`, and of the
translated program exactly when no `else` in that is misplaced. -/
theorem translate_parse_iff (blank : Blank settings.indentUnit) (origin again : Option String)
    (parsed : outcome settings (Registry.parseSource (dialectName true) source origin) = .ok tree)
    (plain : ∀ token ∈ (lexicon true).tokenize source,
      token.kind? ≠ some Lexicon.numberClass) :
    ∃ result text,
      outcome settings (Registry.translateTree (dialectName true) tree) = .ok result ∧
      outcome settings (Registry.translate (dialectName true) source origin) = .ok text ∧
      (outcome settings (Registry.parseSource (dialectName false) text again) = .ok result ↔
        ¬ Dangles result) := by
  have program := parseSource_ok_iff.mp parsed
  obtain ⟨result, tokens, translated, written, numbers⟩ := program.translated settings
  have apart : Token.clashes tokens = false :=
    Token.clashes_of_numerals (numbers.trans (numerals_of_plain plain))
  refine ⟨result, Token.join tokens, ?_,
    (program.yields_translate origin translated written).outcome_eq, ?_⟩
  · rw [(yields_translateTree settings true tree).outcome_eq, translated]
    rfl
  · have knows : Knows false (lexicon true) := fun _ _ isClass reads => reads_base reads isClass
    rw [parseSource_ok_iff, written.programOf_iff blank knows apart]

def nameStatement (name : String) : Tree :=
  .node "ExpressionStatement" [("expression", identifier name)]

/-- An `else` that stands behind an `unless`, and belongs to the `if` before it. -/
def elseBehindUnless : Tree :=
  branch (identifier "a") (unlessNode (identifier "b") (nameStatement "c")) (nameStatement "d")

def elseBehindIf : Tree :=
  branch (identifier "a") (branch (negated (identifier "b")) (nameStatement "c") .null)
    (nameStatement "d")

theorem name_formula {name : String} (listed : name ∈ ["a", "b", "c", "d"]) :
    Formula (lexicon true) .assignment (identifier name)
      [.hard Lexicon.identifierClass name] := by
  refine .ofSuffixed (.suffixed (.identifier ?_))
  rw [lexicon_eq]
  simp only [List.mem_cons, List.not_mem_nil, or_false] at listed
  rcases listed with rfl | rfl | rfl | rfl
  · exact ⟨'a', [], by decide⟩
  · exact ⟨'b', [], by decide⟩
  · exact ⟨'c', [], by decide⟩
  · exact ⟨'d', [], by decide⟩

theorem nameStatement_placed {name : String} (listed : name ∈ ["a", "b", "c", "d"]) :
    ¬ Dangles (nameStatement name) := by
  have placed := (name_formula listed).not_dangles
  exact not_dangles_node (.one (by decide)) (by decide) (by simpa using placed)

theorem elseBehindUnless_parsed :
    outcome .defaults (Registry.parseSource (dialectName true) "if (a) unless (b) c; else d;" none) =
      .ok (program [elseBehindUnless]) := by
  have written : Written (lexicon true) "" true .statement 0 elseBehindUnless _ :=
    .conditionalElse (name_formula (by decide))
      (.inverted rfl (name_formula (by decide)) (.expression (name_formula (by decide))))
      (.expression (name_formula (by decide)))
  refine parseSource_ok_iff.mpr (written.programOf ?_ ?_)
  · rw [elseBehindUnless, dangles_branch]
    rintro (⟨-, leaves⟩ | test | avoided | otherwise)
    · exact not_leavesElse (.one (by decide)) (by decide) leaves.of_unless
    · exact (name_formula (by decide)).not_dangles test
    · have tested : ¬ Dangles (identifier "b") := (name_formula (by decide)).not_dangles
      have body : ¬ Dangles (nameStatement "c") := nameStatement_placed (by decide)
      exact not_dangles_node guarded_distinct (by decide) (by simp [tested, body]) avoided
    · exact nameStatement_placed (by decide) otherwise
  · rw [lexicon_eq]
    decide

theorem elseBehindUnless_translated (settings : Settings) :
    (program [elseBehindUnless]).translate (types settings true) =
      .ok (program [elseBehindIf]) := by
  have styles := styles_types settings true
  have name (word : String) := identifier_translated styles word
  have statement (word : String) :
      (nameStatement word).translate (types settings true) = .ok (nameStatement word) :=
    Tree.translate_same (styles.statements _ _ rfl) rfl (.one (by decide)) (by simp [name])
  have avoided := unless_translated (sweet_types settings rfl) (name "b") (statement "c")
  have whole : elseBehindUnless.translate (types settings true) = .ok elseBehindIf := by
    rw [elseBehindUnless, branch, Tree.translate_node (styles.statements _ _ rfl) rfl
      branch_distinct (by simp [name, statement, avoided])]
    simp only [Tree.translatedFields, List.map_cons, List.map_nil, Tree.translated_eq (name _),
      Tree.translated_eq avoided, Tree.translated_eq (statement _)]
    rfl
  exact program_translated styles (Tree.translate_cons whole Tree.translate_nil)

theorem elseBehindIf_dangles : Dangles (program [elseBehindIf]) := by
  have here : Dangles elseBehindIf :=
    dangles_branch.mpr (.inl ⟨Tree.node_ne_null _ _, .conditional _ _⟩)
  have body : Dangles (.list [elseBehindIf]) :=
    (misplaces_ofTypes.ofNodes.list_iff _).mpr ⟨_, List.mem_singleton_self _, here⟩
  exact dangles_of_field (.one (by decide)) (List.mem_singleton_self _) body

theorem translate_parse_iff_elseBehindUnless :
    Blank Settings.defaults.indentUnit ∧
      outcome .defaults
          (Registry.parseSource (dialectName true) "if (a) unless (b) c; else d;" none) =
        .ok (program [elseBehindUnless]) ∧
      ∃ result text,
        outcome .defaults
            (Registry.translateTree (dialectName true) (program [elseBehindUnless])) =
          .ok result ∧
        outcome .defaults
            (Registry.translate (dialectName true) "if (a) unless (b) c; else d;" none) =
          .ok text ∧
        (outcome .defaults (Registry.parseSource (dialectName false) text none) = .ok result ↔
          ¬ Dangles result) := by
  refine ⟨blank_defaults, elseBehindUnless_parsed,
    translate_parse_iff blank_defaults none none elseBehindUnless_parsed ?_⟩
  rw [lexicon_eq]
  decide +kernel

/-- What was an `unless` takes the `else` that stands behind it. -/
theorem elseBehindUnless_misread :
    outcome .defaults (Registry.parseSource (dialectName true) "if (a) unless (b) c; else d;" none) =
        .ok (program [elseBehindUnless]) ∧
      outcome .defaults (Registry.translateTree (dialectName true) (program [elseBehindUnless])) =
        .ok (program [elseBehindIf]) ∧
      outcome .defaults (Registry.translate (dialectName true) "if (a) unless (b) c; else d;" none) =
        .ok "if (a) if (!(b)) c; else d;" ∧
      outcome .defaults
          (Registry.parseSource (dialectName false) "if (a) if (!(b)) c; else d;" none) ≠
        .ok (program [elseBehindIf]) := by
  have written : Written (lexicon true) Settings.defaults.indentUnit false .statement 0
      elseBehindIf _ :=
    .conditionalElse (name_formula (by decide))
      (.conditional (name_formula (by decide)).negated (.expression (name_formula (by decide))))
      (.expression (name_formula (by decide)))
  have program := parseSource_ok_iff.mp elseBehindUnless_parsed
  have translated := elseBehindUnless_translated .defaults
  refine ⟨elseBehindUnless_parsed, ?_, ?_, fun parsed => ?_⟩
  · rw [(yields_translateTree .defaults true _).outcome_eq, translated]
    rfl
  · rw [(program.yields_translate none translated (.statements (.statement written))).outcome_eq]
    exact congrArg Except.ok (by decide +kernel)
  · obtain ⟨_, -, -, placed⟩ := (parseSource_ok_iff.mp parsed).written ""
    exact placed elseBehindIf_dangles

end Parlance.Builtin
