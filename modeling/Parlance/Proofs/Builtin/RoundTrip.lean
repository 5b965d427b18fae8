import Parlance.Proofs.Builtin.BareDot
import Parlance.Proofs.Builtin.Outcomes
import Parlance.Proofs.Builtin.Rereading
import Parlance.Proofs.Builtin.StatementAccepting

/-! Reading back what has been written. A program that is written out is read as the same program
unless an `else` in it is misplaced, or a member is named behind a dot and a whole number. -/

namespace Parlance.Builtin

open Token (clashes numerals)

variable {settings : Settings} {lexicon : Lexicon} {unit : String} {sugar : Bool} {tree : Tree}
  {tokens : List Token} {source : String}

theorem WrittenProgram.rereads (written : WrittenProgram lexicon unit sugar tree tokens)
    (blank : Blank unit) (knows : Knows sugar lexicon) :
    (Builtin.lexicon sugar).Rereads tokens [] := by
  cases written with
  | empty => trivial
  | statements body => exact body.rereads blank knows id [] (Lexeme.stops_nil _)

theorem WrittenProgram.clashes_iff (written : WrittenProgram lexicon unit sugar tree tokens) :
    clashes tokens = true ↔ BareDot tree := by
  cases written with
  | empty =>
      rw [program, bareDot_node (.one (by decide)) (by decide)]
      simp
  | statements body =>
      rw [program, bareDot_node (.one (by decide)) (by decide), body.clashes_iff]
      simp

/-- Where no whole number takes a dot, what is written is read as the tokens that it was written as,
and so as the program. -/
theorem WrittenProgram.programOf_iff (written : WrittenProgram lexicon unit sugar tree tokens)
    (blank : Blank unit) (knows : Knows sugar lexicon) (apart : clashes tokens = false) :
    ProgramOf sugar (Token.join tokens) tree ↔ ¬ Dangles tree := by
  constructor
  · intro program
    obtain ⟨_, -, -, placed⟩ := program.written unit
    exact placed
  · intro placed
    have same := Lexicon.tokenize_join (written.rereads blank knows) apart
    refine written.accepted placed ?_
    show (items sugar (Token.join tokens)).map Item.token = tokens.filter Token.isHard
    rw [items_tokens, same]

theorem WrittenProgram.not_programOf
    (written : WrittenProgram (Builtin.lexicon sugar) unit sugar tree tokens) (blank : Blank unit)
    (clash : clashes tokens = true) : ¬ ProgramOf sugar (Token.join tokens) tree := by
  intro program
  obtain ⟨more, writtenToo, numbers, -⟩ := program.written unit
  have rereads := written.rereads blank fun _ _ _ reads => reads
  refine Lexicon.numerals_tokenize_ne rereads clash (numbers.trans ?_)
  exact writtenToo.numerals_eq written (styles_types .defaults sugar) (sweet_types .defaults)

theorem Written.programOf (written : Written lexicon unit sugar .statement 0 tree tokens)
    (placed : ¬ Dangles tree)
    (read : ((Builtin.lexicon sugar).tokenize source).filter Token.isHard =
      tokens.filter Token.isHard) : ProgramOf sugar source (program [tree]) := by
  have body : WrittenProgram lexicon unit sugar (program [tree]) tokens :=
    .statements (.statement written)
  have placedAll : ¬ Dangles (.list [tree]) := not_dangles_list (by simpa using placed)
  refine body.accepted ?_ ((items_tokens sugar source).trans read)
  exact not_dangles_node (.one (by decide)) (by decide) (by simpa using placedAll)

/-- A program that was parsed is written out, and what is written is parsed to the same program
exactly when no member in it is named behind a dot and a whole number. -/
theorem parse_unparse_iff (blank : Blank settings.indentUnit) (origin again : Option String)
    (parsed : outcome settings (Registry.parseSource (dialectName sugar) source origin) =
      .ok tree) :
    ∃ text, outcome settings (Registry.unparse (dialectName sugar) tree) = .ok text ∧
      (outcome settings (Registry.parseSource (dialectName sugar) text again) = .ok tree ↔
        ¬ BareDot tree) := by
  obtain ⟨tokens, written, -, placed⟩ :=
    (parseSource_ok_iff.mp parsed).written settings.indentUnit
  refine ⟨Token.join tokens, ?_, ?_⟩
  · rw [(yields_unparse settings sugar tree).outcome_eq,
      written.unparsed (styles_types settings sugar) (sweet_types settings)]
    rfl
  · rw [parseSource_ok_iff, ← written.clashes_iff]
    cases clash : clashes tokens with
    | true => simpa using written.not_programOf blank clash
    | false =>
        have program := written.programOf_iff blank (fun _ _ _ reads => reads) clash
        simpa using program.mpr placed

/-- A member of a whole number, named behind a dot. -/
def wholeMember : Tree := memberOf (numericLiteral (.text "1")) (identifier "x") false

def wholeMemberStatement : Tree := .node "ExpressionStatement" [("expression", wholeMember)]

theorem wholeMember_formula : Formula (Builtin.lexicon false) .assignment wholeMember
    [.hard Lexicon.numberClass "1", .literal ".", .hard Lexicon.identifierClass "x"] := by
  have number : (Builtin.lexicon false).Reads (.hard Lexicon.numberClass "1") := by
    rw [lexicon_eq]
    exact ⟨'1', [], by decide⟩
  have name : (Builtin.lexicon false).Reads (.hard Lexicon.identifierClass "x") := by
    rw [lexicon_eq]
    exact ⟨'x', [], by decide⟩
  exact .ofSuffixed (.member (.suffixed (.number number)) name)

/-- A blank keeps the dot from the digits. -/
theorem wholeMember_parsed :
    outcome .defaults (Registry.parseSource (dialectName false) "1 .x;" none) =
      .ok (program [wholeMemberStatement]) := by
  have statement : Written (Builtin.lexicon false) "" false .statement 0 wholeMemberStatement _ :=
    .expression wholeMember_formula
  refine parseSource_ok_iff.mpr (statement.programOf ?_ ?_)
  · have placed := wholeMember_formula.not_dangles
    exact not_dangles_node (.one (by decide)) (by decide) (by simpa using placed)
  · rw [lexicon_eq]
    decide

theorem parse_unparse_iff_wholeMember :
    Blank Settings.defaults.indentUnit ∧
      outcome .defaults (Registry.parseSource (dialectName false) "1 .x;" none) =
        .ok (program [wholeMemberStatement]) ∧
      ∃ text, outcome .defaults
          (Registry.unparse (dialectName false) (program [wholeMemberStatement])) = .ok text ∧
        (outcome .defaults (Registry.parseSource (dialectName false) text none) =
          .ok (program [wholeMemberStatement]) ↔ ¬ BareDot (program [wholeMemberStatement])) :=
  ⟨blank_defaults, wholeMember_parsed,
    parse_unparse_iff blank_defaults none none wholeMember_parsed⟩

/-- The blank is not written again, and what is written is parsed to no such program. -/
theorem wholeMember_not_reparsed :
    outcome .defaults (Registry.parseSource (dialectName false) "1 .x;" none) =
        .ok (program [wholeMemberStatement]) ∧
      outcome .defaults (Registry.unparse (dialectName false) (program [wholeMemberStatement])) =
        .ok "1.x;" ∧
      outcome .defaults (Registry.parseSource (dialectName false) "1.x;" none) ≠
        .ok (program [wholeMemberStatement]) := by
  have written : WrittenProgram (Builtin.lexicon false) Settings.defaults.indentUnit false
      (program [wholeMemberStatement]) _ :=
    .statements (.statement (.expression wholeMember_formula))
  refine ⟨wholeMember_parsed, ?_, fun parsed => ?_⟩
  · rw [(yields_unparse .defaults false _).outcome_eq,
      written.unparsed (styles_types .defaults false) nofun]
    exact congrArg Except.ok (by decide +kernel)
  · exact written.not_programOf blank_defaults (by decide +kernel) (parseSource_ok_iff.mp parsed)

end Parlance.Builtin
