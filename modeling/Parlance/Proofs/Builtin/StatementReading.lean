import Parlance.Proofs.Builtin.Assembly
import Parlance.Proofs.Builtin.Reading
import Parlance.Proofs.Builtin.Written

/-! What the grammar reads as a statement is one, and no `else` in it is misplaced: an `if` takes an
`else` behind it whenever there is one. -/

namespace Parlance.Builtin

open Derives
open Token (numerals)

variable {lexicon : Lexicon} {unit : String} {sugar : Bool} {bound : Nat}
  {input middle rest : List Item} {value : Tree} {values : List Tree}

/-- What is known of a value that is read as a statement. -/
structure Judged (lexicon : Lexicon) (unit : String) (sugar : Bool) (value : Tree)
    (input rest : List Item) : Prop where
  written : ∀ level, ∃ tokens, Written lexicon unit sugar .statement level value tokens ∧
    Consumed input rest tokens
  shorter : rest.length < input.length
  closed : LeavesElse value → Derives (peg sugar) (.pattern elseClause) rest none
  placed : ¬ Dangles value

def Judges (lexicon : Lexicon) (unit : String) (sugar : Bool) (bound : Nat) : Prop :=
  ∀ input value rest, input.length < bound → Legible lexicon input →
    Derives (peg sugar) (.pattern (.rule "Statement")) input (some (value, rest)) →
    Judged lexicon unit sugar value input rest

theorem Consumed.widen {read : List Item} {tokens : List Token} (rest : List Item)
    (same : numerals (read.map Item.token) = numerals tokens) :
    Consumed (read ++ rest) rest tokens := ⟨read, rfl, same⟩

theorem Terminated.consumed (ends : Terminated input rest) (legible : Legible lexicon input) :
    Consumed input rest [.literal ";"] := by
  cases ends with
  | closed closes => exact legible.consumed closes (by decide)
  | unclosed => exact (Consumed.refl _).congr (Token.numerals_literal (by decide) []).symm

theorem Legible.construed {hards : List Token} (legible : Legible lexicon input)
    (construed : Construed .assignment value hards)
    (takes : Takes (peg sugar) input rest hards) :
    ∃ tokens, Formula lexicon .assignment value tokens ∧ Consumed input rest tokens := by
  obtain ⟨read, rfl, rfl⟩ := takes
  have reads : ∀ token ∈ read.map Item.token, lexicon.Reads token := by
    intro token member
    obtain ⟨item, among, rfl⟩ := List.mem_map.mp member
    exact legible item (List.mem_append_left _ among)
  obtain ⟨tokens, formula, same⟩ := construed.written reads
  refine ⟨tokens, formula, Consumed.widen rest ?_⟩
  rw [← Token.numerals_hard tokens, same]
  rfl

theorem assignment_read (legible : Legible lexicon input)
    (derives : Derives (peg sugar) (.pattern (.rule "AssignmentExpression")) input
      (some (value, rest))) :
    ∃ tokens, Formula lexicon .assignment value tokens ∧ Consumed input rest tokens ∧
      rest.length < input.length := by
  obtain ⟨hards, construed, takes, less⟩ :=
    assignment_sound (input.length + 1) _ _ _ (Nat.lt_succ_self _) derives
  obtain ⟨tokens, formula, consumed⟩ := legible.construed construed takes
  exact ⟨tokens, formula, consumed, less⟩

theorem expression_read (legible : Legible lexicon input)
    (derives : Derives (peg sugar) (.pattern (.rule "Expression")) input (some (value, rest))) :
    ∃ tokens, Formula lexicon .assignment value tokens ∧ Consumed input rest tokens ∧
      rest.length < input.length :=
  assignment_read legible (expression_some derives)

theorem identifier_read (legible : Legible lexicon input)
    (derives : Derives (peg sugar) (.pattern (.rule "Identifier")) input (some (value, rest))) :
    ∃ name, value = identifier name ∧ lexicon.Reads (.hard Lexicon.identifierClass name) ∧
      Consumed input rest [.hard Lexicon.identifierClass name] ∧ rest.length < input.length := by
  obtain ⟨name, rfl, ⟨read, rfl, same⟩, less⟩ := identifier_some derives
  obtain ⟨item, rfl, token⟩ := List.map_eq_singleton_iff.mp same
  have reads := legible item (List.mem_cons_self ..)
  have consumed := Consumed.item item rest
  rw [show item.token = _ from token] at reads consumed
  exact ⟨name, rfl, reads, consumed, less⟩

theorem statements_sound (judges : Judges lexicon unit sugar bound) {first : Tree}
    {start : List Item} (judged : Judged lexicon unit sugar first start input)
    (laps : Laps (peg sugar) (.rule "Statement") .empty input values rest)
    (within : input.length < bound) (legible : Legible lexicon input) :
    (∀ level, ∃ tokens,
      Written lexicon unit sugar .statements level (.list (first :: values)) tokens ∧
        Consumed start rest tokens) ∧
      rest.length < start.length ∧ ¬ Dangles (.list (first :: values)) := by
  induction laps generalizing first start with
  | done =>
      refine ⟨fun level => ?_, judged.shorter, not_dangles_list (by simpa using judged.placed)⟩
      obtain ⟨tokens, written, consumed⟩ := judged.written level
      exact ⟨tokens, .statement written, consumed⟩
  | lap parted again moved _ ih =>
      obtain ⟨-, rfl⟩ := empty_some.mp parted
      have next := judges _ _ _ within legible again
      obtain ⟨tokens, written, consumed⟩ := next.written 0
      obtain ⟨later, shorter, placed⟩ :=
        ih next (next.shorter.trans within) (consumed.legible legible)
      refine ⟨fun level => ?_, shorter.trans judged.shorter, not_dangles_list ?_⟩
      · obtain ⟨tokens, written, consumed⟩ := judged.written level
        obtain ⟨more, writtenToo, consumedToo⟩ := later level
        exact ⟨_, .nextStatement written writtenToo,
          (consumed.trans consumedToo).congr (by simp [lineBreak])⟩
      · intro item member
        rcases List.mem_cons.mp member with rfl | member
        · exact judged.placed
        · exact fun dangles => placed
            ((misplaces_ofTypes.ofNodes.list_iff _).mpr ⟨item, member, dangles⟩)

theorem star_sound (judges : Judges lexicon unit sugar bound)
    (within : input.length < bound) (legible : Legible lexicon input)
    (derives : Derives (peg sugar) (.pattern (.star (.rule "Statement") none)) input
      (some (value, rest))) :
    (value = .list [] ∧ rest = input) ∨
      ∃ values, value = .list values ∧ (∀ level, ∃ tokens,
        Written lexicon unit sugar .statements level (.list values) tokens ∧
          Consumed input rest tokens) ∧
        rest.length < input.length ∧ ¬ Dangles (.list values) := by
  rcases statements_some derives with ⟨first, middle, values, rfl, begins, laps⟩ | ⟨rfl, rfl⟩
  · have judged := judges _ _ _ within legible begins
    obtain ⟨tokens, written, consumed⟩ := judged.written 0
    exact .inr ⟨_, rfl, statements_sound judges judged laps (judged.shorter.trans within)
      (consumed.legible legible)⟩
  · exact .inl ⟨rfl, rfl⟩

theorem block_judged (judges : Judges lexicon unit sugar bound) {body : Tree}
    {opening closing : Item} {inside : List Item} (opens : opening.token.kind? = some "\x7b")
    (inner : Derives (peg sugar) (.pattern (.star (.rule "Statement") none)) inside
      (some (body, closing :: rest)))
    (closes : closing.token.kind? = some "\x7d") (within : inside.length < bound)
    (legible : Legible lexicon (opening :: inside)) :
    Judged lexicon unit sugar (.node "BlockStatement" [("body", body)]) (opening :: inside) rest := by
  have before := legible.consumed opens (by decide)
  have ends : ¬ LeavesElse (.node "BlockStatement" [("body", body)]) :=
    not_leavesElse (.one (by decide)) (by decide)
  rcases star_sound judges within legible.tail inner with
    ⟨rfl, same⟩ | ⟨values, rfl, written, less, placed⟩
  · subst same
    have behind := legible.tail.consumed closes (by decide)
    refine ⟨fun level => ⟨_, .emptyBlock, before.trans behind⟩, ?_,
      fun leaves => absurd leaves ends, ?_⟩
    · simp only [List.length_cons]
      omega
    · have none : ¬ Dangles (.list []) := not_dangles_list nofun
      exact not_dangles_node (.one (by decide)) (by decide) (by simpa using none)
  · refine ⟨fun level => ?_, ?_, fun leaves => absurd leaves ends, ?_⟩
    · obtain ⟨tokens, body, consumed⟩ := written (level + 1)
      have behind := (consumed.legible legible.tail).consumed closes (by decide)
      refine ⟨_, .block body, ((before.trans consumed).trans behind).congr
        (Token.numerals_congr ?_)⟩
      simp [lineBreak, List.filter_cons]
    · simp only [List.length_cons] at less ⊢
      omega
    · exact not_dangles_node (.one (by decide)) (by decide) (by simpa using placed)

theorem declarator_sound (legible : Legible lexicon input)
    (derives : Derives (peg sugar) (.pattern (.rule "VariableDeclarator")) input
      (some (value, rest))) (level : Nat) :
    ∃ tokens, Written lexicon unit sugar .declarator level value tokens ∧
      Consumed input rest tokens ∧ rest.length < input.length ∧ ¬ Dangles value := by
  have placed {name : String} (reads : lexicon.Reads (.hard Lexicon.identifierClass name))
      (init : Tree) (none : ¬ Dangles init) : ¬ Dangles (declarator name init) := by
    have plain : ¬ Dangles (identifier name) := (Formula.identifier reads).not_dangles
    exact not_dangles_node (.two (by decide)) (by decide) (by simp [plain, none])
  cases declarator_dissected derives with
  | bare names _ =>
      obtain ⟨name, rfl, reads, consumed, less⟩ := identifier_read legible names
      exact ⟨_, .bareDeclarator reads, consumed, less, placed reads .null not_dangles_null⟩
  | initialized names equals source =>
      obtain ⟨name, rfl, reads, consumed, less⟩ := identifier_read legible names
      have legibleToo := consumed.legible legible
      have between := legibleToo.consumed equals (by decide)
      obtain ⟨tokens, formula, consumedToo, lessToo⟩ := assignment_read legibleToo.tail source
      refine ⟨_, .initialized reads formula, ((consumed.trans between).trans consumedToo).congr
        (Token.numerals_congr ?_), ?_, placed reads _ formula.not_dangles⟩
      · simp [spaced, List.filter_cons]
      · simp only [List.length_cons] at less
        omega

theorem declarators_sound
    (laps : Laps (peg sugar) (.rule "VariableDeclarator") (.ignoredToken ",") input values rest)
    (legible : Legible lexicon input) (level : Nat) {tree : Tree} {before : List Token}
    (written : Written lexicon unit sugar .declarator level tree before)
    (placed : ¬ Dangles tree) :
    ∃ tokens, Written lexicon unit sugar .declarators level (.list (tree :: values))
        (before ++ tokens) ∧ Consumed input rest tokens ∧ ¬ Dangles (.list (tree :: values)) := by
  induction laps generalizing tree before with
  | done =>
      exact ⟨[], by simpa using Written.declarator written, .refl _,
        not_dangles_list (by simpa using placed)⟩
  | lap parted again moved _ ih =>
      obtain ⟨-, text, parted⟩ := ignore_some.mp parted
      obtain ⟨item, rfl, fits, -⟩ := token_some.mp parted
      have separated := legible.consumed fits (by decide)
      obtain ⟨tokens, next, consumed, less, placedNext⟩ := declarator_sound legible.tail again level
      obtain ⟨more, later, consumedToo, placedLater⟩ :=
        ih (consumed.legible legible.tail) next placedNext
      refine ⟨comma ++ (tokens ++ more), ?_, ?_, not_dangles_list fun item member => ?_⟩
      · rw [← List.append_assoc]
        exact .nextDeclarator written later
      · exact (separated.trans (consumed.trans consumedToo)).congr rfl
      · rcases List.mem_cons.mp member with rfl | member
        · exact placed
        · exact fun dangles => placedLater
            ((misplaces_ofTypes.ofNodes.list_iff _).mpr ⟨item, member, dangles⟩)

theorem declaration_judged (unit : String) {item : Item} {kind : String} {first : Tree}
    {behind between after : List Item} (isKind : kind ∈ declarationKinds)
    (fits : item.token.kind? = some kind)
    (begins : Derives (peg sugar) (.pattern (.rule "VariableDeclarator")) behind
      (some (first, between)))
    (laps : Laps (peg sugar) (.rule "VariableDeclarator") (.ignoredToken ",") between values after)
    (ends : Terminated after rest) (legible : Legible lexicon (item :: behind)) :
    Judged lexicon unit sugar (.node "VariableDeclaration"
      [("kind", .text item.token.text), ("declarations", .list (first :: values))])
      (item :: behind) rest := by
  have plain : ∀ kind ∈ declarationKinds, ¬ Lexicon.IsClass kind := by decide
  have before := legible.consumed fits (plain kind isKind)
  have known (level : Nat) : ∃ tokens,
      Written lexicon unit sugar .declarators level (.list (first :: values)) tokens ∧
        Consumed behind after tokens ∧ after.length < behind.length ∧
        ¬ Dangles (.list (first :: values)) := by
    obtain ⟨tokens, written, consumed, less, placed⟩ :=
      @declarator_sound _ unit _ _ _ _ legible.tail begins level
    obtain ⟨more, writtenToo, consumedToo, placedToo⟩ :=
      declarators_sound laps (consumed.legible legible.tail) level written placed
    have shorter := consumedToo.le
    exact ⟨_, writtenToo, consumed.trans consumedToo, by omega, placedToo⟩
  obtain ⟨tokens, -, consumed, less, placed⟩ := known 0
  have ended := ends.consumed (consumed.legible legible.tail)
  have shorter := ended.le
  rw [show item.token = _ from legible.literal fits (plain kind isKind)]
  show Judged lexicon unit sugar (.node "VariableDeclaration"
    [("kind", .text kind), ("declarations", .list (first :: values))]) _ rest
  refine ⟨fun level => ?_, ?_, fun leaves => ?_, ?_⟩
  · obtain ⟨tokens, written, consumed, -⟩ := known level
    refine ⟨_, .declaration isKind written, ((before.trans consumed).trans ended).congr
      (Token.numerals_congr ?_)⟩
    simp [List.filter_cons]
  · simp only [List.length_cons] at less ⊢
    omega
  · exact absurd leaves (not_leavesElse (.two (by decide)) (by decide))
  · have text : ¬ Dangles (.text kind) := misplaces_ofTypes.ofNodes.not_text kind
    exact not_dangles_node (.two (by decide)) (by decide) (by simp [text, placed])

theorem Guarded.judged (judges : Judges lexicon unit sugar bound) {word : String}
    (plain : ¬ Lexicon.IsClass word) {test body : Tree} (within : input.length < bound + 1)
    (legible : Legible lexicon input) (guarded : Guarded sugar word test body input middle) :
    ∃ behind tokens, Formula lexicon .assignment test tokens ∧
      Judged lexicon unit sugar body behind middle ∧
      Consumed input behind (guard word tokens) ∧ behind.length < input.length := by
  cases guarded with
  | @intro behind headed follows =>
      obtain ⟨words, opens, tested, closes⟩ := headed
      have keyword := legible.consumed words plain
      have bracket := legible.tail.consumed opens (by decide)
      obtain ⟨tokens, formula, consumed, less⟩ := expression_read legible.tail.tail tested
      have legibleToo := consumed.legible legible.tail.tail
      have bracketToo := legibleToo.consumed closes (by decide)
      have shorter : behind.length < bound := by
        simp only [List.length_cons] at within less
        omega
      refine ⟨behind, tokens, formula, judges _ _ _ shorter legibleToo.tail follows, ?_, ?_⟩
      · refine (((keyword.trans bracket).trans consumed).trans bracketToo).congr
          (Token.numerals_congr ?_)
        simp [guard, List.filter_cons]
      · simp only [List.length_cons] at less ⊢
        omega

theorem loop_judged (judges : Judges lexicon unit sugar bound) {test body : Tree}
    (guarded : Guarded sugar "while" test body input rest) (within : input.length < bound + 1)
    (legible : Legible lexicon input) :
    Judged lexicon unit sugar (loopNode test body) input rest := by
  obtain ⟨behind, tokens, formula, judged, consumed, less⟩ :=
    guarded.judged judges (by decide) within legible
  refine ⟨fun level => ?_, judged.shorter.trans less, fun leaves => judged.closed leaves.of_loop, ?_⟩
  · obtain ⟨more, written, consumedToo⟩ := judged.written level
    exact ⟨_, .loop formula written, consumed.trans consumedToo⟩
  · exact not_dangles_node guarded_distinct (by decide)
      (by simp [formula.not_dangles, judged.placed])

theorem inverted_judged (judges : Judges lexicon unit sugar bound) (sweet : sugar = true)
    {test body : Tree} (guarded : Guarded sugar "unless" test body input rest)
    (within : input.length < bound + 1) (legible : Legible lexicon input) :
    Judged lexicon unit sugar (unlessNode test body) input rest := by
  obtain ⟨behind, tokens, formula, judged, consumed, less⟩ :=
    guarded.judged judges (by decide) within legible
  refine ⟨fun level => ?_, judged.shorter.trans less,
    fun leaves => judged.closed leaves.of_unless, ?_⟩
  · obtain ⟨more, written, consumedToo⟩ := judged.written level
    exact ⟨_, .inverted sweet formula written, consumed.trans consumedToo⟩
  · exact not_dangles_node guarded_distinct (by decide)
      (by simp [formula.not_dangles, judged.placed])

theorem conditional_judged (judges : Judges lexicon unit sugar bound) {test consequent : Tree}
    (guarded : Guarded sugar "if" test consequent input rest)
    (lacks : Derives (peg sugar) (.pattern elseClause) rest none)
    (within : input.length < bound + 1) (legible : Legible lexicon input) :
    Judged lexicon unit sugar (branch test consequent .null) input rest := by
  obtain ⟨behind, tokens, formula, judged, consumed, less⟩ :=
    guarded.judged judges (by decide) within legible
  refine ⟨fun level => ?_, judged.shorter.trans less, fun _ => lacks, ?_⟩
  · obtain ⟨more, written, consumedToo⟩ := judged.written level
    exact ⟨_, .conditional formula written, consumed.trans consumedToo⟩
  · rw [dangles_branch]
    simp [formula.not_dangles, judged.placed, not_dangles_null]

/-- An `if` with an `else` has a consequent that would have taken it, had it been open. -/
theorem conditionalElse_judged (judges : Judges lexicon unit sugar bound)
    {test consequent alternate : Tree} {item : Item} {later : List Item}
    (guarded : Guarded sugar "if" test consequent input (item :: later))
    (words : item.token.kind? = some "else")
    (otherwise : Derives (peg sugar) (.pattern (.rule "Statement")) later (some (alternate, rest)))
    (within : input.length < bound + 1) (legible : Legible lexicon input) :
    Judged lexicon unit sugar (branch test consequent alternate) input rest := by
  obtain ⟨behind, tokens, formula, judged, consumed, less⟩ :=
    guarded.judged judges (by decide) within legible
  have taken : ¬ LeavesElse consequent := by
    intro leaves
    cases (judged.closed leaves).unique (elseClause_derives words otherwise)
  obtain ⟨_, -, consumedBody⟩ := judged.written 0
  have legibleToo : Legible lexicon (item :: later) :=
    consumedBody.legible (consumed.legible legible)
  have between := legibleToo.consumed words (by decide)
  have first := judged.shorter
  simp only [List.length_cons] at first
  have judgedToo := judges _ _ _ (by omega) legibleToo.tail otherwise
  have some : alternate ≠ .null := by
    obtain ⟨_, written, -⟩ := judgedToo.written 0
    exact written.ne_null
  refine ⟨fun level => ?_, ?_, fun leaves => ?_, ?_⟩
  · obtain ⟨more, written, consumedToo⟩ := judged.written level
    obtain ⟨most, writtenToo, consumedLast⟩ := judgedToo.written level
    refine ⟨_, .conditionalElse formula written writtenToo,
      (((consumed.trans consumedToo).trans between).trans consumedLast).congr
        (Token.numerals_congr ?_)⟩
    simp [spaced, List.filter_cons]
  · have second := judgedToo.shorter
    omega
  · exact judgedToo.closed (leaves.of_branch.resolve_left some)
  · rw [dangles_branch]
    simp [taken, formula.not_dangles, judged.placed, judgedToo.placed]

theorem returning_judged (unit : String) {item : Item} {behind : List Item}
    (words : item.token.kind? = some "return") (ends : Terminated behind rest)
    (legible : Legible lexicon (item :: behind)) :
    Judged lexicon unit sugar (.node "ReturnStatement" [("argument", .null)]) (item :: behind)
      rest := by
  have before := legible.consumed words (by decide)
  have ended := ends.consumed legible.tail
  refine ⟨fun level => ⟨_, .returning, before.trans ended⟩, Nat.lt_succ_of_le ended.le,
    fun leaves => ?_, ?_⟩
  · exact absurd leaves (not_leavesElse (.one (by decide)) (by decide))
  · exact not_dangles_node (.one (by decide)) (by decide) (by simp [not_dangles_null])

theorem returningValue_judged (unit : String) {tree : Tree} {item : Item} {behind after : List Item}
    (words : item.token.kind? = some "return")
    (given : Derives (peg sugar) (.pattern (.rule "Expression")) behind (some (tree, after)))
    (ends : Terminated after rest) (legible : Legible lexicon (item :: behind)) :
    Judged lexicon unit sugar (.node "ReturnStatement" [("argument", tree)]) (item :: behind)
      rest := by
  have before := legible.consumed words (by decide)
  obtain ⟨tokens, formula, consumed, less⟩ := expression_read legible.tail given
  have ended := ends.consumed (consumed.legible legible.tail)
  have shorter := ended.le
  refine ⟨fun level => ⟨_, .returningValue formula, ((before.trans consumed).trans ended).congr
    (Token.numerals_congr ?_)⟩, ?_, fun leaves => ?_, ?_⟩
  · simp [List.filter_cons]
  · simp only [List.length_cons] at less ⊢
    omega
  · exact absurd leaves (not_leavesElse (.one (by decide)) (by decide))
  · exact not_dangles_node (.one (by decide)) (by decide) (by simp [formula.not_dangles])

theorem empty_judged (unit : String) (sugar : Bool) {item : Item}
    (fits : item.token.kind? = some ";") (legible : Legible lexicon (item :: rest)) :
    Judged lexicon unit sugar (.node "EmptyStatement" []) (item :: rest) rest := by
  refine ⟨fun level => ⟨_, .empty, legible.consumed fits (by decide)⟩, Nat.lt_succ_self _,
    fun leaves => ?_, ?_⟩
  · exact absurd leaves (not_leavesElse .none (by decide))
  · exact not_dangles_node .none (by decide) nofun

theorem expression_judged (unit : String) {tree : Tree} {after : List Item}
    (given : Derives (peg sugar) (.pattern (.rule "Expression")) input (some (tree, after)))
    (ends : Terminated after rest) (legible : Legible lexicon input) :
    Judged lexicon unit sugar (.node "ExpressionStatement" [("expression", tree)]) input rest := by
  obtain ⟨tokens, formula, consumed, less⟩ := expression_read legible given
  have ended := ends.consumed (consumed.legible legible)
  refine ⟨fun level => ⟨_, .expression formula, consumed.trans ended⟩, ended.le.trans_lt less,
    fun leaves => ?_, ?_⟩
  · exact absurd leaves (not_leavesElse (.one (by decide)) (by decide))
  · exact not_dangles_node (.one (by decide)) (by decide) (by simp [formula.not_dangles])

theorem Dissected.judged (judges : Judges lexicon unit sugar bound)
    (dissected : Dissected sugar value input rest) (within : input.length < bound + 1)
    (legible : Legible lexicon input) : Judged lexicon unit sugar value input rest := by
  cases dissected with
  | block opens inner closes =>
      exact block_judged judges opens inner closes (Nat.lt_of_succ_lt_succ within) legible
  | conditional guarded lacks => exact conditional_judged judges guarded lacks within legible
  | conditionalElse guarded words otherwise =>
      exact conditionalElse_judged judges guarded words otherwise within legible
  | loop guarded => exact loop_judged judges guarded within legible
  | inverted sweet guarded => exact inverted_judged judges sweet guarded within legible
  | empty fits => exact empty_judged unit sugar fits legible
  | terminated clause ends =>
      cases clause with
      | declaration isKind fits begins more =>
          exact declaration_judged unit isKind fits begins (rounds_some rfl rfl more) ends legible
      | returning words _ => exact returning_judged unit words ends legible
      | returningValue words given => exact returningValue_judged unit words given ends legible
      | expression given => exact expression_judged unit given ends legible

theorem judges_all (lexicon : Lexicon) (unit : String) (sugar : Bool) (bound : Nat) :
    Judges lexicon unit sugar bound := by
  induction bound with
  | zero => exact fun _ _ _ within => absurd within (Nat.not_lt_zero _)
  | succ bound ih =>
      exact fun _ _ _ within legible derives =>
        (statement_dissected derives).judged ih within legible

theorem program_sound (lexicon : Lexicon) (unit : String) (legible : Legible lexicon input)
    (derives : Derives (peg sugar) (.pattern (.rule "Program")) input (some (value, []))) :
    ∃ tokens, WrittenProgram lexicon unit sugar value tokens ∧ Consumed input [] tokens ∧
      ¬ Dangles value := by
  obtain ⟨body, rfl, starred⟩ := program_some derives
  have placed {values : List Tree} (none : ¬ Dangles (.list values)) :
      ¬ Dangles (Builtin.program values) :=
    not_dangles_node (.one (by decide)) (by decide) (by simpa using none)
  rcases star_sound (judges_all lexicon unit sugar _) (Nat.lt_succ_self _) legible starred with
    ⟨rfl, rfl⟩ | ⟨values, rfl, written, -, none⟩
  · exact ⟨[], .empty, .refl _, placed (not_dangles_list nofun)⟩
  · obtain ⟨tokens, body, consumed⟩ := written 0
    exact ⟨tokens, .statements body, consumed, placed none⟩

end Parlance.Builtin
