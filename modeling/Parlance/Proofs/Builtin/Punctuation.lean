import Parlance.Proofs.Builtin.Resuming
import Parlance.Proofs.Builtin.Spelling

/-! Semicolons that were left out may be put in. Where a declaration, a `return` or an expression
statement of an accepted program ended without a semicolon, one may stand right behind its last token,
at any choice of such places, and the tree is the same. The places are marked along the grammar, one
mark for each token, and the proof is by induction on the marking: what was read before a place is
read again before a semicolon, which ends the statement and is not read as an empty one. -/

namespace Parlance.Builtin

open Derives

variable {sugar : Bool} {bound : Nat} {input middle rest after : List Item} {value : Tree}
  {values : List Tree} {marks others chosen : List Bool}

inductive Stretch where
  | statement
  | statements

def unmarked {α : Type} (list : List α) : List Bool := list.map fun _ => false

/-- The items up to the rest are read as the statement or as the statements. There is a mark for each
of them, and those are set that are behind the last token of what ended without a semicolon. -/
inductive Marked (sugar : Bool) : Stretch → Tree → List Item → List Item → List Bool → Prop where
  | closed {value : Tree} {read rest : List Item} {item : Item}
      (clause : Clause sugar value (read ++ item :: rest) (item :: rest))
      (closes : item.token.kind? = some ";") :
      Marked sugar .statement value (read ++ item :: rest) rest (unmarked read ++ [false])
  | unclosed {value : Tree} {read rest : List Item} {last : Item}
      (clause : Clause sugar value (read ++ last :: rest) rest)
      (other : ∀ item ∈ rest.head?, item.token.kind? ≠ some ";") (mayEnd : MayEnd rest) :
      Marked sugar .statement value (read ++ last :: rest) rest (unmarked read ++ [true])
  | empty {item : Item} (fits : item.token.kind? = some ";") (rest : List Item) :
      Marked sugar .statement (.node "EmptyStatement" []) (item :: rest) rest [false]
  | block {body : Tree} {opening closing : Item} {inside rest : List Item} {marks : List Bool}
      (opens : opening.token.kind? = some "\x7b")
      (inner : Marked sugar .statements body inside (closing :: rest) marks)
      (closes : closing.token.kind? = some "\x7d") :
      Marked sugar .statement (.node "BlockStatement" [("body", body)]) (opening :: inside) rest
        (false :: (marks ++ [false]))
  | conditional {test consequent : Tree} {read behind rest : List Item} {marks : List Bool}
      (headed : Headed sugar "if" test (read ++ behind) behind)
      (follows : Marked sugar .statement consequent behind rest marks)
      (lacks : Derives (peg sugar) (.pattern elseClause) rest none) :
      Marked sugar .statement (branch test consequent .null) (read ++ behind) rest
        (unmarked read ++ marks)
  | conditionalElse {test consequent alternate : Tree} {read behind later rest : List Item}
      {item : Item} {marks others : List Bool}
      (headed : Headed sugar "if" test (read ++ behind) behind)
      (follows : Marked sugar .statement consequent behind (item :: later) marks)
      (words : item.token.kind? = some "else")
      (otherwise : Marked sugar .statement alternate later rest others) :
      Marked sugar .statement (branch test consequent alternate) (read ++ behind) rest
        (unmarked read ++ marks ++ false :: others)
  | loop {test body : Tree} {read behind rest : List Item} {marks : List Bool}
      (headed : Headed sugar "while" test (read ++ behind) behind)
      (follows : Marked sugar .statement body behind rest marks) :
      Marked sugar .statement (loopNode test body) (read ++ behind) rest (unmarked read ++ marks)
  | inverted {test body : Tree} {read behind rest : List Item} {marks : List Bool}
      (sweet : sugar = true) (headed : Headed sugar "unless" test (read ++ behind) behind)
      (follows : Marked sugar .statement body behind rest marks) :
      Marked sugar .statement (unlessNode test body) (read ++ behind) rest (unmarked read ++ marks)
  | nothing {rest : List Item} : Marked sugar .statements (.list []) rest rest []
  | next {value : Tree} {values : List Tree} {input middle rest : List Item}
      {marks others : List Bool} (first : Marked sugar .statement value input middle marks)
      (later : Marked sugar .statements (.list values) middle rest others) :
      Marked sugar .statements (.list (value :: values)) input rest (marks ++ others)

/-- All items of a program, and where in it semicolons were left out. -/
inductive MarkedProgram (sugar : Bool) : Tree → List Item → List Bool → Prop where
  | intro {body : Tree} {input : List Item} {marks : List Bool}
      (marked : Marked sugar .statements body input [] marks) :
      MarkedProgram sugar (.node "Program" [("body", body)]) input marks

def Marks (sugar : Bool) (bound : Nat) : Prop :=
  ∀ input value rest, input.length < bound →
    Derives (peg sugar) (.pattern (.rule "Statement")) input (some (value, rest)) →
    ∃ marks, Marked sugar .statement value input rest marks

theorem statement_shortens
    (derives : Derives (peg sugar) (.pattern (.rule "Statement")) input (some (value, rest))) :
    rest.length < input.length := (layered sugar).consumes derives rfl rfl

theorem statements_marked (marks : Marks sugar bound) (within : input.length < bound)
    (laps : Laps (peg sugar) (.rule "Statement") .empty input values rest) :
    ∃ marks, Marked sugar .statements (.list values) input rest marks := by
  induction laps with
  | done => exact ⟨[], .nothing⟩
  | lap parted again moved _ ih =>
      obtain ⟨-, rfl⟩ := empty_some.mp parted
      obtain ⟨first, marked⟩ := marks _ _ _ within again
      obtain ⟨later, markedLater⟩ := ih ((statement_shortens again).trans within)
      exact ⟨first ++ later, .next marked markedLater⟩

theorem star_marked (marks : Marks sugar bound) (within : input.length < bound)
    (derives : Derives (peg sugar) (.pattern (.star (.rule "Statement") none)) input
      (some (value, rest))) : ∃ marks, Marked sugar .statements value input rest marks := by
  obtain ⟨values, rfl, laps⟩ := star_laps rfl (moves_of_mayIdle rfl) derives
  exact statements_marked marks within laps

theorem exists_last (suffix : after <:+ input) (less : after.length < input.length) :
    ∃ read last, input = read ++ last :: after := by
  obtain ⟨whole, rfl⟩ := suffix
  rcases List.eq_nil_or_concat whole with rfl | ⟨read, last, rfl⟩
  · exact absurd less (Nat.lt_irrefl _)
  · exact ⟨read, last, by simp⟩

theorem Clause.read (clause : Clause sugar value input after) :
    ∃ read last, input = read ++ last :: after := by
  cases clause with
  | declaration isKind fits begins more =>
      have suffix := ((layered sugar).suffix more rfl).trans ((layered sugar).suffix begins rfl)
      exact exists_last (suffix.trans (List.suffix_cons ..)) (Nat.lt_succ_of_le suffix.length_le)
  | returning words lacks => exact ⟨[], _, rfl⟩
  | returningValue words given =>
      have suffix := (layered sugar).suffix given rfl
      exact exists_last (suffix.trans (List.suffix_cons ..)) (Nat.lt_succ_of_le suffix.length_le)
  | expression given =>
      exact exists_last ((layered sugar).suffix given rfl) ((layered sugar).consumes given rfl rfl)

theorem Headed.read {word : String} {test : Tree} (headed : Headed sugar word test input after) :
    ∃ read, input = read ++ after ∧ after.length < input.length := by
  cases headed with
  | @intro first second last _ _ words opens tested closes =>
      obtain ⟨inside, rfl⟩ := (layered sugar).suffix tested rfl
      refine ⟨first :: second :: (inside ++ [last]), by simp, ?_⟩
      simp only [List.length_cons, List.length_append]
      omega

theorem Dissected.marked (marks : Marks sugar bound) (within : input.length < bound + 1)
    (dissected : Dissected sugar value input rest) :
    ∃ marks, Marked sugar .statement value input rest marks := by
  cases dissected with
  | block opens inner closes =>
      obtain ⟨body, marked⟩ := star_marked marks (Nat.lt_of_succ_lt_succ within) inner
      exact ⟨_, .block opens marked closes⟩
  | conditional guarded lacks =>
      obtain ⟨headed, follows⟩ := guarded
      obtain ⟨read, rfl, less⟩ := headed.read
      obtain ⟨body, marked⟩ := marks _ _ _ (by omega) follows
      exact ⟨_, .conditional headed marked lacks⟩
  | conditionalElse guarded words otherwise =>
      obtain ⟨headed, follows⟩ := guarded
      obtain ⟨read, rfl, less⟩ := headed.read
      obtain ⟨body, marked⟩ := marks _ _ _ (by omega) follows
      have shorter := statement_shortens follows
      rw [List.length_cons] at shorter
      obtain ⟨alternate, markedElse⟩ := marks _ _ _ (by omega) otherwise
      exact ⟨_, .conditionalElse headed marked words markedElse⟩
  | loop guarded =>
      obtain ⟨headed, follows⟩ := guarded
      obtain ⟨read, rfl, less⟩ := headed.read
      obtain ⟨body, marked⟩ := marks _ _ _ (by omega) follows
      exact ⟨_, .loop headed marked⟩
  | inverted sweet guarded =>
      obtain ⟨headed, follows⟩ := guarded
      obtain ⟨read, rfl, less⟩ := headed.read
      obtain ⟨body, marked⟩ := marks _ _ _ (by omega) follows
      exact ⟨_, .inverted sweet headed marked⟩
  | empty fits => exact ⟨_, .empty fits rest⟩
  | terminated clause ends =>
      obtain ⟨read, last, rfl⟩ := clause.read
      cases ends with
      | @closed item closes =>
          have whole : read ++ last :: item :: rest = (read ++ [last]) ++ item :: rest := by simp
          rw [whole] at clause ⊢
          exact ⟨_, .closed clause closes⟩
      | unclosed other mayEnd => exact ⟨_, .unclosed clause other mayEnd⟩

theorem marks_all (sugar : Bool) (bound : Nat) : Marks sugar bound := by
  induction bound with
  | zero => exact fun _ _ _ within => absurd within (Nat.not_lt_zero _)
  | succ bound ih =>
      exact fun _ _ _ within derives => (statement_dissected derives).marked ih within

theorem program_marked (derives : Derives (peg sugar) (.pattern (.rule "Program")) input
      (some (value, []))) : ∃ marks, MarkedProgram sugar value input marks := by
  obtain ⟨body, rfl, starred⟩ := program_some derives
  obtain ⟨marks, marked⟩ := star_marked (marks_all sugar _) (Nat.lt_succ_self _) starred
  exact ⟨marks, .intro marked⟩

def semicolon : Item := ⟨.literal ";", false⟩

def Item.punctuate : List Bool → List Item → List Item
  | mark :: marks, item :: items =>
      item :: if mark then semicolon :: punctuate marks items else punctuate marks items
  | [], items => items
  | _, [] => []

theorem punctuate_nil (marks : List Bool) : Item.punctuate marks [] = [] := by
  cases marks <;> rfl

theorem punctuate_unmarked (read rest : List Item) (later : List Bool) :
    Item.punctuate (unmarked read ++ later) (read ++ rest) =
      read ++ Item.punctuate later rest := by
  induction read with
  | nil => rfl
  | cons item read ih => exact congrArg (item :: ·) ih

theorem punctuate_last (read rest : List Item) (last : Item) (choice : Bool) (later : List Bool) :
    Item.punctuate (unmarked read ++ [choice] ++ later) (read ++ last :: rest) =
      read ++ last :: if choice then semicolon :: Item.punctuate later rest
        else Item.punctuate later rest := by
  rw [List.append_assoc, punctuate_unmarked]
  rfl

theorem punctuate_none (marks : List Bool) (items : List Item) :
    Item.punctuate (unmarked marks) items = items := by
  induction marks generalizing items with
  | nil => cases items <;> rfl
  | cons mark marks ih =>
      cases items with
      | nil => rfl
      | cons item items => exact congrArg (item :: ·) (ih items)

theorem resumes_punctuate (marks : List Bool) (rest : List Item) :
    Resumes rest (Item.punctuate marks rest) := by
  cases rest with
  | nil =>
      rw [punctuate_nil]
      exact .nothing
  | cons item rest => cases marks <;> exact .alike ..

theorem unclosed_punctuate (marks : List Bool)
    (other : ∀ item ∈ rest.head?, item.token.kind? ≠ some ";") (mayEnd : MayEnd rest) :
    Terminated (Item.punctuate marks rest) (Item.punctuate marks rest) := by
  cases rest with
  | nil =>
      rw [punctuate_nil]
      exact .unclosed other mayEnd
  | cons item rest => cases marks <;> exact .unclosed other mayEnd

/-- Only marks that are set are chosen. -/
def Within (chosen marks : List Bool) : Prop :=
  List.Forall₂ (fun choice mark => choice = true → mark = true) chosen marks

theorem Within.append (within : Within chosen (marks ++ others)) :
    ∃ first last, chosen = first ++ last ∧ Within first marks ∧ Within last others :=
  ⟨_, _, (List.take_append_drop marks.length chosen).symm,
    List.forall₂_take_append _ _ _ within, List.forall₂_drop_append _ _ _ within⟩

theorem Within.unset (within : Within chosen (false :: marks)) :
    ∃ later, chosen = false :: later ∧ Within later marks := by
  cases within with
  | @cons choice _ later _ only within =>
      cases choice with
      | true => cases only rfl
      | false => exact ⟨later, rfl, within⟩

theorem Within.eq_unmarked {α : Type} {list : List α} (within : Within chosen (unmarked list)) :
    chosen = unmarked list := by
  induction list generalizing chosen with
  | nil =>
      cases within
      rfl
  | cons first list ih =>
      obtain ⟨later, rfl, withinLater⟩ := within.unset
      exact congrArg (false :: ·) (ih withinLater)

theorem Within.last {α : Type} {read : List α} {mark : Bool}
    (within : Within chosen (unmarked read ++ [mark])) :
    ∃ choice, chosen = unmarked read ++ [choice] ∧ (choice = true → mark = true) := by
  obtain ⟨first, last, rfl, before, behind⟩ := within.append
  cases before.eq_unmarked
  cases behind with
  | cons only none =>
      cases none
      exact ⟨_, rfl, only⟩

theorem within_unmarked (marks : List Bool) : Within (unmarked marks) marks := by
  induction marks with
  | nil => exact .nil
  | cons mark marks ih => exact .cons nofun ih

/-- The items up to the rest are read as the statement, or they are laps of statements. -/
def ReadsAs (sugar : Bool) : Stretch → Tree → List Item → List Item → Prop
  | .statement, value, input, rest =>
      Derives (peg sugar) (.pattern (.rule "Statement")) input (some (value, rest))
  | .statements, value, input, rest => ∃ values, value = .list values ∧
      Laps (peg sugar) (.rule "Statement") .empty input values rest

variable {stretch : Stretch}

/-- Whatever marks are chosen, with semicolons there the same is read, and more may be put in behind
it. -/
def Punctuates (sugar : Bool) (stretch : Stretch) (value : Tree) (input rest : List Item)
    (marks : List Bool) : Prop :=
  ∀ chosen later, Within chosen marks → ReadsAs sugar stretch value
    (Item.punctuate (chosen ++ later) input) (Item.punctuate later rest)

theorem Punctuates.plain (punctuates : Punctuates sugar stretch value input rest marks) :
    ReadsAs sugar stretch value input rest := by
  have none := punctuates (unmarked marks) [] (within_unmarked marks)
  rwa [List.append_nil, punctuate_none, show Item.punctuate [] rest = rest from
    punctuate_none [] rest] at none

theorem closed_punctuates {read : List Item} {item : Item}
    (clause : Clause sugar value (read ++ item :: rest) (item :: rest))
    (closes : item.token.kind? = some ";") :
    Punctuates sugar .statement value (read ++ item :: rest) rest (unmarked read ++ [false]) := by
  intro chosen later within
  obtain ⟨choice, rfl, only⟩ := within.last
  cases choice with
  | true => cases only rfl
  | false =>
      rw [punctuate_last]
      exact (clause.resumed (.statement (empty_derives closes rest)) (.alike ..)).derives
        (.closed closes _)

theorem unclosed_punctuates {read : List Item} {last : Item}
    (clause : Clause sugar value (read ++ last :: rest) rest)
    (other : ∀ item ∈ rest.head?, item.token.kind? ≠ some ";") (mayEnd : MayEnd rest)
    (meets : Meets sugar rest) :
    Punctuates sugar .statement value (read ++ last :: rest) rest (unmarked read ++ [true]) := by
  intro chosen later within
  obtain ⟨choice, rfl, -⟩ := within.last
  have whole (rest : List Item) : read ++ last :: rest = (read ++ [last]) ++ rest := by simp
  rw [whole] at clause
  rw [punctuate_last, whole]
  cases choice with
  | true => exact (clause.resumed meets (.semicolon rfl _ _)).derives (.closed rfl _)
  | false =>
      exact (clause.resumed meets (resumes_punctuate _ _)).derives
        (unclosed_punctuate later other mayEnd)

theorem block_punctuates {body : Tree} {opening closing : Item} {inside : List Item}
    (opens : opening.token.kind? = some "\x7b")
    (inner : Punctuates sugar .statements body inside (closing :: rest) marks)
    (closes : closing.token.kind? = some "\x7d") :
    Punctuates sugar .statement (.node "BlockStatement" [("body", body)]) (opening :: inside) rest
      (false :: (marks ++ [false])) := by
  intro chosen later within
  obtain ⟨_, rfl, inside⟩ := within.unset
  obtain ⟨first, _, rfl, withinBody, last⟩ := inside.append
  obtain ⟨_, rfl, none⟩ := last.unset
  cases none
  obtain ⟨values, rfl, laps⟩ := inner first (false :: later) withinBody
  have starred := laps.star rfl (statement_fails (lacks_of_kind closes (by decide)))
  rw [List.cons_append, List.append_assoc]
  exact block_derives opens starred closes

theorem Headed.punctuates {word : String} {test body : Tree} {read behind : List Item}
    (headed : Headed sugar word test (read ++ behind) behind)
    (follows : Punctuates sugar .statement body behind rest marks) {chosen : List Bool}
    (within : Within chosen (unmarked read ++ marks)) (later : List Bool) :
    Guarded sugar word test body (Item.punctuate (chosen ++ later) (read ++ behind))
      (Item.punctuate later rest) := by
  obtain ⟨first, last, rfl, before, inner⟩ := within.append
  cases before.eq_unmarked
  rw [List.append_assoc, punctuate_unmarked]
  exact .intro (headed.resumed _) (follows last later inner)

theorem Meets.lacks_else (meets : Meets sugar rest)
    (lacks : Derives (peg sugar) (.pattern elseClause) rest none) : Lacks (peg sugar) ["else"] rest := by
  cases meets with
  | nothing => exact lacks_nil _ _
  | brace closes => exact lacks_of_kind closes (by decide)
  | @clause item later result words otherwise =>
      obtain ⟨alternate, left⟩ := result
      cases lacks.unique (elseClause_derives words otherwise)
  | statement follows => exact lacks_of_matched statement_fails follows (by decide)

theorem ReadsAs.meets (reads : ReadsAs sugar .statements value input rest)
    (meets : Meets sugar rest) : Meets sugar input := by
  obtain ⟨values, rfl, laps⟩ := reads
  cases laps with
  | done => exact meets
  | lap parted again =>
      obtain ⟨-, rfl⟩ := empty_some.mp parted
      exact .statement again

theorem next_punctuates
    (first : Punctuates sugar .statement value input middle marks)
    (later : Punctuates sugar .statements (.list values) middle rest others) :
    Punctuates sugar .statements (.list (value :: values)) input rest (marks ++ others) := by
  intro chosen more within
  obtain ⟨before, behind, rfl, withinFirst, withinLater⟩ := within.append
  have begins := first before (behind ++ more) withinFirst
  obtain ⟨_, same, laps⟩ := later behind more withinLater
  cases same
  rw [List.append_assoc]
  refine ⟨_, rfl, .lap .empty begins (fun same => ?_) laps⟩
  have less := statement_shortens begins
  rw [same] at less
  exact Nat.lt_irrefl _ less

theorem Marked.punctuates (marked : Marked sugar stretch value input rest marks)
    (meets : Meets sugar rest) : Punctuates sugar stretch value input rest marks := by
  induction marked with
  | closed clause closes => exact closed_punctuates clause closes
  | unclosed clause other mayEnd => exact unclosed_punctuates clause other mayEnd meets
  | empty fits rest =>
      intro chosen later within
      obtain ⟨_, rfl, none⟩ := within.unset
      cases none
      exact empty_derives fits _
  | block opens _ closes ih => exact block_punctuates opens (ih (.brace closes _)) closes
  | conditional headed _ lacks ih =>
      -- Behind the statement the same item stands first, and it was no `else` that could be taken.
      intro chosen later within
      have guarded := headed.punctuates (ih meets) within later
      have noElse := (resumes_punctuate later _).lacks (by decide) (meets.lacks_else lacks)
      exact conditional_derives guarded
        (option_some.mpr (.inr ⟨.noSequence (ignoredToken_none noElse), rfl, rfl⟩))
  | conditionalElse headed _ words _ ih ihElse =>
      intro chosen later within
      obtain ⟨before, _, rfl, withinBefore, last⟩ := within.append
      obtain ⟨behind, rfl, withinElse⟩ := last.unset
      -- The statement behind the `else` comes first: with it the consequent meets an `else` clause.
      have otherwise := ihElse meets
      have guarded := headed.punctuates (ih (.clause words otherwise.plain)) withinBefore
        (false :: (behind ++ later))
      rw [List.append_assoc]
      exact conditional_derives guarded
        (option_some.mpr (.inl (elseClause_derives words (otherwise behind later withinElse))))
  | loop headed _ ih =>
      exact fun chosen later within => loop_derives (headed.punctuates (ih meets) within later)
  | inverted sweet headed _ ih =>
      cases sweet
      exact fun chosen later within => inverted_derives (headed.punctuates (ih meets) within later)
  | nothing =>
      intro chosen later within
      cases within
      exact ⟨[], rfl, .done⟩
  | next _ _ ihFirst ihLater =>
      -- What stands behind the first statement is known from the later ones, as they were read.
      have later := ihLater meets
      exact next_punctuates (ihFirst (later.plain.meets meets)) later

theorem MarkedProgram.punctuated (marked : MarkedProgram sugar value input marks)
    (within : Within chosen marks) :
    Derives (peg sugar) (.pattern (.rule "Program")) (Item.punctuate chosen input)
      (some (value, [])) := by
  obtain ⟨marked⟩ := marked
  obtain ⟨values, rfl, laps⟩ := marked.punctuates .nothing chosen [] within
  rw [List.append_nil] at laps
  rw [program_iff, onlyAlternative_iff]
  exact filter_some.mpr ⟨_, laps.star rfl (statement_fails (lacks_nil _ _)), rfl⟩

/-- The tokens, with a semicolon right behind each hard one whose mark is set. -/
def punctuate : List Bool → List Token → List Token
  | _, [] => []
  | marks, .soft text :: tokens => .soft text :: punctuate marks tokens
  | [], .hard kind text :: tokens => .hard kind text :: tokens
  | mark :: marks, .hard kind text :: tokens =>
      .hard kind text ::
        if mark then .literal ";" :: punctuate marks tokens else punctuate marks tokens

theorem view_punctuate (marks : List Bool) (ether tokens : List Token) :
    (Token.landedAfter ether (punctuate marks tokens)).map Item.view =
      Item.punctuate marks ((Token.landedAfter ether tokens).map Item.view) := by
  induction tokens generalizing marks ether with
  | nil => rw [punctuate, Token.landedAfter, List.map_nil, punctuate_nil]
  | cons token tokens ih =>
      cases token with
      | soft text => simpa only [punctuate, Token.landedAfter] using ih marks (ether ++ [.soft text])
      | hard kind text =>
          cases marks with
          | nil => rfl
          | cons mark marks =>
              cases mark with
              | false => exact congrArg (_ :: ·) (ih marks [])
              | true => exact congrArg (_ :: semicolon :: ·) (ih marks [])

theorem views_punctuate (marks : List Bool) (tokens : List Token) :
    views (punctuate marks tokens) = Item.punctuate marks (views tokens) :=
  view_punctuate marks [] tokens

theorem accepted_iff_derives (sugar traced : Bool) (tokens : List Token) (origin : Option String)
    (tree : Tree) :
    (∃ log, (rules sugar).parser.run "Program" tokens origin traced =
      some (.parsed (.ok tree) log)) ↔
      Derives (peg sugar) (.pattern (.rule "Program")) (views tokens) (some (tree, [])) := by
  constructor
  · rintro ⟨log, accepted⟩
    obtain ⟨result, derives, shows⟩ := (parses sugar tokens).derives accepted
    cases shows
    exact derives
  · intro derives
    obtain ⟨verdict, ran, shows⟩ := (parses sugar tokens).run origin traced derives
    cases shows with
    | parsed => exact ⟨_, ran⟩
    | stopped left => exact absurd rfl left

/-- In a list of tokens that is parsed as a program, semicolons may be put in wherever they were left
out: right behind the last tokens of any declarations, `return` and expression statements that ended
at a line break, before a closing brace or with the input. The list is parsed as the same tree. -/
theorem accepted_punctuated (settings : Settings) (sugar traced : Bool) (tokens : List Token)
    (origin : Option String) {parser : Parser} {tree : Tree} {log : List Nat}
    (made : outcome settings (Registry.parser (dialectName sugar)) = .ok parser)
    (accepted : parser.run "Program" tokens origin traced = some (.parsed (.ok tree) log)) :
    (∃ marks, MarkedProgram sugar tree (views tokens) marks) ∧
      ∀ marks, MarkedProgram sugar tree (views tokens) marks → ∀ chosen, Within chosen marks →
        ∃ log, parser.run "Program" (punctuate chosen tokens) origin traced =
          some (.parsed (.ok tree) log) := by
  have own : outcome settings (Registry.parser (dialectName sugar)) = .ok (rules sugar).parser :=
    (yields_rulesParser settings sugar).outcome_eq
  cases own.symm.trans made
  have derives := (accepted_iff_derives sugar traced tokens origin tree).mp ⟨log, accepted⟩
  refine ⟨program_marked derives, fun marks marked chosen within => ?_⟩
  rw [accepted_iff_derives, views_punctuate]
  exact marked.punctuated within

def openEnded : List Token := [
  .literal "\x7b", .literal "let", .soft " ", .hard "Identifier" "a", .literal "\x7d",
  .literal "let", .soft " ", .hard "Identifier" "b", .soft "\n", .literal "return"]

def bareDeclaration (name : String) : Tree :=
  .node "VariableDeclaration"
    [("kind", .text "let"), ("declarations", .list [declarator name .null])]

def openEndedTree : Tree :=
  .node "Program" [("body", .list [
    .node "BlockStatement" [("body", .list [bareDeclaration "a"])], bareDeclaration "b",
    .node "ReturnStatement" [("argument", .null)]])]

def openEndedMarks : List Bool := [false, false, true, false, false, true, true]

theorem declaration_clause {item named : Item} {name : String}
    (fits : item.token = .literal "let") (names : named.token = .hard "Identifier" name)
    (lacks : Lacks (peg sugar) ["=", ","] rest) :
    Clause sugar (bareDeclaration name) (item :: named :: rest) rest := by
  have bare : Derives (peg sugar) (.pattern (.rule "VariableDeclarator")) (named :: rest)
      (some (declarator name .null, rest)) :=
    DissectedDeclarator.derives (.bare (identifier_matched names rest)
      (.noSequence (ignoredToken_none (lacks.mono (by decide)))))
  have isKind : item.token.kind? = some "let" := by
    rw [fits]
    rfl
  have clause : Clause sugar _ (item :: named :: rest) rest := .declaration
    (by decide) isKind bare (.lastSeparator (.noIgnore (token_none (lacks.mono (by decide)))))
  rwa [fits] at clause

theorem openEnded_marked : MarkedProgram false openEndedTree (views openEnded) openEndedMarks := by
  have items : views openEnded = [
      ⟨.literal "\x7b", false⟩, ⟨.literal "let", false⟩, ⟨.hard "Identifier" "a", false⟩,
      ⟨.literal "\x7d", false⟩, ⟨.literal "let", false⟩, ⟨.hard "Identifier" "b", false⟩,
      ⟨.literal "return", true⟩] := by
    simp [views, openEnded, Token.landed, Token.landedAfter, Item.view, Terminator.breaksLine,
      Token.text, Token.literal]
  have inner : Marked false .statement (bareDeclaration "a") _
      [⟨.literal "\x7d", false⟩, ⟨.literal "let", false⟩, ⟨.hard "Identifier" "b", false⟩,
        ⟨.literal "return", true⟩] ([false] ++ [true]) :=
    @Marked.unclosed false _ [⟨.literal "let", false⟩] _ ⟨.hard "Identifier" "a", false⟩
      (declaration_clause rfl rfl (lacks_of_kind rfl (by decide)))
      (fun item here => by cases here; decide) (.inl rfl)
  have second : Marked false .statement (bareDeclaration "b") _ [⟨.literal "return", true⟩]
      ([false] ++ [true]) :=
    @Marked.unclosed false _ [⟨.literal "let", false⟩] _ ⟨.hard "Identifier" "b", false⟩
      (declaration_clause rfl rfl (lacks_of_kind rfl (by decide)))
      (fun item here => by cases here; decide) (.inr rfl)
  have third : Marked false .statement (.node "ReturnStatement" [("argument", .null)]) _ []
      ([] ++ [true]) :=
    @Marked.unclosed false _ [] _ ⟨.literal "return", true⟩
      (.returning rfl (expression_fails (lacks_nil _ _)))
      (fun _ absent => absurd absent (Option.not_mem_none _)) trivial
  have first := @Marked.block false _ ⟨.literal "\x7b", false⟩ _ _ _ _ rfl
    (.next inner .nothing) rfl
  rw [items]
  exact .intro (.next first (.next second (.next third .nothing)))

theorem accepted_punctuated_openEnded :
    outcome .defaults (Registry.parser (dialectName false)) = .ok (rules false).parser ∧
      MarkedProgram false openEndedTree (views openEnded) openEndedMarks ∧
      (∃ log, (rules false).parser.run "Program" openEnded none false =
        some (.parsed (.ok openEndedTree) log)) ∧
      punctuate [false, false, true, false, false, false, true] openEnded = [
        .literal "\x7b", .literal "let", .soft " ", .hard "Identifier" "a", .literal ";",
        .literal "\x7d", .literal "let", .soft " ", .hard "Identifier" "b", .soft "\n",
        .literal "return", .literal ";"] ∧
      ∃ log, (rules false).parser.run "Program"
        (punctuate [false, false, true, false, false, false, true] openEnded) none false =
          some (.parsed (.ok openEndedTree) log) := by
  have made : outcome .defaults (Registry.parser (dialectName false)) = .ok (rules false).parser :=
    (yields_rulesParser .defaults false).outcome_eq
  have marked := openEnded_marked
  have derives := marked.punctuated (within_unmarked openEndedMarks)
  rw [punctuate_none, ← accepted_iff_derives false false openEnded none] at derives
  obtain ⟨log, accepted⟩ := derives
  have chosen : Within [false, false, true, false, false, false, true] openEndedMarks := by
    unfold openEndedMarks Within
    decide
  exact ⟨made, marked, ⟨log, accepted⟩, rfl,
    (accepted_punctuated .defaults false false openEnded none made accepted).2 _ marked _ chosen⟩

end Parlance.Builtin
