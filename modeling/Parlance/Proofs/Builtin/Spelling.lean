import Parlance.Proofs.Builtin.Dissection
import Parlance.Proofs.Builtin.Outcomes
import Parlance.Proofs.Builtin.Terminals

/-! No token is lost, doubled or moved: the hard tokens of an accepted list are the terminals of the
tree, in order, but for semicolons at the ends of statements that may end without one. The tokens of
an expression are its terminals one by one; for statements the proof is by induction on the length of
the input, as every way around the rules consumes an item. -/

namespace Parlance.Builtin

open Derives

def Form.terminals : Form → Tree → List Terminal
  | .arguments, tree => (piece tree).listed
  | .primary, tree | .suffixed, tree | .tier _, tree | .assignment, tree => Builtin.terminals tree

theorem mem_operatorsOf {n : Nat} {tier : Tier} {kind : String}
    (here : precedence[n]? = some tier) (isOperator : kind ∈ tier.operators) :
    kind ∈ operatorsOf tier.typeName := by
  have among : tier ∈ precedence.filter fun other => other.typeName = tier.typeName :=
    List.mem_filter.mpr ⟨List.mem_of_getElem? here, decide_eq_true rfl⟩
  exact List.mem_flatMap.mpr ⟨tier, among, isOperator⟩

theorem fits_between {inner : List Terminal} {tokens : List Token} {opening closing : String}
    (fits : List.Forall₂ Terminal.Fits inner tokens) (first last : String) :
    List.Forall₂ Terminal.Fits (Terminal.between opening closing inner)
      (.hard opening first :: tokens ++ [.hard closing last]) :=
  .cons (.literal opening first) (List.rel_append fits (.cons (.literal closing last) .nil))

theorem Construed.arguments_cons {values : List Tree} {tokens : List Token}
    (given : Construed .arguments (.list values) tokens) :
    ∃ first rest, values = first :: rest := by
  cases given with
  | argument | nextArgument => exact ⟨_, _, rfl⟩

/-- The tokens of an expression are its terminals, one by one. -/
theorem Construed.fits {form : Form} {tree : Tree} {tokens : List Token}
    (construed : Construed form tree tokens) :
    List.Forall₂ Terminal.Fits (form.terminals tree) tokens := by
  induction construed with
  | number raw =>
      rw [Form.terminals, terminals_number]
      exact .cons (.word (List.mem_singleton_self _) raw) .nil
  | string raw =>
      rw [Form.terminals, terminals_string]
      exact .cons (.word (List.mem_singleton_self _) raw) .nil
  | boolean isBoolean word =>
      rw [Form.terminals, terminals_boolean]
      exact .cons (.truth isBoolean word) .nil
  | null word =>
      rw [Form.terminals, terminals_nullLiteral]
      exact .cons (.literal "null" word) .nil
  | identifier name =>
      rw [Form.terminals, terminals_identifier]
      exact .cons (.word (List.mem_singleton_self _) name) .nil
  | parenthesized opening closing _ ih =>
      rw [Form.terminals, terminals_parenthesized]
      exact fits_between ih opening closing
  | suffixed _ ih | unprefixed _ ih | lifted _ _ ih | unassigned _ ih => exact ih
  | callWithout opening closing _ ih =>
      rw [Form.terminals, terminals_call]
      exact List.rel_append ih (fits_between .nil opening closing)
  | call opening closing _ _ ih ihGiven =>
      rw [Form.terminals, terminals_call, List.append_assoc]
      exact List.rel_append ih (fits_between ihGiven opening closing)
  | member dot name _ ih =>
      rw [Form.terminals, terminals_member]
      exact List.rel_append ih
        (.cons (.literal "." dot) (.cons (.word (List.mem_singleton_self _) name) .nil))
  | index opening closing _ _ ih ihInner =>
      rw [Form.terminals, terminals_index, List.append_assoc]
      exact List.rel_append ih (fits_between ihInner opening closing)
  | argument _ ih =>
      rw [Form.terminals, listed_cons, List.flatMap_nil, List.append_nil]
      exact ih
  | nextArgument comma _ later ih ihLater =>
      obtain ⟨second, rest, rfl⟩ := later.arguments_cons
      rw [Form.terminals, listed_cons] at ihLater ⊢
      rw [List.flatMap_cons]
      exact List.rel_append ih (.cons (.literal "," comma) ihLater)
  | prefixed isPrefix word _ ih =>
      rw [Form.terminals, terminals_prefixed]
      exact .cons (.word isPrefix word) ih
  | binary here isOperator word _ _ ih ihRight =>
      rw [Form.terminals, terminals_operation here]
      exact List.rel_append ih (.cons (.word (mem_operatorsOf here isOperator) word) ihRight)
  | assigned isOperator word _ _ ih ihSource =>
      rw [Form.terminals, terminals_assigned]
      exact List.rel_append ih (.cons (.word isOperator word) ihSource)

/-- The items up to the rest are the terminals, in order, short of some closing semicolons, each
where a statement may end without one. -/
inductive Abridges : List Terminal → List Item → List Item → Prop where
  | done (rest : List Item) : Abridges [] rest rest
  | token {terminal : Terminal} {terminals : List Terminal} {item : Item} {input rest : List Item}
      (fits : terminal.Fits item.token) (more : Abridges terminals input rest) :
      Abridges (terminal :: terminals) (item :: input) rest
  | omitted {terminals : List Terminal} {input rest : List Item} (mayEnd : MayEnd input)
      (more : Abridges terminals input rest) : Abridges (.closing :: terminals) input rest

variable {sugar : Bool} {bound : Nat} {input middle rest : List Item} {value : Tree}
  {values : List Tree} {first second : List Terminal} {kind : String}

theorem Abridges.trans (abridges : Abridges first input middle)
    (abridgesToo : Abridges second middle rest) : Abridges (first ++ second) input rest := by
  induction abridges with
  | done => exact abridgesToo
  | token fits _ ih => exact .token fits (ih abridgesToo)
  | omitted mayEnd _ ih => exact .omitted mayEnd (ih abridgesToo)

theorem Abridges.le (abridges : Abridges first input rest) : rest.length ≤ input.length := by
  induction abridges with
  | done => exact Nat.le_refl _
  | token _ _ ih => exact Nat.le_succ_of_le ih
  | omitted _ _ ih => exact ih

theorem Abridges.ofKind {terminal : Terminal} {item : Item} (same : item.token.kind? = some kind)
    (fits : terminal.Fits (.hard kind item.token.text)) (more : Abridges first input rest) :
    Abridges (terminal :: first) (item :: input) rest := by
  rw [← token_of_kind same] at fits
  exact .token fits more

theorem Abridges.literal {item : Item} (same : item.token.kind? = some kind)
    (more : Abridges first input rest) : Abridges (.literal kind :: first) (item :: input) rest :=
  more.ofKind same (.literal kind _)

theorem Abridges.ne_null (abridges : Abridges (terminals value) input rest)
    (less : rest.length < input.length) : value ≠ .null := by
  rintro rfl
  cases abridges
  exact Nat.lt_irrefl _ less

theorem abridges_of_fits {tokens : List Token} (fits : List.Forall₂ Terminal.Fits first tokens)
    (takes : Takes (peg sugar) input rest tokens) : Abridges first input rest := by
  obtain ⟨read, rfl, rfl⟩ := takes
  induction read generalizing first with
  | nil =>
      cases fits
      exact .done rest
  | cons item read ih =>
      cases fits with
      | cons fits more => exact .token fits (ih more)

theorem Terminated.abridges (ends : Terminated input rest) : Abridges [.closing] input rest := by
  cases ends with
  | closed closes rest => exact .ofKind closes (.closing _) (.done rest)
  | unclosed _ mayEnd => exact .omitted mayEnd (.done _)

/-- On shorter input the pattern yields trees whose terminals are what it consumes. -/
def Accounts (sugar : Bool) (bound : Nat) (term : Pattern) : Prop :=
  ∀ input value rest, input.length < bound →
    Derives (peg sugar) (.pattern term) input (some (value, rest)) →
    Abridges (terminals value) input rest ∧ rest.length < input.length

theorem assignment_accounts (sugar : Bool) (bound : Nat) :
    Accounts sugar bound (.rule "AssignmentExpression") := by
  intro input value rest within derives
  obtain ⟨tokens, construed, takes, less⟩ := assignment_sound bound _ _ _ within derives
  exact ⟨abridges_of_fits construed.fits takes, less⟩

theorem expression_accounts (sugar : Bool) (bound : Nat) :
    Accounts sugar bound (.rule "Expression") :=
  fun _ _ _ within derives => assignment_accounts sugar bound _ _ _ within (expression_some derives)

theorem laps_abridge {body separator : Pattern} {lead : List Terminal}
    (leads : ∀ input between middle,
      Derives (peg sugar) (.pattern separator) input (some (between, middle)) →
      Abridges lead input middle)
    (accounts : Accounts sugar bound body) (laps : Laps (peg sugar) body separator input values rest)
    (within : input.length < bound) :
    Abridges (values.flatMap fun value => lead ++ terminals value) input rest := by
  induction laps with
  | done => exact .done _
  | lap parted again moved _ ih =>
      have before := leads _ _ _ parted
      obtain ⟨here, less⟩ := accounts _ _ _ (before.le.trans_lt within) again
      have shorter := (less.trans_le before.le).trans within
      exact (before.trans here).trans (ih shorter)

theorem statements_abridge (accounts : Accounts sugar bound (.rule "Statement"))
    (within : input.length < bound)
    (derives : Derives (peg sugar) (.pattern (.star (.rule "Statement") none)) input
      (some (value, rest))) : Abridges (terminals value) input rest := by
  rcases statements_some derives with ⟨first, middle, values, rfl, begins, laps⟩ | ⟨rfl, rfl⟩
  · obtain ⟨here, less⟩ := accounts _ _ _ within begins
    have nothing : ∀ input between middle,
        Derives (peg sugar) (.pattern .empty) input (some (between, middle)) →
        Abridges [] input middle := by
      intro input between middle parted
      obtain ⟨-, rfl⟩ := empty_some.mp parted
      exact .done middle
    rw [terminals_list, List.flatMap_cons]
    exact here.trans (laps_abridge nothing accounts laps (less.trans within))
  · exact .done _

theorem identifier_abridges
    (derives : Derives (peg sugar) (.pattern (.rule "Identifier")) input (some (value, rest))) :
    ∃ name, value = identifier name ∧ Abridges [.word ["Identifier"] name] input rest ∧
      rest.length < input.length := by
  obtain ⟨name, rfl, takes, less⟩ := identifier_some derives
  have fits : List.Forall₂ Terminal.Fits [.word ["Identifier"] name] [.hard "Identifier" name] :=
    .cons (.word (List.mem_singleton_self _) name) .nil
  exact ⟨name, rfl, abridges_of_fits fits takes, less⟩

theorem declarator_accounts (sugar : Bool) (bound : Nat) :
    Accounts sugar bound (.rule "VariableDeclarator") := by
  intro input value rest within derives
  cases declarator_dissected derives with
  | bare names _ =>
      obtain ⟨name, rfl, before, less⟩ := identifier_abridges names
      show Abridges (terminals (declarator name .null)) input rest ∧ _
      rw [terminals_declarator, ledBy_null]
      exact ⟨before, less⟩
  | @initialized _ init item _ behind _ names equals source =>
      obtain ⟨name, rfl, before, less⟩ := identifier_abridges names
      simp only [List.length_cons] at less
      obtain ⟨after, lessAfter⟩ := assignment_accounts sugar bound _ _ _ (by omega) source
      show Abridges (terminals (declarator name init)) input rest ∧ _
      rw [terminals_declarator, ledBy_of_ne_null (after.ne_null lessAfter)]
      exact ⟨before.trans (after.literal equals), by omega⟩

theorem declarators_abridge (sugar : Bool)
    (laps : Laps (peg sugar) (.rule "VariableDeclarator") (.ignoredToken ",") input values rest) :
    Abridges (values.flatMap fun value => .literal "," :: terminals value) input rest := by
  have commas : ∀ input between middle,
      Derives (peg sugar) (.pattern (.ignoredToken ",")) input (some (between, middle)) →
      Abridges [.literal ","] input middle := by
    intro input between middle parted
    obtain ⟨-, text, parted⟩ := ignore_some.mp parted
    obtain ⟨item, rfl, fits, -⟩ := token_some.mp parted
    exact .literal fits (.done middle)
  exact laps_abridge commas (declarator_accounts sugar _) laps (Nat.lt_succ_self _)

theorem Guarded.abridges {word : String} {test body : Tree}
    (accounts : Accounts sugar bound (.rule "Statement"))
    (guarded : Guarded sugar word test body input rest) (within : input.length < bound + 1) :
    Abridges (Terminal.guarded word (terminals test) (terminals body)) input rest ∧
      rest.length < input.length := by
  obtain ⟨⟨words, opens, tested, closes⟩, follows⟩ := guarded
  simp only [List.length_cons] at within
  obtain ⟨inner, less⟩ := expression_accounts sugar bound _ _ _ (by omega) tested
  simp only [List.length_cons] at less
  obtain ⟨after, lessAfter⟩ := accounts _ _ _ (by omega) follows
  have brackets := (inner.trans (.literal closes (.done _))).literal opens
  refine ⟨(brackets.trans after).literal words, ?_⟩
  simp only [List.length_cons]
  omega

theorem Clause.abridges {after : List Item} (clause : Clause sugar value input after)
    (ends : Terminated after rest) : Abridges (terminals value) input rest ∧
      rest.length < input.length := by
  have last := ends.abridges.le
  cases clause with
  | @declaration item kind first values behind between after isKind fits begins more =>
      obtain ⟨here, less⟩ := declarator_accounts sugar _ _ _ _ (Nat.lt_succ_self _) begins
      have later := declarators_abridge sugar (rounds_some rfl rfl more)
      have shorter := later.le
      rw [terminals_declaration, listed_cons]
      refine ⟨.ofKind fits (.word isKind _) ((here.trans later).trans ends.abridges), ?_⟩
      simp only [List.length_cons]
      omega
  | returning words _ =>
      rw [terminals_returning]
      exact ⟨ends.abridges.literal words, Nat.lt_succ_of_le last⟩
  | returningValue words given =>
      obtain ⟨inner, less⟩ := expression_accounts sugar _ _ _ _ (Nat.lt_succ_self _) given
      rw [terminals_returning]
      refine ⟨(inner.trans ends.abridges).literal words, ?_⟩
      simp only [List.length_cons]
      omega
  | expression given =>
      obtain ⟨inner, less⟩ := expression_accounts sugar _ _ _ _ (Nat.lt_succ_self _) given
      rw [terminals_expression]
      exact ⟨inner.trans ends.abridges, last.trans_lt less⟩

theorem Dissected.abridges (accounts : Accounts sugar bound (.rule "Statement"))
    (dissected : Dissected sugar value input rest) (within : input.length < bound + 1) :
    Abridges (terminals value) input rest ∧ rest.length < input.length := by
  cases dissected with
  | block opens inner closes =>
      have body := statements_abridge accounts (Nat.lt_of_succ_lt_succ within) inner
      have shorter := body.le
      rw [terminals_block]
      refine ⟨(body.trans (.literal closes (.done rest))).literal opens, ?_⟩
      simp only [List.length_cons] at shorter ⊢
      omega
  | conditional guarded lacks =>
      rw [terminals_branch, ledBy_null, List.append_nil]
      exact guarded.abridges accounts within
  | conditionalElse guarded words otherwise =>
      obtain ⟨before, less⟩ := guarded.abridges accounts within
      simp only [List.length_cons] at less
      obtain ⟨behind, lessBehind⟩ := accounts _ _ _ (by omega) otherwise
      -- What consumed a token is not the null that stands for no `else`.
      rw [terminals_branch, ledBy_of_ne_null (behind.ne_null lessBehind)]
      exact ⟨before.trans (behind.literal words), by omega⟩
  | loop guarded =>
      rw [terminals_loop]
      exact guarded.abridges accounts within
  | inverted sweet guarded =>
      rw [terminals_unless]
      exact guarded.abridges accounts within
  | empty fits rest =>
      rw [terminals_empty]
      exact ⟨.literal fits (.done rest), Nat.lt_succ_self _⟩
  | terminated clause ends => exact clause.abridges ends

theorem statement_accounts (sugar : Bool) (bound : Nat) :
    Accounts sugar bound (.rule "Statement") := by
  induction bound with
  | zero => exact fun _ _ _ within => absurd within (Nat.not_lt_zero _)
  | succ bound ih =>
      exact fun _ _ _ within derives => (statement_dissected derives).abridges ih within

theorem program_abridges (derives : Derives (peg sugar) (.pattern (.rule "Program")) input
      (some (value, rest))) : Abridges (terminals value) input rest := by
  obtain ⟨body, rfl, starred⟩ := program_some derives
  rw [terminals_program]
  exact statements_abridge (statement_accounts sugar _) (Nat.lt_succ_self _) starred

/-- The hard tokens of a list, as the grammar sees them. -/
def views (tokens : List Token) : List Item := (Token.landed tokens).map Item.view

/-- The hard tokens of a list that is parsed as a program are the terminals of the tree, in order,
short of closing semicolons only, and of these only where nothing is left or the next token is a
closing brace or has a line break before it. -/
theorem accepted_abridges (settings : Settings) (sugar traced : Bool) (tokens : List Token)
    (origin : Option String) {parser : Parser} {tree : Tree} {log : List Nat}
    (made : outcome settings (Registry.parser (dialectName sugar)) = .ok parser)
    (accepted : parser.run "Program" tokens origin traced = some (.parsed (.ok tree) log)) :
    (views tokens).map Item.token = tokens.filter Token.isHard ∧
      Abridges (terminals tree) (views tokens) [] := by
  have own : outcome settings (Registry.parser (dialectName sugar)) = .ok (rules sugar).parser :=
    (yields_rulesParser settings sugar).outcome_eq
  cases own.symm.trans made
  obtain ⟨result, derives, shows⟩ := (parses sugar tokens).derives accepted
  cases shows
  refine ⟨?_, program_abridges derives⟩
  rw [views, List.map_map]
  exact Token.token_landedAfter [] tokens

def parsedTree? : Verdict → Option Tree
  | .parsed (.ok tree) _ => some tree
  | .parsed (.error _) _ | .broken _ => none

theorem parsedTree?_eq_some_iff {verdict : Verdict} {tree : Tree} :
    parsedTree? verdict = some tree ↔ ∃ log, verdict = .parsed (.ok tree) log := by
  rcases verdict with ⟨error | found, log⟩ | fault <;> simp [parsedTree?]

def unclosed : List Token := [
  .literal "\x7b", .literal "let", .soft " ", .hard "Identifier" "a", .literal "\x7d",
  .hard "Identifier" "b", .literal ";", .soft " ", .literal "return"]

def unclosedTerminals : List Terminal := [
  .literal "\x7b", .word declarationKinds "let", .word ["Identifier"] "a", .closing,
  .literal "\x7d", .word ["Identifier"] "b", .closing, .literal "return", .closing]

theorem unclosed_accepted : ∃ tree log,
    (rules false).parser.run "Program" unclosed none false = some (.parsed (.ok tree) log) ∧
      terminals tree = unclosedTerminals := by
  have told : (((rules false).parser.runWith 60 "Program" unclosed none false).bind
      parsedTree?).map terminals = some unclosedTerminals := by
    decide +kernel
  obtain ⟨tree, found, same⟩ := Option.map_eq_some_iff.mp told
  obtain ⟨verdict, ran, ends⟩ := Option.bind_eq_some_iff.mp found
  obtain ⟨log, rfl⟩ := parsedTree?_eq_some_iff.mp ends
  exact ⟨tree, log, Parser.run_of_runWith (parses false unclosed).normalized ran, same⟩

theorem accepted_abridges_unclosed :
    outcome .defaults (Registry.parser (dialectName false)) = .ok (rules false).parser ∧
      ∃ tree log,
        (rules false).parser.run "Program" unclosed none false = some (.parsed (.ok tree) log) ∧
          terminals tree = unclosedTerminals ∧
          (views unclosed).map Item.token = unclosed.filter Token.isHard ∧
          Abridges (terminals tree) (views unclosed) [] := by
  have made : outcome .defaults (Registry.parser (dialectName false)) = .ok (rules false).parser :=
    (yields_rulesParser .defaults false).outcome_eq
  obtain ⟨tree, log, accepted, told⟩ := unclosed_accepted
  exact ⟨made, tree, log, accepted, told,
    accepted_abridges .defaults false false unclosed none made accepted⟩

end Parlance.Builtin
