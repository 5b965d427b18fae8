import Parlance.Proofs.Builtin.Assembly

/-! The grammar reads every statement back from its tokens, if no `else` in it is misplaced and none
follows that it would take. -/

namespace Parlance.Builtin

open Derives Statements

variable {lexicon : Lexicon} {unit : String} {sugar : Bool} {items rest input : List Item}
  {tree value : Tree} {tokens more : List Token}

theorem Written.hard {part : Part} {level : Nat}
    (written : Written lexicon unit sugar part level tree tokens) :
    ∃ token ∈ tokens, token.isHard = true := by
  induction written with
  | statement _ ih | declarator _ ih => exact ih
  | nextStatement _ _ ih | nextDeclarator _ _ ih =>
      obtain ⟨token, member, hard⟩ := ih
      exact ⟨token, by simp [member], hard⟩
  | _ => simp [guard, spaced]

/-- The items are read as the statement, if none of its `else` is misplaced and no `else` follows
that it would take. -/
def AcceptsStatement (sugar : Bool) (tree : Tree) (tokens : List Token) : Prop :=
  ∀ items rest, Spells (peg sugar) items tokens → ¬ Dangles tree →
    (LeavesElse tree → Lacks (peg sugar) ["else"] rest) →
    Derives (peg sugar) (.pattern (.rule "Statement")) (items ++ rest) (some (tree, rest))

def AcceptsStatements (sugar : Bool) (tree : Tree) (tokens : List Token) : Prop :=
  ∀ items rest, Spells (peg sugar) items tokens → ¬ Dangles tree → Lacks (peg sugar) ["else"] rest →
    ∃ first values middle, tree = .list (first :: values) ∧
      middle.length < (items ++ rest).length ∧
      Derives (peg sugar) (.pattern (.rule "Statement")) (items ++ rest) (some (first, middle)) ∧
      Laps (peg sugar) (.rule "Statement") .empty middle values rest

def AcceptsPart (sugar : Bool) : Part → Tree → List Token → Prop
  | .statement => AcceptsStatement sugar
  | .statements => AcceptsStatements sugar
  | .declarator => AcceptsBefore (peg sugar) goesOnAny "VariableDeclarator"
  | .declarators => AcceptsCommas (peg sugar) "VariableDeclarator"

theorem AcceptsStatement.only (accepts : AcceptsStatement sugar tree tokens)
    (hard : ∃ token ∈ tokens, token.isHard = true) :
    AcceptsStatements sugar (.list [tree]) tokens := by
  intro items rest spells placed stops
  have placedToo : ¬ Dangles tree := fun dangles => placed
    ((misplaces_ofTypes.ofNodes.list_iff _).mpr ⟨tree, List.mem_singleton_self _, dangles⟩)
  obtain ⟨token, member, isHard⟩ := hard
  have some : items ≠ [] := by
    rintro rfl
    exact List.not_mem_nil (spells ▸ List.mem_filter.mpr ⟨member, isHard⟩)
  have shorter := List.length_pos_iff.mpr some
  exact ⟨tree, [], rest, rfl, by rw [List.length_append]; omega,
    accepts items rest spells placedToo fun _ => stops, .done⟩

theorem AcceptsStatement.next {values : List Tree} {level : Nat}
    (accepts : AcceptsStatement sugar tree tokens) (hard : ∃ token ∈ tokens, token.isHard = true)
    (acceptsLater : AcceptsStatements sugar (.list values) more) :
    AcceptsStatements sugar (.list (tree :: values)) (tokens ++ lineBreak unit level :: more) := by
  intro items rest spells placed stops
  have apart (item : Tree) (member : item ∈ tree :: values) : ¬ Dangles item := fun dangles =>
    placed ((misplaces_ofTypes.ofNodes.list_iff _).mpr ⟨item, member, dangles⟩)
  have placedLater : ¬ Dangles (.list values) :=
    not_dangles_list fun item member => apart item (List.mem_cons_of_mem _ member)
  obtain ⟨first, last, rfl, spellsFirst, spellsLast⟩ := spells.append
  obtain ⟨next, others, middle, equal, shorter, begins, laps⟩ :=
    acceptsLater last rest spellsLast.soft placedLater stops
  cases equal
  have head : Lacks (peg sugar) ["else"] (last ++ rest) :=
    lacks_of_matched statement_fails begins (by decide)
  obtain ⟨tree', none, between, same, less, matched, done⟩ :=
    accepts.only hard first (last ++ rest) spellsFirst
      (not_dangles_list (by simpa using apart tree (List.mem_cons_self ..))) head
  cases same
  cases done
  have moved : middle ≠ last ++ rest := by
    rintro rfl
    exact Nat.lt_irrefl _ shorter
  rw [List.append_assoc]
  exact ⟨tree, next :: others, last ++ rest, rfl, less, matched, .lap .empty begins moved laps⟩

theorem AcceptsStatements.star (accepts : AcceptsStatements sugar tree tokens)
    (spells : Spells (peg sugar) items tokens) (placed : ¬ Dangles tree)
    (stops : Lacks (peg sugar) ("else" :: statementStarts) rest) :
    Derives (peg sugar) (.pattern (.star (.rule "Statement") none)) (items ++ rest)
      (some (tree, rest)) := by
  have last : Lacks (peg sugar) statementStarts rest :=
    stops.mono fun _ => List.mem_cons_of_mem _
  have noElse : Lacks (peg sugar) ["else"] rest := stops.mono (by simp)
  obtain ⟨first, values, middle, rfl, -, begins, laps⟩ := accepts items rest spells placed noElse
  have later : Derives (peg sugar) (.rounds (.rule "Statement") none) middle
      (some (.list values, rest)) :=
    laps.rounds rfl rfl (.inr ⟨.null, rest, .empty, statement_fails last⟩)
  exact .repetition begins later

theorem emptyBlock_accepted : AcceptsStatement sugar (.node "BlockStatement" [("body", .list [])])
    [.literal "\x7b", .literal "\x7d"] := by
  intro items rest spells _ _
  obtain ⟨first, more, rfl, opens, spells⟩ := spells.cons
  obtain ⟨last, left, rfl, closes, nothing⟩ := spells.cons
  cases nothing.nil
  have fails : Derives (peg sugar) (.pattern (.rule "Statement")) (last :: rest) none :=
    statement_fails (lacks_cons closes (by decide))
  exact block_derives (kind?_of_hard opens) (.noneFound fails) (kind?_of_hard closes)

theorem block_accepted {level : Nat} (accepts : AcceptsStatements sugar tree tokens) :
    AcceptsStatement sugar (.node "BlockStatement" [("body", tree)])
      (.literal "\x7b" :: lineBreak unit (level + 1) :: tokens ++
        [lineBreak unit level, .literal "\x7d"]) := by
  intro items rest spells placed _
  obtain ⟨before, after, rfl, spellsBefore, ending⟩ := spells.append
  obtain ⟨first, inner, rfl, opens, spellsInner⟩ := spellsBefore.cons
  obtain ⟨last, left, rfl, closes, nothing⟩ := ending.soft.cons
  cases nothing.nil
  have placedToo : ¬ Dangles tree := fun dangles =>
    placed (dangles_of_field (.one (by decide)) (List.mem_singleton_self _) dangles)
  have starred := accepts.star spellsInner.soft placedToo
    (show Lacks (peg sugar) _ (last :: rest) from lacks_cons closes (by decide))
  rw [List.cons_append, List.cons_append, List.append_assoc]
  exact block_derives (kind?_of_hard opens) starred (kind?_of_hard closes)

theorem semicolon_terminates {item : Item} (same : (peg sugar).token item = .literal ";")
    (rest : List Item) : Terminated (item :: rest) rest := .closed (kind?_of_hard same) rest

theorem Formula.accepts (formula : Formula lexicon .assignment tree tokens) :
    AcceptsBefore (peg sugar) goesOnAny "AssignmentExpression" tree tokens := by
  intro items rest spells stops
  have accepts : Accepts (peg sugar) .assignment tree _ := formula.construed.accepts
  exact accepts items rest (spells.trans (by simp)) stops

theorem expression_matched {item : Item} (formula : Formula lexicon .assignment tree tokens)
    (spells : Spells (peg sugar) items tokens) {word : String} (same : item.token = .literal word)
    (ends : word ∉ goesOnAny) (rest : List Item) :
    Derives (peg sugar) (.pattern (.rule "Expression")) (items ++ item :: rest)
      (some (tree, item :: rest)) := by
  rw [expression_iff, onlyAlternative_iff]
  exact formula.accepts items _ spells (lacks_cons same ends)

theorem empty_accepted : AcceptsStatement sugar (.node "EmptyStatement" []) [.literal ";"] := by
  intro items rest spells _ _
  obtain ⟨item, none, rfl, same, none⟩ := spells.cons
  cases none.nil
  exact empty_derives (kind?_of_hard same) rest

theorem returning_accepted :
    AcceptsStatement sugar (.node "ReturnStatement" [("argument", .null)])
      [.literal "return", .literal ";"] := by
  intro items rest spells _ _
  obtain ⟨item, more, rfl, same, spells⟩ := spells.cons
  obtain ⟨last, left, rfl, ends, nothing⟩ := spells.cons
  cases nothing.nil
  have fails : Derives (peg sugar) (.pattern (.rule "Expression")) (last :: rest) none :=
    expression_fails (lacks_cons ends (by decide))
  exact (Clause.returning (kind?_of_hard same) fails).derives (semicolon_terminates ends rest)

theorem returningValue_accepted (formula : Formula lexicon .assignment tree tokens) :
    AcceptsStatement sugar (.node "ReturnStatement" [("argument", tree)])
      (.literal "return" :: .soft " " :: tokens ++ [.literal ";"]) := by
  intro items rest spells _ _
  obtain ⟨before, last, rfl, spells, ends⟩ := spells.last
  obtain ⟨first, inner, rfl, same, spells⟩ := spells.cons
  have matched := @expression_matched _ sugar _ _ _ _ formula spells.soft _ ends (by decide) rest
  rw [List.cons_append, List.cons_append, List.append_assoc]
  exact (Clause.returningValue (kind?_of_hard same) matched).derives (semicolon_terminates ends rest)

theorem expressionStatement_accepted (formula : Formula lexicon .assignment tree tokens) :
    AcceptsStatement sugar (.node "ExpressionStatement" [("expression", tree)])
      (tokens ++ [.literal ";"]) := by
  intro items rest spells _ _
  obtain ⟨inner, last, rfl, spells, ends⟩ := spells.last
  have matched := @expression_matched _ sugar _ _ _ _ formula spells _ ends (by decide) rest
  rw [List.append_assoc]
  exact (Clause.expression matched).derives (semicolon_terminates ends rest)

theorem bareDeclarator_accepted (name : String) :
    AcceptsBefore (peg sugar) goesOnAny "VariableDeclarator" (declarator name .null)
      [.hard Lexicon.identifierClass name] := by
  refine acceptsBefore_token fun item rest same stops => ?_
  have equals : Lacks (peg sugar) ["="] rest := stops.mono (by decide)
  exact DissectedDeclarator.derives
    (.bare (identifier_matched same rest) (.noSequence (ignoredToken_none equals)))

theorem initialized_accepted (name : String) (formula : Formula lexicon .assignment tree tokens) :
    AcceptsBefore (peg sugar) goesOnAny "VariableDeclarator" (declarator name tree)
      (.hard Lexicon.identifierClass name :: spaced "=" ++ tokens) := by
  intro items rest spells stops
  obtain ⟨item, later, rfl, same, spellsLater⟩ := spells.cons
  obtain ⟨equals, inner, rfl, assigns, spellsInner⟩ := spellsLater.soft.cons
  have matched : Derives (peg sugar) (.pattern (.rule "AssignmentExpression")) (inner ++ rest)
      (some (tree, rest)) := formula.accepts inner rest spellsInner.soft stops
  exact DissectedDeclarator.derives
    (.initialized (identifier_matched same _) (kind?_of_hard assigns) matched)

theorem declaration_accepted {kind : String} (isKind : kind ∈ declarationKinds)
    (accepts : AcceptsCommas (peg sugar) "VariableDeclarator" tree tokens) :
    AcceptsStatement sugar
      (.node "VariableDeclaration" [("kind", .text kind), ("declarations", tree)])
      (.literal kind :: .soft " " :: tokens ++ [.literal ";"]) := by
  intro items rest spells _ _
  obtain ⟨before, last, rfl, spellsBefore, ends⟩ := spells.last
  obtain ⟨first, inner, rfl, same, spellsInner⟩ := spellsBefore.cons
  have stops : Lacks (peg sugar) goesOnAny (last :: rest) := lacks_cons ends (by decide)
  have comma : Lacks (peg sugar) [","] (last :: rest) := lacks_cons ends (by decide)
  obtain ⟨declared, values, middle, rfl, -, begins, laps⟩ :=
    accepts inner (last :: rest) spellsInner.soft stops
  have more : Derives (peg sugar) (.rounds (.rule "VariableDeclarator") (some (.ignoredToken ",")))
      middle (some (.list values, last :: rest)) :=
    laps.rounds rfl rfl (.inl (.noIgnore (token_none comma)))
  have clause := Clause.declaration isKind (kind?_of_hard same) begins more
  rw [show first.token.text = kind from congrArg Token.text same] at clause
  rw [List.cons_append, List.cons_append, List.append_assoc]
  exact clause.derives (semicolon_terminates ends rest)

theorem guard_headed {word : String} (formula : Formula lexicon .assignment tree tokens)
    (spells : Spells (peg sugar) items (guard word tokens)) (input : List Item) :
    Headed sugar word tree (items ++ input) input := by
  obtain ⟨before, after, rfl, spellsBefore, spellsAfter⟩ := spells.append
  obtain ⟨first, opened, rfl, words, spellsOpened⟩ := spellsBefore.cons
  obtain ⟨second, inner, rfl, opens, spellsInner⟩ := spellsOpened.soft.cons
  obtain ⟨last, blank, rfl, closes, nothing⟩ := spellsAfter.cons
  cases nothing.soft.nil
  have tested : Derives (peg sugar) (.pattern (.rule "Expression")) (inner ++ last :: input) _ :=
    expression_matched formula spellsInner closes (by decide) input
  rw [List.append_assoc]
  exact .intro (kind?_of_hard words) (kind?_of_hard opens) tested (kind?_of_hard closes)

theorem guard_guarded {word : String} {body : Tree} {rest : List Item}
    (formula : Formula lexicon .assignment tree tokens) (accepts : AcceptsStatement sugar body more)
    (spells : Spells (peg sugar) items (guard word tokens ++ more)) (placed : ¬ Dangles body)
    (stops : LeavesElse body → Lacks (peg sugar) ["else"] rest) :
    Guarded sugar word tree body (items ++ rest) rest := by
  obtain ⟨before, after, rfl, spellsBefore, spellsAfter⟩ := spells.append
  rw [List.append_assoc]
  exact .intro (guard_headed formula spellsBefore _) (accepts after rest spellsAfter placed stops)

theorem loop_accepted {body : Tree} (formula : Formula lexicon .assignment tree tokens)
    (accepts : AcceptsStatement sugar body more) :
    AcceptsStatement sugar (loopNode tree body) (guard "while" tokens ++ more) := by
  intro items rest spells placed stops
  have placedBody : ¬ Dangles body := fun dangles =>
    placed (dangles_of_field guarded_distinct (.tail _ (List.mem_singleton_self _)) dangles)
  exact loop_derives
    (guard_guarded formula accepts spells placedBody fun leaves => stops (.loop tree leaves))

theorem inverted_accepted {body : Tree} (formula : Formula lexicon .assignment tree tokens)
    (accepts : AcceptsStatement true body more) :
    AcceptsStatement true (unlessNode tree body) (guard "unless" tokens ++ more) := by
  intro items rest spells placed stops
  have placedBody : ¬ Dangles body := fun dangles =>
    placed (dangles_of_field guarded_distinct (.tail _ (List.mem_singleton_self _)) dangles)
  exact inverted_derives
    (guard_guarded formula accepts spells placedBody fun leaves => stops (.inverted tree leaves))

theorem conditional_accepted {body : Tree} (formula : Formula lexicon .assignment tree tokens)
    (accepts : AcceptsStatement sugar body more) :
    AcceptsStatement sugar (branch tree body .null) (guard "if" tokens ++ more) := by
  intro items rest spells placed stops
  have noElse := stops (.conditional tree body)
  rw [dangles_branch] at placed
  push Not at placed
  exact conditional_derives (guard_guarded formula accepts spells placed.2.2.1 fun _ => noElse)
    (option_some.mpr (.inr ⟨.noSequence (ignoredToken_none noElse), rfl, rfl⟩))

/-- The `else` is met after all of the statement before it, which does not take it. -/
theorem conditionalElse_accepted {body alternate : Tree} {last : List Token}
    (formula : Formula lexicon .assignment tree tokens)
    (accepts : AcceptsStatement sugar body more) (given : alternate ≠ .null)
    (acceptsElse : AcceptsStatement sugar alternate last) :
    AcceptsStatement sugar (branch tree body alternate)
      (guard "if" tokens ++ more ++ spaced "else" ++ last) := by
  intro items rest spells placed stops
  obtain ⟨most, final, rfl, spellsMost, spellsFinal⟩ := spells.append
  obtain ⟨both, word, rfl, spellsBoth, spellsWord⟩ := spellsMost.append
  obtain ⟨item, blank, rfl, same, nothing⟩ := spellsWord.soft.cons
  cases nothing.soft.nil
  rw [dangles_branch] at placed
  push Not at placed
  have guarded : Guarded sugar "if" tree body (both ++ item :: (final ++ rest))
      (item :: (final ++ rest)) :=
    guard_guarded formula accepts spellsBoth placed.2.2.1
      fun leaves => absurd leaves (placed.1 given)
  have matchedElse := acceptsElse final rest spellsFinal placed.2.2.2
    fun leaves => stops (.alternate tree body leaves)
  have otherwise := elseClause_derives (kind?_of_hard same) matchedElse
  rw [List.append_assoc, List.append_assoc]
  exact conditional_derives guarded (option_some.mpr (.inl otherwise))

theorem Written.accepts {part : Part} {level : Nat}
    (written : Written lexicon unit sugar part level tree tokens) :
    AcceptsPart sugar part tree tokens := by
  induction written with
  | emptyBlock => exact emptyBlock_accepted
  | block _ ih => exact block_accepted ih
  | declaration isKind _ ih => exact declaration_accepted isKind ih
  | conditional tested _ ih => exact conditional_accepted tested ih
  | conditionalElse tested _ otherwise ih ihElse =>
      exact conditionalElse_accepted tested ih otherwise.ne_null ihElse
  | loop tested _ ih => exact loop_accepted tested ih
  | returning => exact returning_accepted
  | returningValue value => exact returningValue_accepted value
  | empty => exact empty_accepted
  | expression value => exact expressionStatement_accepted value
  | inverted sweet tested _ ih =>
      cases sweet
      exact inverted_accepted tested ih
  | statement only ih => exact AcceptsStatement.only ih only.hard
  | nextStatement first _ ih ihLater => exact AcceptsStatement.next ih first.hard ihLater
  | bareDeclarator => exact bareDeclarator_accepted _
  | initialized _ value => exact initialized_accepted _ value
  | declarator _ ih => exact AcceptsBefore.only ih
  | nextDeclarator _ _ ih ihLater =>
      refine (AcceptsBefore.next "," ih ihLater).congr ?_
      simp [comma, List.filter_cons, Token.literal]

theorem WrittenProgram.accepted (written : WrittenProgram lexicon unit sugar tree tokens)
    (placed : ¬ Dangles tree) (spells : Spells (peg sugar) items tokens) :
    Derives (peg sugar) (.pattern (.rule "Program")) items (some (tree, [])) := by
  rw [program_iff, onlyAlternative_iff]
  cases written with
  | empty =>
      obtain rfl := spells.nil
      exact filter_some.mpr ⟨_, .noneFound (statement_fails (lacks_nil _ _)), rfl⟩
  | statements body =>
      have placedBody : ¬ Dangles (.list _) := fun dangles =>
        placed (dangles_of_field (.one (by decide)) (List.mem_singleton_self _) dangles)
      have starred := AcceptsStatements.star body.accepts spells placedBody (lacks_nil _ _)
      rw [List.append_nil] at starred
      exact filter_some.mpr ⟨_, starred, rfl⟩

end Parlance.Builtin
