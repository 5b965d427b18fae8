import Parlance.Proofs.Builtin.Precedence

/-! A grammar with the rules for expressions reads every construed tree back from its tokens, if
nothing follows that goes on with it. A repetition is followed to its last round before it is known to
end there. -/

namespace Parlance.Builtin

open Derives Expressions

variable {α : Type} {grammar : Peg α} {items rest input : List α} {tree value : Tree}
  {tokens more : List Token}

def Spells (grammar : Peg α) (items : List α) (tokens : List Token) : Prop :=
  items.map grammar.token = tokens.filter Token.isHard

theorem Spells.nil (spells : Spells grammar items []) : items = [] := List.map_eq_nil_iff.mp spells

theorem Spells.cons {kind text : String} (spells : Spells grammar items (.hard kind text :: tokens)) :
    ∃ item rest, items = item :: rest ∧ grammar.token item = .hard kind text ∧
      Spells grammar rest tokens := by
  rw [Spells, List.filter_cons_of_pos rfl] at spells
  obtain ⟨item, rest, rfl, same, spells⟩ := List.map_eq_cons_iff.mp spells
  exact ⟨item, rest, rfl, same, spells⟩

theorem Spells.soft {text : String} (spells : Spells grammar items (.soft text :: tokens)) :
    Spells grammar items tokens := by
  rwa [Spells, List.filter_cons_of_neg (by simp [Token.isHard])] at spells

theorem Spells.append (spells : Spells grammar items (tokens ++ more)) :
    ∃ first last, items = first ++ last ∧ Spells grammar first tokens ∧
      Spells grammar last more := by
  rw [Spells, List.filter_append] at spells
  obtain ⟨first, last, rfl, before, after⟩ := List.map_eq_append_iff.mp spells
  exact ⟨first, last, rfl, before, after⟩

theorem Spells.last {kind text : String}
    (spells : Spells grammar items (tokens ++ [.hard kind text])) :
    ∃ first item, items = first ++ [item] ∧ Spells grammar first tokens ∧
      grammar.token item = .hard kind text := by
  obtain ⟨first, last, rfl, before, after⟩ := spells.append
  obtain ⟨item, none, rfl, same, none⟩ := after.cons
  cases none.nil
  exact ⟨first, item, rfl, before, same⟩

theorem kind?_of_hard {item : α} {kind text : String} (same : grammar.token item = .hard kind text) :
    (grammar.token item).kind? = some kind := by
  rw [same]
  rfl

theorem lacks_cons {item : α} {kind text : String} {kinds : List String}
    (same : grammar.token item = .hard kind text) (other : kind ∉ kinds) :
    Lacks grammar kinds (item :: rest) := by
  intro first here listed member fits
  cases here
  rw [same] at fits
  exact other (Option.some.inj fits ▸ member)

def suffixStarts : List String := ["(", ".", "["]

def primaryStarts : List String :=
  [Lexicon.numberClass, Lexicon.stringClass, "true", "false", "null", Lexicon.identifierClass, "("]

/-- What goes on with an expression of the first `n` levels. -/
def goesOn : Nat → List String
  | 0 => suffixStarts
  | n + 1 => goesOn n ++ (tiers[n]?.map BinaryLevel.operators).getD []

def goesOnAny : List String := goesOn 6 ++ assignmentOperators

theorem token_matched {item : α} {kind text : String} {role : Option Role}
    (same : grammar.token item = .hard kind text) (rest : List α) :
    Derives grammar (.pattern (.token kind role)) (item :: rest) (some (.text text, rest)) := by
  have matched : Derives grammar (.pattern (.token kind role)) (item :: rest) _ :=
    .token (kind?_of_hard same)
  rwa [same] at matched

theorem tokenChoice_matched {item : α} {kind word : String} {kinds : List String}
    {role : Option Role} (member : kind ∈ kinds) (same : grammar.token item = .hard kind word)
    (rest : List α) :
    Derives grammar (.pattern (.choice (kinds.map fun kind => .token kind role)))
      (item :: rest) (some (.text word, rest)) := by
  have matched : Derives grammar (.pattern (.choice (kinds.map fun kind => .token kind role)))
    (item :: rest) _ := tokenChoice member (kind?_of_hard same) rest
  rwa [same] at matched

def AcceptsPostfix (grammar : Peg α) (tree : Tree) (tokens : List Token) : Prop :=
  ∀ items rest, Spells grammar items tokens → ∃ primary suffixes middle,
    Derives grammar (.pattern (.rule "PrimaryExpression")) (items ++ rest)
      (some (primary, middle)) ∧
    Laps grammar (.rule "PostfixSuffix") .empty middle suffixes rest ∧
    tree = suffixes.foldl foldSuffix primary

def binaryOperators : List String := tiers.flatMap BinaryLevel.operators

def Opens (grammar : Peg α) (tokens : List Token) : Prop :=
  (∃ operator ∈ prefixOperators, ∃ word more, tokens = .hard operator word :: more) ∨
    ∃ tree first last, AcceptsPostfix grammar tree first ∧ tokens = first ++ last ∧
      (last = [] ∨ ∃ operator ∈ binaryOperators, ∃ word more, last = .hard operator word :: more)

/-- The rule reads the tree where nothing follows that is listed. -/
def AcceptsBefore (grammar : Peg α) (kinds : List String) (rule : String) (tree : Tree)
    (tokens : List Token) : Prop :=
  ∀ items rest, Spells grammar items tokens → Lacks grammar kinds rest →
    Derives grammar (.pattern (.rule rule)) (items ++ rest) (some (tree, rest))

def AcceptsOperations (grammar : Peg α) (n : Nat) (level : BinaryLevel) (tree : Tree)
    (tokens : List Token) : Prop :=
  ∀ items rest, Spells grammar items tokens → Lacks grammar (goesOn n) rest →
    ∃ first operations middle,
      Derives grammar (.pattern (.rule level.operand)) (items ++ rest) (some (first, middle)) ∧
      Laps grammar (operationPattern level) .empty middle operations rest ∧
      tree = operations.foldl (foldPair level.typeName) first

def AcceptsCommas (grammar : Peg α) (rule : String) (tree : Tree) (tokens : List Token) : Prop :=
  ∀ items rest, Spells grammar items tokens → Lacks grammar goesOnAny rest →
    ∃ first values middle, tree = .list (first :: values) ∧
      middle.length ≤ (items ++ rest).length ∧
      Derives grammar (.pattern (.rule rule)) (items ++ rest) (some (first, middle)) ∧
      Laps grammar (.rule rule) (.ignoredToken ",") middle values rest

def Accepts (grammar : Peg α) : Form → Tree → List Token → Prop
  | .primary, tree, tokens => AcceptsBefore grammar [] "PrimaryExpression" tree tokens
  | .suffixed, tree, tokens => AcceptsPostfix grammar tree tokens
  | .tier 0, tree, tokens =>
      Opens grammar tokens ∧ AcceptsBefore grammar (goesOn 0) "UnaryExpression" tree tokens
  | .tier (n + 1), tree, tokens =>
      Opens grammar tokens ∧
        ∀ level, tiers[n]? = some level → AcceptsOperations grammar n level tree tokens
  | .assignment, tree, tokens => AcceptsBefore grammar goesOnAny "AssignmentExpression" tree tokens
  | .arguments, tree, tokens => AcceptsCommas grammar "AssignmentExpression" tree tokens

theorem acceptsBefore_token {kinds : List String} {rule kind text : String}
    (each : ∀ item rest, grammar.token item = .hard kind text → Lacks grammar kinds rest →
      Derives grammar (.pattern (.rule rule)) (item :: rest) (some (tree, rest))) :
    AcceptsBefore grammar kinds rule tree [.hard kind text] := by
  intro items rest spells stops
  obtain ⟨item, none, rfl, same, none⟩ := spells.cons
  cases none.nil
  exact each item rest same stops

theorem Accepts.opens {n : Nat} (accepts : Accepts grammar (.tier n) tree tokens) :
    Opens grammar tokens := by
  cases n with
  | zero => exact accepts.1
  | succ n => exact accepts.1

theorem Opens.append (opens : Opens grammar tokens) {operator : String}
    (isOperator : operator ∈ binaryOperators) (word : String) (more : List Token) :
    Opens grammar (tokens ++ .hard operator word :: more) := by
  rcases opens with ⟨first, isPrefix, text, inner, rfl⟩ | ⟨tree, first, last, accepts, rfl, follows⟩
  · exact .inl ⟨first, isPrefix, text, inner ++ .hard operator word :: more, rfl⟩
  · refine .inr ⟨tree, first, last ++ .hard operator word :: more, accepts, by simp, .inr ?_⟩
    rcases follows with rfl | ⟨other, isOther, text, inner, rfl⟩
    · exact ⟨operator, isOperator, word, more, rfl⟩
    · exact ⟨other, isOther, text, inner ++ .hard operator word :: more, rfl⟩

theorem mem_binaryOperators {n : Nat} {level : BinaryLevel} (here : tiers[n]? = some level)
    {operator : String} (isOperator : operator ∈ level.operators) : operator ∈ binaryOperators :=
  List.mem_flatMap.mpr ⟨level, List.mem_of_getElem? here, isOperator⟩

def AcceptsSuffix (grammar : Peg α) (suffix : Tree) (tokens : List Token) : Prop :=
  ∀ items rest, Spells grammar items tokens → items ≠ [] ∧
    Derives grammar (.pattern (.rule "PostfixSuffix")) (items ++ rest) (some (suffix, rest))

theorem ne_append {items : List α} (some : items ≠ []) (rest : List α) :
    rest ≠ items ++ rest := by
  intro same
  have length := congrArg List.length same
  rw [List.length_append] at length
  exact some (List.eq_nil_of_length_eq_zero (by omega))

theorem AcceptsPostfix.snoc {suffix : Tree} (accepts : AcceptsPostfix grammar tree tokens)
    (acceptsSuffix : AcceptsSuffix grammar suffix more) :
    AcceptsPostfix grammar (foldSuffix tree suffix) (tokens ++ more) := by
  intro items rest spells
  obtain ⟨first, last, rfl, before, after⟩ := spells.append
  obtain ⟨primary, suffixes, middle, begins, laps, rfl⟩ := accepts first (last ++ rest) before
  obtain ⟨some, matched⟩ := acceptsSuffix last rest after
  refine ⟨primary, suffixes ++ [suffix], middle, ?_, ?_, ?_⟩
  · rwa [List.append_assoc]
  · exact laps.snoc .empty matched (ne_append some rest)
  · rw [List.foldl_append]
    rfl

theorem AcceptsBefore.only {rule : String}
    (accepts : AcceptsBefore grammar goesOnAny rule tree tokens) :
    AcceptsCommas grammar rule (.list [tree]) tokens :=
  fun items rest spells stops =>
    ⟨_, [], rest, rfl, by simp, accepts items rest spells stops, .done⟩

theorem AcceptsBefore.next {rule : String} {values : List Tree} (parting : String)
    (accepts : AcceptsBefore grammar goesOnAny rule tree tokens)
    (acceptsLater : AcceptsCommas grammar rule (.list values) more) :
    AcceptsCommas grammar rule (.list (tree :: values)) (tokens ++ .hard "," parting :: more) := by
  intro items rest spells stops
  obtain ⟨first, both, rfl, spellsFirst, spells⟩ := spells.append
  obtain ⟨item, last, rfl, same, spellsLast⟩ := spells.cons
  obtain ⟨next, others, middle, equal, shorter, begins, laps⟩ := acceptsLater last rest spellsLast stops
  cases equal
  have matched := accepts first (item :: (last ++ rest)) spellsFirst (lacks_cons same (by decide))
  have parted : Derives grammar (.pattern (.ignoredToken ",")) (item :: (last ++ rest))
      (some (.null, last ++ rest)) := .ignore (token_matched same _)
  have moved : middle ≠ item :: (last ++ rest) := by
    rintro rfl
    simp at shorter
  refine ⟨tree, next :: others, item :: (last ++ rest), rfl, by simp, ?_, .lap parted begins moved laps⟩
  rwa [List.append_assoc]

theorem AcceptsCommas.congr {rule : String} (accepts : AcceptsCommas grammar rule tree tokens)
    (same : tokens.filter Token.isHard = more.filter Token.isHard) :
    AcceptsCommas grammar rule tree more :=
  fun items rest spells => accepts items rest (spells.trans same.symm)

theorem AcceptsCommas.repeated {rule : String} (accepts : AcceptsCommas grammar rule tree tokens)
    (spells : Spells grammar items tokens) (stops : Lacks grammar ("," :: goesOnAny) rest)
    (allowEmpty : Bool) :
    Derives grammar (.pattern (.repetition (.rule rule) (some (.ignoredToken ",")) allowEmpty))
      (items ++ rest) (some (tree, rest)) := by
  have last : Lacks grammar goesOnAny rest := stops.mono fun _ => List.mem_cons_of_mem _
  have comma : Lacks grammar [","] rest := stops.mono (by simp)
  obtain ⟨first, values, middle, rfl, -, begins, laps⟩ := accepts items rest spells last
  have rounds : Derives grammar (.rounds (.rule rule) (some (.ignoredToken ","))) middle
      (some (.list values, rest)) :=
    laps.rounds rfl rfl (.inl (.noIgnore (token_none comma)))
  exact .repetition begins rounds

variable [Expresses grammar]

theorem suffix_fails (lacks : Lacks grammar suffixStarts input) :
    Derives grammar (.pattern (.rule "PostfixSuffix")) input none := by
  rw [suffix_iff]
  have call : Lacks grammar ["("] input := lacks.mono (by decide)
  have member : Lacks grammar ["."] input := lacks.mono (by decide)
  have index : Lacks grammar ["["] input := lacks.mono (by decide)
  exact .nextAlternative (.noFilter (.noSequence (ignoredToken_none call)))
    (.nextAlternative (.noFilter (.noSequence (ignoredToken_none member)))
      (.nextAlternative (.noFilter (.noSequence (ignoredToken_none index))) .noAlternatives))

theorem identifier_fails (lacks : Lacks grammar [Lexicon.identifierClass] input) :
    Derives grammar (.pattern (.rule "Identifier")) input none := by
  rw [identifier_iff, onlyAlternative_iff]
  exact .noFilter (token_none lacks)

theorem primary_unliteral {result : Option (Tree × List α)}
    (lacks : Lacks grammar [Lexicon.numberClass, Lexicon.stringClass, "true", "false", "null"] input)
    (derives : Derives grammar (.alternatives [
        .rule "Identifier",
        .filter (.sequence [.ignoredToken "(", .rule "Expression", .ignoredToken ")"])
          (.construct ⟨"ParenthesizedExpression", ["expression"]⟩) none]) input result) :
    Derives grammar (.pattern (.rule "PrimaryExpression")) input result := by
  have number : Lacks grammar [Lexicon.numberClass] input := lacks.mono (by decide)
  have string : Lacks grammar [Lexicon.stringClass] input := lacks.mono (by decide)
  have boolean : Lacks grammar ["true", "false"] input := lacks.mono (by decide)
  have null : Lacks grammar ["null"] input := lacks.mono (by decide)
  rw [primary_iff]
  exact .nextAlternative (.noFilter (token_none number))
    (.nextAlternative (.noFilter (token_none string))
      (.nextAlternative (.noFilter (tokenChoice_none boolean))
        (.nextAlternative (.noFilter (.noIgnore (token_none null))) derives)))

theorem primary_fails (lacks : Lacks grammar primaryStarts input) :
    Derives grammar (.pattern (.rule "PrimaryExpression")) input none := by
  have name : Lacks grammar [Lexicon.identifierClass] input := lacks.mono (by decide)
  have bracket : Lacks grammar ["("] input := lacks.mono (by decide)
  refine primary_unliteral (lacks.mono (by decide)) ?_
  exact .nextAlternative (identifier_fails name)
    (.nextAlternative (.noFilter (.noSequence (ignoredToken_none bracket))) .noAlternatives)

theorem postfix_fails (lacks : Lacks grammar primaryStarts input) :
    Derives grammar (.pattern (.rule "PostfixExpression")) input none := by
  rw [postfix_iff, onlyAlternative_iff]
  exact .noFilter (.noSequence (.termFails (primary_fails lacks)))

theorem tier_fails (lacks : Lacks grammar (primaryStarts ++ prefixOperators) input) {n : Nat}
    (within : n ≤ 6) : Derives grammar (.pattern (.rule (tierRule n))) input none := by
  have primary : Lacks grammar primaryStarts input :=
    lacks.mono fun _ => List.mem_append_left _
  have operator : Lacks grammar prefixOperators input :=
    lacks.mono fun _ => List.mem_append_right _
  induction n with
  | zero =>
      show Derives _ (.pattern (.rule "UnaryExpression")) _ _
      rw [unary_iff]
      exact .nextAlternative (.noFilter (.noSequence (.termFails (tokenChoice_none operator))))
        (.nextAlternative (postfix_fails primary) .noAlternatives)
  | succ n ih =>
      obtain ⟨level, here⟩ := tiers_at within
      rw [tierRule_succ here, tier_iff here, onlyAlternative_iff, operand_eq here]
      exact .noFilter (.noSequence (.termFails (ih (by omega))))

theorem assignment_fails (lacks : Lacks grammar (primaryStarts ++ prefixOperators) input) :
    Derives grammar (.pattern (.rule "AssignmentExpression")) input none := by
  rw [assignment_iff]
  have primary : Lacks grammar primaryStarts input :=
    lacks.mono fun _ => List.mem_append_left _
  exact .nextAlternative (.noFilter (.noSequence (.termFails (postfix_fails primary))))
    (.nextAlternative (tier_fails lacks (Nat.le_refl 6)) .noAlternatives)

theorem AcceptsPostfix.before (accepts : AcceptsPostfix grammar tree tokens) :
    AcceptsBefore grammar suffixStarts "PostfixExpression" tree tokens := by
  intro items rest spells stops
  obtain ⟨primary, suffixes, middle, first, laps, rfl⟩ := accepts items rest spells
  rw [postfix_iff, onlyAlternative_iff]
  refine filter_some.mpr ⟨_, sequence_some.mpr ⟨[primary, .list suffixes], ?_, rfl⟩, rfl⟩
  have starred := laps.star rfl (suffix_fails stops)
  exact (usedTerm_some rfl).mpr ⟨_, _, _, first,
    (usedTerm_some rfl).mpr ⟨_, _, _, starred, .noTerms, rfl⟩, rfl⟩

theorem AcceptsOperations.before {n : Nat} {level : BinaryLevel} (here : tiers[n]? = some level)
    (accepts : AcceptsOperations grammar n level tree tokens) :
    AcceptsBefore grammar (goesOn (n + 1)) (tierRule (n + 1)) tree tokens := by
  intro items rest spells stops
  have tighter : Lacks grammar (goesOn n) rest := stops.mono fun _ => List.mem_append_left _
  have same : Lacks grammar level.operators rest := by
    refine stops.mono fun kind member => List.mem_append_right _ ?_
    rw [here]
    exact member
  obtain ⟨first, operations, middle, begins, laps, rfl⟩ := accepts items rest spells tighter
  rw [tierRule_succ here, tier_iff here, onlyAlternative_iff]
  refine filter_some.mpr ⟨_, sequence_some.mpr ⟨[first, .list operations], ?_, rfl⟩, rfl⟩
  have fails : Derives grammar (.pattern (operationPattern level)) rest none :=
    .noSequence (.termFails (tokenChoice_none same))
  have starred := laps.star (operation_used level) fails
  exact (usedTerm_some rfl).mpr ⟨_, _, _, begins,
    (usedTerm_some rfl).mpr ⟨_, _, _, starred, .noTerms, rfl⟩, rfl⟩

theorem Accepts.before {n : Nat} (within : n ≤ 6) (accepts : Accepts grammar (.tier n) tree tokens) :
    AcceptsBefore grammar (goesOn n) (tierRule n) tree tokens := by
  cases n with
  | zero => exact accepts.2
  | succ n =>
      obtain ⟨level, here⟩ := tiers_at within
      exact (accepts.2 level here).before here

theorem identifier_matched {item : α} {name : String}
    (same : grammar.token item = .hard "Identifier" name) (rest : List α) :
    Derives grammar (.pattern (.rule "Identifier")) (item :: rest)
      (some (identifier name, rest)) := by
  rw [identifier_iff, onlyAlternative_iff]
  exact filter_some.mpr ⟨_, token_matched same rest, rfl⟩

theorem bracketed_matched {opening closing first last : String} (ends : closing ∉ goesOnAny)
    (accepts : AcceptsBefore grammar goesOnAny "AssignmentExpression" tree tokens)
    (spells : Spells grammar items (.hard opening first :: tokens ++ [.hard closing last]))
    (rest : List α) :
    Derives grammar (.pattern (.sequence
        [.ignoredToken opening, .rule "Expression", .ignoredToken closing])) (items ++ rest)
      (some (tree, rest)) := by
  obtain ⟨before, last, rfl, spells, closes⟩ := spells.last
  obtain ⟨first, inner, rfl, opens, spells⟩ := spells.cons
  have stops : Lacks grammar goesOnAny (last :: rest) := lacks_cons closes ends
  have inside := accepts inner (last :: rest) spells stops
  rw [← onlyAlternative_iff, ← expression_iff] at inside
  rw [List.cons_append, List.cons_append, List.append_assoc]
  refine sequence_some.mpr ⟨[tree], ignoredToken_some.mpr ⟨_, _, rfl, kind?_of_hard opens, ?_⟩, rfl⟩
  exact (usedTerm_some rfl).mpr ⟨_, _, _, inside,
    ignoredToken_some.mpr ⟨_, _, rfl, kind?_of_hard closes, .noTerms⟩, rfl⟩

theorem number_accepted (raw : String) : AcceptsBefore grammar [] "PrimaryExpression"
    (numericLiteral (.text raw)) [.hard "NumericLiteral" raw] := by
  refine acceptsBefore_token fun item rest same _ => ?_
  rw [primary_iff]
  exact .decided (filter_some.mpr ⟨_, token_matched same rest, rfl⟩)

theorem string_accepted (raw : String) : AcceptsBefore grammar [] "PrimaryExpression"
    (.node "StringLiteral" [("raw", .text raw)]) [.hard "StringLiteral" raw] := by
  refine acceptsBefore_token fun item rest same _ => ?_
  rw [primary_iff]
  exact .nextAlternative (.noFilter (token_none (lacks_cons same (by decide))))
    (.decided (filter_some.mpr ⟨_, token_matched same rest, rfl⟩))

theorem boolean_accepted {kind : String} (isBoolean : kind ∈ ["true", "false"]) (word : String) :
    AcceptsBefore grammar [] "PrimaryExpression" (booleanLiteral (.text word))
      [.hard kind word] := by
  refine acceptsBefore_token fun item rest same _ => ?_
  have number : ∀ word ∈ ["true", "false"], word ∉ [Lexicon.numberClass] := by decide
  have string : ∀ word ∈ ["true", "false"], word ∉ [Lexicon.stringClass] := by decide
  rw [primary_iff]
  exact .nextAlternative (.noFilter (token_none (lacks_cons same (number kind isBoolean))))
    (.nextAlternative (.noFilter (token_none (lacks_cons same (string kind isBoolean))))
      (.decided (filter_some.mpr ⟨_, tokenChoice_matched isBoolean same rest, rfl⟩)))

theorem null_accepted (word : String) :
    AcceptsBefore grammar [] "PrimaryExpression" (.node "NullLiteral" []) [.hard "null" word] := by
  refine acceptsBefore_token fun item rest same _ => ?_
  rw [primary_iff]
  exact .nextAlternative (.noFilter (token_none (lacks_cons same (by decide))))
    (.nextAlternative (.noFilter (token_none (lacks_cons same (by decide))))
      (.nextAlternative (.noFilter (tokenChoice_none (lacks_cons same (by decide))))
        (.decided (filter_some.mpr ⟨_, .ignore (token_matched same rest), rfl⟩))))

theorem identifier_accepted (name : String) : AcceptsBefore grammar [] "PrimaryExpression"
    (identifier name) [.hard "Identifier" name] := by
  refine acceptsBefore_token fun item rest same _ => ?_
  exact primary_unliteral (lacks_cons same (by decide)) (.decided (identifier_matched same rest))

theorem parenthesized_accepted (opening closing : String)
    (accepts : AcceptsBefore grammar goesOnAny "AssignmentExpression" tree tokens) :
    AcceptsBefore grammar [] "PrimaryExpression"
      (.node "ParenthesizedExpression" [("expression", tree)])
      (.hard "(" opening :: tokens ++ [.hard ")" closing]) := by
  intro items rest spells _
  have matched := bracketed_matched (by decide) accepts spells rest
  obtain ⟨item, more, rfl, same, -⟩ := spells.cons
  have named : Lacks grammar [Lexicon.identifierClass] (item :: (more ++ rest)) :=
    lacks_cons same (by decide)
  refine primary_unliteral (lacks_cons same (by decide)) ?_
  exact .nextAlternative (identifier_fails named) (.decided (filter_some.mpr ⟨_, matched, rfl⟩))

theorem callWithout_accepted (opening closing : String) :
    AcceptsSuffix grammar (call (.list [])) [.hard "(" opening, .hard ")" closing] := by
  intro items rest spells
  obtain ⟨first, more, rfl, opens, spells⟩ := spells.cons
  obtain ⟨last, none, rfl, closes, none⟩ := spells.cons
  cases none.nil
  refine ⟨List.cons_ne_nil _ _, ?_⟩
  have none : Lacks grammar (primaryStarts ++ prefixOperators) (last :: rest) :=
    lacks_cons closes (by decide)
  have fails := assignment_fails none
  rw [suffix_iff]
  refine .decided (filter_some.mpr ⟨_, sequence_some.mpr ⟨[.list []], ?_, rfl⟩, rfl⟩)
  refine ignoredToken_some.mpr ⟨_, _, rfl, kind?_of_hard opens, ?_⟩
  exact (usedTerm_some rfl).mpr ⟨_, _, _, .noneFound fails,
    ignoredToken_some.mpr ⟨_, _, rfl, kind?_of_hard closes, .noTerms⟩, rfl⟩

theorem call_accepted (opening closing : String)
    (accepts : AcceptsCommas grammar "AssignmentExpression" tree tokens) :
    AcceptsSuffix grammar (call tree) (.hard "(" opening :: tokens ++ [.hard ")" closing]) := by
  intro items rest spells
  obtain ⟨before, last, rfl, spells, closes⟩ := spells.last
  obtain ⟨first, inner, rfl, opens, spells⟩ := spells.cons
  refine ⟨List.cons_ne_nil _ _, ?_⟩
  have stops : Lacks grammar ("," :: goesOnAny) (last :: rest) := lacks_cons closes (by decide)
  have starred := accepts.repeated spells stops true
  rw [List.cons_append, List.cons_append, List.append_assoc, suffix_iff]
  refine .decided (filter_some.mpr ⟨_, sequence_some.mpr ⟨[tree], ?_, rfl⟩, rfl⟩)
  refine ignoredToken_some.mpr ⟨_, _, rfl, kind?_of_hard opens, ?_⟩
  exact (usedTerm_some rfl).mpr ⟨_, _, _, starred,
    ignoredToken_some.mpr ⟨_, _, rfl, kind?_of_hard closes, .noTerms⟩, rfl⟩

theorem member_accepted (dot name : String) :
    AcceptsSuffix grammar (member false (identifier name))
      [.hard "." dot, .hard "Identifier" name] := by
  intro items rest spells
  obtain ⟨dot, more, rfl, dots, spells⟩ := spells.cons
  obtain ⟨last, none, rfl, same, none⟩ := spells.cons
  cases none.nil
  refine ⟨List.cons_ne_nil _ _, ?_⟩
  have call : Lacks grammar ["("] (dot :: last :: rest) := lacks_cons dots (by decide)
  rw [suffix_iff]
  refine .nextAlternative (.noFilter (.noSequence (ignoredToken_none call))) (.decided ?_)
  refine filter_some.mpr ⟨_, sequence_some.mpr ⟨[identifier name], ?_, rfl⟩, rfl⟩
  exact ignoredToken_some.mpr ⟨_, _, rfl, kind?_of_hard dots,
    (usedTerm_some rfl).mpr ⟨_, _, _, identifier_matched same rest, .noTerms, rfl⟩⟩

theorem index_accepted (opening closing : String)
    (accepts : AcceptsBefore grammar goesOnAny "AssignmentExpression" tree tokens) :
    AcceptsSuffix grammar (member true tree) (.hard "[" opening :: tokens ++ [.hard "]" closing]) := by
  intro items rest spells
  have matched := bracketed_matched (by decide) accepts spells rest
  obtain ⟨item, more, rfl, same, -⟩ := spells.cons
  refine ⟨List.cons_ne_nil _ _, ?_⟩
  have call : Lacks grammar ["("] (item :: (more ++ rest)) := lacks_cons same (by decide)
  have member : Lacks grammar ["."] (item :: (more ++ rest)) := lacks_cons same (by decide)
  rw [suffix_iff]
  exact .nextAlternative (.noFilter (.noSequence (ignoredToken_none call)))
    (.nextAlternative (.noFilter (.noSequence (ignoredToken_none member)))
      (.decided (filter_some.mpr ⟨_, matched, rfl⟩)))

theorem AcceptsPostfix.lacks (accepts : AcceptsPostfix grammar tree tokens)
    (spells : Spells grammar items tokens) (rest : List α) :
    Lacks grammar prefixOperators (items ++ rest) := by
  intro item here kind member fits
  obtain ⟨primary, suffixes, middle, begins, -⟩ := accepts items rest spells
  have apart : ∀ kind ∈ prefixOperators, kind ∉ primaryStarts := by decide
  have none : Lacks grammar primaryStarts (items ++ rest) := by
    intro other there kindToo memberToo fitsToo
    cases here.symm.trans there
    cases fits.symm.trans fitsToo
    exact apart kind member memberToo
  cases (primary_fails none).unique begins

theorem unprefixed_accepted (accepts : AcceptsPostfix grammar tree tokens) :
    AcceptsBefore grammar (goesOn 0) "UnaryExpression" tree tokens := by
  intro items rest spells stops
  rw [unary_iff]
  exact .nextAlternative
    (.noFilter (.noSequence (.termFails (tokenChoice_none (accepts.lacks spells rest)))))
    (.decided (accepts.before items rest spells stops))

theorem prefixed_accepted {kind : String} (isPrefix : kind ∈ prefixOperators) (word : String)
    (accepts : AcceptsBefore grammar (goesOn 0) "UnaryExpression" tree tokens) :
    AcceptsBefore grammar (goesOn 0) "UnaryExpression"
      (.node "UnaryExpression" [("operator", .text word), ("argument", tree)])
      (.hard kind word :: tokens) := by
  intro items rest spells stops
  obtain ⟨item, inner, rfl, same, spells⟩ := spells.cons
  rw [unary_iff]
  refine .decided (filter_some.mpr ⟨_, sequence_some.mpr ⟨[.text word, tree], ?_, rfl⟩, rfl⟩)
  exact (usedTerm_some rfl).mpr ⟨_, _, _, tokenChoice_matched isPrefix same _,
    (usedTerm_some rfl).mpr ⟨_, _, _, accepts inner rest spells stops, .noTerms, rfl⟩, rfl⟩

theorem lifted_accepted {n : Nat} {level : BinaryLevel} (here : tiers[n]? = some level)
    (accepts : Accepts grammar (.tier n) tree tokens) :
    AcceptsOperations grammar n level tree tokens := by
  intro items rest spells stops
  have within : n < 6 := (List.getElem?_eq_some_iff.mp here).1
  have matched := accepts.before (Nat.le_of_lt within) items rest spells stops
  rw [← operand_eq here] at matched
  exact ⟨tree, [], rest, matched, .done, rfl⟩

theorem not_mem_goesOn {n : Nat} {level : BinaryLevel} (here : tiers[n]? = some level) :
    ∀ operator ∈ level.operators, operator ∉ goesOn n := by
  have within : n < 6 := (List.getElem?_eq_some_iff.mp here).1
  interval_cases n <;> cases here <;> decide

theorem binary_accepted {n : Nat} {level : BinaryLevel} (here : tiers[n]? = some level)
    {kind : String} (isOperator : kind ∈ level.operators) (word : String) {left right : Tree}
    (accepts : AcceptsOperations grammar n level left tokens)
    (acceptsRight : Accepts grammar (.tier n) right more) :
    AcceptsOperations grammar n level (operation level.typeName word left right)
      (tokens ++ .hard kind word :: more) := by
  intro items rest spells stops
  have within : n < 6 := (List.getElem?_eq_some_iff.mp here).1
  obtain ⟨first, both, rfl, spellsFirst, spells⟩ := spells.append
  obtain ⟨item, last, rfl, same, spellsLast⟩ := spells.cons
  have before : Lacks grammar (goesOn n) (item :: (last ++ rest)) :=
    lacks_cons same (not_mem_goesOn here kind isOperator)
  obtain ⟨operand, operations, middle, begins, laps, rfl⟩ :=
    accepts first (item :: (last ++ rest)) spellsFirst before
  have matched := acceptsRight.before (Nat.le_of_lt within) last rest spellsLast stops
  rw [← operand_eq here] at matched
  have again : Derives grammar (.pattern (operationPattern level)) (item :: (last ++ rest))
      (some (.list [.text word, right], rest)) :=
    sequence_some.mpr ⟨[.text word, right],
      (usedTerm_some (operators_used here)).mpr ⟨_, _, _, tokenChoice_matched isOperator same _,
        (usedTerm_some rfl).mpr ⟨_, _, _, matched, .noTerms, rfl⟩, rfl⟩, rfl⟩
  refine ⟨operand, operations ++ [.list [.text word, right]], middle, ?_, ?_, ?_⟩
  · simpa using begins
  · exact laps.snoc .empty again (ne_append (List.cons_ne_nil item last) rest)
  · rw [List.foldl_append]
    rfl

theorem assigned_accepted {kind : String} (isOperator : kind ∈ assignmentOperators)
    (word : String) {left right : Tree} (accepts : AcceptsPostfix grammar left tokens)
    (acceptsRight : AcceptsBefore grammar goesOnAny "AssignmentExpression" right more) :
    AcceptsBefore grammar goesOnAny "AssignmentExpression"
      (.node "AssignmentExpression"
        [("left", left), ("operator", .text word), ("right", right)])
      (tokens ++ .hard kind word :: more) := by
  intro items rest spells stops
  obtain ⟨first, both, rfl, spellsFirst, spells⟩ := spells.append
  obtain ⟨item, last, rfl, same, spellsLast⟩ := spells.cons
  have apart : ∀ operator ∈ assignmentOperators, operator ∉ suffixStarts := by decide
  have target := accepts.before first (item :: (last ++ rest)) spellsFirst
    (lacks_cons same (apart kind isOperator))
  have source := acceptsRight last rest spellsLast stops
  rw [assignment_iff, List.append_assoc]
  refine .decided (filter_some.mpr
    ⟨_, sequence_some.mpr ⟨[left, .text word, right], ?_, rfl⟩, rfl⟩)
  exact (usedTerm_some rfl).mpr ⟨_, _, _, target,
    (usedTerm_some rfl).mpr ⟨_, _, _, tokenChoice_matched isOperator same _,
      (usedTerm_some rfl).mpr ⟨_, _, _, source, .noTerms, rfl⟩, rfl⟩, rfl⟩

theorem unassigned_accepted (opens : Opens grammar tokens)
    (accepts : AcceptsBefore grammar (goesOn 6) "LogicalOrExpression" tree tokens) :
    AcceptsBefore grammar goesOnAny "AssignmentExpression" tree tokens := by
  intro items rest spells stops
  have matched := accepts items rest spells (stops.mono fun _ => List.mem_append_left _)
  rw [assignment_iff]
  refine .nextAlternative (.noFilter (.noSequence ?_)) (.decided matched)
  rcases opens with
    ⟨operator, isPrefix, word, inner, rfl⟩ | ⟨target, first, last, acceptsFirst, rfl, follows⟩
  · obtain ⟨item, inner, rfl, same, -⟩ := spells.cons
    have apart : ∀ operator ∈ prefixOperators, operator ∉ primaryStarts := by decide
    exact .termFails (postfix_fails (lacks_cons same (apart operator isPrefix)))
  · obtain ⟨before, after, rfl, spellsFirst, spellsLast⟩ := spells.append
    have ends : Lacks grammar (suffixStarts ++ assignmentOperators) (after ++ rest) := by
      rcases follows with rfl | ⟨operator, isOperator, word, more, rfl⟩
      · rw [spellsLast.nil]
        exact stops.mono (by decide)
      · obtain ⟨item, inner, rfl, same, -⟩ := spellsLast.cons
        have apart : ∀ operator ∈ binaryOperators,
            operator ∉ suffixStarts ++ assignmentOperators := by decide
        exact lacks_cons same (apart operator isOperator)
    rw [List.append_assoc]
    refine .restFails (acceptsFirst.before before (after ++ rest) spellsFirst
      (ends.mono fun _ => List.mem_append_left _)) (.termFails (tokenChoice_none ?_))
    exact ends.mono fun _ => List.mem_append_right _

theorem Construed.accepts {form : Form} (construed : Construed form tree tokens) :
    Accepts grammar form tree tokens := by
  induction construed with
  | number raw => exact number_accepted raw
  | string raw => exact string_accepted raw
  | boolean isBoolean word => exact boolean_accepted isBoolean word
  | null word => exact null_accepted word
  | identifier name => exact identifier_accepted name
  | parenthesized opening closing _ ih => exact parenthesized_accepted opening closing ih
  | suffixed _ ih =>
      exact fun items rest spells =>
        ⟨_, [], rest, ih items rest spells (fun _ _ _ none => nomatch none), .done, rfl⟩
  | callWithout opening closing _ ih =>
      have whole := AcceptsPostfix.snoc ih (callWithout_accepted opening closing)
      rwa [foldSuffix_call] at whole
  | call opening closing _ _ ih ihArguments =>
      have whole := AcceptsPostfix.snoc ih (call_accepted opening closing ihArguments)
      rwa [foldSuffix_call, List.cons_append, ← List.cons_append, ← List.append_assoc] at whole
  | member dot name _ ih =>
      have whole := AcceptsPostfix.snoc ih (member_accepted dot name)
      rwa [foldSuffix_member] at whole
  | index opening closing _ _ ih ihInner =>
      have whole := AcceptsPostfix.snoc ih (index_accepted opening closing ihInner)
      rwa [foldSuffix_member, List.cons_append, ← List.cons_append, ← List.append_assoc] at whole
  | argument _ ih => exact AcceptsBefore.only ih
  | nextArgument parting _ _ ih ihLater => exact AcceptsBefore.next parting ih ihLater
  | unprefixed _ ih =>
      exact ⟨.inr ⟨_, _, [], ih, (List.append_nil _).symm, .inl rfl⟩, unprefixed_accepted ih⟩
  | prefixed isPrefix word _ ih =>
      exact ⟨.inl ⟨_, isPrefix, _, _, rfl⟩, prefixed_accepted isPrefix word ih.2⟩
  | lifted here _ ih =>
      refine ⟨ih.opens, fun level found => lifted_accepted found ih⟩
  | binary here isOperator word _ _ ih ihRight =>
      obtain ⟨level, found, rfl⟩ := tiers_of_precedence here
      refine ⟨ih.1.append (mem_binaryOperators found isOperator) word _, fun other foundToo => ?_⟩
      cases found.symm.trans foundToo
      exact binary_accepted found isOperator word (ih.2 _ found) ihRight
  | unassigned _ ih => exact unassigned_accepted ih.1 (ih.before (Nat.le_refl 6))
  | assigned isOperator word _ _ ih ihSource => exact assigned_accepted isOperator word ih ihSource

end Parlance.Builtin
