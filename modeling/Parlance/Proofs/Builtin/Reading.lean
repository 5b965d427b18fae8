import Parlance.Proofs.Builtin.Precedence

/-! What a grammar with the rules for expressions reads as an expression is construed from the items
that it read: by induction on the length of the input, since every way around the rules consumes an
item. -/

namespace Parlance.Builtin

open Derives Expressions

variable {α : Type} {grammar : Peg α} {bound : Nat} {input middle rest : List α} {value : Tree}
  {tokens more : List Token}

section Rules

theorem operation_some {n : Nat} {level : BinaryLevel} (here : tiers[n]? = some level)
    (derives : Derives grammar (.pattern (operationPattern level)) input (some (value, rest))) :
    ∃ item behind operator right, input = item :: behind ∧ operator ∈ level.operators ∧
      (grammar.token item).kind? = some operator ∧
      Derives grammar (.pattern (.rule (tierRule n))) behind (some (right, rest)) ∧
      value = .list [.text (grammar.token item).text, right] := by
  obtain ⟨values, terms, rfl⟩ := sequence_some.mp derives
  obtain ⟨operator, middle, more, chosen, others, rfl⟩ :=
    (usedTerm_some (operators_used here)).mp terms
  obtain ⟨right, after, none, operand, done, rfl⟩ := (usedTerm_some rfl).mp others
  obtain ⟨rfl, rfl⟩ := noTerms_some.mp done
  obtain ⟨item, word, rfl, isOperator, fits, rfl⟩ := tokenChoice_some chosen
  rw [operand_eq here] at operand
  exact ⟨item, middle, word, right, rfl, isOperator, fits, operand, rfl⟩

variable [Expresses grammar]

theorem postfix_some
    (derives : Derives grammar (.pattern (.rule "PostfixExpression")) input (some (value, rest))) :
    ∃ primary suffixes middle,
      Derives grammar (.pattern (.rule "PrimaryExpression")) input (some (primary, middle)) ∧
      Derives grammar (.pattern (.star (.rule "PostfixSuffix") none)) middle
        (some (suffixes, rest)) ∧
      value = foldPostfix [primary, suffixes] := by
  rw [postfix_iff, onlyAlternative_iff] at derives
  obtain ⟨inner, matched, rfl⟩ := filter_some.mp derives
  obtain ⟨values, terms, rfl⟩ := sequence_some.mp matched
  obtain ⟨primary, middle, more, first, others, rfl⟩ := (usedTerm_some rfl).mp terms
  obtain ⟨suffixes, after, none, starred, done, rfl⟩ := (usedTerm_some rfl).mp others
  obtain ⟨rfl, rfl⟩ := noTerms_some.mp done
  exact ⟨primary, suffixes, middle, first, starred, rfl⟩

theorem unary_some
    (derives : Derives grammar (.pattern (.rule "UnaryExpression")) input (some (value, rest))) :
    (∃ item behind operator argument, input = item :: behind ∧ operator ∈ prefixOperators ∧
      (grammar.token item).kind? = some operator ∧
      Derives grammar (.pattern (.rule "UnaryExpression")) behind (some (argument, rest)) ∧
      value = .node "UnaryExpression"
        [("operator", .text (grammar.token item).text), ("argument", argument)]) ∨
    Derives grammar (.pattern (.rule "PostfixExpression")) input (some (value, rest)) := by
  rw [unary_iff] at derives
  rcases nextAlternative_some.mp derives with derives | ⟨-, derives⟩
  · obtain ⟨inner, matched, rfl⟩ := filter_some.mp derives
    obtain ⟨values, terms, rfl⟩ := sequence_some.mp matched
    obtain ⟨operator, middle, more, chosen, others, rfl⟩ := (usedTerm_some rfl).mp terms
    obtain ⟨argument, after, none, operand, done, rfl⟩ := (usedTerm_some rfl).mp others
    obtain ⟨rfl, rfl⟩ := noTerms_some.mp done
    obtain ⟨item, word, rfl, isPrefix, fits, rfl⟩ := tokenChoice_some chosen
    exact .inl ⟨item, middle, word, argument, rfl, isPrefix, fits, operand, rfl⟩
  · exact .inr (onlyAlternative_iff.mp derives)

theorem tier_some {n : Nat} {level : BinaryLevel} (here : tiers[n]? = some level)
    (derives : Derives grammar (.pattern (.rule (tierRule (n + 1)))) input
      (some (value, rest))) :
    ∃ left pairs middle,
      Derives grammar (.pattern (.rule (tierRule n))) input (some (left, middle)) ∧
      Derives grammar (.pattern (.star (operationPattern level) none)) middle
        (some (pairs, rest)) ∧
      value = foldBinary level.typeName [left, pairs] := by
  rw [tierRule_succ here, tier_iff here, onlyAlternative_iff] at derives
  obtain ⟨inner, matched, rfl⟩ := filter_some.mp derives
  obtain ⟨values, terms, rfl⟩ := sequence_some.mp matched
  obtain ⟨left, middle, more, first, others, rfl⟩ := (usedTerm_some rfl).mp terms
  obtain ⟨pairs, after, none, starred, done, rfl⟩ := (usedTerm_some rfl).mp others
  obtain ⟨rfl, rfl⟩ := noTerms_some.mp done
  rw [operand_eq here] at first
  exact ⟨left, pairs, middle, first, starred, rfl⟩

theorem assignment_some
    (derives : Derives grammar (.pattern (.rule "AssignmentExpression")) input
      (some (value, rest))) :
    (∃ target item behind operator source,
      Derives grammar (.pattern (.rule "PostfixExpression")) input
        (some (target, item :: behind)) ∧
      operator ∈ assignmentOperators ∧ (grammar.token item).kind? = some operator ∧
      Derives grammar (.pattern (.rule "AssignmentExpression")) behind (some (source, rest)) ∧
      value = .node "AssignmentExpression" [("left", target),
        ("operator", .text (grammar.token item).text), ("right", source)]) ∨
    Derives grammar (.pattern (.rule (tierRule 6))) input (some (value, rest)) := by
  rw [assignment_iff] at derives
  rcases nextAlternative_some.mp derives with derives | ⟨-, derives⟩
  · obtain ⟨inner, matched, rfl⟩ := filter_some.mp derives
    obtain ⟨values, terms, rfl⟩ := sequence_some.mp matched
    obtain ⟨target, middle, more, first, others, rfl⟩ := (usedTerm_some rfl).mp terms
    obtain ⟨operator, behind, most, chosen, last, rfl⟩ := (usedTerm_some rfl).mp others
    obtain ⟨source, after, none, again, done, rfl⟩ := (usedTerm_some rfl).mp last
    obtain ⟨rfl, rfl⟩ := noTerms_some.mp done
    obtain ⟨item, word, rfl, isOperator, fits, rfl⟩ := tokenChoice_some chosen
    exact .inl ⟨target, item, behind, word, source, first, isOperator, fits, again, rfl⟩
  · exact .inr (onlyAlternative_iff.mp derives)

end Rules

def Takes (grammar : Peg α) (input rest : List α) (tokens : List Token) : Prop :=
  ∃ read, input = read ++ rest ∧ read.map grammar.token = tokens

theorem Takes.refl (input : List α) : Takes grammar input input [] := ⟨[], rfl, rfl⟩

theorem Takes.trans (takes : Takes grammar input middle tokens)
    (takesToo : Takes grammar middle rest more) : Takes grammar input rest (tokens ++ more) := by
  obtain ⟨read, rfl, rfl⟩ := takes
  obtain ⟨readToo, rfl, rfl⟩ := takesToo
  exact ⟨read ++ readToo, (List.append_assoc ..).symm, List.map_append⟩

theorem Takes.le (takes : Takes grammar input rest tokens) : rest.length ≤ input.length := by
  obtain ⟨read, rfl, -⟩ := takes
  simp

theorem takes_item {item : α} {kind : String} (fits : (grammar.token item).kind? = some kind)
    (rest : List α) :
    Takes grammar (item :: rest) rest [.hard kind (grammar.token item).text] :=
  ⟨[item], rfl, by rw [← token_of_kind fits]; rfl⟩

/-- On shorter input the rule yields expressions of the form. -/
def Sound (grammar : Peg α) (bound : Nat) (rule : String) (form : Form) : Prop :=
  ∀ input value rest, input.length < bound →
    Derives grammar (.pattern (.rule rule)) input (some (value, rest)) →
    ∃ tokens, Construed form value tokens ∧ Takes grammar input rest tokens ∧
      rest.length < input.length

theorem arguments_sound (sound : Sound grammar bound "AssignmentExpression" .assignment)
    {values : List Tree}
    (laps : Laps grammar (.rule "AssignmentExpression") (.ignoredToken ",") input values rest)
    (within : input.length < bound) {tree : Tree} {before : List Token}
    (construed : Construed .assignment tree before) :
    ∃ tokens, Construed .arguments (.list (tree :: values)) (before ++ tokens) ∧
      Takes grammar input rest tokens := by
  induction laps generalizing tree before with
  | done => exact ⟨[], by simpa using Construed.argument construed, .refl _⟩
  | lap parted again moved _ ih =>
      obtain ⟨-, text, parted⟩ := ignore_some.mp parted
      obtain ⟨item, rfl, fits, -⟩ := token_some.mp parted
      have shorter : List.length _ < bound := Nat.lt_of_succ_lt within
      obtain ⟨tokens, next, takes, less⟩ := sound _ _ _ shorter again
      obtain ⟨more, later, takesToo⟩ := ih (less.trans shorter) next
      exact ⟨_, .nextArgument _ construed later,
        (takes_item fits _).trans (takes.trans takesToo)⟩

theorem operation_sound {n : Nat} {level : BinaryLevel} (here : tiers[n]? = some level)
    (sound : Sound grammar bound (tierRule n) (.tier n)) (within : input.length < bound)
    (derives : Derives grammar (.pattern (operationPattern level)) input (some (value, rest))) :
    ∃ tokens, Takes grammar input rest tokens ∧ rest.length < input.length ∧
      ∀ left before, Construed (.tier (n + 1)) left before →
        Construed (.tier (n + 1)) (foldPair level.typeName left value) (before ++ tokens) := by
  obtain ⟨item, middle, operator, right, rfl, isOperator, fits, operand, rfl⟩ :=
    operation_some here derives
  have shorter : middle.length < bound := Nat.lt_of_succ_lt within
  obtain ⟨tokens, construed, takes, less⟩ := sound _ _ _ shorter operand
  refine ⟨_, (takes_item fits middle).trans takes, ?_, fun left before construedToo => ?_⟩
  · simp at less ⊢
    omega
  · exact .binary (precedence_of_tiers here) isOperator _ construedToo construed

theorem operations_sound {n : Nat} {level : BinaryLevel} (here : tiers[n]? = some level)
    (sound : Sound grammar bound (tierRule n) (.tier n)) {values : List Tree}
    (laps : Laps grammar (operationPattern level) .empty input values rest)
    (within : input.length < bound) {left : Tree} {before : List Token}
    (construed : Construed (.tier (n + 1)) left before) :
    ∃ tokens, Construed (.tier (n + 1)) (values.foldl (foldPair level.typeName) left)
        (before ++ tokens) ∧ Takes grammar input rest tokens := by
  induction laps generalizing left before with
  | done => exact ⟨[], by simpa using construed, .refl _⟩
  | lap parted again moved _ ih =>
      obtain ⟨-, rfl⟩ := empty_some.mp parted
      obtain ⟨tokens, takes, less, grows⟩ := operation_sound here sound within again
      obtain ⟨more, whole, takesToo⟩ := ih (less.trans within) (grows _ _ construed)
      exact ⟨tokens ++ more, by simpa using whole, takes.trans takesToo⟩

variable [Expresses grammar]

theorem identifier_some
    (derives : Derives grammar (.pattern (.rule "Identifier")) input (some (value, rest))) :
    ∃ name, value = identifier name ∧ Takes grammar input rest [.hard "Identifier" name] ∧
      rest.length < input.length := by
  rw [identifier_iff, onlyAlternative_iff] at derives
  obtain ⟨inner, matched, rfl⟩ := filter_some.mp derives
  obtain ⟨item, rfl, fits, rfl⟩ := token_some.mp matched
  exact ⟨_, rfl, takes_item fits rest, by simp⟩

theorem expression_some
    (derives : Derives grammar (.pattern (.rule "Expression")) input (some (value, rest))) :
    Derives grammar (.pattern (.rule "AssignmentExpression")) input (some (value, rest)) := by
  rwa [expression_iff, onlyAlternative_iff] at derives

theorem Sound.bracketed (sound : Sound grammar bound "AssignmentExpression" .assignment)
    {opening closing : String} (within : input.length < bound + 1)
    (derives : Derives grammar (.pattern (.sequence
      [.ignoredToken opening, .rule "Expression", .ignoredToken closing])) input
      (some (value, rest))) :
    ∃ first tokens last, Construed .assignment value tokens ∧
      Takes grammar input rest (.hard opening first :: tokens ++ [.hard closing last]) ∧
      rest.length < input.length := by
  obtain ⟨values, terms, rfl⟩ := sequence_some.mp derives
  obtain ⟨first, middle, rfl, opens, inside⟩ := ignoredToken_some.mp terms
  obtain ⟨tree, after, none, matched, ending, rfl⟩ := (usedTerm_some rfl).mp inside
  obtain ⟨last, rest, rfl, closes, done⟩ := ignoredToken_some.mp ending
  obtain ⟨rfl, rfl⟩ := noTerms_some.mp done
  have shorter : middle.length < bound := by simp at within; omega
  obtain ⟨tokens, construed, takes, less⟩ := sound _ _ _ shorter (expression_some matched)
  refine ⟨_, tokens, _, construed,
    ((takes_item opens middle).trans takes).trans (takes_item closes _), ?_⟩
  simp at less ⊢
  omega

theorem primary_sound (sound : Sound grammar bound "AssignmentExpression" .assignment) :
    Sound grammar (bound + 1) "PrimaryExpression" .primary := by
  intro input value rest within derives
  rw [primary_iff] at derives
  rcases nextAlternative_some.mp derives with derives | ⟨-, derives⟩
  · obtain ⟨inner, matched, rfl⟩ := filter_some.mp derives
    obtain ⟨item, rfl, fits, rfl⟩ := token_some.mp matched
    exact ⟨_, .number _, takes_item fits rest, by simp⟩
  rcases nextAlternative_some.mp derives with derives | ⟨-, derives⟩
  · obtain ⟨inner, matched, rfl⟩ := filter_some.mp derives
    obtain ⟨item, rfl, fits, rfl⟩ := token_some.mp matched
    exact ⟨_, .string _, takes_item fits rest, by simp⟩
  rcases nextAlternative_some.mp derives with derives | ⟨-, derives⟩
  · obtain ⟨inner, matched, rfl⟩ := filter_some.mp derives
    obtain ⟨item, word, rfl, isWord, fits, rfl⟩ := tokenChoice_some matched
    exact ⟨_, .boolean isWord _, takes_item fits rest, by simp⟩
  rcases nextAlternative_some.mp derives with derives | ⟨-, derives⟩
  · obtain ⟨inner, matched, rfl⟩ := filter_some.mp derives
    obtain ⟨-, text, matched⟩ := ignore_some.mp matched
    obtain ⟨item, rfl, fits, -⟩ := token_some.mp matched
    exact ⟨_, .null _, takes_item fits rest, by simp⟩
  rcases nextAlternative_some.mp derives with derives | ⟨-, derives⟩
  · obtain ⟨name, rfl, takes, less⟩ := identifier_some derives
    exact ⟨_, .identifier name, takes, less⟩
  · obtain ⟨inner, matched, rfl⟩ := filter_some.mp (onlyAlternative_iff.mp derives)
    obtain ⟨first, tokens, last, construed, takes, less⟩ := sound.bracketed within matched
    exact ⟨_, .parenthesized first last construed, takes, less⟩

theorem suffix_sound (sound : Sound grammar bound "AssignmentExpression" .assignment)
    (within : input.length < bound + 1)
    (derives : Derives grammar (.pattern (.rule "PostfixSuffix")) input (some (value, rest))) :
    ∃ tokens, Takes grammar input rest tokens ∧ rest.length < input.length ∧
      ∀ target before, Construed .suffixed target before →
        Construed .suffixed (foldSuffix target value) (before ++ tokens) := by
  rw [suffix_iff] at derives
  rcases nextAlternative_some.mp derives with derives | ⟨-, derives⟩
  · obtain ⟨inner, matched, rfl⟩ := filter_some.mp derives
    obtain ⟨values, terms, rfl⟩ := sequence_some.mp matched
    obtain ⟨first, middle, rfl, opens, inside⟩ := ignoredToken_some.mp terms
    obtain ⟨given, after, none, starred, ending, rfl⟩ := (usedTerm_some rfl).mp inside
    obtain ⟨last, rest, rfl, closes, done⟩ := ignoredToken_some.mp ending
    obtain ⟨rfl, rfl⟩ := noTerms_some.mp done
    have before := takes_item opens middle
    have behind := takes_item closes rest
    have shorter : middle.length < bound := by simp at within; omega
    rcases repetition_laps rfl rfl starred with
      ⟨tree, between, values, begins, laps, rfl⟩ | ⟨-, rfl, same⟩
    · obtain ⟨tokens, construed, takes, less⟩ := sound _ _ _ shorter begins
      obtain ⟨more, arguments, takesToo⟩ :=
        arguments_sound sound laps (less.trans shorter) construed
      have whole := takes.trans takesToo
      refine ⟨_, (before.trans whole).trans behind, ?_, fun target before construed => ?_⟩
      · have := whole.le
        simp at this ⊢
        omega
      · have whole := Construed.call (grammar.token first).text (grammar.token last).text construed
          arguments
        rw [← foldSuffix_call, List.append_assoc] at whole
        exact whole
    · subst same
      refine ⟨_, before.trans behind, ?_, fun target before construed => ?_⟩
      · simp only [List.length_cons]
        omega
      · have whole := Construed.callWithout (grammar.token first).text (grammar.token last).text
          construed
        rwa [← foldSuffix_call] at whole
  rcases nextAlternative_some.mp derives with derives | ⟨-, derives⟩
  · obtain ⟨inner, matched, rfl⟩ := filter_some.mp derives
    obtain ⟨values, terms, rfl⟩ := sequence_some.mp matched
    obtain ⟨dot, middle, rfl, fits, ending⟩ := ignoredToken_some.mp terms
    obtain ⟨name, after, none, named, done, rfl⟩ := (usedTerm_some rfl).mp ending
    obtain ⟨rfl, rfl⟩ := noTerms_some.mp done
    obtain ⟨name, rfl, takes, less⟩ := identifier_some named
    refine ⟨_, (takes_item fits middle).trans takes, ?_, fun target before construed => ?_⟩
    · simp at less ⊢
      omega
    · have whole := Construed.member (grammar.token dot).text name construed
      rwa [← foldSuffix_member] at whole
  · obtain ⟨inner, matched, rfl⟩ := filter_some.mp (onlyAlternative_iff.mp derives)
    obtain ⟨first, tokens, last, inside, takes, less⟩ := sound.bracketed within matched
    refine ⟨_, takes, less, fun target before construed => ?_⟩
    have whole := Construed.index first last construed inside
    rw [← foldSuffix_member, List.append_assoc] at whole
    exact whole

theorem suffixes_sound (sound : Sound grammar bound "AssignmentExpression" .assignment)
    {values : List Tree} (laps : Laps grammar (.rule "PostfixSuffix") .empty input values rest)
    (within : input.length < bound + 1) {target : Tree} {before : List Token}
    (construed : Construed .suffixed target before) :
    ∃ tokens, Construed .suffixed (values.foldl foldSuffix target) (before ++ tokens) ∧
      Takes grammar input rest tokens := by
  induction laps generalizing target before with
  | done => exact ⟨[], by simpa using construed, .refl _⟩
  | lap parted again moved _ ih =>
      obtain ⟨-, rfl⟩ := empty_some.mp parted
      obtain ⟨tokens, takes, less, grows⟩ := suffix_sound sound within again
      obtain ⟨more, whole, takesToo⟩ := ih (less.trans within) (grows _ _ construed)
      exact ⟨tokens ++ more, by simpa using whole, takes.trans takesToo⟩

theorem postfix_sound (sound : Sound grammar bound "AssignmentExpression" .assignment) :
    Sound grammar (bound + 1) "PostfixExpression" .suffixed := by
  intro input value rest within derives
  obtain ⟨primary, suffixes, middle, first, starred, rfl⟩ := postfix_some derives
  obtain ⟨tokens, construed, takes, less⟩ := primary_sound sound _ _ _ within first
  have shorter := less.trans within
  rcases repetition_laps rfl rfl starred with
    ⟨suffix, between, values, begins, laps, rfl⟩ | ⟨-, rfl, rfl⟩
  · obtain ⟨more, takesToo, lessToo, grows⟩ := suffix_sound sound shorter begins
    obtain ⟨last, whole, takesLast⟩ :=
      suffixes_sound sound laps (lessToo.trans shorter) (grows _ _ (.suffixed construed))
    refine ⟨_, whole, (takes.trans takesToo).trans takesLast, ?_⟩
    have := takesLast.le
    omega
  · exact ⟨tokens, .suffixed construed, takes, less⟩

theorem unary_sound (sound : Sound grammar bound "PostfixExpression" .suffixed) :
    Sound grammar bound "UnaryExpression" (.tier 0) := by
  intro input value rest within derives
  induction length : input.length using Nat.strong_induction_on generalizing input value rest with
  | _ size ih =>
      rcases unary_some derives with
        ⟨item, middle, operator, argument, rfl, isPrefix, fits, operand, rfl⟩ | derives
      · have shorter : middle.length < size := by simp at length; omega
        obtain ⟨tokens, construed, takes, less⟩ :=
          ih _ shorter _ _ _ (Nat.lt_of_succ_lt within) operand rfl
        refine ⟨_, .prefixed isPrefix _ construed, (takes_item fits middle).trans takes, ?_⟩
        simp at length
        omega
      · obtain ⟨tokens, construed, takes, less⟩ := sound _ _ _ within derives
        exact ⟨tokens, .unprefixed construed, takes, length ▸ less⟩

theorem tier_sound {n : Nat} {level : BinaryLevel} (here : tiers[n]? = some level)
    (sound : Sound grammar bound (tierRule n) (.tier n)) :
    Sound grammar bound (tierRule (n + 1)) (.tier (n + 1)) := by
  intro input value rest within derives
  obtain ⟨left, pairs, middle, first, starred, rfl⟩ := tier_some here derives
  obtain ⟨tokens, construed, takes, less⟩ := sound _ _ _ within first
  have lifted := Construed.lifted (precedence_of_tiers here) construed
  have shorter := less.trans within
  rcases repetition_laps (operation_used level) rfl starred with
    ⟨pair, between, values, begins, laps, rfl⟩ | ⟨-, rfl, rfl⟩
  · obtain ⟨more, takesToo, lessToo, grows⟩ := operation_sound here sound shorter begins
    obtain ⟨last, whole, takesLast⟩ :=
      operations_sound here sound laps (lessToo.trans shorter) (grows _ _ lifted)
    refine ⟨_, whole, (takes.trans takesToo).trans takesLast, ?_⟩
    have := takesLast.le
    omega
  · exact ⟨tokens, lifted, takes, less⟩

theorem tiers_sound (sound : Sound grammar bound "UnaryExpression" (.tier 0)) {n : Nat}
    (within : n ≤ 6) : Sound grammar bound (tierRule n) (.tier n) := by
  induction n with
  | zero => exact sound
  | succ n ih =>
      obtain ⟨level, here⟩ := tiers_at within
      exact tier_sound here (ih (by omega))

theorem assignment_sound (bound : Nat) :
    Sound grammar bound "AssignmentExpression" .assignment := by
  induction bound with
  | zero => exact fun _ _ _ within => absurd within (Nat.not_lt_zero _)
  | succ bound ih =>
      have postfixes := postfix_sound ih
      have operations := tiers_sound (unary_sound postfixes) (Nat.le_refl 6)
      intro input value rest within derives
      rcases assignment_some derives with
        ⟨target, item, behind, operator, source, first, isOperator, fits, again, rfl⟩ | derives
      · obtain ⟨tokens, construed, takes, less⟩ := postfixes _ _ _ within first
        have shorter : behind.length < bound := by simp at less; omega
        obtain ⟨more, construedToo, takesToo, lessToo⟩ := ih _ _ _ shorter again
        refine ⟨_, .assigned isOperator _ construed construedToo,
          takes.trans ((takes_item fits behind).trans takesToo), ?_⟩
        simp at less lessToo ⊢
        omega
      · obtain ⟨tokens, construed, takes, less⟩ := operations _ _ _ within derives
        exact ⟨tokens, .unassigned construed, takes, less⟩

end Parlance.Builtin
