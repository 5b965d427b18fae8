import Parlance.Grammar.Rule
import Parlance.Parse.Evaluate

/-! Parsing expression grammars as a big-step relation. A phrase is matched against the items that
are left of the input; there is no cursor, no ether and no bound, and rules are used as they were
written. Some phrases of some grammars have no derivation at all. -/

namespace Parlance

/-- Rules, the token that each item of the input stands for, and what custom readers make of input.
-/
structure Peg (α : Type) where
  rules : RuleSet
  token : α → Token
  reads : Reader → List α → Option (Tree × List α)

/-- A pattern, or what is left of a sequence, of a choice or of a repetition. What is left of a
sequence or a repetition yields the list of its values. -/
inductive Phrase where
  | pattern (pattern : Pattern)
  | terms (terms : List Pattern)
  | alternatives (alternatives : List Pattern)
  | rounds (body : Pattern) (separator : Option Pattern)

open ParseContext (used gather)

variable {α : Type}

/-- The result is a value and the items that remain, or nothing where the phrase fails. -/
inductive Derives (peg : Peg α) : Phrase → List α → Option (Tree × List α) → Prop where
  | token {kind role item rest} (fits : (peg.token item).kind? = some kind) :
      Derives peg (.pattern (.token kind role)) (item :: rest)
        (some (.text (peg.token item).text, rest))
  | otherToken {kind role item rest} (differs : (peg.token item).kind? ≠ some kind) :
      Derives peg (.pattern (.token kind role)) (item :: rest) none
  | noToken {kind role} : Derives peg (.pattern (.token kind role)) [] none
  | rule {name productions input result} (found : Index.get? name peg.rules = some productions)
      (derives : Derives peg (.pattern (.choice (productions.map Production.expression))) input
        result) :
      Derives peg (.pattern (.rule name)) input result
  | sequence {terms input values rest}
      (derives : Derives peg (.terms terms) input (some (.list values, rest))) :
      Derives peg (.pattern (.sequence terms)) input (some (gather values, rest))
  | noSequence {terms input} (fails : Derives peg (.terms terms) input none) :
      Derives peg (.pattern (.sequence terms)) input none
  | choice {alternatives input result}
      (derives : Derives peg (.alternatives alternatives) input result) :
      Derives peg (.pattern (.choice alternatives)) input result
  | repetition {body separator allowEmpty input value middle values rest}
      (first : Derives peg (.pattern body) input (some (value, middle)))
      (more : Derives peg (.rounds body separator) middle (some (.list values, rest))) :
      Derives peg (.pattern (.repetition body separator allowEmpty)) input
        (some (.list (used body value ++ values), rest))
  | noneFound {body separator input} (fails : Derives peg (.pattern body) input none) :
      Derives peg (.pattern (.repetition body separator true)) input (some (.list [], input))
  | oneMissing {body separator input} (fails : Derives peg (.pattern body) input none) :
      Derives peg (.pattern (.repetition body separator false)) input none
  | ignore {term input value rest}
      (derives : Derives peg (.pattern term) input (some (value, rest))) :
      Derives peg (.pattern (.ignore term)) input (some (.null, rest))
  | noIgnore {term input} (fails : Derives peg (.pattern term) input none) :
      Derives peg (.pattern (.ignore term)) input none
  | filter {term action arity input value rest}
      (derives : Derives peg (.pattern term) input (some (value, rest))) :
      Derives peg (.pattern (.filter term action arity)) input
        (some (action.invoke (arity.getD term.arity) value, rest))
  | noFilter {term action arity input} (fails : Derives peg (.pattern term) input none) :
      Derives peg (.pattern (.filter term action arity)) input none
  | custom {reader parts input result} (reads : peg.reads reader input = result) :
      Derives peg (.pattern (.custom reader parts)) input result
  | empty {input} : Derives peg (.pattern .empty) input (some (.null, input))
  | noTerms {input} : Derives peg (.terms []) input (some (.list [], input))
  | nextTerm {term terms input value middle values rest}
      (first : Derives peg (.pattern term) input (some (value, middle)))
      (more : Derives peg (.terms terms) middle (some (.list values, rest))) :
      Derives peg (.terms (term :: terms)) input (some (.list (used term value ++ values), rest))
  | termFails {term terms input} (fails : Derives peg (.pattern term) input none) :
      Derives peg (.terms (term :: terms)) input none
  | restFails {term terms input value middle}
      (first : Derives peg (.pattern term) input (some (value, middle)))
      (fails : Derives peg (.terms terms) middle none) :
      Derives peg (.terms (term :: terms)) input none
  | noAlternatives {input} : Derives peg (.alternatives []) input none
  | decided {alternative alternatives input value rest}
      (derives : Derives peg (.pattern alternative) input (some (value, rest))) :
      Derives peg (.alternatives (alternative :: alternatives)) input (some (value, rest))
  | nextAlternative {alternative alternatives input result}
      (fails : Derives peg (.pattern alternative) input none)
      (more : Derives peg (.alternatives alternatives) input result) :
      Derives peg (.alternatives (alternative :: alternatives)) input result
  | nextRound {body separator input between middle value next values rest}
      (parted : Derives peg (.pattern (separator.getD .empty)) input (some (between, middle)))
      (again : Derives peg (.pattern body) middle (some (value, next))) (moved : next ≠ input)
      (more : Derives peg (.rounds body separator) next (some (.list values, rest))) :
      Derives peg (.rounds body separator) input
        (some (.list (used (separator.getD .empty) between ++ used body value ++ values), rest))
  | idleRound {body separator input between middle value}
      (parted : Derives peg (.pattern (separator.getD .empty)) input (some (between, middle)))
      (again : Derives peg (.pattern body) middle (some (value, input))) :
      Derives peg (.rounds body separator) input (some (.list [], input))
  | lastBody {body separator input between middle}
      (parted : Derives peg (.pattern (separator.getD .empty)) input (some (between, middle)))
      (fails : Derives peg (.pattern body) middle none) :
      Derives peg (.rounds body separator) input (some (.list [], input))
  | lastSeparator {body separator input}
      (fails : Derives peg (.pattern (separator.getD .empty)) input none) :
      Derives peg (.rounds body separator) input (some (.list [], input))

namespace Derives

variable {peg : Peg α}

/-- A phrase comes to one result at most on the same input. -/
theorem unique {phrase : Phrase} {input : List α} {result other : Option (Tree × List α)}
    (derives : Derives peg phrase input result) (derivesToo : Derives peg phrase input other) :
    result = other := by
  induction derives generalizing other with
  | token fits =>
      cases derivesToo with
      | token => rfl
      | otherToken differs => exact absurd fits differs
  | otherToken differs =>
      cases derivesToo with
      | token fits => exact absurd fits differs
      | otherToken => rfl
  | noToken => cases derivesToo; rfl
  | rule found _ ih =>
      cases derivesToo with
      | rule foundToo derives =>
          cases found.symm.trans foundToo
          exact ih derives
  | sequence _ ih =>
      cases derivesToo with
      | sequence derives => cases ih derives; rfl
      | noSequence fails => cases ih fails
  | noSequence _ ih =>
      cases derivesToo with
      | sequence derives => cases ih derives
      | noSequence => rfl
  | choice _ ih => cases derivesToo with | choice derives => exact ih derives
  | repetition _ _ ihFirst ihMore =>
      cases derivesToo with
      | repetition first more => cases ihFirst first; cases ihMore more; rfl
      | noneFound fails => cases ihFirst fails
      | oneMissing fails => cases ihFirst fails
  | noneFound _ ih =>
      cases derivesToo with
      | repetition first => cases ih first
      | noneFound => rfl
  | oneMissing _ ih =>
      cases derivesToo with
      | repetition first => cases ih first
      | oneMissing => rfl
  | ignore _ ih =>
      cases derivesToo with
      | ignore derives => cases ih derives; rfl
      | noIgnore fails => cases ih fails
  | noIgnore _ ih =>
      cases derivesToo with
      | ignore derives => cases ih derives
      | noIgnore => rfl
  | filter _ ih =>
      cases derivesToo with
      | filter derives => cases ih derives; rfl
      | noFilter fails => cases ih fails
  | noFilter _ ih =>
      cases derivesToo with
      | filter derives => cases ih derives
      | noFilter => rfl
  | custom reads => cases derivesToo with | custom readsToo => exact reads.symm.trans readsToo
  | empty => cases derivesToo; rfl
  | noTerms => cases derivesToo; rfl
  | nextTerm _ _ ihFirst ihMore =>
      cases derivesToo with
      | nextTerm first more => cases ihFirst first; cases ihMore more; rfl
      | termFails fails => cases ihFirst fails
      | restFails first fails => cases ihFirst first; cases ihMore fails
  | termFails _ ih =>
      cases derivesToo with
      | nextTerm first => cases ih first
      | termFails => rfl
      | restFails first => cases ih first
  | restFails _ _ ihFirst ihMore =>
      cases derivesToo with
      | nextTerm first more => cases ihFirst first; cases ihMore more
      | termFails fails => cases ihFirst fails
      | restFails => rfl
  | noAlternatives => cases derivesToo; rfl
  | decided _ ih =>
      cases derivesToo with
      | decided derives => exact ih derives
      | nextAlternative fails => cases ih fails
  | nextAlternative _ _ ihFirst ihMore =>
      cases derivesToo with
      | decided derives => cases ihFirst derives
      | nextAlternative fails more => exact ihMore more
  | nextRound _ _ moved _ ihParted ihAgain ihMore =>
      cases derivesToo with
      | nextRound parted again _ more =>
          cases ihParted parted; cases ihAgain again; cases ihMore more; rfl
      | idleRound parted again => cases ihParted parted; cases ihAgain again; exact absurd rfl moved
      | lastBody parted fails => cases ihParted parted; cases ihAgain fails
      | lastSeparator fails => cases ihParted fails
  | idleRound _ _ ihParted ihAgain =>
      cases derivesToo with
      | nextRound parted again moved =>
          cases ihParted parted; cases ihAgain again; exact absurd rfl moved
      | idleRound | lastBody | lastSeparator => rfl
  | lastBody _ _ ihParted ihAgain =>
      cases derivesToo with
      | nextRound parted again => cases ihParted parted; cases ihAgain again
      | idleRound | lastBody | lastSeparator => rfl
  | lastSeparator _ ih =>
      cases derivesToo with
      | nextRound parted => cases ih parted
      | idleRound | lastBody | lastSeparator => rfl

theorem terms_list {terms : List Pattern} {input rest : List α} {value : Tree}
    (derives : Derives peg (.terms terms) input (some (value, rest))) :
    ∃ values, value = .list values := by
  cases derives with
  | noTerms | nextTerm => exact ⟨_, rfl⟩

theorem rounds_list {body : Pattern} {separator : Option Pattern} {input : List α}
    {result : Option (Tree × List α)} (derives : Derives peg (.rounds body separator) input result) :
    ∃ values rest, result = some (.list values, rest) := by
  cases derives with
  | nextRound | idleRound | lastBody | lastSeparator => exact ⟨_, _, rfl⟩

end Derives

end Parlance
