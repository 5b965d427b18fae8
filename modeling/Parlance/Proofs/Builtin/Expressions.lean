import Parlance.Proofs.Builtin.Accepting
import Parlance.Proofs.Builtin.Reading
import Parlance.Proofs.Grammar.Readers

/-! The rules for expressions alone: they parse a list of tokens exactly when some tree is construed
from its hard tokens, and then to that tree, which is the only one. -/

namespace Parlance.Builtin

open Derives

variable {tree other : Tree} {tokens : List Token}

theorem expressions_plain : Expressions.rules.Plain := by
  intro name productions found
  have distinct := distinct_edits
  rw [Index.names, List.map_append, List.nodup_append] at distinct
  rw [expressions_eq, RuleSet.get?_ofEdits distinct.1] at found
  obtain ⟨edits, authored, rfl⟩ := Option.map_eq_some_iff.mp found
  have none : RuleSet.authorReaders expressionEdits = [] := rfl
  exact RuleSet.admits_of_get? (by simp [none]) authored

/-- All the tokens are read as one expression exactly when it is construed from them. -/
theorem expression_derived (tokens : List Token) :
    Derives Expressions.rules.peg (.pattern (.rule "Expression")) (tokens.filter Token.isHard)
      (some (tree, [])) ↔ Construed .assignment tree (tokens.filter Token.isHard) := by
  constructor
  · intro derives
    obtain ⟨read, construed, ⟨items, whole, same⟩, -⟩ :=
      assignment_sound _ _ _ _ (Nat.lt_succ_self _) (expression_some derives)
    rw [List.append_nil] at whole
    rw [whole]
    have self : items.map Expressions.rules.peg.token = items := List.map_id items
    rwa [← self, same]
  · intro construed
    have accepts : Accepts Expressions.rules.peg .assignment tree _ := construed.accepts
    have spells : Spells Expressions.rules.peg (tokens.filter Token.isHard)
        (tokens.filter Token.isHard) := by
      rw [Spells, List.filter_filter]
      simp only [Bool.and_self]
      exact List.map_id _
    have derives := accepts _ [] spells (lacks_nil _ _)
    rw [List.append_nil] at derives
    rwa [expression_iff, onlyAlternative_iff]

theorem Construed.unique (construed : Construed .assignment tree tokens)
    (construedToo : Construed .assignment other tokens) : tree = other := by
  have same : tokens.filter Token.isHard = tokens := List.filter_eq_self.mpr construed.hard
  have first := (expression_derived tokens).mpr (same.symm ▸ construed)
  have second := (expression_derived tokens).mpr (same.symm ▸ construedToo)
  exact congrArg Prod.fst (Option.some.inj (first.unique second))

/-- Whatever ether stands between the hard tokens, the parse yields a tree exactly when it is
construed from them by the precedence of the operators, and one tree at most is. -/
theorem expression_parsed_iff (tokens : List Token) (origin : Option String) (traced : Bool)
    (tree : Tree) :
    ((∃ log, Expressions.rules.parser.run "Expression" tokens origin traced =
        some (.parsed (.ok tree) log)) ↔
      Construed .assignment tree (tokens.filter Token.isHard)) ∧
    ∀ first second, Construed .assignment first (tokens.filter Token.isHard) →
      Construed .assignment second (tokens.filter Token.isHard) → first = second := by
  have parses := expressions_plain.parses tokens
  have input : (Token.landed tokens).map Landed.token = tokens.filter Token.isHard :=
    Token.token_landedAfter [] tokens
  refine ⟨⟨?_, fun construed => ?_⟩, fun _ _ => Construed.unique⟩
  · rintro ⟨log, ends⟩
    obtain ⟨result, derives, shows⟩ := parses.derives ends
    cases shows
    rw [input] at derives
    exact (expression_derived tokens).mp derives
  · have derives := (expression_derived tokens).mpr construed
    rw [← input] at derives
    obtain ⟨verdict, ends, shows⟩ := parses.run origin traced derives
    cases shows with
    | parsed => exact ⟨_, ends⟩
    | stopped left => exact absurd rfl left

end Parlance.Builtin
