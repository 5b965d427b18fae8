import Parlance.Proofs.Builtin.Conservative
import Parlance.Proofs.Evaluation.Layers

/-! The built-in rules nest at most once each for every hard token, and once more at the end, so that a
bound on nesting that is no smaller changes no parse. -/

namespace Parlance.Builtin

open Index (get? names)

/-- The place of a rule among the layers; names that are not there count as the last. -/
def layerOf (name : String) : Nat := min (layers.idxOf name) 23

theorem layered_contextOf (sugar : Bool) (tokens : List Token) :
    (contextOf sugar tokens).Layered layerOf 24 ["Program"] := by
  have all : ∀ rule ∈ (Grammar.ofRules (rules sugar)).normalized,
      (∀ head ∈ rule.2.heads ["Program"], layerOf head < layerOf rule.1) ∧
        (rule.2.mayIdle ["Program"] = true → ["Program"].contains rule.1 = true) := by
    cases sugar <;> decide +kernel
  refine ⟨(parses sugar tokens).normalized, fun name => ?_, fun name body found => ?_,
    fun name body found => ?_⟩
  · have := Nat.min_le_right (layers.idxOf name) 23
    unfold layerOf
    omega
  · exact (all (name, body) (Index.mem_of_get? found)).1
  · exact (all (name, body) (Index.mem_of_get? found)).2

/-- Every token list is parsed, with rules nested at most 24 deep for each hard token and for the end,
and with any bound on nesting that allows this the parse comes to the same. -/
theorem parse_nests_linearly (settings : Settings) (sugar : Bool) (tokens : List Token)
    (origin : Option String) (traced : Bool) :
    ∃ parser verdict, outcome settings (Registry.parser (dialectName sugar)) = .ok parser ∧
      parser.maxDepth = none ∧ parser.run "Program" tokens origin traced = some verdict ∧
      let bound := 24 * ((tokens.filter Token.isHard).length + 1)
      (parser.context tokens).NestsWithin bound (.pattern (.rule "Program"))
        (.initial tokens traced) ∧
      ∀ depth, bound ≤ depth → ∀ other,
        ({ parser with maxDepth := some depth } : Parser).ComesTo "Program" tokens origin traced
          other ↔ other = verdict := by
  have own : "Program" ∈ names (authored sugar) := by cases sugar <;> decide +kernel
  obtain ⟨result, derives⟩ := rule_ends sugar own ((Token.landed tokens).map Item.view)
  obtain ⟨verdict, ran, -⟩ := (parses sugar tokens).run origin traced derives
  have nests := (layered_contextOf sugar tokens).nestsWithin "Program" traced
  refine ⟨(rules sugar).parser, verdict, (yields_rulesParser settings sugar).outcome_eq, rfl, ran,
    nests, fun depth allows other => ?_⟩
  exact Parser.comesTo_bounded_iff rfl (nests.mono allows) ⟨_, ran⟩

theorem parse_nests_linearly_statement :
    let tokens : List Token := [.hard Lexicon.identifierClass "a", .soft " ", .hard ";" ";"]
    ∃ parser verdict, outcome .defaults (Registry.parser (dialectName true)) = .ok parser ∧
      parser.run "Program" tokens none true = some verdict ∧
      ({ parser with maxDepth := some 72 } : Parser).ComesTo "Program" tokens none true verdict := by
  intro tokens
  obtain ⟨parser, verdict, made, -, ran, -, same⟩ :=
    parse_nests_linearly .defaults true tokens none true
  exact ⟨parser, verdict, made, ran, (same 72 (by decide) verdict).mpr rfl⟩

end Parlance.Builtin
