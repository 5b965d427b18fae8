import Parlance.Proofs.Evaluation.Mentions
import Parlance.Proofs.Grammar.Compose
import Parlance.Token.Lexicon

/-! The words of a grammar, told by the rule sets that it is composed of: those that token patterns
match anywhere in a production of one of them. -/

namespace Parlance

open Index (get? names)

theorem Index.mem_sortNames {name : String} {list : List String} :
    name ∈ sortNames list ↔ name ∈ list := by
  have grown (entries table : List (String × Unit)) :
      name ∈ names (entries.foldl (fun table entry => insert entry.1 entry.2 table) table) ↔
        name ∈ names entries ∨ name ∈ names table := by
    induction entries generalizing table with
    | nil => simp [names]
    | cons entry rest ih =>
        rw [List.foldl_cons, ih, mem_names_insert]
        simp only [names, List.map_cons, List.mem_cons]
        tauto
  rw [sortNames, ofList, grown]
  simp [names, List.map_map, Function.comp_def]

def Lexicon.wordsOf (lexicon : Lexicon) : Role → List String
  | .keyword => lexicon.keywords
  | .punctuator => lexicon.punctuators

def Grammar.lexicon (grammar : Grammar) : Lexicon :=
  .ofWords (grammar.words .keyword) (grammar.words .punctuator)

theorem Grammar.mem_tokens_iff {grammar : Grammar} {kind : String} {role : Option Role} :
    (kind, role) ∈ grammar.tokens ↔ ∃ rule ∈ grammar.raw, (Pattern.token kind role).PartOf rule.2 := by
  simp only [tokens, List.mem_flatMap, Pattern.mem_tokens_iff]

theorem Grammar.mem_wordsOf_lexicon {grammar : Grammar} {word : String} {role : Role} :
    word ∈ grammar.lexicon.wordsOf role ↔ (word, some role) ∈ grammar.tokens := by
  have listed : word ∈ grammar.words role ↔ (word, some role) ∈ grammar.tokens := by
    rw [words, List.mem_map]
    constructor
    · rintro ⟨⟨kind, known⟩, member, rfl⟩
      obtain ⟨member, same⟩ := List.mem_filter.mp member
      obtain rfl : known = some role := by simpa using same
      exact member
    · exact fun member => ⟨_, List.mem_filter.mpr ⟨member, by simp⟩, rfl⟩
  rw [← listed]
  cases role <;> exact Index.mem_sortNames

theorem Production.partOf_expression {production : Production} {kind : String}
    {role : Option Role} : (Pattern.token kind role).PartOf production.expression ↔
      (Pattern.token kind role).PartOf production.pattern := by
  unfold expression
  split
  · rfl
  · refine ⟨fun inner => ?_, .filtered⟩
    cases inner with
    | filtered inner => exact inner

namespace RuleSet

variable {kind : String} {role : Option Role}

def Mentions (kind : String) (role : Option Role) (rules : RuleSet) : Prop :=
  ∃ rule ∈ rules, ∃ production ∈ rule.2, (Pattern.token kind role).PartOf production.pattern

theorem partOf_choiceOf {productions : List Production} :
    (Pattern.token kind role).PartOf (choiceOf productions) ↔
      ∃ production ∈ productions, (Pattern.token kind role).PartOf production.pattern := by
  constructor
  · intro inner
    cases inner with
    | alternative member inner =>
        obtain ⟨production, listed, rfl⟩ := List.mem_map.mp member
        exact ⟨production, listed, Production.partOf_expression.mp inner⟩
  · rintro ⟨production, member, inner⟩
    exact .alternative (List.mem_map_of_mem member) (Production.partOf_expression.mpr inner)

theorem mem_tokens_ofRules {rules : RuleSet} :
    (kind, role) ∈ (Grammar.ofRules rules).tokens ↔ rules.Mentions kind role := by
  simp only [Grammar.mem_tokens_iff, Grammar.ofRules, Index.mapValues, List.mem_map,
    exists_exists_and_eq_and, partOf_choiceOf, Mentions]

theorem mem_compose {members : List RuleSet} {production : Production} {name : String} :
    (∃ productions, (name, productions) ∈ compose members ∧ production ∈ productions) ↔
      ∃ member ∈ members, ∃ productions, (name, productions) ∈ member ∧
        production ∈ productions := by
  have listed {member : RuleSet} : production ∈ productionsFor name member ↔
      ∃ productions, (name, productions) ∈ member ∧ production ∈ productions := by
    simp only [productionsFor, List.mem_flatMap]
    constructor
    · rintro ⟨⟨other, productions⟩, there, here⟩
      split at here
      next same => exact ⟨productions, same ▸ there, here⟩
      next => cases here
    · rintro ⟨productions, there, here⟩
      exact ⟨_, there, by rwa [if_pos rfl]⟩
  have whole {productions : List Production} (found : get? name (compose members) = some productions) :
      production ∈ productions ↔ ∃ member ∈ members, production ∈ productionsFor name member := by
    rw [get?_compose (Index.mem_names_of_get? found), Option.some.injEq] at found
    rw [← found, List.mem_flatMap]
  constructor
  · rintro ⟨productions, there, here⟩
    have found := Index.get?_of_mem (ascending_compose members).nodup there
    obtain ⟨member, among, here⟩ := (whole found).mp here
    exact ⟨member, among, listed.mp here⟩
  · rintro ⟨member, among, productions, there, here⟩
    have known : name ∈ names (compose members) :=
      mem_names_compose.mpr ⟨member, among, List.mem_map.mpr ⟨_, there, rfl⟩⟩
    have found := get?_compose known
    exact ⟨_, Index.mem_of_get? found,
      (whole found).mpr ⟨member, among, listed.mpr ⟨productions, there, here⟩⟩⟩

theorem mentions_compose {members : List RuleSet} :
    (compose members).Mentions kind role ↔ ∃ member ∈ members, member.Mentions kind role := by
  constructor
  · rintro ⟨⟨name, productions⟩, there, production, here, inner⟩
    obtain ⟨member, among, productions, there, here⟩ := mem_compose.mp ⟨productions, there, here⟩
    exact ⟨member, among, _, there, production, here, inner⟩
  · rintro ⟨member, among, ⟨name, productions⟩, there, production, here, inner⟩
    obtain ⟨productions, there, here⟩ := mem_compose.mpr ⟨member, among, productions, there, here⟩
    exact ⟨_, there, production, here, inner⟩

end RuleSet

end Parlance
