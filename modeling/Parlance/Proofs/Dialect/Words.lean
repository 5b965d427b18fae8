import Parlance.Proofs.Dialect.Precedence
import Parlance.Proofs.Dialect.Validity
import Parlance.Proofs.Grammar.Words

/-! What a dialect reads source text with. A lexicon that is kept is that of the grammar that is kept
beside it, so whatever a parse comes to is among its words; and as long as no name is registered again,
they are the words that stand in the fragments along the line of the dialect. -/

namespace Parlance.Registry

open Index (get?)
open Relation (ReflTransGen)

variable {registry : Registry} {name : String}

def slots (registry : Registry) (name : String) : Option (Option Grammar × Option Lexicon) :=
  (get? name registry.dialects).map fun dialect => (dialect.grammar, dialect.lexicon)

theorem slots_update (registry : Registry) (name wanted : String) (change : Dialect → Dialect) :
    (registry.update name change).slots wanted =
      if wanted = name then (get? name registry.dialects).map fun dialect =>
        ((change dialect).grammar, (change dialect).lexicon)
      else registry.slots wanted := by
  unfold slots
  rw [get?_update]
  split
  · rw [Option.map_map]; rfl
  · rfl

theorem slots_update_eq {change : Dialect → Dialect}
    (grammar : ∀ dialect, (change dialect).grammar = dialect.grammar)
    (lexicon : ∀ dialect, (change dialect).lexicon = dialect.lexicon) :
    (registry.update name change).slots = registry.slots := by
  funext wanted
  rw [slots_update]
  split
  next same => simp only [grammar, lexicon, same, slots]
  next => rfl

theorem slots_setComposing (composing : Bool) :
    (registry.setComposing name composing).slots = registry.slots :=
  slots_update_eq (fun _ => rfl) (fun _ => rfl)

theorem slots_keepRules {rules : RuleSet} : (registry.keepRules name rules).slots = registry.slots :=
  slots_update_eq (fun _ => rfl) (fun _ => rfl)

theorem slots_fragmentRules : (fragmentRules name registry).2.slots = registry.slots := by
  unfold fragmentRules build
  split
  · rfl
  · dsimp only
    split
    · rfl
    · split <;> rfl

theorem slots_allFragmentRules (names : List String) :
    (allFragmentRules names registry).2.slots = registry.slots := by
  induction names generalizing registry with
  | nil => rfl
  | cons name rest ih =>
      have first : (fragmentRules name registry).2.slots = registry.slots := slots_fragmentRules
      unfold allFragmentRules
      split
      next ran => rwa [ran] at first
      next middle ran =>
        rw [ran] at first
        have others : (allFragmentRules rest middle).2.slots = middle.slots := ih
        split
        next ran => rw [ran] at others; exact others.trans first
        next ran => rw [ran] at others; exact others.trans first

theorem slots_overBase (dialect : Dialect) (answer : Answer RuleSet) :
    (overBase name dialect answer).2.slots = answer.2.slots := by
  unfold overBase
  split
  · exact slots_setComposing _
  next base middle =>
    have own : (allFragmentRules dialect.fragments middle).2.slots = middle.slots :=
      slots_allFragmentRules _
    split
    next ran => rw [ran] at own; exact (slots_setComposing _).trans own
    next ran => rw [ran] at own; exact slots_keepRules.trans own

theorem slots_rulesWithin (fuel : Nat) : (rulesWithin fuel name registry).2.slots = registry.slots := by
  induction fuel generalizing name registry with
  | zero => rfl
  | succ fuel ih =>
      cases found : get? name registry.dialects with
      | none => simp only [rulesWithin, Registry.dialect, found]
      | some dialect =>
          cases kept : dialect.rules with
          | some rules => simp only [rulesWithin, Registry.dialect, found, kept]
          | none =>
              cases marked : dialect.composing with
              | true => simp only [rulesWithin, Registry.dialect, found, kept, marked, if_true]
              | false =>
                  rw [rulesWithin_lacking found kept marked, slots_overBase]
                  cases dialect.parent with
                  | none => exact slots_setComposing true
                  | some parent => exact ih.trans (slots_setComposing true)

theorem slots_rules : (rules name registry).2.slots = registry.slots := slots_rulesWithin _

theorem slots_keepTypes (result : Except DefinitionFault NodeTypes) :
    (keeping name (fun types dialect => { dialect with types := some types })
      (result, registry)).2.slots = registry.slots := by
  cases result with
  | error fault => rfl
  | ok types => exact slots_update_eq (fun _ => rfl) (fun _ => rfl)

theorem slots_typesWithin (fuel : Nat) : (typesWithin fuel name registry).2.slots = registry.slots := by
  induction fuel generalizing name registry with
  | zero => rfl
  | succ fuel ih =>
      cases found : get? name registry.dialects with
      | none => simp only [typesWithin, Registry.dialect, found]
      | some dialect =>
      cases kept : dialect.types with
      | some types => simp only [typesWithin, Registry.dialect, found, kept]
      | none =>
      have composed : (rules name registry).2.slots = registry.slots := slots_rules
      rcases ran : rules name registry with ⟨fault | rules, after⟩
      · rw [ran] at composed
        simpa only [typesWithin, Registry.dialect, found, kept, ran] using composed
      rw [ran] at composed
      cases owns : after.ownTypes dialect.fragments [] with
      | error fault => simpa only [typesWithin, Registry.dialect, found, kept, ran, owns] using composed
      | ok own =>
          cases inherits : dialect.parent with
          | none =>
              rw [typesWithin_orphan found kept ran owns inherits, slots_keepTypes]
              exact composed
          | some parent =>
              have above : (typesWithin fuel parent after).2.slots = after.slots := ih
              rcases ranParent : typesWithin fuel parent after with ⟨result, last⟩
              rw [typesWithin_child found kept ran owns inherits ranParent, slots_keepTypes]
              rw [ranParent] at above
              exact above.trans composed

theorem slots_types : (types name registry).2.slots = registry.slots := slots_typesWithin _

/-- A lexicon that is kept is that of the grammar that is kept. -/
def KeepsWords (registry : Registry) : Prop :=
  ∀ name kept lexicon, registry.slots name = some (kept, some lexicon) →
    kept.map Grammar.lexicon = some lexicon

theorem KeepsWords.of_slots {other : Registry} (words : registry.KeepsWords)
    (same : other.slots = registry.slots) : other.KeepsWords := by
  intro name kept lexicon found
  exact words name kept lexicon (same ▸ found)

theorem KeepsWords.update (words : registry.KeepsWords) {change : Dialect → Dialect}
    (each : ∀ dialect lexicon, get? name registry.dialects = some dialect →
      (change dialect).lexicon = some lexicon →
        (change dialect).grammar.map Grammar.lexicon = some lexicon) :
    (registry.update name change).KeepsWords := by
  intro wanted kept lexicon found
  rw [slots_update] at found
  split at found
  next =>
    obtain ⟨dialect, here, same⟩ := Option.map_eq_some_iff.mp found
    obtain ⟨rfl, known⟩ := Prod.mk.inj same
    exact each dialect lexicon here known
  next => exact words wanted kept lexicon found

theorem slots_of_found {dialect : Dialect} (found : get? name registry.dialects = some dialect) :
    registry.slots name = some (dialect.grammar, dialect.lexicon) := by
  rw [slots, found, Option.map_some]

theorem slots_grammar {grammar : Grammar} (answered : (registry.grammar name).1 = .ok grammar) :
    ∃ lexicon?, (registry.grammar name).2.slots name = some (some grammar, lexicon?) := by
  obtain ⟨dialect, found⟩ := grammarDerivation.registered (grammar_eq ▸ answered)
  rw [grammar_eq] at answered ⊢
  cases kept : dialect.grammar with
  | some known =>
      rw [grammarDerivation.query_kept found kept] at answered ⊢
      obtain rfl := Except.ok.inj answered
      exact ⟨dialect.lexicon, by rw [slots_of_found found, kept]⟩
  | none =>
      have same : (rules name registry).2.slots name = some (none, dialect.lexicon) := by
        rw [slots_rules, slots_of_found found, kept]
      obtain ⟨now, foundNow, -⟩ := Option.map_eq_some_iff.mp same
      rw [grammarDerivation.query_lacking found kept] at answered ⊢
      rw [keeping_fst] at answered
      have answer : (grammarDerivation.first name registry).1 >>= grammarDerivation.refine dialect =
        .ok grammar := answered
      rw [answer, keeping, slots_update, if_pos rfl]
      exact ⟨now.lexicon, congrArg _ foundNow⟩

theorem KeepsWords.grammar (words : registry.KeepsWords) (name : String) :
    (registry.grammar name).2.KeepsWords := by
  rw [grammar_eq]
  cases found : get? name registry.dialects with
  | none => rwa [grammarDerivation.query_unknown found]
  | some dialect =>
  cases kept : dialect.grammar with
  | some known => rwa [grammarDerivation.query_kept found kept]
  | none =>
      have composed : (rules name registry).2.KeepsWords := words.of_slots slots_rules
      rw [grammarDerivation.query_lacking found kept]
      rcases (grammarDerivation.first name registry).1 >>= grammarDerivation.refine dialect with
        fault | grammar
      · exact composed
      · refine composed.update fun now lexicon here known => ?_
        -- There was no lexicon without a grammar, and composing rules keeps neither.
        have same := (slots_of_found here).symm.trans (congrFun slots_rules name)
        rw [slots_of_found found, kept] at same
        obtain ⟨-, knownToo⟩ := Prod.mk.inj (Option.some.inj same)
        have agrees := words name none lexicon
          (by rw [slots_of_found found, kept, ← knownToo]; exact congrArg _ (congrArg _ known))
        cases agrees

theorem KeepsWords.lexicon (words : registry.KeepsWords) (name : String) :
    (registry.lexicon name).2.KeepsWords := by
  rw [lexicon_eq]
  cases found : get? name registry.dialects with
  | none => rwa [lexiconDerivation.query_unknown found]
  | some dialect =>
  cases kept : dialect.lexicon with
  | some known => rwa [lexiconDerivation.query_kept found kept]
  | none =>
      rw [lexiconDerivation.query_lacking found kept]
      cases answered : (lexiconDerivation.first name registry).1 with
      | error fault => exact words.grammar name
      | ok grammar =>
          refine (words.grammar name).update fun now lexicon here known => ?_
          obtain ⟨lexicon?, there⟩ := slots_grammar answered
          rw [slots_of_found here] at there
          obtain ⟨keptToo, -⟩ := Prod.mk.inj (Option.some.inj there)
          obtain rfl := Option.some.inj known
          show now.grammar.map Grammar.lexicon = _
          rw [keptToo]
          rfl

theorem KeepsWords.take (words : registry.KeepsWords) (step : Step) :
    (step.take registry).KeepsWords := by
  cases step with
  | fragment added => exact words
  | dialect added underived =>
      intro name kept lexicon found
      obtain ⟨held, here, same⟩ := Option.map_eq_some_iff.mp found
      rw [Step.take, get?_registerDialect] at here
      split at here
      next =>
        obtain rfl := Option.some.inj here
        rw [← underived] at same
        cases same
      next => exact words name kept lexicon ((slots_of_found here).trans (congrArg some same))
  | query query name =>
      cases query with
      | rules => exact words.of_slots slots_rules
      | types => exact words.of_slots slots_types
      | grammar => exact words.grammar name
      | lexicon => exact words.lexicon name

theorem keepsWords_after (settings : Settings) (steps : List Step) :
    (after settings steps).KeepsWords := by
  induction steps using List.reverseRecOn with
  | nil => exact fun _ _ _ found => nomatch found
  | append_singleton steps step ih =>
      rw [after_concat]
      exact ih.take step

theorem KeepsWords.answer (words : registry.KeepsWords) {grammar : Grammar}
    (answered : (registry.grammar name).1 = .ok grammar) :
    (registry.lexicon name).1 = .ok grammar.lexicon := by
  obtain ⟨dialect, found⟩ := grammarDerivation.registered (grammar_eq ▸ answered)
  rw [lexicon_eq]
  cases kept : dialect.lexicon with
  | some lexicon =>
      have agrees := words name dialect.grammar lexicon (by rw [slots_of_found found, kept])
      obtain ⟨known, keptToo, rfl⟩ := Option.map_eq_some_iff.mp agrees
      rw [grammar_eq, grammarDerivation.query_kept found keptToo] at answered
      rw [lexiconDerivation.query_kept found kept, Except.ok.inj answered]
  | none =>
      have first : (lexiconDerivation.first name registry).1 = .ok grammar := answered
      rw [lexiconDerivation.query_lacking found kept, keeping_fst, first]
      rfl

theorem grammar_of_line (settings : Settings) {steps : List Step} (orderly : Orderly steps)
    {grammar : Grammar} (answered : ((after settings steps).grammar name).1 = .ok grammar) :
    ∃ line members, Lineage (after settings steps) name line ∧
      (after settings steps).providedAlong line = .ok members ∧
        grammar = .ofRules (.compose members) := by
  -- Answers are those of a registry that nobody has asked, in which nothing is kept.
  let fresh := after settings (steps.filter Step.registers)
  have settled : fresh.Settled := settled_after settings _
  have derives : Derives fresh [] (after settings steps) := derives_registrations settings orderly
  have underived : ∀ name dialect, get? name fresh.dialects = some dialect → dialect.Underived :=
    fun _ _ found => underived_registered (fun _ member => (List.mem_filter.mp member).2) found
  have first : (fresh.grammar name).1 = .ok grammar :=
    ((answers_grammar settled name).fst_eq derives).symm.trans answered
  obtain ⟨dialect, found⟩ := grammarDerivation.registered (grammar_eq ▸ first)
  rw [grammar_lacking found (by rw [← underived name dialect found]; rfl)] at first
  cases composed : (fresh.rules name).1 with
  | error fault => rw [composed] at first; cases first
  | ok rules =>
      rw [composed] at first
      have composes : Composes fresh [] name (.ok rules) := composed ▸ composes_rules settled name
      obtain ⟨line, members, lineage, along, rfl⟩ := composes.lineage derives
        fun name dialect found => by rw [← underived name dialect found]; rfl
      exact ⟨line, members, lineage, along, (validGrammar_eq_ok first).1⟩

theorem mem_wordsOf_compose {members : List RuleSet} {word : String} {role : Role} :
    word ∈ (Grammar.ofRules (.compose members)).lexicon.wordsOf role ↔
      ∃ member ∈ members, member.Mentions word (some role) := by
  rw [Grammar.mem_wordsOf_lexicon, RuleSet.mem_tokens_ofRules, RuleSet.mentions_compose]

theorem Lineage.provided_parent {line above : List Dialect} (lineage : Lineage registry name line)
    {dialect : Dialect} {parent : String} (found : get? name registry.dialects = some dialect)
    (inherits : dialect.parent = some parent) (aboveToo : Lineage registry parent above)
    {members inherited : List RuleSet} (along : registry.providedAlong line = .ok members)
    (alongAbove : registry.providedAlong above = .ok inherited) : inherited ⊆ members := by
  obtain rfl := lineage.unique (.child found inherits aboveToo)
  obtain ⟨other, own, alongToo, provides⟩ := providedAlong_concat_ok along
  obtain rfl := Except.ok.inj (alongAbove.symm.trans alongToo)
  have whole := providedAlong_concat alongAbove provides
  rw [along, Except.ok.injEq] at whole
  rw [whole]
  exact List.subset_append_left _ _

/-- A dialect with a grammar has a lexicon, and the words of each role in it are those of the token
patterns that stand in the grammar. Whatever a parse comes to match is a word of its own role in it, or
a class. As long as no name is registered again once a dialect has been asked about, the words are those
that stand in the productions of the dialect's own fragments and of its ancestors', so a parent with a
grammar has no word that its child lacks. -/
theorem lexicon_holds_words (settings : Settings) (steps : List Step) {name : String}
    {grammar : Grammar} (answered : ((after settings steps).grammar name).1 = .ok grammar) :
    let registry := after settings steps
    ∃ lexicon, (registry.lexicon name).1 = .ok lexicon ∧
      (∀ word role, word ∈ lexicon.wordsOf role ↔
        ∃ rule ∈ grammar.raw, (Pattern.token word (some role)).PartOf rule.2) ∧
      (∀ maxDepth tokens start state kind role after,
        ReflTransGen (Begins (Parser.context ⟨grammar, maxDepth⟩ tokens))
          (.pattern (.rule start), state) (.pattern (.token kind role), after) →
            role = none ∨ ∃ known, role = some known ∧ kind ∈ lexicon.wordsOf known) ∧
      (Orderly steps → ∃ line members,
        Lineage registry name line ∧ registry.providedAlong line = .ok members ∧
        (∀ word role, word ∈ lexicon.wordsOf role ↔
          ∃ member ∈ members, member.Mentions word (some role)) ∧
        ∀ dialect parent base, get? name registry.dialects = some dialect →
          dialect.parent = some parent → (registry.grammar parent).1 = .ok base →
            ∃ inherited, (registry.lexicon parent).1 = .ok inherited ∧
              ∀ role, inherited.wordsOf role ⊆ lexicon.wordsOf role) := by
  intro registry
  have words := keepsWords_after settings steps
  refine ⟨grammar.lexicon, words.answer answered, fun word role => ?_,
    fun maxDepth tokens start state kind role last leads => ?_, fun orderly => ?_⟩
  · rw [Grammar.mem_wordsOf_lexicon, Grammar.mem_tokens_iff]
  · have mentioned := Parser.mem_tokens_of_begun leads
    cases role with
    | none => exact .inl rfl
    | some known => exact .inr ⟨known, rfl, Grammar.mem_wordsOf_lexicon.mpr mentioned⟩
  · obtain ⟨line, members, lineage, along, rfl⟩ := grammar_of_line settings orderly answered
    refine ⟨line, members, lineage, along, fun word role => mem_wordsOf_compose,
      fun dialect parent base found inherits answeredToo => ?_⟩
    obtain ⟨above, inherited, lineageToo, alongToo, rfl⟩ :=
      grammar_of_line settings orderly answeredToo
    refine ⟨_, words.answer answeredToo, fun role word member => ?_⟩
    obtain ⟨provided, among, mentions⟩ := mem_wordsOf_compose.mp member
    exact mem_wordsOf_compose.mpr
      ⟨provided, lineage.provided_parent found inherits lineageToo along alongToo among, mentions⟩

def listRules : RuleSet := [
  ("Item", [.ofPattern (.choice [.keyword "if", .tokenClass "Identifier"])]),
  ("Program", [.ofPattern (.star (.rule "Item") (some (.punctuator ",")))])]

def endRules : RuleSet := [
  ("Item", [.ofPattern (.sequence [.option 0 (.keywordValue "when"), Builtin.Terminator.pattern 1])])]

/-- The child is registered when its parent has been asked about. -/
def wordsOfChild : List Step := [
  .fragment (.make "list" (some listRules) []),
  .dialect (.define "base" none ["list"]) (underived_define ..)] ++
  [.query .lexicon "base"] ++ [.fragment (.make "end" (some endRules) [])] ++
  [.dialect (.define "child" (some "base") ["end"]) (underived_define ..)]

theorem lexicon_holds_words_child :
    let registry := after .defaults wordsOfChild
    Orderly wordsOfChild ∧ ∃ grammar base lexicon inherited,
      (registry.grammar "child").1 = .ok grammar ∧ (registry.grammar "base").1 = .ok base ∧
      (registry.lexicon "child").1 = .ok lexicon ∧ (registry.lexicon "base").1 = .ok inherited ∧
      (∀ word role, word ∈ lexicon.wordsOf role ↔
        ∃ member ∈ [listRules, endRules], member.Mentions word (some role)) ∧
      ∀ role, inherited.wordsOf role ⊆ lexicon.wordsOf role := by
  intro registry
  have orderly : Orderly wordsOfChild :=
    (((Orderly.unasked (by decide)).asked .lexicon "base").fragment (by decide)).dialect
      (underived_define ..) (by decide)
  have dialects (name : String) (shape : Option String × List String)
      (same : (get? name registry.dialects).map (fun dialect =>
        (dialect.parent, dialect.fragments)) = some shape) :
      ∃ dialect, get? name registry.dialects = some dialect ∧ dialect.parent = shape.1 ∧
        dialect.fragments = shape.2 := by
    obtain ⟨dialect, found, rfl⟩ := Option.map_eq_some_iff.mp same
    exact ⟨dialect, found, rfl, rfl⟩
  obtain ⟨parent, foundParent, parentless, ownParent⟩ :=
    dialects "base" (none, ["list"]) (by decide +kernel)
  obtain ⟨child, foundChild, inherits, ownChild⟩ :=
    dialects "child" (some "base", ["end"]) (by decide +kernel)
  have lineage : Lineage registry "child" [parent, child] :=
    (Lineage.oldest foundParent parentless).child foundChild inherits
  have along : registry.providedAlong [parent, child] = .ok [listRules, endRules] := by
    simp only [providedAlong, List.flatMap_cons, List.flatMap_nil, ownParent, ownChild]
    rfl
  have answers (name : String) (answered : ((registry.grammar name).1.toOption).isSome = true) :
      ∃ grammar, (registry.grammar name).1 = .ok grammar := by
    cases same : (registry.grammar name).1 with
    | ok grammar => exact ⟨grammar, rfl⟩
    | error fault => rw [same] at answered; cases answered
  obtain ⟨grammar, answered⟩ := answers "child" (by decide +kernel)
  obtain ⟨base, answeredToo⟩ := answers "base" (by decide +kernel)
  obtain ⟨lexicon, reads, -, -, ordered⟩ := lexicon_holds_words .defaults wordsOfChild answered
  obtain ⟨line, members, lineageToo, alongToo, words, contains⟩ := ordered orderly
  obtain rfl := lineage.unique lineageToo
  obtain rfl := Except.ok.inj (along.symm.trans alongToo)
  obtain ⟨inherited, readsToo, included⟩ := contains child "base" base foundChild inherits answeredToo
  exact ⟨orderly, grammar, base, lexicon, inherited, answered, answeredToo, reads, readsToo, words,
    included⟩

/-- A parent gets another fragment after its child has been asked about. -/
def renamedWord : List Step := [
  .fragment (.make "first" (some [("Program", [.ofPattern (.keywordValue "if")])]) []),
  .fragment (.make "second" (some [("Program", [.ofPattern (.keywordValue "when")])]) []),
  .dialect (.define "parent" none ["first"]) (underived_define ..),
  .dialect (.define "child" (some "parent") []) (underived_define ..),
  .query .lexicon "child",
  .dialect (.define "parent" none ["second"]) (underived_define ..)]

/-- The child is left with the words that it has kept, and lacks one that its parent has. -/
theorem lexicon_kept_from_renamedWord :
    let registry := after .defaults renamedWord
    let renamed : RuleSet := [("Program", [.ofPattern (.keywordValue "when")])]
    ∃ base child, Lineage registry "child" [base, child] ∧
      registry.providedAlong [base, child] = .ok [renamed] ∧ renamed.Mentions "when" (some .keyword) ∧
      ¬ renamed.Mentions "if" (some .keyword) ∧
      (registry.lexicon "child").1 = .ok ⟨["if"], []⟩ ∧
      (registry.lexicon "parent").1 = .ok ⟨["when"], []⟩ := by
  intro registry renamed
  have kept : (get? "child" registry.dialects).map (fun dialect =>
      (dialect.parent, dialect.fragments)) = some (some "parent", []) := by decide +kernel
  obtain ⟨child, found, same⟩ := Option.map_eq_some_iff.mp kept
  obtain ⟨inherits, own⟩ := Prod.mk.inj same
  let base : Dialect := .define "parent" none ["second"]
  have above : Lineage registry "parent" [base] := .oldest rfl rfl
  refine ⟨base, child, above.child found inherits, ?_, ⟨_, List.mem_singleton_self _, _,
    List.mem_singleton_self _, .here⟩, ?_, rfl, rfl⟩
  · simp only [providedAlong, List.flatMap_cons, List.flatMap_nil, own]
    rfl
  · rintro ⟨rule, listed, production, member, inner⟩
    obtain rfl := List.mem_singleton.mp listed
    obtain rfl := List.mem_singleton.mp member
    have other := List.mem_singleton.mp inner.mem_walk
    simp at other

end Parlance.Registry
