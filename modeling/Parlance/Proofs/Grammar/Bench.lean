import Parlance.Grammar.Workbench
import Parlance.Proofs.Grammar.Compose

/-! What stays on a workbench. Rule sets are authored, composed and asked for in any order; the rules
of a composite, the pattern of a rule and the rules of a grammar stay as they were when they were
first asked for. -/

namespace Parlance

open Index (get? names Ascending)
open Workbench (productionsOf)

theorem Index.Ascending.mapValues {α β : Type} {table : List (String × α)}
    (ascending : Ascending table) (convert : String → α → β) :
    Ascending (Index.mapValues convert table) := by
  simpa only [Ascending, names, Index.mapValues, List.map_map, Function.comp_def] using ascending

theorem RuleDraft.compiled_compile (rule : RuleDraft) :
    rule.compile.2.compiled = some rule.compile.1 := by
  unfold compile
  split
  next pattern kept => exact kept
  next => rfl

theorem RuleDraft.productions_compile (rule : RuleDraft) :
    rule.compile.2.productions = rule.productions := by
  unfold compile
  split <;> rfl

theorem RuleDraft.compile_of_compiled {rule : RuleDraft} {pattern : Pattern}
    (kept : rule.compiled = some pattern) : rule.compile = (pattern, rule) := by
  simp only [compile, kept]

theorem names_productionsOf (rules : Drafts) : names (productionsOf rules) = names rules := by
  simp only [names, productionsOf, Index.mapValues, List.map_map]
  rfl

theorem get?_productionsOf (name : String) (rules : Drafts) :
    get? name (productionsOf rules) = (get? name rules).map RuleDraft.productions :=
  Index.get?_mapValues _ name rules

/-- The rules are the same, except that more of them may have fixed their patterns. -/
structure Compiles (rules later : Drafts) : Prop where
  ascending : Ascending later
  productions : productionsOf later = productionsOf rules
  fixed : ∀ name rule pattern, get? name rules = some rule → rule.compiled = some pattern →
    ∃ laterRule, get? name later = some laterRule ∧ laterRule.compiled = some pattern

namespace Compiles

variable {rules later : Drafts}

theorem refl (ascending : Ascending rules) : Compiles rules rules where
  ascending := ascending
  productions := rfl
  fixed _ rule _ found kept := ⟨rule, found, kept⟩

theorem trans {latest : Drafts} (first : Compiles rules later) (second : Compiles later latest) :
    Compiles rules latest where
  ascending := second.ascending
  productions := second.productions.trans first.productions
  fixed name rule pattern found kept := by
    obtain ⟨laterRule, foundLater, keptLater⟩ := first.fixed name rule pattern found kept
    exact second.fixed name laterRule pattern foundLater keptLater

theorem insert (ascending : Ascending rules) {name : String} {rule : RuleDraft}
    (found : get? name rules = some rule) :
    Compiles rules (Index.insert name rule.compile.2 rules) where
  ascending := ascending.insert _ _
  productions := by
    apply Ascending.ext ((ascending.insert _ _).mapValues _) (ascending.mapValues _)
    intro wanted
    rw [Index.get?_mapValues, Index.get?_mapValues, Index.get?_insert]
    split
    next same => rw [same, found, Option.map_some, Option.map_some, rule.productions_compile]
    next => rfl
  fixed wanted held pattern foundHeld kept := by
    rw [Index.get?_insert]
    split
    next same =>
      obtain rfl : rule = held := Option.some.inj (found.symm.trans (same ▸ foundHeld))
      exact ⟨_, rfl, by rw [RuleDraft.compile_of_compiled kept]; exact kept⟩
    next => exact ⟨held, foundHeld, kept⟩

theorem all (ascending : Ascending rules) :
    Compiles rules (Index.mapValues (fun _ rule => rule.compile.2) rules) where
  ascending := ascending.mapValues _
  productions := by
    simp only [productionsOf, Index.mapValues, List.map_map, Function.comp_def,
      RuleDraft.productions_compile]
  fixed name rule pattern found kept := by
    refine ⟨rule.compile.2, by rw [Index.get?_mapValues, found]; rfl, ?_⟩
    rw [RuleDraft.compile_of_compiled kept]
    exact kept

theorem answers (compiles : Compiles rules later) :
    names later = names rules ∧ ∀ name, (get? name later).map RuleDraft.productions =
      (get? name rules).map RuleDraft.productions := by
  constructor
  · rw [← names_productionsOf, compiles.productions, names_productionsOf]
  · intro name
    rw [← get?_productionsOf, compiles.productions, get?_productionsOf]

end Compiles

namespace SyntaxDraft

structure Ordered (draft : SyntaxDraft) : Prop where
  own : Ascending draft.own
  composed : ∀ rules, draft.composed = some rules → Ascending rules

/-- Members stay, a composite keeps the rules that it has once been given, and a rule keeps its
pattern. -/
structure Keeps (draft later : SyntaxDraft) : Prop where
  members : draft.isComposite → later.members = draft.members
  composed : ∀ rules, draft.composed = some rules →
    ∃ laterRules, later.composed = some laterRules ∧ Compiles rules laterRules
  own : ∀ name rule pattern, get? name draft.own = some rule → rule.compiled = some pattern →
    ∃ laterRule, get? name later.own = some laterRule ∧ laterRule.compiled = some pattern

variable {draft later : SyntaxDraft}

theorem Keeps.refl (ordered : draft.Ordered) : draft.Keeps draft where
  members _ := rfl
  composed rules given := ⟨rules, given, .refl (ordered.composed rules given)⟩
  own _ rule _ found kept := ⟨rule, found, kept⟩

theorem Keeps.isComposite (keeps : draft.Keeps later) (composite : draft.isComposite) :
    later.isComposite := by
  rw [SyntaxDraft.isComposite, keeps.members composite]
  exact composite

theorem Keeps.trans {latest : SyntaxDraft} (first : draft.Keeps later)
    (second : later.Keeps latest) : draft.Keeps latest where
  members composite := (second.members (first.isComposite composite)).trans (first.members composite)
  composed rules given := by
    obtain ⟨laterRules, givenLater, compiles⟩ := first.composed rules given
    obtain ⟨latestRules, givenLatest, compilesLater⟩ := second.composed laterRules givenLater
    exact ⟨latestRules, givenLatest, compiles.trans compilesLater⟩
  own name rule pattern found kept := by
    obtain ⟨laterRule, foundLater, keptLater⟩ := first.own name rule pattern found kept
    exact second.own name laterRule pattern foundLater keptLater

theorem keeps_blank (later : SyntaxDraft) : (⟨[], [], none⟩ : SyntaxDraft).Keeps later where
  members composite := by cases composite
  composed _ given := by cases given
  own _ _ _ found _ := by cases found

theorem ordered_blank (members : List Nat) : (⟨[], members, none⟩ : SyntaxDraft).Ordered where
  own := Index.ascending_nil
  composed _ given := by cases given

theorem keeps_give (lacks : draft.composed = none) (rules : Drafts) :
    draft.Keeps { draft with composed := some rules } where
  members _ := rfl
  composed given same := by
    rw [lacks] at same
    cases same
  own _ rule _ found kept := ⟨rule, found, kept⟩

theorem keeps_author (ordered : draft.Ordered) (name : String) (productions : List Production) :
    let rule := (get? name draft.own).getD (.ofProductions [])
    draft.Keeps
      { draft with own := Index.insert name { rule with productions := productions } draft.own } where
  members _ := rfl
  composed rules given := ⟨rules, given, .refl (ordered.composed rules given)⟩
  own wanted rule pattern found kept := by
    rw [Index.get?_insert]
    split
    next same =>
      refine ⟨_, rfl, ?_⟩
      rw [same] at found
      simpa only [found, Option.getD_some] using kept
    next => exact ⟨rule, found, kept⟩

theorem keeps_setVisible (ordered : draft.Ordered) {rules : Drafts}
    (compiles : Compiles draft.visible rules) : draft.Keeps (Workbench.setVisible draft rules) := by
  unfold Workbench.setVisible
  cases composite : draft.isComposite with
  | true =>
      rw [visible, if_pos composite] at compiles
      rw [if_pos rfl]
      refine ⟨fun _ => rfl, fun given same => ?_, fun _ rule _ found kept => ⟨rule, found, kept⟩⟩
      rw [same, Option.getD_some] at compiles
      exact ⟨rules, rfl, compiles⟩
  | false =>
      rw [visible, composite, if_neg Bool.false_ne_true] at compiles
      rw [if_neg Bool.false_ne_true]
      exact ⟨fun _ => rfl, fun given same => ⟨given, same, .refl (ordered.composed given same)⟩,
        compiles.fixed⟩

theorem Ordered.setVisible (ordered : draft.Ordered) {rules : Drafts} (ascending : Ascending rules) :
    (Workbench.setVisible draft rules).Ordered := by
  unfold Workbench.setVisible
  split
  · refine ⟨ordered.own, fun given same => ?_⟩
    rw [← Option.some.inj same]
    exact ascending
  · exact ⟨ascending, ordered.composed⟩

theorem Ordered.visible (ordered : draft.Ordered) : Ascending draft.visible := by
  unfold SyntaxDraft.visible
  split
  · cases given : draft.composed with
    | none => exact Index.ascending_nil
    | some rules => exact ordered.composed rules given
  · exact ordered.own

end SyntaxDraft

namespace GrammarDraft

structure Keeps (draft later : GrammarDraft) : Prop where
  source : later.source = draft.source
  grammar : ∀ grammar, draft.grammar = some grammar → later.grammar = some grammar

theorem Keeps.refl (draft : GrammarDraft) : draft.Keeps draft := ⟨rfl, fun _ kept => kept⟩

theorem Keeps.trans {draft later latest : GrammarDraft} (first : draft.Keeps later)
    (second : later.Keeps latest) : draft.Keeps latest where
  source := second.source.trans first.source
  grammar grammar kept := second.grammar grammar (first.grammar grammar kept)

/-- What has been resolved is what the grammar resolves it to. -/
def Sound (draft : GrammarDraft) : Prop :=
  ∀ name pattern, get? name draft.resolved = some pattern →
    ∃ grammar, draft.grammar = some grammar ∧ grammar.resolve name = .ok pattern

end GrammarDraft

namespace Workbench

theorem draftAt_setDraft (bench : Workbench) (number wanted : Nat) (draft : SyntaxDraft) :
    (bench.setDraft number draft).draftAt wanted =
      if wanted = number ∧ number < bench.syntaxes.size then draft else bench.draftAt wanted := by
  simp only [draftAt, setDraft, Array.getElem?_setIfInBounds]
  split
  next same =>
    subst same
    split
    next there => simp [there]
    next beyond => simp [beyond]
  next differs => rw [if_neg fun both => differs both.1.symm]

theorem draftAt_beyond {bench : Workbench} {number : Nat} (beyond : bench.syntaxes.size ≤ number) :
    bench.draftAt number = ⟨[], [], none⟩ := by
  rw [draftAt, Array.getElem?_eq_none beyond, Option.getD_none]

theorem lt_size_of_isComposite {bench : Workbench} {number : Nat}
    (composite : (bench.draftAt number).isComposite) : number < bench.syntaxes.size := by
  by_contra beyond
  rw [draftAt_beyond (not_lt.mp beyond)] at composite
  cases composite

theorem draftAt_push (syntaxes : Array SyntaxDraft) (grammars : Array GrammarDraft)
    (draft : SyntaxDraft) (number : Nat) :
    draftAt ⟨syntaxes.push draft, grammars⟩ number =
      if number = syntaxes.size then draft else draftAt ⟨syntaxes, grammars⟩ number := by
  simp only [draftAt, Array.getElem?_push]
  split <;> rfl

structure Keeps (bench later : Workbench) : Prop where
  syntaxes : ∀ number, (bench.draftAt number).Keeps (later.draftAt number)
  grammars : ∀ (number : Nat) (draft : GrammarDraft), bench.grammars[number]? = some draft →
    ∃ laterDraft, later.grammars[number]? = some laterDraft ∧ draft.Keeps laterDraft

structure Sound (bench : Workbench) : Prop where
  ordered : ∀ number, (bench.draftAt number).Ordered
  resolved : ∀ (number : Nat) (draft : GrammarDraft), bench.grammars[number]? = some draft → draft.Sound

variable {bench later : Workbench}

theorem Keeps.refl (sound : bench.Sound) : bench.Keeps bench where
  syntaxes number := .refl (sound.ordered number)
  grammars _ draft found := ⟨draft, found, .refl draft⟩

theorem Keeps.trans {latest : Workbench} (first : bench.Keeps later) (second : later.Keeps latest) :
    bench.Keeps latest where
  syntaxes number := (first.syntaxes number).trans (second.syntaxes number)
  grammars number draft found := by
    obtain ⟨laterDraft, foundLater, keeps⟩ := first.grammars number draft found
    obtain ⟨latestDraft, foundLatest, keepsLater⟩ := second.grammars number laterDraft foundLater
    exact ⟨latestDraft, foundLatest, keeps.trans keepsLater⟩

theorem sound_empty : Sound .empty where
  ordered _ := SyntaxDraft.ordered_blank []
  resolved _ _ found := by cases found

theorem Sound.setDraft (sound : bench.Sound) {number : Nat} {draft : SyntaxDraft}
    (ordered : draft.Ordered) : (bench.setDraft number draft).Sound where
  ordered wanted := by
    rw [draftAt_setDraft]
    split
    · exact ordered
    · exact sound.ordered wanted
  resolved := sound.resolved

theorem keeps_setDraft (sound : bench.Sound) {number : Nat} {draft : SyntaxDraft}
    (keeps : (bench.draftAt number).Keeps draft) : bench.Keeps (bench.setDraft number draft) where
  syntaxes wanted := by
    rw [draftAt_setDraft]
    split
    next same => rw [same.1]; exact keeps
    next => exact .refl (sound.ordered wanted)
  grammars := (Keeps.refl sound).grammars

theorem Sound.push (sound : bench.Sound) {draft : SyntaxDraft} (ordered : draft.Ordered) :
    Sound { bench with syntaxes := bench.syntaxes.push draft } where
  ordered number := by
    rw [draftAt_push]
    split
    · exact ordered
    · exact sound.ordered number
  resolved := sound.resolved

theorem keeps_push (sound : bench.Sound) (draft : SyntaxDraft) :
    bench.Keeps { bench with syntaxes := bench.syntaxes.push draft } where
  syntaxes number := by
    rw [draftAt_push]
    split
    next same =>
      rw [draftAt_beyond (ge_of_eq same)]
      exact SyntaxDraft.keeps_blank draft
    next => exact .refl (sound.ordered number)
  grammars := (Keeps.refl sound).grammars

/-- Nothing has happened but that composites without rules may have got them. -/
structure Fixes (bench later : Workbench) : Prop where
  sound : later.Sound
  keeps : bench.Keeps later
  literal : ∀ number, (bench.draftAt number).isComposite = false →
    later.draftAt number = bench.draftAt number
  size : later.syntaxes.size = bench.syntaxes.size
  grammars : later.grammars = bench.grammars

theorem Fixes.refl (sound : bench.Sound) : bench.Fixes bench :=
  ⟨sound, .refl sound, fun _ _ => rfl, rfl, rfl⟩

theorem Fixes.trans {latest : Workbench} (first : bench.Fixes later) (second : later.Fixes latest) :
    bench.Fixes latest where
  sound := second.sound
  keeps := first.keeps.trans second.keeps
  literal number literal := by
    have same := first.literal number literal
    rw [second.literal number (same ▸ literal), same]
  size := second.size.trans first.size
  grammars := second.grammars.trans first.grammars

theorem Fixes.give (fixes : bench.Fixes later) (sound : bench.Sound) {number : Nat}
    (composite : (bench.draftAt number).isComposite)
    (lacks : (bench.draftAt number).composed = none) (rules : RuleSet) (ascending : Ascending rules) :
    bench.Fixes (later.setDraft number { bench.draftAt number with
      composed := some (Index.mapValues (fun _ => RuleDraft.ofProductions) rules) }) where
  sound := by
    refine fixes.sound.setDraft ⟨(sound.ordered number).own, fun given same => ?_⟩
    rw [← Option.some.inj same]
    exact ascending.mapValues _
  keeps := by
    refine ⟨fun wanted => ?_, fixes.keeps.grammars⟩
    rw [draftAt_setDraft]
    split
    next same => rw [same.1]; exact SyntaxDraft.keeps_give lacks _
    next => exact fixes.keeps.syntaxes wanted
  literal wanted literal := by
    rw [draftAt_setDraft]
    split
    next same =>
      rw [same.1, composite] at literal
      cases literal
    next => exact fixes.literal wanted literal
  size := by
    rw [← fixes.size]
    exact Array.size_setIfInBounds ..
  grammars := fixes.grammars

theorem fixes_foldl {change : Nat → Workbench → Workbench}
    (fixes : ∀ {bench : Workbench}, bench.Sound → ∀ number, bench.Fixes (change number bench))
    (sound : bench.Sound) (list : List Nat) :
    bench.Fixes (list.foldl (fun bench number => change number bench) bench) := by
  induction list generalizing bench with
  | nil => exact .refl sound
  | cons number rest ih =>
      have first := fixes sound number
      exact first.trans (ih first.sound)

theorem fixes_fixWithin (fuel : Nat) (sound : bench.Sound) (number : Nat) :
    bench.Fixes (fixWithin fuel number bench) := by
  induction fuel generalizing number bench with
  | zero => exact .refl sound
  | succ fuel ih =>
      rw [fixWithin]
      split
      · exact .refl sound
      next lacking =>
        obtain ⟨composite, lacks⟩ : (bench.draftAt number).isComposite ∧
            (bench.draftAt number).composed = none := by simpa using lacking
        exact (fixes_foldl ih sound _).give sound composite lacks _ (RuleSet.ascending_compose _)

theorem fixes_fix (sound : bench.Sound) (number : Nat) : bench.Fixes (bench.fix number) :=
  fixes_fixWithin (number + 1) sound number

theorem fixWithin_of_literal {number : Nat} (literal : (bench.draftAt number).isComposite = false)
    (fuel : Nat) : fixWithin fuel number bench = bench := by
  cases fuel with
  | zero => rfl
  | succ fuel => simp only [fixWithin, literal, Bool.not_false, Bool.true_or, if_true]

theorem fix_of_literal {number : Nat} (literal : (bench.draftAt number).isComposite = false) :
    bench.fix number = bench :=
  fixWithin_of_literal literal (number + 1)

theorem fix_of_composed {number : Nat} {rules : Drafts}
    (given : (bench.draftAt number).composed = some rules) : bench.fix number = bench := by
  simp only [fix, fixWithin, given, Option.isSome_some, Bool.or_true, if_true]

theorem composed_fix {number : Nat} (sound : bench.Sound)
    (composite : (bench.draftAt number).isComposite) :
    ∃ rules, ((bench.fix number).draftAt number).composed = some rules := by
  cases given : (bench.draftAt number).composed with
  | some rules => exact ⟨rules, by rw [fix_of_composed given, given]⟩
  | none =>
      have there : number < ((bench.draftAt number).members.foldl
          (fun bench member => fixWithin number member bench) bench).syntaxes.size := by
        rw [(fixes_foldl (fixes_fixWithin number) sound _).size]
        exact lt_size_of_isComposite composite
      simp only [fix, fixWithin, composite, given, Bool.not_true, Option.isSome_none, Bool.or_false,
        Bool.false_eq_true, if_false, draftAt_setDraft, there, and_self, if_true]
      exact ⟨_, rfl⟩

structure Advances (bench later : Workbench) : Prop where
  sound : later.Sound
  keeps : bench.Keeps later

theorem Advances.refl (sound : bench.Sound) : bench.Advances bench := ⟨sound, .refl sound⟩

theorem Advances.trans {latest : Workbench} (first : bench.Advances later)
    (second : later.Advances latest) : bench.Advances latest :=
  ⟨second.sound, first.keeps.trans second.keeps⟩

theorem advances_fix (sound : bench.Sound) (number : Nat) : bench.Advances (bench.fix number) :=
  ⟨(fixes_fix sound number).sound, (fixes_fix sound number).keeps⟩

theorem advances_push (sound : bench.Sound) {draft : SyntaxDraft} (ordered : draft.Ordered) :
    bench.Advances { bench with syntaxes := bench.syntaxes.push draft } :=
  ⟨sound.push ordered, keeps_push sound draft⟩

theorem advances_setVisible (sound : bench.Sound) {number : Nat} {rules : Drafts}
    (compiles : Compiles (bench.draftAt number).visible rules) :
    bench.Advances (bench.setDraft number (setVisible (bench.draftAt number) rules)) where
  sound := sound.setDraft ((sound.ordered number).setVisible compiles.ascending)
  keeps := keeps_setDraft sound (SyntaxDraft.keeps_setVisible (sound.ordered number) compiles)

theorem advances_setGrammar (sound : bench.Sound) {number : Nat} {draft changed : GrammarDraft}
    (found : bench.grammars[number]? = some draft) (keeps : draft.Keeps changed)
    (soundChanged : changed.Sound) :
    bench.Advances { bench with grammars := bench.grammars.setIfInBounds number changed } := by
  have there : number < bench.grammars.size := (Array.getElem?_eq_some_iff.mp found).1
  constructor
  · refine ⟨sound.ordered, fun wanted held foundHeld => ?_⟩
    simp only [Array.getElem?_setIfInBounds, there, if_true] at foundHeld
    split at foundHeld
    · exact Option.some.inj foundHeld ▸ soundChanged
    · exact sound.resolved wanted held foundHeld
  · refine ⟨(Keeps.refl sound).syntaxes, fun wanted held foundHeld => ?_⟩
    simp only [Array.getElem?_setIfInBounds, there, if_true]
    split
    next same =>
      subst same
      obtain rfl : draft = held := Option.some.inj (found.symm.trans foundHeld)
      exact ⟨changed, rfl, keeps⟩
    next => exact ⟨held, foundHeld, .refl held⟩

theorem advances_author (sound : bench.Sound) (number : Nat) (name : String)
    (edits : List RuleEdit) : bench.Advances (bench.author number name edits).2 where
  sound := sound.setDraft
    ⟨(sound.ordered number).own.insert _ _, (sound.ordered number).composed⟩
  keeps := keeps_setDraft sound (SyntaxDraft.keeps_author (sound.ordered number) name _)

theorem advances_compileRule (sound : bench.Sound) (number : Nat) (name : String) :
    bench.Advances (bench.compileRule number name).2 := by
  have fixed := advances_fix sound number
  unfold compileRule
  dsimp only [rules]
  split
  next => exact fixed
  next rule found =>
    have ascending := (fixed.sound.ordered number).visible
    exact fixed.trans (advances_setVisible fixed.sound (.insert ascending found))

/-- A grammar that is used for the first time takes its rules as they are now. -/
theorem grammar_of_unused {number : Nat} {draft : GrammarDraft}
    (found : bench.grammars[number]? = some draft) (unused : draft.grammar = none) :
    (bench.grammar number).1 =
      ⟨Index.mapValues (fun _ rule => rule.compile.1) (bench.rules draft.source).1⟩ := by
  simp only [grammar, found, unused]

theorem grammar_of_used {number : Nat} {draft : GrammarDraft} {grammar : Grammar}
    (found : bench.grammars[number]? = some draft) (used : draft.grammar = some grammar) :
    bench.grammar number = (grammar, bench) := by
  simp only [Workbench.grammar, found, used]

theorem advances_grammar (sound : bench.Sound) (number : Nat) :
    bench.Advances (bench.grammar number).2 := by
  unfold Workbench.grammar
  split
  next => exact .refl sound
  next draft found =>
    split
    next => exact .refl sound
    next unused =>
      have fixes := fixes_fix sound draft.source
      have compiles := Compiles.all (fixes.sound.ordered draft.source).visible
      have compiled := advances_setVisible fixes.sound compiles
      have still : (bench.fix draft.source).grammars[number]? = some draft := by
        rw [fixes.grammars, found]
      refine (advances_fix sound draft.source).trans (compiled.trans ?_)
      refine advances_setGrammar compiled.sound still ⟨rfl, fun _ used => ?_⟩ ?_
      · rw [unused] at used
        cases used
      · intro name pattern kept
        obtain ⟨grammar, used, -⟩ := sound.resolved number draft found name pattern kept
        rw [unused] at used
        cases used

theorem used_grammar {number : Nat} {draft : GrammarDraft} (sound : bench.Sound)
    (found : bench.grammars[number]? = some draft) :
    ∃ kept, (bench.grammar number).2.grammars[number]? = some kept ∧
      kept.grammar = some (bench.grammar number).1 := by
  cases used : draft.grammar with
  | some grammar =>
      rw [grammar_of_used found used]
      exact ⟨draft, found, used⟩
  | none =>
      have there : number < (bench.fix draft.source).grammars.size := by
        rw [(fixes_fix sound draft.source).grammars]
        exact (Array.getElem?_eq_some_iff.mp found).1
      simp only [grammar, found, used, rules, setDraft, Array.getElem?_setIfInBounds, there, if_true]
      exact ⟨_, rfl, rfl⟩

theorem used_grammar_after {number : Nat} {draft : GrammarDraft} (sound : bench.Sound)
    (found : (bench.grammar number).2.grammars[number]? = some draft) :
    draft.grammar = some (bench.grammar number).1 := by
  cases before : bench.grammars[number]? with
  | none =>
      simp only [Workbench.grammar, before] at found
      cases found
  | some _ =>
      obtain ⟨kept, foundKept, used⟩ := used_grammar sound before
      rw [Option.some.inj (found.symm.trans foundKept), used]

/-- Resolving answers what the grammar says, whether the rule was resolved before or not. -/
theorem resolve_eq (sound : bench.Sound) (number : Nat) (name : String) :
    (bench.resolve number name).1 = (bench.grammar number).1.resolve name := by
  unfold Workbench.resolve
  split
  next pattern kept =>
    obtain ⟨draft, found, held⟩ := Option.bind_eq_some_iff.mp kept
    obtain ⟨grammar, used, resolves⟩ := sound.resolved number draft found name pattern held
    rw [grammar_of_used found used, resolves]
  next =>
    dsimp only
    split
    next fault fails => rw [fails]
    next pattern resolves => rw [resolves]

theorem resolve_advances_grammar (sound : bench.Sound) (number : Nat) (name : String) :
    (bench.grammar number).2.Advances (bench.resolve number name).2 := by
  have asked := advances_grammar sound number
  unfold Workbench.resolve
  split
  next pattern kept =>
    obtain ⟨draft, found, held⟩ := Option.bind_eq_some_iff.mp kept
    obtain ⟨grammar, used, -⟩ := sound.resolved number draft found name pattern held
    rw [grammar_of_used found used]
    exact .refl sound
  next =>
    dsimp only
    split
    next => exact .refl asked.sound
    next pattern resolves =>
      unfold keepResolved
      split
      next => exact .refl asked.sound
      next draft found =>
        refine advances_setGrammar asked.sound found ⟨rfl, fun _ kept => kept⟩ ?_
        have used := used_grammar_after sound found
        intro wanted held same
        rw [Index.get?_insert] at same
        split at same
        next equal => exact ⟨_, used, equal ▸ Option.some.inj same ▸ resolves⟩
        next => exact asked.sound.resolved number draft found wanted held same

inductive Query where
  | patterns
  | hasRule (name : String)
  | resolve (name : String)
  | validate
  | tokens

inductive Reply where
  | patterns (raw : List (String × Pattern))
  | hasRule (has : Bool)
  | resolved (result : Except DefinitionFault Pattern)
  | validated (result : Except DefinitionFault Unit)
  | tokens (found : List (String × Option Role))

def Query.answer (grammar : Grammar) : Query → Reply
  | .patterns => .patterns grammar.raw
  | .hasRule name => .hasRule (grammar.hasRule name)
  | .resolve name => .resolved (grammar.resolve name)
  | .validate => .validated grammar.validate
  | .tokens => .tokens grammar.tokens

/-- A query about a grammar on the bench, which fixes what it has to look at. -/
def ask (bench : Workbench) (number : Nat) : Query → Reply × Workbench
  | .resolve name =>
      let (result, bench) := bench.resolve number name
      (.resolved result, bench)
  | query =>
      let (grammar, bench) := bench.grammar number
      (query.answer grammar, bench)

/-- What is done with a bench. The composite of a syntax has it as its first member. -/
inductive Step where
  | literal (rules : List (String × List RuleEdit))
  | compose (first : Nat) (others : List Nat)
  | author (number : Nat) (name : String) (edits : List RuleEdit)
  | ruleNames (number : Nat)
  | rule (number : Nat) (name : String)
  | expression (number : Nat) (name : String)
  | grammar (source : Nat)
  | query (number : Nat) (query : Query)
  | sourceRules (number : Nat)

def Step.take (bench : Workbench) : Step → Workbench
  | .literal rules => (bench.addSyntax (RuleSet.ofEdits rules)).2
  | .compose first others => (bench.addComposite (first :: others)).2
  | .author number name edits => (bench.author number name edits).2
  | .ruleNames number => (bench.ruleNames number).2
  | .rule number name => (bench.rule? number name).2
  | .expression number name => (bench.compileRule number name).2
  | .grammar source => (bench.addGrammar source).2
  | .query number asked => (bench.ask number asked).2
  | .sourceRules number => (bench.sourceRules number).2

def after (bench : Workbench) (steps : List Step) : Workbench := steps.foldl Step.take bench

theorem ask_eq (sound : bench.Sound) (number : Nat) (query : Query) :
    (bench.ask number query).1 = query.answer (bench.grammar number).1 := by
  cases query with
  | resolve name => exact congrArg Reply.resolved (resolve_eq sound number name)
  | _ => rfl

theorem ask_advances_grammar (sound : bench.Sound) (number : Nat) (query : Query) :
    (bench.grammar number).2.Advances (bench.ask number query).2 := by
  cases query with
  | resolve name => exact resolve_advances_grammar sound number name
  | _ => exact .refl (advances_grammar sound number).sound

theorem advances_ask (sound : bench.Sound) (number : Nat) (query : Query) :
    bench.Advances (bench.ask number query).2 :=
  (advances_grammar sound number).trans (ask_advances_grammar sound number query)

theorem used_ask {number : Nat} {draft : GrammarDraft} (sound : bench.Sound)
    (found : bench.grammars[number]? = some draft) (query : Query) :
    ∃ kept, (bench.ask number query).2.grammars[number]? = some kept ∧
      kept.grammar = some (bench.grammar number).1 := by
  obtain ⟨held, foundHeld, used⟩ := used_grammar sound found
  obtain ⟨kept, foundKept, keeps⟩ :=
    (ask_advances_grammar sound number query).keeps.grammars number held foundHeld
  exact ⟨kept, foundKept, keeps.grammar _ used⟩

theorem advances_addGrammar (sound : bench.Sound) (source : Nat) :
    bench.Advances (bench.addGrammar source).2 := by
  constructor
  · refine ⟨sound.ordered, fun number draft found => ?_⟩
    simp only [addGrammar, Array.getElem?_push] at found
    split at found
    · rw [← Option.some.inj found]
      intro _ _ kept
      cases kept
    · exact sound.resolved number draft found
  · refine ⟨(Keeps.refl sound).syntaxes, fun number draft found => ⟨draft, ?_, .refl draft⟩⟩
    have there := (Array.getElem?_eq_some_iff.mp found).1
    rw [addGrammar, Array.getElem?_push, if_neg there.ne, found]

theorem Step.advances (sound : bench.Sound) (step : Step) : bench.Advances (step.take bench) := by
  cases step with
  | literal rules =>
      have ascending := (RuleSet.ascending_ofEdits rules).mapValues fun _ => RuleDraft.ofProductions
      exact advances_push sound ⟨ascending, fun _ given => by cases given⟩
  | compose first others => exact advances_push sound (SyntaxDraft.ordered_blank _)
  | author number name edits => exact advances_author sound number name edits
  | ruleNames number => exact advances_fix sound number
  | rule number name => exact advances_fix sound number
  | expression number name => exact advances_compileRule sound number name
  | grammar source => exact advances_addGrammar sound source
  | query number asked => exact advances_ask sound number asked
  | sourceRules number =>
      simp only [Step.take, Workbench.sourceRules]
      split
      · exact .refl sound
      · exact advances_fix sound _

/-- Whatever is done, what was fixed before is there after. -/
theorem advances_after (sound : bench.Sound) (steps : List Step) :
    bench.Advances (bench.after steps) := by
  unfold after
  induction steps generalizing bench with
  | nil => exact .refl sound
  | cons step rest ih =>
      have first := step.advances sound
      exact first.trans (ih first.sound)

theorem sound_after (steps : List Step) : (empty.after steps).Sound :=
  (advances_after sound_empty steps).sound

end Workbench

end Parlance
