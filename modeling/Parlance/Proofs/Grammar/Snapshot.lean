import Parlance.Proofs.Grammar.Frozen

/-! What a grammar takes from a syntax with rules of its own. A rule has one pattern for all who ask
for it, so a grammar that is used for the first time takes a rule as it was when the first of them
asked, be it another grammar over the same syntax. A composite makes rules of its own out of the
productions there are. -/

namespace Parlance.Workbench

open Index (get? names Ascending)

variable {bench : Workbench} {number : Nat} {name : String}

/-- Whether a step asks for the pattern of a rule: of this one, or of all rules of its syntax, for a
grammar that has none of its own. -/
def Step.expresses (bench : Workbench) (number : Nat) (name : String) : Step → Bool
  | .expression asked wanted => asked == number && wanted == name
  | .query handle _ =>
      match bench.grammars[handle]? with
      | some draft => draft.source == number && draft.grammar.isNone
      | none => false
  | _ => false

/-- The productions that a rule has when its pattern is asked for first, or in the end if that does
not happen. -/
def expressed (number : Nat) (name : String) (bench : Workbench) :
    List Step → Option (List Production)
  | [] => (bench.rule? number name).1
  | step :: rest =>
      if step.expresses bench number name && (bench.rule? number name).1.isSome then
        (bench.rule? number name).1
      else expressed number name (step.take bench) rest

def Unfixed (number : Nat) (name : String) (bench : Workbench) : Prop :=
  ∀ rule, get? name (bench.draftAt number).own = some rule → rule.compiled = none

theorem rule?_of_literal (literal : (bench.draftAt number).isComposite = false) (name : String) :
    (bench.rule? number name).1 =
      (get? name (bench.draftAt number).own).map RuleDraft.productions := by
  simp only [rule?, Workbench.rules, fix_of_literal literal, SyntaxDraft.visible, literal,
    Bool.false_eq_true, if_false]

theorem visible_of_literal {draft : SyntaxDraft} (literal : draft.isComposite = false) :
    draft.visible = draft.own := by
  rw [SyntaxDraft.visible, literal, if_neg Bool.false_ne_true]

theorem own_setVisible {draft : SyntaxDraft} (literal : draft.isComposite = false)
    (rules : Drafts) : (setVisible draft rules).own = rules := by
  rw [setVisible, literal, if_neg Bool.false_ne_true]

theorem lt_size_of_own {rule : RuleDraft}
    (found : get? name (bench.draftAt number).own = some rule) : number < bench.syntaxes.size := by
  by_contra beyond
  rw [draftAt_beyond (not_lt.mp beyond)] at found
  cases found

theorem own_fix (sound : bench.Sound) (literal : (bench.draftAt number).isComposite = false)
    (other : Nat) : ((bench.fix other).draftAt number).own = (bench.draftAt number).own := by
  rw [(fixes_fix sound other).literal number literal]

theorem own_setDraft_of_ne {other : Nat} (differs : other ≠ number) (draft : SyntaxDraft) :
    ((bench.setDraft other draft).draftAt number).own = (bench.draftAt number).own := by
  rw [draftAt_setDraft, if_neg fun both => differs both.1.symm]

theorem own_compileRule_of_ne (sound : bench.Sound)
    (literal : (bench.draftAt number).isComposite = false) {other : Nat} (differs : other ≠ number)
    (wanted : String) :
    ((bench.compileRule other wanted).2.draftAt number).own = (bench.draftAt number).own := by
  unfold compileRule
  dsimp only [Workbench.rules]
  split
  · exact own_fix sound literal other
  · exact (own_setDraft_of_ne differs _).trans (own_fix sound literal other)

theorem own_compileRule (literal : (bench.draftAt number).isComposite = false) (wanted : String) :
    get? name ((bench.compileRule number wanted).2.draftAt number).own =
      if name = wanted then (get? name (bench.draftAt number).own).map fun rule => rule.compile.2
      else get? name (bench.draftAt number).own := by
  unfold compileRule
  dsimp only [Workbench.rules]
  rw [fix_of_literal literal, visible_of_literal literal]
  split
  next missing =>
    split
    next same => rw [same, missing, Option.map_none]
    next => rfl
  next rule found =>
    rw [draftAt_setDraft, if_pos ⟨rfl, lt_size_of_own found⟩, own_setVisible literal,
      Index.get?_insert]
    split
    next same => rw [same, found, Option.map_some]
    next => rfl

theorem own_grammar_of_ne {grammar : Nat} {draft : GrammarDraft}
    (found : bench.grammars[grammar]? = some draft) (unused : draft.grammar = none)
    (sound : bench.Sound) (literal : (bench.draftAt number).isComposite = false)
    (apart : draft.source ≠ number) :
    ((bench.grammar grammar).2.draftAt number).own = (bench.draftAt number).own := by
  simp only [Workbench.grammar, found, unused, Workbench.rules]
  exact (own_setDraft_of_ne apart _).trans (own_fix sound literal draft.source)

theorem own_grammar {grammar : Nat} {draft : GrammarDraft}
    (found : bench.grammars[grammar]? = some draft) (unused : draft.grammar = none)
    (literal : (bench.draftAt draft.source).isComposite = false) :
    get? name ((bench.grammar grammar).2.draftAt draft.source).own =
      (get? name (bench.draftAt draft.source).own).map fun rule => rule.compile.2 := by
  simp only [Workbench.grammar, found, unused, Workbench.rules, fix_of_literal literal,
    visible_of_literal literal]
  change get? name ((bench.setDraft draft.source _).draftAt draft.source).own = _
  rw [draftAt_setDraft]
  split
  next => rw [own_setVisible literal, Index.get?_mapValues]
  next beyond =>
    cases missing : get? name (bench.draftAt draft.source).own with
    | none => rfl
    | some rule => exact absurd ⟨rfl, lt_size_of_own missing⟩ beyond

theorem syntaxes_ask (sound : bench.Sound) (grammar : Nat) (query : Query) :
    (bench.ask grammar query).2.syntaxes = (bench.grammar grammar).2.syntaxes := by
  cases query with
  | resolve name =>
      simp only [ask, resolve]
      split
      next pattern kept =>
        obtain ⟨draft, found, held⟩ := Option.bind_eq_some_iff.mp kept
        obtain ⟨_, used, -⟩ := sound.resolved grammar draft found name pattern held
        rw [grammar_of_used found used]
      next =>
        split
        next => rfl
        next =>
          unfold keepResolved
          split <;> rfl
  | _ => rfl

def Step.isQuery : Step → Bool
  | .literal _ | .compose .. | .author .. => false
  | _ => true

/-- All that a query does to a rule of a literal syntax is that it may fix its pattern. -/
theorem own_take (sound : bench.Sound) (literal : (bench.draftAt number).isComposite = false)
    {step : Step} (asks : step.isQuery) :
    get? name ((step.take bench).draftAt number).own =
      if step.expresses bench number name then
        (get? name (bench.draftAt number).own).map fun rule => rule.compile.2
      else get? name (bench.draftAt number).own := by
  cases step with
  | literal | compose | author => cases asks
  | ruleNames other | rule other =>
      exact congrArg (get? name) (own_fix sound literal other)
  | grammar source => rfl
  | sourceRules grammar =>
      simp only [Step.take, Workbench.sourceRules]
      split
      · rfl
      · exact congrArg (get? name) (own_fix sound literal _)
  | expression other wanted =>
      by_cases same : other = number
      · subst same
        rw [Step.take, own_compileRule literal]
        simp only [Step.expresses, BEq.rfl, Bool.true_and, beq_iff_eq, eq_comm (a := name)]
      · rw [Step.take, own_compileRule_of_ne sound literal same]
        simp only [Step.expresses, beq_eq_false_iff_ne.mpr same, Bool.false_and, Bool.false_eq_true,
          if_false]
  | query grammar asked =>
      have same : ((Step.query grammar asked).take bench).draftAt number =
          (bench.grammar grammar).2.draftAt number := by
        simp only [Step.take, draftAt, syntaxes_ask sound]
      rw [same]
      cases found : bench.grammars[grammar]? with
      | none =>
          have idle : (Step.query grammar asked).expresses bench number name = false := by
            simp only [Step.expresses, found]
          rw [idle, if_neg Bool.false_ne_true]
          simp only [Workbench.grammar, found]
      | some draft =>
          have first : (Step.query grammar asked).expresses bench number name =
              (draft.source == number && draft.grammar.isNone) := by
            simp only [Step.expresses, found]
          rw [first]
          cases used : draft.grammar with
          | some kept =>
              rw [grammar_of_used found used, Option.isNone_some, Bool.and_false,
                if_neg Bool.false_ne_true]
          | none =>
              by_cases based : draft.source = number
              · subst based
                rw [own_grammar found used literal, BEq.rfl, Option.isNone_none, Bool.and_self,
                  if_pos rfl]
              · rw [own_grammar_of_ne found used sound literal based, beq_eq_false_iff_ne.mpr based,
                  Bool.false_and, if_neg Bool.false_ne_true]

theorem Unfixed.take (unfixed : Unfixed number name bench) (sound : bench.Sound)
    (literal : (bench.draftAt number).isComposite = false) {step : Step}
    (idle : step.expresses bench number name = false ∨
      get? name (bench.draftAt number).own = none) : Unfixed number name (step.take bench) := by
  intro rule found
  cases asks : step.isQuery with
  | true =>
      rw [own_take sound literal asks] at found
      rcases idle with idle | absent
      · rw [idle, if_neg Bool.false_ne_true] at found
        exact unfixed rule found
      · simp only [absent, Option.map_none, ite_self] at found
        cases found
  | false =>
      cases step with
      | literal rules =>
          simp only [Step.take, addSyntax, draftAt_push] at found
          split at found
          · rw [Index.get?_mapValues] at found
            obtain ⟨productions, -, rfl⟩ := Option.map_eq_some_iff.mp found
            rfl
          · exact unfixed rule found
      | compose first others =>
          simp only [Step.take, addComposite, draftAt_push] at found
          split at found
          · cases found
          · exact unfixed rule found
      | author other wanted edits =>
          simp only [Step.take, author, draftAt_setDraft] at found
          split at found
          next same =>
            obtain ⟨rfl, -⟩ := same
            rw [Index.get?_insert] at found
            split at found
            next equal =>
              subst equal
              rw [← Option.some.inj found]
              cases held : get? name (bench.draftAt number).own with
              | none => rfl
              | some before => exact unfixed before held
            next => exact unfixed rule found
          next => exact unfixed rule found
      | _ => cases asks

theorem fixed_take (sound : bench.Sound) (literal : (bench.draftAt number).isComposite = false)
    {step : Step} (asks : step.expresses bench number name) {rule : RuleDraft}
    (found : get? name (bench.draftAt number).own = some rule) :
    ∃ fixed, get? name ((step.take bench).draftAt number).own = some fixed ∧
      fixed.compiled = some rule.compile.1 := by
  have query : step.isQuery := by
    cases step with
    | literal | compose | author => cases asks
    | _ => rfl
  rw [own_take sound literal query, if_pos asks, found]
  exact ⟨rule.compile.2, rfl, rule.compiled_compile⟩

/-- The pattern of a rule is that of the productions it had when the pattern was first asked for. -/
theorem compile_after (steps : List Step) (sound : bench.Sound)
    (unfixed : Unfixed number name bench)
    (literal : ((bench.after steps).draftAt number).isComposite = false) :
    (get? name ((bench.after steps).draftAt number).own).map (fun rule => rule.compile.1) =
      (expressed number name bench steps).map RuleSet.choiceOf := by
  induction steps generalizing bench with
  | nil =>
      change (bench.draftAt number).isComposite = false at literal
      rw [expressed, rule?_of_literal literal, Option.map_map]
      change (get? name (bench.draftAt number).own).map _ = _
      cases found : get? name (bench.draftAt number).own with
      | none => rfl
      | some rule => simp only [Option.map_some, RuleDraft.compile, unfixed rule found, Function.comp]
  | cons step rest ih =>
      have advances := step.advances sound
      have before : (bench.draftAt number).isComposite = false := by
        have keeps := (advances_after sound (step :: rest)).keeps.syntaxes number
        by_contra composite
        exact absurd (keeps.isComposite (by simpa using composite)) (by simp [literal])
      rw [expressed]
      cases found : get? name (bench.draftAt number).own with
      | none =>
          rw [rule?_of_literal before, found, Option.map_none, Option.isSome_none, Bool.and_false,
            if_neg Bool.false_ne_true]
          exact ih advances.sound (unfixed.take sound before (.inr found)) literal
      | some rule =>
          rw [rule?_of_literal before, found, Option.map_some, Option.isSome_some, Bool.and_true]
          split
          next asks =>
            obtain ⟨fixed, foundFixed, compiled⟩ := fixed_take sound before asks found
            obtain ⟨latest, foundLatest, still⟩ :=
              ((advances_after advances.sound rest).keeps.syntaxes number).own _ _ _ foundFixed compiled
            have same : rule.compile.1 = RuleSet.choiceOf rule.productions := by
              simp only [RuleDraft.compile, unfixed rule found]
            change (get? name (((step.take bench).after rest).draftAt number).own).map _ = _
            rw [foundLatest, Option.map_some, RuleDraft.compile_of_compiled still, same,
              Option.map_some]
          next idle =>
            exact ih advances.sound (unfixed.take sound before (.inl (by simpa using idle))) literal

theorem raw_grammar (literal : (bench.draftAt number).isComposite = false) {grammar : Nat}
    {draft : GrammarDraft} (made : bench.grammars[grammar]? = some draft)
    (based : draft.source = number) (unused : draft.grammar = none) :
    (bench.grammar grammar).1.raw =
      Index.mapValues (fun _ rule => rule.compile.1) (bench.draftAt number).own := by
  subst based
  rw [grammar_of_unused made unused]
  simp only [Workbench.rules, fix_of_literal literal, visible_of_literal literal]

theorem rules_of_composite (sound : bench.Sound)
    (literal : (bench.draftAt number).isComposite = false) {composite : Nat}
    (fresh : bench.draftAt composite = ⟨[], [number], none⟩) :
    (bench.rules composite).1 = Index.mapValues (fun _ => RuleDraft.ofProductions)
      (productionsOf (bench.draftAt number).own) := by
  have ascending := (sound.ordered number).own.mapValues fun _ rule => rule.productions
  have copied : RuleSet.compose [[], productionsOf (bench.draftAt number).own] =
      productionsOf (bench.draftAt number).own :=
    Ascending.ext (RuleSet.ascending_append Index.ascending_nil) ascending
      (RuleSet.get?_nil_append ascending)
  have there : composite < bench.syntaxes.size :=
    lt_size_of_isComposite (by rw [fresh]; rfl)
  change ((bench.fix composite).draftAt composite).visible = _
  rw [fix, fixWithin, fresh]
  simp only [SyntaxDraft.isComposite, List.isEmpty_cons, Bool.not_false, Bool.not_true,
    Option.isSome_none, Bool.or_false, Bool.false_eq_true, if_false, List.foldl_cons, List.foldl_nil,
    fixWithin_of_literal literal, List.map_cons, List.map_nil, visible_of_literal literal]
  rw [draftAt_setDraft, if_pos ⟨rfl, there⟩]
  exact congrArg (Index.mapValues fun _ => RuleDraft.ofProductions) copied

def overComposite (bench : Workbench) (number : Nat) : Nat × Workbench :=
  let (composite, bench) := bench.addComposite [number]
  bench.addGrammar composite

theorem advances_overComposite (sound : bench.Sound) (number : Nat) :
    bench.Advances (bench.overComposite number).2 := by
  have first := advances_push sound (SyntaxDraft.ordered_blank [number])
  exact first.trans (advances_addGrammar first.sound bench.syntaxes.size)

theorem draftAt_overComposite (there : number < bench.syntaxes.size) :
    (bench.overComposite number).2.draftAt number = bench.draftAt number := by
  change draftAt ⟨bench.syntaxes.push _, _⟩ number = _
  rw [draftAt_push, if_neg there.ne]
  rfl

theorem grammars_overComposite {grammar : Nat} {draft : GrammarDraft}
    (made : bench.grammars[grammar]? = some draft) :
    (bench.overComposite number).2.grammars[grammar]? = some draft := by
  have before := (Array.getElem?_eq_some_iff.mp made).1
  change (bench.grammars.push _)[grammar]? = _
  rw [Array.getElem?_push, if_neg before.ne, made]

theorem grammar_overComposite (sound : bench.Sound) (there : number < bench.syntaxes.size)
    (literal : (bench.draftAt number).isComposite = false) :
    ((bench.overComposite number).2.grammar (bench.overComposite number).1).1 =
      .ofRules (productionsOf (bench.draftAt number).own) := by
  have still := draftAt_overComposite there
  have fresh : (bench.overComposite number).2.draftAt bench.syntaxes.size =
      ⟨[], [number], none⟩ := by
    change draftAt ⟨bench.syntaxes.push _, _⟩ bench.syntaxes.size = _
    rw [draftAt_push, if_pos rfl]
  have made : (bench.overComposite number).2.grammars[(bench.overComposite number).1]? =
      some ⟨bench.syntaxes.size, none, []⟩ := by
    change (bench.grammars.push _)[bench.grammars.size]? = _
    rw [Array.getElem?_push, if_pos rfl]
  rw [grammar_of_unused made rfl,
    rules_of_composite (advances_overComposite sound number).sound (by rw [still, literal]) fresh,
    still]
  simp only [Grammar.ofRules, Index.mapValues, List.map_map]
  rfl

/-- A grammar that is used for the first time takes each rule of its literal syntax as it was when its
pattern was first asked for, by whomever. If no rule has been edited since, that is what a grammar
over a composite of just this syntax takes. -/
theorem snapshot_as_first_expressed (steps : List Step) (number grammar : Nat) (draft : GrammarDraft)
    (there : number < (empty.after steps).syntaxes.size)
    (literal : ((empty.after steps).draftAt number).isComposite = false)
    (made : (empty.after steps).grammars[grammar]? = some draft) (based : draft.source = number)
    (unused : draft.grammar = none) :
    let bench := empty.after steps
    (∀ name, get? name (bench.grammar grammar).1.raw =
      (expressed number name empty steps).map RuleSet.choiceOf) ∧
    ((∀ name, expressed number name empty steps = (bench.rule? number name).1) →
      let (copy, ready) := bench.overComposite number
      (ready.grammar copy).1 = (ready.grammar grammar).1) := by
  intro bench
  have sound : bench.Sound := sound_after steps
  have patterns (name : String) : (get? name (bench.draftAt number).own).map
      (fun rule => rule.compile.1) = (expressed number name empty steps).map RuleSet.choiceOf :=
    compile_after steps sound_empty (fun _ found => by cases found) literal
  refine ⟨fun name => ?_, fun current => ?_⟩
  · rw [raw_grammar literal made based unused, Index.get?_mapValues, patterns]
  · have still : (bench.overComposite number).2.draftAt number = bench.draftAt number :=
      draftAt_overComposite there
    have madeStill : (bench.overComposite number).2.grammars[grammar]? = some draft :=
      grammars_overComposite made
    have taken := raw_grammar (still ▸ literal) madeStill based unused
    have ascending := (sound.ordered number).own
    change ((bench.overComposite number).2.grammar (bench.overComposite number).1).1 =
      ((bench.overComposite number).2.grammar grammar).1
    rw [grammar_overComposite sound there literal]
    refine congrArg Grammar.mk (Eq.trans ?_ taken.symm)
    rw [still]
    refine Ascending.ext ((ascending.mapValues _).mapValues _) (ascending.mapValues _) fun name => ?_
    rw [Index.get?_mapValues, Index.get?_mapValues, patterns, current, rule?_of_literal literal,
      get?_productionsOf]

/-- The production `b` comes after the pattern of `R` was asked for in the first history, and before it
in the second. -/
theorem snapshots_of_two_histories :
    let first := Pattern.punctuator "a"
    let second := Pattern.punctuator "b"
    let late := empty.after [.literal [("R", [.add first])], .expression 0 "R",
      .author 0 "R" [.add second], .grammar 0]
    let early := empty.after [.literal [("R", [.add first])], .author 0 "R" [.add second], .grammar 0]
    let (copy, ready) := early.overComposite 0
    get? "R" (late.grammar 0).1.raw = some (.choice [first]) ∧
      (ready.grammar copy).1 = (ready.grammar 0).1 := by
  intro first second late early
  have missed := (snapshot_as_first_expressed [.literal [("R", [.add first])], .expression 0 "R",
    .author 0 "R" [.add second], .grammar 0] 0 0 ⟨0, none, []⟩ (by decide) rfl rfl rfl rfl).1 "R"
  have same := (snapshot_as_first_expressed [.literal [("R", [.add first])],
    .author 0 "R" [.add second], .grammar 0] 0 0 ⟨0, none, []⟩ (by decide) rfl rfl rfl rfl).2
    fun _ => rfl
  exact ⟨missed.trans rfl, same⟩

/-- A second grammar over a syntax, used for the first time after a production was added, does not have
it where a grammar over a composite of the syntax does, since the first grammar has asked for the
pattern before. -/
theorem second_grammar_misses_production :
    let first := Pattern.punctuator "a"
    let second := Pattern.punctuator "b"
    let bench := empty.after [.literal [("R", [.add first])], .grammar 0, .query 0 .patterns,
      .author 0 "R" [.add second], .grammar 0]
    let (copy, ready) := bench.overComposite 0
    (bench.rule? 0 "R").1 = some [.ofPattern first, .ofPattern second] ∧
      (bench.grammar 1).1.raw = [("R", .choice [first])] ∧
      (ready.grammar copy).1.raw = [("R", .choice [first, second])] := by
  exact ⟨rfl, rfl, rfl⟩

end Parlance.Workbench
