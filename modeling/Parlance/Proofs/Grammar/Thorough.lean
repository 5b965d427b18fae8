import Parlance.Proofs.Grammar.Bench

/-! How far a look goes. A composite that has its rules has asked its members for theirs, and a grammar
that has been used has asked its syntax, so what is looked at through something else is fixed too. -/

namespace Parlance.Workbench

variable {bench later : Workbench} {number : Nat}

def Fixed (bench : Workbench) (number : Nat) : Prop :=
  (bench.draftAt number).isComposite → (bench.draftAt number).composed.isSome

/-- What a syntax or a grammar refers to was there before it, and has been looked at if it has. -/
structure Thorough (bench : Workbench) : Prop where
  nested : ∀ number, ∀ member ∈ (bench.draftAt number).members, member < number
  placed : ∀ (number : Nat) (draft : GrammarDraft), bench.grammars[number]? = some draft →
    draft.source < bench.syntaxes.size
  members : ∀ number, (bench.draftAt number).composed.isSome →
    ∀ member ∈ (bench.draftAt number).members, bench.Fixed member
  sources : ∀ (number : Nat) (draft : GrammarDraft), bench.grammars[number]? = some draft →
    draft.grammar.isSome → bench.Fixed draft.source

theorem thorough_empty : Thorough .empty where
  nested _ _ := nofun
  placed _ _ := nofun
  members _ := nofun
  sources _ _ := nofun

namespace Thorough

variable (thorough : bench.Thorough)

include thorough

theorem setDraft {draft : SyntaxDraft} (members : draft.members = (bench.draftAt number).members)
    (kept : (bench.draftAt number).composed.isSome → draft.composed.isSome)
    (fixed : draft.composed.isSome → ∀ member ∈ draft.members, bench.Fixed member) :
    (bench.setDraft number draft).Thorough := by
  have still {wanted : Nat} (fixed : bench.Fixed wanted) :
      (bench.setDraft number draft).Fixed wanted := by
    unfold Fixed
    rw [draftAt_setDraft]
    split
    next same =>
      rw [SyntaxDraft.isComposite, members, ← same.1]
      exact fun composite => kept (same.1 ▸ fixed composite)
    next => exact fixed
  refine ⟨fun wanted => ?_, fun wanted held found => ?_, fun wanted => ?_,
    fun wanted held found used => still (thorough.sources wanted held found used)⟩
  · rw [draftAt_setDraft]
    split
    next same => rw [members, same.1]; exact thorough.nested number
    next => exact thorough.nested wanted
  · rw [Workbench.setDraft, Array.size_setIfInBounds]
    exact thorough.placed wanted held found
  · rw [draftAt_setDraft]
    split
    next => exact fun some member within => still (fixed some member within)
    next => exact fun some member within => still (thorough.members wanted some member within)

theorem push {draft : SyntaxDraft} (there : ∀ member ∈ draft.members, member < bench.syntaxes.size)
    (lacks : draft.composed = none) :
    Thorough { bench with syntaxes := bench.syntaxes.push draft } := by
  have still {wanted : Nat} (there : wanted < bench.syntaxes.size) (fixed : bench.Fixed wanted) :
      Fixed { bench with syntaxes := bench.syntaxes.push draft } wanted := by
    unfold Fixed
    rw [draftAt_push, if_neg there.ne]
    exact fixed
  refine ⟨fun wanted => ?_, fun wanted held found => ?_, fun wanted => ?_, fun wanted held found used =>
    still (thorough.placed wanted held found) (thorough.sources wanted held found used)⟩
  · rw [draftAt_push]
    split
    next same => exact same ▸ there
    next => exact thorough.nested wanted
  · rw [Array.size_push]
    exact Nat.lt_succ_of_lt (thorough.placed wanted held found)
  · rw [draftAt_push]
    split
    next => exact fun some => by rw [lacks] at some; cases some
    next =>
      intro some member within
      have inside : wanted < bench.syntaxes.size := by
        by_contra beyond
        rw [draftAt_beyond (not_lt.mp beyond)] at some
        cases some
      exact still ((thorough.nested wanted member within).trans inside)
        (thorough.members wanted some member within)

theorem setGrammar {draft : GrammarDraft} (there : draft.source < bench.syntaxes.size)
    (fixed : draft.grammar.isSome → bench.Fixed draft.source) :
    Thorough { bench with grammars := bench.grammars.setIfInBounds number draft } := by
  have either {wanted : Nat} {held : GrammarDraft}
      (found : (bench.grammars.setIfInBounds number draft)[wanted]? = some held) :
      held = draft ∨ bench.grammars[wanted]? = some held := by
    rw [Array.getElem?_setIfInBounds] at found
    split at found
    next =>
      split at found
      next => exact .inl (Option.some.inj found).symm
      next => cases found
    next => exact .inr found
  refine ⟨thorough.nested, fun wanted held found => ?_, thorough.members,
    fun wanted held found used => ?_⟩
  · rcases either found with rfl | found
    · exact there
    · exact thorough.placed wanted held found
  · rcases either found with rfl | found
    · exact fixed used
    · exact thorough.sources wanted held found used

end Thorough

theorem Fixes.fixed (fixes : bench.Fixes later) (fixed : bench.Fixed number) :
    later.Fixed number := by
  intro composite
  cases before : (bench.draftAt number).isComposite with
  | false =>
      rw [fixes.literal number before, before] at composite
      cases composite
  | true =>
      obtain ⟨rules, given⟩ := Option.isSome_iff_exists.mp (fixed before)
      obtain ⟨laterRules, givenLater, -⟩ := (fixes.keeps.syntaxes number).composed rules given
      rw [givenLater]
      rfl

theorem thorough_foldl {change : Nat → Workbench → Workbench} {limit : Nat}
    (fixes : ∀ {bench : Workbench}, bench.Sound → ∀ number, bench.Fixes (change number bench))
    (thoroughly : ∀ {bench : Workbench}, bench.Sound → bench.Thorough → ∀ number < limit,
      (change number bench).Thorough ∧ (change number bench).Fixed number)
    (sound : bench.Sound) (thorough : bench.Thorough) {list : List Nat}
    (within : ∀ number ∈ list, number < limit) :
    let folded := list.foldl (fun bench number => change number bench) bench
    folded.Thorough ∧ ∀ number ∈ list, folded.Fixed number := by
  induction list generalizing bench with
  | nil => exact ⟨thorough, nofun⟩
  | cons number rest ih =>
      obtain ⟨first, others⟩ := List.forall_mem_cons.mp within
      obtain ⟨after, fixed⟩ := thoroughly sound thorough number first
      have soundAfter := (fixes sound number).sound
      obtain ⟨last, each⟩ := ih soundAfter after others
      refine ⟨last, List.forall_mem_cons.mpr ⟨?_, each⟩⟩
      exact (fixes_foldl fixes soundAfter rest).fixed fixed

/-- Members have smaller numbers, so there is fuel enough for them too. -/
theorem thorough_fixWithin (fuel : Nat) (sound : bench.Sound) (thorough : bench.Thorough)
    (enough : number < fuel) :
    (fixWithin fuel number bench).Thorough ∧ (fixWithin fuel number bench).Fixed number := by
  induction fuel generalizing number bench with
  | zero => omega
  | succ fuel ih =>
      rw [fixWithin]
      split
      next settled =>
        refine ⟨thorough, fun composite => ?_⟩
        simpa [composite] using settled
      next lacking =>
        obtain ⟨composite, -⟩ : (bench.draftAt number).isComposite ∧
            (bench.draftAt number).composed = none := by simpa using lacking
        have smaller : ∀ member ∈ (bench.draftAt number).members, member < fuel :=
          fun member within => by have := thorough.nested number member within; omega
        obtain ⟨folded, fixed⟩ := thorough_foldl (fixes_fixWithin fuel)
          (fun sound thorough _ below => ih sound thorough below) sound thorough smaller
        have fixes := fixes_foldl (fixes_fixWithin fuel) sound (bench.draftAt number).members
        have there : number < _ := (lt_size_of_isComposite composite).trans_eq fixes.size.symm
        constructor
        · exact folded.setDraft ((fixes.keeps.syntaxes number).members composite).symm (fun _ => rfl)
            fun _ => fixed
        · intro _
          rw [draftAt_setDraft, if_pos ⟨rfl, there⟩]
          rfl

theorem thorough_fix (sound : bench.Sound) (thorough : bench.Thorough) (number : Nat) :
    (bench.fix number).Thorough ∧ (bench.fix number).Fixed number :=
  thorough_fixWithin (number + 1) sound thorough number.lt_succ_self

theorem Thorough.setVisible (thorough : bench.Thorough) (fixed : bench.Fixed number)
    (rules : Drafts) :
    let changed := bench.setDraft number (Workbench.setVisible (bench.draftAt number) rules)
    changed.Thorough ∧ changed.Fixed number := by
  unfold Workbench.setVisible
  cases composite : (bench.draftAt number).isComposite with
  | true =>
      rw [if_pos rfl]
      refine ⟨thorough.setDraft rfl (fun _ => rfl) fun _ => thorough.members number (fixed composite),
        fun _ => ?_⟩
      rw [draftAt_setDraft, if_pos ⟨rfl, lt_size_of_isComposite composite⟩]
      rfl
  | false =>
      rw [if_neg Bool.false_ne_true]
      refine ⟨thorough.setDraft rfl id (thorough.members number), ?_⟩
      unfold Fixed
      rw [draftAt_setDraft]
      split
      next => exact fun is => absurd (composite.symm.trans is) Bool.false_ne_true
      next => exact fixed

theorem thorough_compileRule (sound : bench.Sound) (thorough : bench.Thorough) (number : Nat)
    (name : String) :
    (bench.compileRule number name).2.Thorough ∧ (bench.compileRule number name).2.Fixed number := by
  obtain ⟨after, fixed⟩ := thorough_fix sound thorough number
  unfold compileRule
  dsimp only [rules]
  split
  next => exact ⟨after, fixed⟩
  next => exact after.setVisible fixed _

theorem thorough_grammar (sound : bench.Sound) (thorough : bench.Thorough) (number : Nat) :
    (bench.grammar number).2.Thorough := by
  unfold Workbench.grammar
  split
  next => exact thorough
  next draft found =>
    split
    next => exact thorough
    next =>
      obtain ⟨after, fixed⟩ := thorough_fix sound thorough draft.source
      obtain ⟨compiled, fixedToo⟩ := after.setVisible fixed
        (Index.mapValues (fun _ rule => rule.compile.2) (bench.rules draft.source).1)
      have there : draft.source < (bench.fix draft.source).syntaxes.size := by
        rw [(fixes_fix sound draft.source).size]
        exact thorough.placed number draft found
      refine compiled.setGrammar ?_ fun _ => fixedToo
      rw [Workbench.setDraft, Array.size_setIfInBounds]
      exact there

theorem thorough_ask (sound : bench.Sound) (thorough : bench.Thorough) (number : Nat)
    (query : Query) : (bench.ask number query).2.Thorough := by
  have asked := thorough_grammar sound thorough number
  cases query with
  | resolve name =>
      simp only [ask, Workbench.resolve]
      split
      next => exact thorough
      next =>
        split
        next => exact asked
        next =>
          unfold keepResolved
          split
          next => exact asked
          next draft found =>
            exact asked.setGrammar (asked.placed number draft found)
              (asked.sources number draft found)
  | _ => exact asked

def Step.Given (bench : Workbench) : Step → Prop
  | .compose first others => ∀ member ∈ first :: others, member < bench.syntaxes.size
  | .grammar source => source < bench.syntaxes.size
  | _ => True

/-- Each step is given syntaxes that are there when it is taken. -/
def Given (bench : Workbench) : List Step → Prop
  | [] => True
  | step :: rest => step.Given bench ∧ (step.take bench).Given rest

theorem Step.thorough (sound : bench.Sound) (thorough : bench.Thorough) {step : Step}
    (given : step.Given bench) : (step.take bench).Thorough := by
  cases step with
  | literal rules => exact thorough.push nofun rfl
  | compose first others => exact thorough.push given rfl
  | author number name edits => exact thorough.setDraft rfl id (thorough.members number)
  | ruleNames number | rule number name => exact (thorough_fix sound thorough number).1
  | expression number name => exact (thorough_compileRule sound thorough number name).1
  | grammar source =>
      have either {number : Nat} {draft : GrammarDraft}
          (found : (bench.addGrammar source).2.grammars[number]? = some draft) :
          draft = ⟨source, none, []⟩ ∨ bench.grammars[number]? = some draft := by
        rw [addGrammar, Array.getElem?_push] at found
        split at found
        · exact .inl (Option.some.inj found).symm
        · exact .inr found
      refine ⟨thorough.nested, fun number draft found => ?_, thorough.members,
        fun number draft found used => ?_⟩
      · rcases either found with rfl | found
        · exact given
        · exact thorough.placed number draft found
      · rcases either found with rfl | found
        · cases used
        · exact thorough.sources number draft found used
  | query number asked => exact thorough_ask sound thorough number asked
  | sourceRules number =>
      simp only [Step.take, Workbench.sourceRules]
      split
      · exact thorough
      · exact (thorough_fix sound thorough _).1

theorem thorough_after (sound : bench.Sound) (thorough : bench.Thorough) {steps : List Step}
    (given : bench.Given steps) : (bench.after steps).Thorough := by
  unfold after
  induction steps generalizing bench with
  | nil => exact thorough
  | cons step rest ih =>
      exact ih (step.advances sound).sound (step.thorough sound thorough given.1) given.2

inductive Step.LooksAt (number : Nat) : Step → Prop where
  | ruleNames : LooksAt number (.ruleNames number)
  | rule (name : String) : LooksAt number (.rule number name)
  | expression (name : String) : LooksAt number (.expression number name)

/-- Steps that ask for rules of a syntax themselves, through a grammar over it, or through a composite
of which it is a member. -/
inductive Step.Reaches (bench : Workbench) (step : Step) : Nat → Prop where
  | looks {number : Nat} (looks : step.LooksAt number) : Reaches bench step number
  | query {grammar : Nat} {draft : GrammarDraft} {asked : Query} (is : step = .query grammar asked)
      (found : bench.grammars[grammar]? = some draft) : Reaches bench step draft.source
  | sourceRules {grammar : Nat} {draft : GrammarDraft} (is : step = .sourceRules grammar)
      (found : bench.grammars[grammar]? = some draft) : Reaches bench step draft.source
  | member {outer number : Nat} (reaches : Reaches bench step outer)
      (member : number ∈ (bench.draftAt outer).members) : Reaches bench step number

theorem Step.Reaches.given {step : Step} (reaches : step.Reaches bench number) :
    step.Given bench := by
  induction reaches with
  | looks looks => cases looks <;> trivial
  | query is | sourceRules is => subst is; trivial
  | member _ _ ih => exact ih

theorem Step.Reaches.fixed {step : Step} (reaches : step.Reaches bench number) (sound : bench.Sound)
    (thorough : bench.Thorough) : (step.take bench).Fixed number := by
  have advances := step.advances sound
  have after := step.thorough sound thorough reaches.given
  induction reaches with
  | looks looks =>
      cases looks with
      | ruleNames | rule => exact (thorough_fix sound thorough _).2
      | expression name => exact (thorough_compileRule sound thorough _ name).2
  | @query grammar draft asked is found =>
      subst is
      obtain ⟨kept, foundKept, used⟩ := used_ask sound found asked
      obtain ⟨held, foundHeld, keeps⟩ := advances.keeps.grammars grammar draft found
      obtain rfl : kept = held := Option.some.inj (foundKept.symm.trans foundHeld)
      rw [← keeps.source]
      exact after.sources grammar kept foundHeld (by rw [used]; rfl)
  | sourceRules is found =>
      subst is
      simp only [Step.take, Workbench.sourceRules, found]
      exact (thorough_fix sound thorough _).2
  | @member outer number _ member ih =>
      have composite : (bench.draftAt outer).isComposite := by
        cases members : (bench.draftAt outer).members with
        | nil => rw [members] at member; cases member
        | cons => rw [SyntaxDraft.isComposite, members]; rfl
      have keeps := advances.keeps.syntaxes outer
      exact after.members outer (ih (keeps.isComposite composite)) number
        (keeps.members composite ▸ member)

end Parlance.Workbench
