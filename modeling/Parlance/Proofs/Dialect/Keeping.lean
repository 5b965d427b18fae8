import Mathlib.Data.List.Perm.Subperm
import Parlance.Proofs.Dialect.Composition

/-! What queries keep. A registry that has grown out of another by queries alone is defined like it
and has kept no more than what the other answers, so it goes on to give the same answers. -/

namespace Parlance.Registry

open Index (get?)
open Relation (TransGen)

/-- A value that is kept stays; where there is none, one that is right may be kept. -/
inductive Kept {α : Type} (right : α → Prop) : Option α → Option α → Prop where
  | same {slot} : Kept right slot slot
  | new {value} (stands : right value) : Kept right none (some value)

theorem Kept.lacks {α : Type} {right : α → Prop} {before : Option α} (kept : Kept right before none) :
    before = none := by
  cases kept
  rfl

theorem Kept.fill {α : Type} {right : α → Prop} {before : Option α} {value : α}
    (lacks : before = none) (stands : right value) : Kept right before (some value) := by
  rw [lacks]
  exact .new stands

theorem Kept.right {α : Type} {right : α → Prop} {before : Option α} {value : α}
    (kept : Kept right before (some value)) (known : before = some value → right value) :
    right value := by
  cases kept with
  | same => exact known rfl
  | new stands => exact stands

theorem Kept.mono {α : Type} {right other : α → Prop} {before now : Option α}
    (kept : Kept right before now) (included : ∀ value, right value → other value) :
    Kept other before now := by
  cases kept with
  | same => exact .same
  | new stands => exact .new (included _ stands)

/-- A dialect that is defined like another and has kept no more than what `source` answers. It is
marked while dialects wait for it. -/
structure Grows (source : Registry) (waiting : List String) (name : String)
    (dialect now : Dialect) : Prop where
  bare : now.bare = dialect.bare
  composing : now.composing = true ↔ name ∈ waiting
  rules : Kept (fun rules => Composes source [] name (.ok rules)) dialect.rules now.rules
  grammar : Kept (fun grammar => (source.grammar name).1 = .ok grammar) dialect.grammar now.grammar
  types : Kept (fun types => Typed source name (.ok types)) dialect.types now.types
  lexicon : Kept (fun lexicon => (source.lexicon name).1 = .ok lexicon) dialect.lexicon now.lexicon

namespace Grows

variable {source : Registry} {waiting : List String} {name : String} {dialect now : Dialect}
  (grows : Grows source waiting name dialect now)

include grows

theorem parent : now.parent = dialect.parent := (Dialect.mk.inj grows.bare).2.1

theorem fragments : now.fragments = dialect.fragments := (Dialect.mk.inj grows.bare).2.2.1

theorem precedence : now.precedence = dialect.precedence := (Dialect.mk.inj grows.bare).2.2.2.2.1

theorem maxDepth : now.maxDepth = dialect.maxDepth := (Dialect.mk.inj grows.bare).2.2.2.2.2.1

theorem validGrammar (rules : RuleSet) : validGrammar now rules = validGrammar dialect rules := by
  have same := congrArg (Registry.validGrammar · rules) grows.bare
  exact same

end Grows

/-- A registry that has grown out of `source` by queries alone, while some dialects wait. -/
structure Derives (source : Registry) (waiting : List String) (registry : Registry) : Prop where
  settings : registry.settings = source.settings
  fragments : SameFragments source registry
  dialects : ∀ name, Option.Rel (Grows source waiting name) (get? name source.dialects)
    (get? name registry.dialects)

def AtMost (registry : Registry) (size : Nat) : Prop :=
  ∀ list : List String, list.Nodup →
    (∀ name ∈ list, ∃ dialect, get? name registry.dialects = some dialect) → list.length ≤ size

variable {source registry : Registry} {waiting : List String} {name : String}

/-- Dialects that all lead to one by links, and differ, are no more than there are. -/
theorem AtMost.length_le {size : Nat} (atMost : source.AtMost size)
    {link : String → String → Prop}
    (linked : ∀ {one two}, link one two → ∃ dialect, get? one source.dialects = some dialect)
    {path : List String} (distinct : path.Nodup)
    (leads : ∀ other ∈ path, TransGen link other name) : path.length ≤ size := by
  refine atMost path distinct fun other member => ?_
  obtain ⟨_, first, -⟩ := TransGen.head'_iff.mp (leads other member)
  exact linked first

theorem Derives.refl (settled : source.Settled) : Derives source [] source where
  settings := rfl
  fragments := ⟨fun _ => rfl⟩
  dialects name := by
    cases found : get? name source.dialects with
    | none => exact .none
    | some dialect =>
        refine .some ⟨rfl, ?_, .same, .same, .same, .same⟩
        simp [settled.idle name dialect found]

namespace Derives

theorem cases (derives : Derives source waiting registry) (name : String) :
    (get? name source.dialects = none ∧ get? name registry.dialects = none) ∨
      ∃ dialect now, get? name source.dialects = some dialect ∧
        get? name registry.dialects = some now ∧ Grows source waiting name dialect now := by
  have here := derives.dialects name
  cases found : get? name source.dialects with
  | none =>
      rw [found] at here
      cases foundToo : get? name registry.dialects with
      | none => exact .inl ⟨rfl, rfl⟩
      | some now => rw [foundToo] at here; cases here
  | some dialect =>
      rw [found] at here
      cases foundToo : get? name registry.dialects with
      | none => rw [foundToo] at here; cases here
      | some now =>
          rw [foundToo] at here
          cases here with
          | some grows => exact .inr ⟨dialect, now, rfl, rfl, grows⟩

theorem grown (derives : Derives source waiting registry) {dialect : Dialect}
    (found : get? name source.dialects = some dialect) :
    ∃ now, get? name registry.dialects = some now ∧ Grows source waiting name dialect now := by
  rcases derives.cases name with ⟨absent, -⟩ | ⟨_, now, known, foundToo, grows⟩
  · cases found.symm.trans absent
  · obtain rfl := Option.some.inj (found.symm.trans known)
    exact ⟨now, foundToo, grows⟩

theorem origin (derives : Derives source waiting registry) {now : Dialect}
    (foundToo : get? name registry.dialects = some now) :
    ∃ dialect, get? name source.dialects = some dialect ∧
      Grows source waiting name dialect now := by
  rcases derives.cases name with ⟨-, absent⟩ | ⟨dialect, _, found, known, grows⟩
  · cases foundToo.symm.trans absent
  · obtain rfl := Option.some.inj (foundToo.symm.trans known)
    exact ⟨dialect, found, grows⟩

theorem atMost (derives : Derives source waiting registry) :
    source.AtMost registry.dialects.length := by
  intro list distinct registered
  have included : list ⊆ Index.names registry.dialects := by
    intro name member
    obtain ⟨dialect, found⟩ := registered name member
    obtain ⟨now, foundToo, -⟩ := derives.grown found
    exact Index.mem_names_of_get? foundToo
  have lengths := (List.subperm_of_subset distinct included).length_le
  simpa [Index.names] using lengths

theorem ran {after : Registry} (derives : Derives source waiting registry) (ran : Ran registry after) :
    Derives source waiting after where
  settings := ran.settings.trans derives.settings
  fragments := derives.fragments.trans ran.fragments
  dialects := by rw [ran.dialects]; exact derives.dialects

/-- A change to one dialect that keeps no more than what is right, while no other is marked anew. -/
theorem update {later : List String} (derives : Derives source waiting registry)
    (others : ∀ other, other ≠ name → (other ∈ later ↔ other ∈ waiting))
    {change : Dialect → Dialect}
    (each : ∀ dialect now, get? name source.dialects = some dialect →
      get? name registry.dialects = some now → Grows source waiting name dialect now →
        Grows source later name dialect (change now)) :
    Derives source later (registry.update name change) where
  settings := by rw [settings_update, derives.settings]
  fragments := ⟨by rw [fragments_update]; exact derives.fragments.bare⟩
  dialects other := by
    rw [get?_update]
    by_cases same : other = name
    · subst same
      rw [if_pos rfl]
      rcases derives.cases other with ⟨absent, absentToo⟩ | ⟨dialect, now, found, foundToo, grows⟩
      · rw [absent, absentToo]
        exact .none
      · rw [foundToo, found]
        exact .some (each dialect now found foundToo grows)
    · rw [if_neg same]
      rcases derives.cases other with ⟨absent, absentToo⟩ | ⟨dialect, now, found, foundToo, grows⟩
      · rw [absent, absentToo]
        exact .none
      · rw [foundToo, found]
        exact .some { grows with composing := grows.composing.trans (others other same).symm }

theorem settled (settled : source.Settled) (derives : Derives source [] registry) :
    registry.Settled where
  filed := derives.fragments.filed settled.filed
  idle name now foundToo := by
    obtain ⟨dialect, -, grows⟩ := derives.origin foundToo
    rw [Bool.eq_false_iff, ne_eq, grows.composing]
    exact List.not_mem_nil
  furnished name now rules foundToo kept member own := by
    obtain ⟨dialect, found, grows⟩ := derives.origin foundToo
    have right : Composes source [] name (.ok rules) :=
      (kept ▸ grows.rules).right fun known => .kept found known
    obtain ⟨fragment, there⟩ := right.furnished settled found (grows.fragments ▸ own)
    rcases derives.fragments.cases member with ⟨absent, -⟩ | ⟨_, twin, -, there, -⟩
    · rw [there] at absent
      cases absent
    · exact ⟨twin, there⟩

end Derives

def keeping {α : Type} (name : String) (keep : α → Dialect → Dialect) : Answer α → Answer α
  | (.error fault, registry) => (.error fault, registry)
  | (.ok value, registry) => (.ok value, registry.update name (keep value))

theorem keeping_fst {α : Type} (name : String) (keep : α → Dialect → Dialect) (answer : Answer α) :
    (keeping name keep answer).1 = answer.1 := by
  obtain ⟨fault | value, registry⟩ := answer <;> rfl

theorem Derives.keeping {α : Type} {keep : α → Dialect → Dialect} {result : Except DefinitionFault α}
    (derives : Derives source waiting registry)
    (each : ∀ value, result = .ok value → ∀ dialect now, get? name source.dialects = some dialect →
      Grows source waiting name dialect now → Grows source waiting name dialect (keep value now)) :
    ∃ after, Registry.keeping name keep (result, registry) = (result, after) ∧
      Derives source waiting after := by
  cases result with
  | error fault => exact ⟨registry, rfl, derives⟩
  | ok value =>
      refine ⟨_, rfl, derives.update (fun _ _ => Iff.rfl) fun dialect now found _ grows => ?_⟩
      exact each value rfl dialect now found grows

def overBase (name : String) (dialect : Dialect) : Answer RuleSet → Answer RuleSet
  | (.error fault, registry) => (.error fault, registry.setComposing name false)
  | (.ok base, registry) =>
      match allFragmentRules dialect.fragments registry with
      | (.error fault, registry) => (.error fault, registry.setComposing name false)
      | (.ok members, registry) =>
          (.ok (RuleSet.compose (base :: members)),
            registry.keepRules name (RuleSet.compose (base :: members)))

theorem rulesWithin_lacking {dialect : Dialect} (found : get? name registry.dialects = some dialect)
    (lacks : dialect.rules = none) (idle : dialect.composing = false) (fuel : Nat) :
    rulesWithin (fuel + 1) name registry = overBase name dialect
      (match dialect.parent with
        | none => (.ok [], registry.setComposing name true)
        | some parent => rulesWithin fuel parent (registry.setComposing name true)) := by
  simp only [rulesWithin, Registry.dialect, found, lacks, idle, Bool.false_eq_true, if_false]
  cases dialect.parent with
  | none => rfl
  | some parent =>
      dsimp only
      rcases rulesWithin fuel parent (registry.setComposing name true) with ⟨fault | base, after⟩ <;>
        rfl

namespace Derives

theorem setComposing (derives : Derives source waiting registry) (name : String) :
    Derives source (name :: waiting) (registry.setComposing name true) := by
  refine derives.update (fun other differs => ?_) fun dialect now _ _ grows => ?_
  · simp [differs]
  · exact { grows with bare := grows.bare, composing := by simp }

theorem endComposing (derives : Derives source (name :: waiting) registry) (free : name ∉ waiting) :
    Derives source waiting (registry.setComposing name false) := by
  refine derives.update (fun other differs => ?_) fun dialect now _ _ grows => ?_
  · simp [differs]
  · exact { grows with bare := grows.bare, composing := by simp [free] }

theorem keepRules {rules : RuleSet} (derives : Derives source (name :: waiting) registry)
    (free : name ∉ waiting) (right : Composes source [] name (.ok rules)) :
    Derives source waiting (registry.keepRules name rules) := by
  refine derives.update (fun other differs => ?_) fun dialect now found _ grows => ?_
  · simp [differs]
  · refine { grows with bare := grows.bare, composing := by simp [free], rules := ?_ }
    cases known : dialect.rules with
    | none => exact .new right
    | some before =>
        obtain rfl := Except.ok.inj (right.unique (.kept found known))
        exact .same

theorem overBase (settled : source.Settled) {dialect now : Dialect}
    {result : Except DefinitionFault RuleSet}
    (derives : Derives source (name :: waiting) registry) (free : name ∉ waiting)
    (same : now.fragments = dialect.fragments)
    (right : ∀ rules, source.composed dialect result = .ok rules →
      Composes source [] name (.ok rules)) :
    ∃ after,
      Registry.overBase name now (result, registry) = (source.composed dialect result, after) ∧
      Derives source waiting after := by
  cases result with
  | error fault => exact ⟨_, rfl, derives.endComposing free⟩
  | ok base =>
      obtain ⟨after, ran, ranToo⟩ :=
        allFragmentRules_spec (derives.fragments.filed settled.filed) dialect.fragments
      rw [derives.fragments.provided] at ran
      have derives := derives.ran ranToo
      cases provides : dialect.fragments.mapM source.provided with
      | error fault =>
          refine ⟨after.setComposing name false, ?_, derives.endComposing free⟩
          simp only [Registry.overBase, same, ran, composed, provides]
          rfl
      | ok members =>
          have whole : source.composed dialect (.ok base) =
              .ok (RuleSet.compose (base :: members)) := by
            simp only [composed, provides]
            rfl
          refine ⟨_, ?_, derives.keepRules free (right _ whole)⟩
          simp only [Registry.overBase, same, ran, provides, whole]

end Derives

/-- With enough fuel for all dialects that do not wait, the rules come out as they should. -/
theorem rulesWithin_spec (settled : source.Settled) {size : Nat} (atMost : source.AtMost size)
    {fuel : Nat} (derives : Derives source waiting registry) (distinct : waiting.Nodup)
    (leads : ∀ other ∈ waiting, TransGen source.NeedsRules other name)
    (enough : size < waiting.length + fuel) :
    ∃ result after, rulesWithin fuel name registry = (result, after) ∧
      Composes source waiting name result ∧ Derives source waiting after := by
  induction fuel generalizing waiting name registry with
  | zero =>
      -- More dialects would wait than there are.
      have few := atMost.length_le (fun ⟨dialect, found, _⟩ => ⟨dialect, found⟩) distinct leads
      omega
  | succ fuel ih =>
      rcases derives.cases name with ⟨absent, absentToo⟩ | ⟨dialect, now, found, foundToo, grows⟩
      · refine ⟨_, registry, ?_, .unknown absent, derives⟩
        simp only [rulesWithin, Registry.dialect, absentToo]
      · cases kept : now.rules with
        | some rules =>
            -- They may have been kept while others waited than those that do now.
            have right : Composes source [] name (.ok rules) :=
              (kept ▸ grows.rules).right fun known => .kept found known
            refine ⟨.ok rules, registry, ?_, right.waiting_irrelevant leads, derives⟩
            simp only [rulesWithin, Registry.dialect, foundToo, kept]
        | none =>
            have lacks : dialect.rules = none := (kept ▸ grows.rules).lacks
            by_cases waits : name ∈ waiting
            · have marked := grows.composing.mpr waits
              refine ⟨_, registry, ?_, .cyclic found lacks waits, derives⟩
              simp only [rulesWithin, Registry.dialect, foundToo, kept, marked, if_true]
            · have idle : now.composing = false := Bool.eq_false_iff.mpr (mt grows.composing.mp waits)
              have marked := derives.setComposing name
              rw [rulesWithin_lacking foundToo kept idle, grows.parent]
              cases inherits : dialect.parent with
              | none =>
                  have composes : Composes source waiting name _ :=
                    .orphan found lacks waits inherits
                  obtain ⟨after, ran, derives⟩ := marked.overBase settled waits grows.fragments
                    fun rules whole => (whole ▸ composes).waiting_irrelevant nofun
                  exact ⟨_, after, ran, composes, derives⟩
              | some parent =>
                  have needs : source.NeedsRules name parent := ⟨dialect, found, lacks, inherits⟩
                  obtain ⟨result, middle, ranBase, base, derivesBase⟩ := ih marked
                    (List.nodup_cons.mpr ⟨waits, distinct⟩) (leads_cons needs leads)
                    (by rw [List.length_cons]; omega)
                  have composes : Composes source waiting name _ :=
                    .child found lacks waits inherits base
                  obtain ⟨after, ran, derives⟩ := derivesBase.overBase settled waits grows.fragments
                    fun rules whole => (whole ▸ composes).waiting_irrelevant nofun
                  refine ⟨_, after, ?_, composes, derives⟩
                  simp only [ranBase]
                  exact ran

end Parlance.Registry
