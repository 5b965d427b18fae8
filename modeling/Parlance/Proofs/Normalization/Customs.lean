import Mathlib.Data.List.Basic
import Parlance.Proofs.Normalization.Shape

/-! Custom patterns in normal forms. Any pattern can be copied for a custom one, so what a normal form
has in common with the pattern it is made from is what the pattern has in common with itself once its
custom patterns are exchanged for their copies. -/

namespace Parlance.Pattern

/-- What normalizing makes of a custom pattern for which `copy` gives a normalized copy, or nothing
where it is normal as it is. -/
def again (copy : Custom → Option Custom) (custom : Custom) : Custom := (copy custom).getD custom

/-- Normal forms where custom patterns are copied in any way. -/
def normalizeBy (copy : Custom → Option Custom) : Pattern → Pattern :=
  normalizeWith fun custom _ => copy custom

/-- The copy of a custom pattern when its parts are normalized in the same way. -/
def copyOf (copies : Custom → List Pattern → Option Custom) (custom : Custom) : Option Custom :=
  copies custom (custom.2.map (normalizeWith copies))

def renewedCopy : Custom → Option Custom
  | (reader, parts) =>
      if reader.renewal.renews then some (reader.renewed, parts.map normalize) else none

/-- The pattern with every custom pattern in it changed where it stands. What is within a custom
pattern is its own affair. -/
def mapCustoms (change : Custom → Custom) : Pattern → Pattern
  | .token kind role => .token kind role
  | .rule name => .rule name
  | .sequence terms => .sequence (mapAllCustoms change terms)
  | .choice alternatives => .choice (mapAllCustoms change alternatives)
  | .repetition body none allowEmpty => .repetition (mapCustoms change body) none allowEmpty
  | .repetition body (some separator) allowEmpty =>
      .repetition (mapCustoms change body) (some (mapCustoms change separator)) allowEmpty
  | .ignore term => .ignore (mapCustoms change term)
  | .filter term action arity => .filter (mapCustoms change term) action arity
  | .custom reader parts => ofCustom (change (reader, parts))
  | .empty => .empty
where
  mapAllCustoms (change : Custom → Custom) : List Pattern → List Pattern
    | [] => []
    | term :: rest => mapCustoms change term :: mapAllCustoms change rest

/-- The custom patterns in a pattern, but for those within others. -/
def customs : Pattern → List Custom
  | .token .. | .rule _ | .empty => []
  | .sequence terms => allCustoms terms
  | .choice alternatives => allCustoms alternatives
  | .repetition body none _ => customs body
  | .repetition body (some separator) _ => customs body ++ customs separator
  | .ignore term | .filter term .. => customs term
  | .custom reader parts => [(reader, parts)]
where
  allCustoms : List Pattern → List Custom
    | [] => []
    | term :: rest => customs term ++ allCustoms rest

section

variable (change : Custom → Custom)

theorem mapAllCustoms_eq_map (terms : List Pattern) :
    mapCustoms.mapAllCustoms change terms = terms.map (mapCustoms change) := by
  induction terms with
  | nil => rfl
  | cons term rest ih => simp [mapCustoms.mapAllCustoms, ih]

theorem mapCustoms_sequence (terms : List Pattern) :
    mapCustoms change (.sequence terms) = .sequence (terms.map (mapCustoms change)) :=
  congrArg Pattern.sequence (mapAllCustoms_eq_map change terms)

theorem mapCustoms_choice (alternatives : List Pattern) :
    mapCustoms change (.choice alternatives) = .choice (alternatives.map (mapCustoms change)) :=
  congrArg Pattern.choice (mapAllCustoms_eq_map change alternatives)

theorem mapCustoms_repetition (body : Pattern) (separator : Option Pattern) (allowEmpty : Bool) :
    mapCustoms change (.repetition body separator allowEmpty) =
      .repetition (mapCustoms change body) (separator.map (mapCustoms change)) allowEmpty := by
  cases separator <;> rfl

theorem allCustoms_eq_flatMap (terms : List Pattern) :
    customs.allCustoms terms = terms.flatMap customs := by
  induction terms with
  | nil => rfl
  | cons term rest ih => simp [customs.allCustoms, ih]

theorem customs_sequence (terms : List Pattern) :
    customs (.sequence terms) = terms.flatMap customs := allCustoms_eq_flatMap terms

theorem customs_choice (alternatives : List Pattern) :
    customs (.choice alternatives) = alternatives.flatMap customs :=
  allCustoms_eq_flatMap alternatives

theorem customs_repetition (body : Pattern) (separator : Option Pattern) (allowEmpty : Bool) :
    customs (.repetition body separator allowEmpty) =
      customs body ++ separator.elim [] customs := by
  cases separator with
  | none => rw [Option.elim, List.append_nil, customs]
  | some separator => rfl

end

theorem customs_induction {kind : Custom → Prop} {motive : Pattern → Prop} (pattern : Pattern)
    (each : ∀ custom ∈ pattern.customs, kind custom)
    (token : ∀ kind role, motive (.token kind role)) (rule : ∀ name, motive (.rule name))
    (sequence : ∀ terms, (∀ term ∈ terms, motive term) → motive (.sequence terms))
    (choice : ∀ alternatives, (∀ alternative ∈ alternatives, motive alternative) →
      motive (.choice alternatives))
    (repetition : ∀ body separator allowEmpty, motive body →
      (∀ pattern, separator = some pattern → motive pattern) →
      motive (.repetition body separator allowEmpty))
    (ignore : ∀ term, motive term → motive (.ignore term))
    (filter : ∀ term action arity, motive term → motive (.filter term action arity))
    (custom : ∀ reader parts, kind (reader, parts) → motive (.custom reader parts))
    (empty : motive .empty) : motive pattern := by
  induction pattern using parts_induction with
  | token => exact token _ _
  | rule => exact rule _
  | empty => exact empty
  | sequence terms ih =>
      rw [customs_sequence, List.forall_mem_flatMap] at each
      exact sequence _ fun term member => ih term member (each term member)
  | choice alternatives ih =>
      rw [customs_choice, List.forall_mem_flatMap] at each
      exact choice _ fun alternative member => ih alternative member (each alternative member)
  | repetition body separator allowEmpty ih ihSeparator =>
      rw [customs_repetition, List.forall_mem_append] at each
      refine repetition _ _ _ (ih each.1) fun separator same => ihSeparator separator same ?_
      rw [same] at each
      exact each.2
  | ignore term ih => exact ignore _ (ih each)
  | filter term action arity ih => exact filter _ _ _ (ih each)
  | custom reader parts => exact custom _ _ (each _ (List.mem_singleton_self _))

theorem mem_walk_of_mem_customs {pattern : Pattern} {custom : Custom}
    (member : custom ∈ pattern.customs) : ofCustom custom ∈ pattern.walk := by
  induction pattern using parts_induction with
  | token | rule | empty => cases member
  | sequence terms ih =>
      rw [customs_sequence] at member
      obtain ⟨term, listed, within⟩ := List.mem_flatMap.mp member
      rw [walk_sequence]
      exact List.mem_cons_of_mem _ (List.mem_flatMap.mpr ⟨term, listed, ih term listed within⟩)
  | choice alternatives ih =>
      rw [customs_choice] at member
      obtain ⟨alternative, listed, within⟩ := List.mem_flatMap.mp member
      rw [walk_choice]
      exact List.mem_cons_of_mem _
        (List.mem_flatMap.mpr ⟨alternative, listed, ih alternative listed within⟩)
  | repetition body separator allowEmpty ih ihSeparator =>
      rw [customs_repetition] at member
      rw [walk_repetition]
      refine List.mem_cons_of_mem _ (List.mem_append.mpr ((List.mem_append.mp member).imp ih ?_))
      cases separator with
      | none => exact nofun
      | some separator => exact ihSeparator separator rfl
  | ignore term ih | filter term _ _ ih => exact List.mem_cons_of_mem _ (ih member)
  | custom reader parts =>
      obtain rfl := List.mem_singleton.mp member
      rw [walk_custom]
      exact List.mem_cons_self

/-- Induction on how custom patterns are nested: what holds of a pattern if it holds of the parts of its
custom patterns holds of all. -/
theorem nested_induction {motive : Pattern → Prop}
    (step : ∀ pattern, (∀ custom ∈ pattern.customs, ∀ part ∈ custom.2, motive part) →
      motive pattern) (pattern : Pattern) : motive pattern := by
  apply step
  have among {terms : List Pattern}
      (ih : ∀ term ∈ terms, ∀ custom ∈ term.customs, ∀ part ∈ custom.2, motive part) :
      ∀ custom ∈ terms.flatMap customs, ∀ part ∈ custom.2, motive part :=
    List.forall_mem_flatMap.mpr ih
  induction pattern using parts_induction with
  | token | rule | empty => exact nofun
  | sequence terms ih => exact customs_sequence terms ▸ among ih
  | choice alternatives ih => exact customs_choice alternatives ▸ among ih
  | repetition body separator allowEmpty ih ihSeparator =>
      rw [customs_repetition, List.forall_mem_append]
      refine ⟨ih, ?_⟩
      cases separator with
      | none => exact nofun
      | some separator => exact ihSeparator separator rfl
  | ignore term ih | filter term _ _ ih => exact ih
  | custom reader parts ih =>
      rintro custom member part within
      obtain rfl := List.mem_singleton.mp member
      exact step part (ih part within)

section

variable {copies : Custom → List Pattern → Option Custom} {change : Custom → Custom}
  {pattern : Pattern}

theorem normalizeWith_ofCustom (copies : Custom → List Pattern → Option Custom) (custom : Custom) :
    normalizeWith copies (ofCustom custom) = ofCustom (again (copyOf copies) custom) :=
  normalizeWith_custom copies custom.1 custom.2

theorem normalizeBy_copyOf (copies : Custom → List Pattern → Option Custom) (pattern : Pattern) :
    pattern.normalizeBy (copyOf copies) = pattern.normalizeWith copies := by
  unfold normalizeBy
  induction pattern using parts_induction with
  | token | rule | empty => rfl
  | sequence terms ih =>
      rw [normalizeWith_sequence, normalizeWith_sequence, List.map_congr_left ih]
  | choice alternatives ih =>
      rw [normalizeWith_choice, normalizeWith_choice, List.map_congr_left ih]
  | repetition body separator allowEmpty ih ihSeparator =>
      rw [normalizeWith_repetition, normalizeWith_repetition, ih]
      cases separator with
      | none => rfl
      | some separator => rw [Option.map_some, Option.map_some, ihSeparator separator rfl]
  | ignore term ih => rw [normalizeWith, normalizeWith, ih]
  | filter term action arity ih => rw [normalizeWith, normalizeWith, ih]
  | custom reader parts => rw [normalizeWith_custom, normalizeWith_custom]; rfl

theorem normalizeBy_renewedCopy (pattern : Pattern) :
    pattern.normalizeBy renewedCopy = pattern.normalize :=
  normalizeBy_copyOf renew pattern

theorem mem_flatMap_congr {met : Pattern} {terms : List Pattern} {first second : Pattern → List Pattern}
    (same : ∀ term ∈ terms, met ∈ first term ↔ met ∈ second term) :
    met ∈ terms.flatMap first ↔ met ∈ terms.flatMap second := by
  simp only [List.mem_flatMap]
  exact exists_congr fun term => and_congr_right (same term)

/-- A sequence keeps the value of both or of neither, and both yield as many values. -/
structure YieldAlike (first second : Pattern) : Prop where
  usesValue : first.usesValue = second.usesValue
  arity : first.arity = second.arity

/-- Both refer to the same tokens and to the same rules. -/
structure ReferAlike (first second : Pattern) : Prop where
  tokens : ∀ token, token ∈ first.tokens ↔ token ∈ second.tokens
  ruleNames : ∀ name, name ∈ first.ruleNames ↔ name ∈ second.ruleNames

theorem ReferAlike.refl (pattern : Pattern) : pattern.ReferAlike pattern :=
  ⟨fun _ => .rfl, fun _ => .rfl⟩

theorem ReferAlike.trans {first second third : Pattern} (alike : first.ReferAlike second)
    (alikeToo : second.ReferAlike third) : first.ReferAlike third :=
  ⟨fun token => (alike.tokens token).trans (alikeToo.tokens token),
    fun name => (alike.ruleNames name).trans (alikeToo.ruleNames name)⟩

theorem any_usesValue_map {terms : List Pattern} {change : Pattern → Pattern}
    (same : ∀ term ∈ terms, (change term).usesValue = term.usesValue) :
    (terms.map change).any usesValue = terms.any usesValue := by
  induction terms with
  | nil => rfl
  | cons term rest ih =>
      simp only [List.map_cons, List.any_cons]
      rw [same term (by simp), ih fun other member => same other (by simp [member])]

theorem yieldAlike_normalizeWith (pattern : Pattern)
    (kept : ∀ custom ∈ pattern.customs,
      (ofCustom (again (copyOf copies) custom)).YieldAlike (ofCustom custom)) :
    (pattern.normalizeWith copies).YieldAlike pattern := by
  apply customs_induction pattern kept
  case token => exact fun _ _ => ⟨rfl, rfl⟩
  case rule => exact fun _ => ⟨rfl, rfl⟩
  case empty => exact ⟨rfl, rfl⟩
  case sequence =>
    intro terms ih
    have uses (term : Pattern) (member : term ∈ terms) := (ih term member).usesValue
    rw [normalizeWith_sequence]
    constructor
    · rw [usesValue_tightSequence, usesValue_sequence, any_usesValue_map uses]
    · rw [arity_tightSequence, arity, List.filter_map, List.length_map]
      exact congrArg List.length (List.filter_congr uses)
  case choice =>
    intro alternatives ih
    rw [normalizeWith_choice]
    constructor
    · rw [usesValue_tightChoice, usesValue_choice,
        any_usesValue_map fun alternative member => (ih alternative member).usesValue]
    · rw [arity_tightChoice, arity_choice, List.map_map]
      exact congrArg commonArity (List.map_congr_left fun alternative member =>
        (ih alternative member).arity)
  case repetition =>
    intro body separator allowEmpty _ _
    rw [normalizeWith_repetition]
    exact ⟨rfl, rfl⟩
  case ignore =>
    intro term _
    rw [normalizeWith]
    exact ⟨usesValue_tightIgnore _, arity_tightIgnore _⟩
  case filter => exact fun _ _ _ _ => ⟨rfl, rfl⟩
  case custom =>
    intro reader parts kept
    rw [normalizeWith_custom]
    exact kept

theorem yieldAlike_normalize (pattern : Pattern) : pattern.normalize.YieldAlike pattern := by
  refine yieldAlike_normalizeWith pattern fun custom _ => ?_
  simp only [again, copyOf, renew]
  split <;> exact ⟨rfl, rfl⟩

section References

variable {reference : Pattern} (refers : reference.isReference = true)

include refers

/-- A normal form refers to what its pattern does when custom patterns are exchanged for their copies. -/
theorem mem_walk_normalizeWith (pattern : Pattern) :
    reference ∈ (pattern.normalizeWith copies).walk ↔
      reference ∈ (pattern.mapCustoms (again (copyOf copies))).walk := by
  induction pattern using parts_induction with
  | token | rule | empty => rfl
  | sequence terms ih =>
      rw [normalizeWith_sequence, mem_walk_tightSequence refers, mapCustoms_sequence, walk_sequence,
        mem_cons_composite refers rfl, List.flatMap_map, List.flatMap_map, mem_flatMap_congr ih]
  | choice alternatives ih =>
      rw [normalizeWith_choice, mem_walk_tightChoice refers, mapCustoms_choice, walk_choice,
        mem_cons_composite refers rfl, List.flatMap_map, List.flatMap_map, mem_flatMap_congr ih]
  | repetition body separator allowEmpty ihBody ihSeparator =>
      rw [normalizeWith_repetition, mapCustoms_repetition, walk_repetition, walk_repetition,
        mem_cons_composite refers rfl, mem_cons_composite refers rfl, List.mem_append,
        List.mem_append, ihBody]
      cases separator with
      | none => rfl
      | some separator => exact or_congr_right (ihSeparator separator rfl)
  | ignore term ih =>
      rw [normalizeWith, mem_walk_tightIgnore refers, ih, mapCustoms, walk,
        mem_cons_composite refers rfl]
  | filter term action arity ih =>
      rw [normalizeWith, mapCustoms, walk, walk, mem_cons_composite refers rfl,
        mem_cons_composite refers rfl, ih]
  | custom reader parts => rw [normalizeWith_custom]; rfl

theorem mem_walk_mapCustoms (pattern : Pattern)
    (kept : ∀ custom ∈ pattern.customs,
      (reference ∈ (ofCustom (change custom)).walk ↔ reference ∈ (ofCustom custom).walk)) :
    reference ∈ (pattern.mapCustoms change).walk ↔ reference ∈ pattern.walk := by
  apply customs_induction pattern kept
  case token => exact fun _ _ => .rfl
  case rule => exact fun _ => .rfl
  case empty => exact .rfl
  case sequence =>
    intro terms ih
    rw [mapCustoms_sequence, walk_sequence, walk_sequence, mem_cons_composite refers rfl,
      mem_cons_composite refers rfl, List.flatMap_map, mem_flatMap_congr ih]
  case choice =>
    intro alternatives ih
    rw [mapCustoms_choice, walk_choice, walk_choice, mem_cons_composite refers rfl,
      mem_cons_composite refers rfl, List.flatMap_map, mem_flatMap_congr ih]
  case repetition =>
    intro body separator allowEmpty ihBody ihSeparator
    rw [mapCustoms_repetition, walk_repetition, walk_repetition, mem_cons_composite refers rfl,
      mem_cons_composite refers rfl, List.mem_append, List.mem_append, ihBody]
    cases separator with
    | none => rfl
    | some separator => exact or_congr_right (ihSeparator separator rfl)
  case ignore =>
    intro term ih
    rw [mapCustoms, walk, walk, mem_cons_composite refers rfl, mem_cons_composite refers rfl, ih]
  case filter =>
    intro term action arity ih
    rw [mapCustoms, walk, walk, mem_cons_composite refers rfl, mem_cons_composite refers rfl, ih]
  case custom => exact fun _ _ kept => kept

theorem mem_walk_normalize (pattern : Pattern) :
    reference ∈ pattern.normalize.walk ↔ reference ∈ pattern.walk := by
  induction pattern using nested_induction with
  | step pattern ih =>
      refine (mem_walk_normalizeWith refers pattern).trans (mem_walk_mapCustoms refers pattern ?_)
      rintro ⟨reader, parts⟩ member
      simp only [again, copyOf, renew]
      split
      · rw [Option.getD_some, ofCustom, ofCustom, walk_custom, walk_custom,
          mem_cons_composite refers rfl, mem_cons_composite refers rfl, List.flatMap_map]
        exact mem_flatMap_congr (ih _ member)
      · rfl

end References

theorem referAlike_iff {first second : Pattern} :
    first.ReferAlike second ↔ ∀ reference : Pattern, reference.isReference = true →
      (reference ∈ first.walk ↔ reference ∈ second.walk) := by
  constructor
  · intro alike reference refers
    cases reference with
    | token kind role =>
        rw [← mem_tokens_iff_mem_walk, ← mem_tokens_iff_mem_walk]
        exact alike.tokens _
    | rule name =>
        rw [← mem_ruleNames_iff_mem_walk, ← mem_ruleNames_iff_mem_walk]
        exact alike.ruleNames _
    | sequence | choice | repetition | ignore | filter | custom | empty => cases refers
  · intro same
    refine ⟨fun token => ?_, fun name => ?_⟩
    · rw [mem_tokens_iff_mem_walk, mem_tokens_iff_mem_walk]
      exact same _ rfl
    · rw [mem_ruleNames_iff_mem_walk, mem_ruleNames_iff_mem_walk]
      exact same _ rfl

theorem referAlike_normalize (pattern : Pattern) : pattern.normalize.ReferAlike pattern :=
  referAlike_iff.mpr fun _ refers => mem_walk_normalize refers pattern

end

end Parlance.Pattern
