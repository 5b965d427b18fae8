import Parlance.Pattern.Describe
import Parlance.Proofs.Normalization.Customs

/-! Normalizing what has been normalized. What becomes of a custom pattern is up to its reader.
Everything else has its final form after the first time, so that another time changes at most the
custom patterns, each in its place. -/

namespace Parlance.Pattern

/-- The description of a custom pattern, without the word for what it is. -/
def Custom.described : Custom → String
  | (reader, parts) => reader.describe (describe.describeAll parts)

theorem describeAll_eq_map (terms : List Pattern) :
    describe.describeAll terms = terms.map describe := by
  induction terms with
  | nil => rfl
  | cons term rest ih => simp [describe.describeAll, ih]

section Twice

variable {copies : Custom → List Pattern → Option Custom} {change : Custom → Custom}

theorem isEmpty_mapCustoms (pattern : Pattern) :
    (pattern.mapCustoms change).isEmpty = pattern.isEmpty := by
  cases pattern with
  | repetition body separator allowEmpty => rw [mapCustoms_repetition]; rfl
  | token | rule | sequence | choice | ignore | filter | custom | empty => rfl

theorem tightSequence_of_kept {kept : List Pattern} (full : ∀ term ∈ kept, term.isEmpty = false)
    (some : kept ≠ []) : tightSequence kept = .sequence kept := by
  have all : kept.filter (!isEmpty ·) = kept :=
    List.filter_eq_self.mpr fun term member => by rw [full term member]; rfl
  rcases tightSequence_eq kept with ⟨_, same, -, tight⟩ | ⟨none, -⟩
  · rw [tight, ← same, all]
  · exact absurd (all.symm.trans none) some

theorem normalizeWith_tightSequence {terms : List Pattern}
    (settled : ∀ term ∈ terms, term.normalizeWith copies = term.mapCustoms change) :
    (tightSequence terms).normalizeWith copies = (tightSequence terms).mapCustoms change := by
  rcases tightSequence_eq terms with ⟨kept, rfl, some, tight⟩ | ⟨-, tight⟩
  · have keeps : ∀ term ∈ terms.filter (!isEmpty ·), term ∈ terms ∧ term.isEmpty = false :=
      fun term member => by simpa using List.mem_filter.mp member
    have same : (terms.filter (!isEmpty ·)).map (normalizeWith copies) =
        (terms.filter (!isEmpty ·)).map (mapCustoms change) :=
      List.map_congr_left fun term member => settled term (keeps term member).1
    rw [tight, normalizeWith_sequence, mapCustoms_sequence, same]
    refine tightSequence_of_kept (fun changed member => ?_) (by simpa using some)
    obtain ⟨term, listed, rfl⟩ := List.mem_map.mp member
    rw [isEmpty_mapCustoms, (keeps term listed).2]
  · rw [tight]
    rfl

theorem normalizeWith_tightChoice {alternatives : List Pattern}
    (settled : ∀ alternative ∈ alternatives,
      alternative.normalizeWith copies = alternative.mapCustoms change) :
    (tightChoice alternatives).normalizeWith copies = (tightChoice alternatives).mapCustoms change := by
  unfold tightChoice
  split
  next only => exact settled only (List.mem_singleton_self _)
  next several =>
    rw [normalizeWith_choice, mapCustoms_choice, List.map_congr_left settled]
    unfold tightChoice
    split
    next only same =>
      -- A choice of one alternative would have been that alternative.
      obtain ⟨alternative, rfl, -⟩ := List.map_eq_singleton_iff.mp same
      exact absurd rfl (several alternative)
    next => rfl

theorem normalizeWith_tightIgnore {term : Pattern}
    (settled : term.normalizeWith copies = term.mapCustoms change) :
    (tightIgnore term).normalizeWith copies = (tightIgnore term).mapCustoms change := by
  unfold tightIgnore
  split
  next => rfl
  next => exact settled
  next some other =>
    rw [normalizeWith, mapCustoms, settled]
    cases term with
    | empty => exact absurd rfl some
    | ignore inner => exact absurd rfl (other inner)
    | repetition body separator allowEmpty => rw [mapCustoms_repetition]; rfl
    | token | rule | sequence | choice | filter | custom => rfl

/-- What is normal stays as it is but for its custom patterns. -/
theorem normalizeWith_normalizeWith (copies : Custom → List Pattern → Option Custom) (pattern : Pattern) :
    (pattern.normalizeWith copies).normalizeWith copies =
      (pattern.normalizeWith copies).mapCustoms (again (copyOf copies)) := by
  have among {terms : List Pattern}
      (ih : ∀ term ∈ terms, (term.normalizeWith copies).normalizeWith copies =
        (term.normalizeWith copies).mapCustoms (again (copyOf copies))) :
      ∀ normal ∈ terms.map (normalizeWith copies),
        normal.normalizeWith copies = normal.mapCustoms (again (copyOf copies)) := by
    intro normal member
    obtain ⟨term, listed, rfl⟩ := List.mem_map.mp member
    exact ih term listed
  induction pattern using parts_induction with
  | token | rule | empty => rfl
  | custom reader parts =>
      rw [normalizeWith_custom]
      exact normalizeWith_ofCustom ..
  | sequence terms ih =>
      rw [normalizeWith_sequence]
      exact normalizeWith_tightSequence (among ih)
  | choice alternatives ih =>
      rw [normalizeWith_choice]
      exact normalizeWith_tightChoice (among ih)
  | repetition body separator allowEmpty ih ihSeparator =>
      rw [normalizeWith_repetition, normalizeWith_repetition, mapCustoms_repetition, ih]
      cases separator with
      | none => rfl
      | some separator => simp only [Option.map_some, ihSeparator separator rfl]
  | ignore term ih => exact normalizeWith_tightIgnore ih
  | filter term action arity ih =>
      -- The arity is fixed by now, so it is not asked for again.
      simp only [normalizeWith, mapCustoms, ih, Option.getD_some]

end Twice

section Customs

variable {copy : Custom → Option Custom} {change : Custom → Custom}

theorem customs_tightSequence (terms : List Pattern) :
    (tightSequence terms).customs = terms.flatMap customs := by
  have kept : (terms.filter (!isEmpty ·)).flatMap customs = terms.flatMap customs := by
    induction terms with
    | nil => rfl
    | cons term rest ih =>
        rw [List.filter_cons]
        cases term with
        | empty => exact ih
        | token | rule | sequence | choice | repetition | ignore | filter | custom =>
            exact congrArg (customs _ ++ ·) ih
  rw [← kept]
  rcases tightSequence_eq terms with ⟨_, rfl, -, same⟩ | ⟨none, same⟩
  · rw [same, customs_sequence]
  · rw [same, none]
    rfl

theorem customs_tightChoice (alternatives : List Pattern) :
    (tightChoice alternatives).customs = alternatives.flatMap customs := by
  unfold tightChoice
  split
  · rw [List.flatMap_singleton]
  · rw [customs_choice]

theorem customs_tightIgnore (term : Pattern) : (tightIgnore term).customs = term.customs := by
  cases term <;> rfl

theorem customs_normalizeWith (copies : Custom → List Pattern → Option Custom) (pattern : Pattern) :
    (pattern.normalizeWith copies).customs = pattern.customs.map (again (copyOf copies)) := by
  have among {terms : List Pattern}
      (ih : ∀ term ∈ terms, (term.normalizeWith copies).customs = term.customs.map (again (copyOf copies))) :
      (terms.map (normalizeWith copies)).flatMap customs =
        (terms.flatMap customs).map (again (copyOf copies)) := by
    rw [List.flatMap_map, List.map_flatMap]
    exact List.flatMap_congr ih
  induction pattern using parts_induction with
  | token | rule | empty => rfl
  | custom reader parts => rw [normalizeWith_custom]; rfl
  | sequence terms ih =>
      rw [normalizeWith_sequence, customs_tightSequence, customs_sequence, among ih]
  | choice alternatives ih =>
      rw [normalizeWith_choice, customs_tightChoice, customs_choice, among ih]
  | repetition body separator allowEmpty ih ihSeparator =>
      rw [normalizeWith_repetition, customs_repetition, customs_repetition, List.map_append, ih]
      cases separator with
      | none => rfl
      | some separator => exact congrArg (_ ++ ·) (ihSeparator separator rfl)
  | ignore term ih => rw [normalizeWith, customs_tightIgnore, ih, customs]
  | filter term action arity ih => rw [normalizeWith, customs, ih, customs]

theorem mapCustoms_eq_self (pattern : Pattern)
    (fixed : ∀ custom ∈ pattern.customs, change custom = custom) :
    pattern.mapCustoms change = pattern := by
  apply customs_induction pattern fixed
  case token => exact fun _ _ => rfl
  case rule => exact fun _ => rfl
  case empty => exact rfl
  case sequence =>
    intro terms ih
    rw [mapCustoms_sequence, List.map_congr_left ih, List.map_id']
  case choice =>
    intro alternatives ih
    rw [mapCustoms_choice, List.map_congr_left ih, List.map_id']
  case repetition =>
    intro body separator allowEmpty ih ihSeparator
    rw [mapCustoms_repetition, ih]
    cases separator with
    | none => rfl
    | some separator => rw [Option.map_some, ihSeparator separator rfl]
  case ignore => intro term ih; rw [mapCustoms, ih]
  case filter => intro term action arity ih; rw [mapCustoms, ih]
  case custom => intro reader parts fixed; rw [mapCustoms, fixed, ofCustom]

theorem describe_mapCustoms (pattern : Pattern)
    (alike : ∀ custom ∈ pattern.customs, (change custom).described = custom.described) :
    (pattern.mapCustoms change).describe = pattern.describe := by
  have among {terms : List Pattern}
      (ih : ∀ term ∈ terms, (term.mapCustoms change).describe = term.describe) :
      describe.describeAll (terms.map (mapCustoms change)) = describe.describeAll terms := by
    rw [describeAll_eq_map, describeAll_eq_map, List.map_map]
    exact List.map_congr_left ih
  apply customs_induction pattern alike
  case token => exact fun _ _ => rfl
  case rule => exact fun _ => rfl
  case empty => exact rfl
  case sequence =>
    intro terms ih
    rw [mapCustoms_sequence, describe, describe, among ih]
  case choice =>
    intro alternatives ih
    rw [mapCustoms_choice, describe, describe, among ih]
  case repetition =>
    intro body separator allowEmpty ih ihSeparator
    rw [mapCustoms_repetition]
    cases separator with
    | none => rw [Option.map_none, describe, describe, ih]
    | some separator =>
        rw [Option.map_some, describe, describe, ih, ihSeparator separator rfl]
  case ignore => intro term ih; rw [mapCustoms, describe, describe, ih]
  case filter => intro term action arity ih; rw [mapCustoms, describe, describe, ih]
  case custom =>
    intro reader parts alike
    have described (custom : Custom) :
        (ofCustom custom).describe = Text.applied "custom" [custom.described] := rfl
    rw [mapCustoms, described, alike]
    rfl

end Customs

theorem same_refl (pattern : Pattern) : pattern.same pattern = true := by
  have among {terms : List Pattern} (ih : ∀ term ∈ terms, term.same term = true) :
      same.sameAll terms terms = true := by
    induction terms with
    | nil => rfl
    | cons term rest ihRest =>
        rw [same.sameAll, ih term List.mem_cons_self,
          ihRest fun other member => ih other (List.mem_cons_of_mem _ member)]
        rfl
  induction pattern using parts_induction with
  | token | rule | empty | custom => simp [same]
  | sequence terms ih => exact among ih
  | choice alternatives ih => exact among ih
  | repetition body separator allowEmpty ih ihSeparator =>
      cases separator with
      | none => simp [same, ih]
      | some separator => simp [same, ih, ihSeparator separator rfl]
  | ignore term ih => exact ih
  | filter term action arity ih =>
      have sameAction : action.same action = true := by cases action <;> simp [Action.same]
      simp [same, ih, sameAction]

/-- Whatever copies readers give of their custom patterns, a pattern that is normalized again stays
as it is but for its custom patterns, of which each is copied again in its place. So it stays the
same where the copies are normal already, and it has the same description where those that are
copied again have. The copies that readers do ask for are of this kind. -/
theorem normalize_idempotent (pattern : Pattern) :
    pattern.normalizeBy renewedCopy = pattern.normalize ∧
    ∀ copy : Custom → Option Custom,
      let once := pattern.normalizeBy copy
      let twice := once.normalizeBy copy
      twice = once.mapCustoms (again copy) ∧
      ((∀ custom ∈ pattern.customs, ∀ normal, copy custom = some normal → copy normal = none) →
        twice.same once = true) ∧
      ((∀ custom ∈ pattern.customs,
          (again copy (again copy custom)).described = (again copy custom).described) →
        twice.describe = once.describe) := by
  refine ⟨normalizeBy_renewedCopy pattern, fun copy => ?_⟩
  intro once twice
  have changed : twice = once.mapCustoms (again copy) :=
    normalizeWith_normalizeWith (fun custom _ => copy custom) pattern
  have copied : once.customs = pattern.customs.map (again copy) :=
    customs_normalizeWith (fun custom _ => copy custom) pattern
  refine ⟨changed, fun contract => ?_, fun alike => ?_⟩
  · -- A copy is not copied again, and what was not copied is not copied now.
    have fixed : ∀ custom ∈ once.customs, again copy custom = custom := by
      intro custom member
      obtain ⟨first, listed, rfl⟩ := List.mem_map.mp (copied ▸ member)
      cases made : copy first with
      | none => simp only [again, made, Option.getD_none]
      | some normal => simp only [again, made, Option.getD_some, contract first listed normal made,
          Option.getD_none]
    rw [changed, mapCustoms_eq_self once fixed]
    exact same_refl once
  · rw [changed]
    refine describe_mapCustoms once fun custom member => ?_
    obtain ⟨first, listed, rfl⟩ := List.mem_map.mp (copied ▸ member)
    exact alike first listed

/-- A choice that leaves nothing in a sequence, an ignored term that a choice hides, and a custom
pattern that is copied as often as its renewal says. -/
def nested (renewal : Renewal) : Pattern :=
  .sequence [.choice [.sequence []], .ignore (.choice [.ignore (.token "a" none)]),
    .custom ⟨⟨1, 0⟩, Text.applied "delegate", .part 0 .settle, 1, true, renewal⟩
      [.choice [.token "b" none]]]

theorem normalize_idempotent_nested :
    (nested .once).normalize.normalize.same (nested .once).normalize = true ∧
    (nested .always).normalize.normalize.same (nested .always).normalize = false ∧
    (nested .always).normalize.normalize.describe = (nested .always).normalize.describe := by
  obtain ⟨-, stays⟩ := normalize_idempotent (nested .once)
  obtain ⟨-, staysToo⟩ := normalize_idempotent (nested .always)
  obtain ⟨-, sameOnce, -⟩ := stays renewedCopy
  obtain ⟨-, -, describedAlike⟩ := staysToo renewedCopy
  simp only [normalizeBy_renewedCopy] at sameOnce describedAlike
  refine ⟨sameOnce fun custom member normal made => ?_, by decide, describedAlike fun custom member => ?_⟩
  · obtain rfl := List.mem_singleton.mp member
    obtain rfl := Option.some.inj made
    rfl
  · obtain rfl := List.mem_singleton.mp member
    rfl

end Parlance.Pattern
