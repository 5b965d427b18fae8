import Parlance.Pattern.Normal
import Parlance.Pattern.Walk

/-! What normalizing keeps of the shape of a pattern: whether it has a value to use, how many values
it yields, and the tokens and rules it refers to. -/

namespace Parlance.Pattern

/-- Structural induction in which the parts of a pattern are met as members of a list. -/
@[elab_as_elim]
theorem parts_induction {motive : Pattern → Prop} (token : ∀ kind role, motive (.token kind role))
    (rule : ∀ name, motive (.rule name))
    (sequence : ∀ terms, (∀ term ∈ terms, motive term) → motive (.sequence terms))
    (choice : ∀ alternatives, (∀ alternative ∈ alternatives, motive alternative) →
      motive (.choice alternatives))
    (repetition : ∀ body separator allowEmpty, motive body →
      (∀ pattern, separator = some pattern → motive pattern) →
      motive (.repetition body separator allowEmpty))
    (ignore : ∀ term, motive term → motive (.ignore term))
    (filter : ∀ term action arity, motive term → motive (.filter term action arity))
    (custom : ∀ reader parts, (∀ part ∈ parts, motive part) → motive (.custom reader parts))
    (empty : motive .empty) : ∀ pattern, motive pattern
  | .token kind role => token kind role
  | .rule name => rule name
  | .sequence terms => sequence terms fun term _ =>
      parts_induction token rule sequence choice repetition ignore filter custom empty term
  | .choice alternatives => choice alternatives fun alternative _ =>
      parts_induction token rule sequence choice repetition ignore filter custom empty alternative
  | .repetition body none allowEmpty => repetition body none allowEmpty
      (parts_induction token rule sequence choice repetition ignore filter custom empty body)
      fun _ absent => nomatch absent
  | .repetition body (some separator) allowEmpty => repetition body (some separator) allowEmpty
      (parts_induction token rule sequence choice repetition ignore filter custom empty body)
      fun _ same => Option.some.inj same ▸
        parts_induction token rule sequence choice repetition ignore filter custom empty separator
  | .ignore term => ignore term
      (parts_induction token rule sequence choice repetition ignore filter custom empty term)
  | .filter term action arity => filter term action arity
      (parts_induction token rule sequence choice repetition ignore filter custom empty term)
  | .custom reader parts => custom reader parts fun part _ =>
      parts_induction token rule sequence choice repetition ignore filter custom empty part
  | .empty => empty

section

variable (copies : Custom → List Pattern → Option Custom)

theorem normalizeAll_eq_map (terms : List Pattern) :
    normalizeWith.normalizeAll copies terms = terms.map (normalizeWith copies) := by
  induction terms with
  | nil => rfl
  | cons term rest ih => simp [normalizeWith.normalizeAll, ih]

theorem normalizeWith_sequence (terms : List Pattern) :
    normalizeWith copies (.sequence terms) = tightSequence (terms.map (normalizeWith copies)) :=
  congrArg tightSequence (normalizeAll_eq_map copies terms)

theorem normalizeWith_choice (alternatives : List Pattern) :
    normalizeWith copies (.choice alternatives) =
      tightChoice (alternatives.map (normalizeWith copies)) :=
  congrArg tightChoice (normalizeAll_eq_map copies alternatives)

theorem normalizeWith_repetition (body : Pattern) (separator : Option Pattern)
    (allowEmpty : Bool) :
    normalizeWith copies (.repetition body separator allowEmpty) =
      .repetition (normalizeWith copies body) (separator.map (normalizeWith copies)) allowEmpty := by
  cases separator <;> rfl

theorem normalizeWith_custom (reader : Reader) (parts : List Pattern) :
    normalizeWith copies (.custom reader parts) =
      ofCustom ((copies (reader, parts) (parts.map (normalizeWith copies))).getD (reader, parts)) := by
  rw [← normalizeAll_eq_map]
  rfl

end

theorem usesValue_sequence (terms : List Pattern) :
    usesValue (.sequence terms) = terms.any usesValue := anyUsesValue_eq_any terms

theorem usesValue_choice (alternatives : List Pattern) :
    usesValue (.choice alternatives) = alternatives.any usesValue :=
  anyUsesValue_eq_any alternatives

theorem arity_choice (alternatives : List Pattern) :
    arity (.choice alternatives) = commonArity (alternatives.map arity) :=
  congrArg commonArity (arities_eq_map alternatives)

/-- An empty pattern has no value, so leaving it out of a sequence leaves out nothing. -/
theorem usesValue_of_isEmpty {pattern : Pattern} (empty : pattern.isEmpty = true) :
    pattern.usesValue = false := by
  cases pattern with
  | empty => rfl
  | token | rule | sequence | choice | repetition | ignore | filter | custom => cases empty

theorem filter_usesValue_kept (terms : List Pattern) :
    (terms.filter (!isEmpty ·)).filter usesValue = terms.filter usesValue := by
  rw [List.filter_filter]
  apply List.filter_congr
  intro term _
  cases empty : term.isEmpty with
  | false => simp
  | true => simp [usesValue_of_isEmpty empty]

theorem tightSequence_eq (terms : List Pattern) :
    (∃ kept, terms.filter (!isEmpty ·) = kept ∧ kept ≠ [] ∧ tightSequence terms = .sequence kept) ∨
      terms.filter (!isEmpty ·) = [] ∧ tightSequence terms = .empty := by
  unfold tightSequence
  cases kept : terms.filter (!isEmpty ·) with
  | nil => exact .inr ⟨rfl, rfl⟩
  | cons term rest => exact .inl ⟨_, rfl, List.cons_ne_nil _ _, rfl⟩

theorem any_usesValue_kept (terms : List Pattern) :
    (terms.filter (!isEmpty ·)).any usesValue = terms.any usesValue := by
  rw [List.any_filter]
  congr 1
  funext term
  cases empty : term.isEmpty with
  | false => simp
  | true => simp [usesValue_of_isEmpty empty]

theorem usesValue_tightSequence (terms : List Pattern) :
    (tightSequence terms).usesValue = terms.any usesValue := by
  rw [← any_usesValue_kept terms]
  rcases tightSequence_eq terms with ⟨kept, rfl, -, same⟩ | ⟨none, same⟩
  · rw [same, usesValue_sequence]
  · rw [same, none]; rfl

theorem arity_tightSequence (terms : List Pattern) :
    (tightSequence terms).arity = (terms.filter usesValue).length := by
  rw [← filter_usesValue_kept terms]
  rcases tightSequence_eq terms with ⟨kept, rfl, -, same⟩ | ⟨none, same⟩
  · rw [same, arity]
  · rw [same, none]; rfl

theorem usesValue_tightChoice (alternatives : List Pattern) :
    (tightChoice alternatives).usesValue = alternatives.any usesValue := by
  unfold tightChoice
  split
  · simp
  · exact usesValue_choice _

theorem arity_tightChoice (alternatives : List Pattern) :
    (tightChoice alternatives).arity = commonArity (alternatives.map arity) := by
  unfold tightChoice
  split
  · simp [commonArity]
  · exact arity_choice _

theorem usesValue_tightIgnore (term : Pattern) : (tightIgnore term).usesValue = false := by
  cases term <;> rfl

theorem arity_tightIgnore (term : Pattern) : (tightIgnore term).arity = 0 := by
  cases term <;> rfl

def isReference : Pattern → Bool
  | .token .. | .rule _ => true
  | _ => false

theorem walk_sequence (terms : List Pattern) :
    walk (.sequence terms) = .sequence terms :: terms.flatMap walk :=
  congrArg (List.cons (Pattern.sequence terms)) (walkAll_eq_flatMap terms)

theorem walk_choice (alternatives : List Pattern) :
    walk (.choice alternatives) = .choice alternatives :: alternatives.flatMap walk :=
  congrArg (List.cons (Pattern.choice alternatives)) (walkAll_eq_flatMap alternatives)

theorem walk_custom (reader : Reader) (parts : List Pattern) :
    walk (.custom reader parts) = .custom reader parts :: parts.flatMap walk :=
  congrArg (List.cons (Pattern.custom reader parts)) (walkAll_eq_flatMap parts)

theorem walk_repetition (body : Pattern) (separator : Option Pattern) (allowEmpty : Bool) :
    walk (.repetition body separator allowEmpty) =
      .repetition body separator allowEmpty :: (walk body ++ separator.elim [] walk) := by
  cases separator with
  | none => simp [walk]
  | some separator => rfl

theorem ruleNames_subset {whole part : Pattern} (within : part.walk ⊆ whole.walk) :
    part.ruleNames ⊆ whole.ruleNames := by
  intro name member
  obtain ⟨met, here, same⟩ := List.mem_filterMap.mp member
  exact List.mem_filterMap.mpr ⟨met, within here, same⟩

theorem walk_subset_of_mem {whole inner : Pattern} (member : inner ∈ whole.walk) :
    inner.walk ⊆ whole.walk := by
  have among {parts : List Pattern}
      (ih : ∀ part ∈ parts, inner ∈ part.walk → inner.walk ⊆ part.walk)
      (member : inner ∈ parts.flatMap walk) : inner.walk ⊆ parts.flatMap walk := by
    obtain ⟨part, listed, here⟩ := List.mem_flatMap.mp member
    exact fun _ deeper => List.mem_flatMap.mpr ⟨part, listed, ih part listed here deeper⟩
  -- At the top there is nothing to show; below it the walk goes through the parts.
  have below {whole : Pattern} {rest : List Pattern} (met : whole.walk = whole :: rest)
      (ih : inner ∈ rest → inner.walk ⊆ rest) (member : inner ∈ whole.walk) :
      inner.walk ⊆ whole.walk := by
    rw [met] at member ⊢
    rcases List.mem_cons.mp member with rfl | member
    · rw [met]
      exact List.Subset.refl _
    · exact List.Subset.trans (ih member) (List.subset_cons_self _ _)
  induction whole using parts_induction with
  | token | rule | empty => exact below rfl nofun member
  | sequence terms ih => exact below (walk_sequence terms) (among ih) member
  | choice alternatives ih => exact below (walk_choice alternatives) (among ih) member
  | custom reader parts ih => exact below (walk_custom reader parts) (among ih) member
  | ignore term ih | filter term _ _ ih => exact below rfl ih member
  | repetition body separator allowEmpty ihBody ihSeparator =>
      refine below (walk_repetition body separator allowEmpty) (fun member => ?_) member
      rcases List.mem_append.mp member with member | member
      · exact List.subset_append_of_subset_left _ (ihBody member)
      · cases separator with
        | none => cases member
        | some separator =>
            exact List.subset_append_of_subset_right _ (ihSeparator separator rfl member)

section References

variable {reference : Pattern} (refers : reference.isReference = true)

include refers

theorem mem_cons_composite {whole : Pattern} (composite : whole.isReference = false)
    (below : List Pattern) : reference ∈ whole :: below ↔ reference ∈ below := by
  refine ⟨fun member => (List.mem_cons.mp member).resolve_left ?_, List.mem_cons_of_mem _⟩
  rintro rfl
  simp [refers] at composite

theorem mem_flatMap_kept (terms : List Pattern) :
    reference ∈ (terms.filter (!isEmpty ·)).flatMap walk ↔ reference ∈ terms.flatMap walk := by
  simp only [List.mem_flatMap, List.mem_filter]
  refine exists_congr fun term => ⟨fun h => ⟨h.1.1, h.2⟩, fun h => ⟨⟨h.1, ?_⟩, h.2⟩⟩
  cases term with
  | empty => exact absurd ((mem_cons_composite refers rfl []).mp h.2) (List.not_mem_nil)
  | token | rule | sequence | choice | repetition | ignore | filter | custom => rfl

theorem mem_walk_tightSequence (terms : List Pattern) :
    reference ∈ (tightSequence terms).walk ↔ reference ∈ terms.flatMap walk := by
  rw [← mem_flatMap_kept refers]
  rcases tightSequence_eq terms with ⟨kept, rfl, -, same⟩ | ⟨none, same⟩
  · rw [same, walk_sequence, mem_cons_composite refers rfl]
  · rw [same, none, walk, mem_cons_composite refers rfl, List.flatMap_nil]

theorem mem_walk_tightChoice (alternatives : List Pattern) :
    reference ∈ (tightChoice alternatives).walk ↔ reference ∈ alternatives.flatMap walk := by
  unfold tightChoice
  split
  · simp
  · rw [walk_choice, mem_cons_composite refers rfl]

theorem mem_walk_tightIgnore (term : Pattern) :
    reference ∈ (tightIgnore term).walk ↔ reference ∈ term.walk := by
  unfold tightIgnore
  split
  · rfl
  · rfl
  · rw [walk, mem_cons_composite refers rfl]

end References

theorem mem_tokens_iff_mem_walk {pattern : Pattern} {kind : String} {role : Option Role} :
    (kind, role) ∈ pattern.tokens ↔ .token kind role ∈ pattern.walk := by
  rw [tokens, List.mem_filterMap]
  constructor
  · rintro ⟨met, member, same⟩
    cases met with
    | token => cases same; exact member
    | rule | sequence | choice | repetition | ignore | filter | custom | empty => cases same
  · exact fun member => ⟨_, member, rfl⟩

theorem mem_ruleNames_iff_mem_walk {pattern : Pattern} {name : String} :
    name ∈ pattern.ruleNames ↔ .rule name ∈ pattern.walk := by
  rw [ruleNames, List.mem_filterMap]
  constructor
  · rintro ⟨met, member, same⟩
    cases met with
    | rule => cases same; exact member
    | token | sequence | choice | repetition | ignore | filter | custom | empty => cases same
  · exact fun member => ⟨_, member, rfl⟩

end Parlance.Pattern
