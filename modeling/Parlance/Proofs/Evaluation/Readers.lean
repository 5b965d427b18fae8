import Parlance.Builtin.Terminator
import Parlance.Proofs.Evaluation.BigStep
import Parlance.Proofs.Normalization.Customs

/-! The readers of the custom patterns that a walk meets, and of those that a task may come to run.
-/

namespace Parlance

def Pattern.ReadBy (allowed : Reader → Prop) (pattern : Pattern) : Prop :=
  ∀ reader parts, .custom reader parts ∈ pattern.walk → allowed reader

namespace Pattern.ReadBy

variable {allowed : Reader → Prop}

theorem mono {wider : Reader → Prop} {pattern : Pattern} (read : pattern.ReadBy allowed)
    (widens : ∀ reader, allowed reader → wider reader) : pattern.ReadBy wider :=
  fun reader parts member => widens reader (read reader parts member)

theorem of_subset {whole part : Pattern} (read : whole.ReadBy allowed)
    (within : part.walk ⊆ whole.walk) : part.ReadBy allowed :=
  fun reader parts member => read reader parts (within member)

theorem of_mem {whole part : Pattern} {parts : List Pattern} (read : whole.ReadBy allowed)
    (below : parts.flatMap Pattern.walk ⊆ whole.walk) (member : part ∈ parts) :
    part.ReadBy allowed :=
  read.of_subset fun _ met => below (List.mem_flatMap.mpr ⟨part, member, met⟩)

theorem terms {terms : List Pattern} (read : (Pattern.sequence terms).ReadBy allowed) :
    ∀ term ∈ terms, term.ReadBy allowed :=
  fun _ member => read.of_mem (by simp [walk_sequence]) member

theorem alternatives {alternatives : List Pattern}
    (read : (Pattern.choice alternatives).ReadBy allowed) :
    ∀ alternative ∈ alternatives, alternative.ReadBy allowed :=
  fun _ member => read.of_mem (by simp [walk_choice]) member

theorem repetition {body : Pattern} {separator : Option Pattern} {allowEmpty : Bool}
    (read : (Pattern.repetition body separator allowEmpty).ReadBy allowed) :
    body.ReadBy allowed ∧ (separator.getD .empty).ReadBy allowed := by
  refine ⟨read.of_subset (by simp [walk_repetition]), ?_⟩
  cases separator with
  | none => intro reader parts member; simp [walk] at member
  | some separator => exact read.of_subset (by simp [walk_repetition])

theorem ignored {term : Pattern} (read : (Pattern.ignore term).ReadBy allowed) :
    term.ReadBy allowed := read.of_subset (by simp [walk])

theorem filtered {term : Pattern} {action : Action} {arity : Option Nat}
    (read : (Pattern.filter term action arity).ReadBy allowed) : term.ReadBy allowed :=
  read.of_subset (by simp [walk])

theorem reader {reader : Reader} {parts : List Pattern}
    (read : (Pattern.custom reader parts).ReadBy allowed) : allowed reader :=
  read reader parts (by simp [walk_custom])

theorem parts {reader : Reader} {parts : List Pattern}
    (read : (Pattern.custom reader parts).ReadBy allowed) : ∀ part ∈ parts, part.ReadBy allowed :=
  fun _ member => read.of_mem (by simp [walk_custom]) member

theorem of_below {whole : Pattern} {below : List Pattern} (met : whole.walk = whole :: below)
    (here : ∀ reader parts, whole = .custom reader parts → allowed reader)
    (read : ∀ reader parts, .custom reader parts ∈ below → allowed reader) :
    whole.ReadBy allowed := by
  intro reader parts member
  rw [met] at member
  rcases List.mem_cons.mp member with same | member
  · exact here reader parts same.symm
  · exact read reader parts member

theorem of_parts {whole : Pattern} {parts : List Pattern}
    (met : whole.walk = whole :: parts.flatMap Pattern.walk)
    (here : ∀ reader parts, whole = .custom reader parts → allowed reader)
    (read : ∀ part ∈ parts, part.ReadBy allowed) : whole.ReadBy allowed := by
  refine of_below met here fun reader inner member => ?_
  obtain ⟨part, member, met⟩ := List.mem_flatMap.mp member
  exact read part member reader inner met

theorem of_sequence {terms : List Pattern} (read : ∀ term ∈ terms, term.ReadBy allowed) :
    (Pattern.sequence terms).ReadBy allowed :=
  of_parts (walk_sequence terms) (fun _ _ same => by cases same) read

theorem of_choice {alternatives : List Pattern}
    (read : ∀ alternative ∈ alternatives, alternative.ReadBy allowed) :
    (Pattern.choice alternatives).ReadBy allowed :=
  of_parts (walk_choice alternatives) (fun _ _ same => by cases same) read

theorem of_repetition {body : Pattern} {separator : Option Pattern} {allowEmpty : Bool}
    (read : body.ReadBy allowed) (readToo : ∀ part, separator = some part → part.ReadBy allowed) :
    (Pattern.repetition body separator allowEmpty).ReadBy allowed := by
  refine of_below (walk_repetition ..) (fun _ _ same => by cases same) fun reader parts member => ?_
  rcases List.mem_append.mp member with member | member
  · exact read reader parts member
  · cases separator with
    | none => cases member
    | some separator => exact readToo separator rfl reader parts member

theorem of_ignored {term : Pattern} (read : term.ReadBy allowed) :
    (Pattern.ignore term).ReadBy allowed :=
  of_below rfl (fun _ _ same => by cases same) read

theorem of_filtered {term : Pattern} {action : Action} {arity : Option Nat}
    (read : term.ReadBy allowed) : (Pattern.filter term action arity).ReadBy allowed :=
  of_below rfl (fun _ _ same => by cases same) read

theorem of_custom {reader : Reader} {parts : List Pattern} (here : allowed reader)
    (read : ∀ part ∈ parts, part.ReadBy allowed) : (Pattern.custom reader parts).ReadBy allowed := by
  refine of_parts (walk_custom reader parts) (fun other inner same => ?_) read
  cases same
  exact here

theorem of_rule {name : String} : (Pattern.rule name).ReadBy allowed := by
  intro reader parts member
  cases List.mem_singleton.mp member

theorem of_token {kind : String} {role : Option Role} : (Pattern.token kind role).ReadBy allowed := by
  intro reader parts member
  cases List.mem_singleton.mp member

theorem of_empty : Pattern.empty.ReadBy allowed := by
  intro reader parts member
  cases List.mem_singleton.mp member

theorem normalize (renews : ∀ reader, allowed reader → allowed reader.renewed) {pattern : Pattern}
    (read : pattern.ReadBy allowed) : pattern.normalize.ReadBy allowed := by
  unfold Pattern.normalize
  have all {parts : List Pattern} (each : ∀ part ∈ parts, (part.normalizeWith renew).ReadBy allowed) :
      ∀ part ∈ parts.map (normalizeWith renew), part.ReadBy allowed := by
    intro part member
    obtain ⟨part, here, rfl⟩ := List.mem_map.mp member
    exact each part here
  induction pattern using Pattern.parts_induction with
  | token | rule | empty => exact read
  | sequence terms ih =>
      have each := all fun term member => ih term member (read.terms term member)
      rw [normalizeWith_sequence]
      rcases tightSequence_eq (terms.map (normalizeWith renew)) with
        ⟨kept, rfl, -, same⟩ | ⟨-, same⟩ <;> rw [same]
      · exact of_sequence fun term member => each term (List.mem_filter.mp member).1
      · exact of_empty
  | choice alternatives ih =>
      have each := all fun term member => ih term member (read.alternatives term member)
      rw [normalizeWith_choice]
      unfold tightChoice
      split
      next alternative same => exact each alternative (by simp [same])
      · exact of_choice each
  | repetition body separator allowEmpty ihBody ihSeparator =>
      rw [normalizeWith_repetition]
      refine of_repetition (ihBody read.repetition.1) fun part same => ?_
      obtain ⟨separator, rfl, rfl⟩ := Option.map_eq_some_iff.mp same
      exact ihSeparator separator rfl read.repetition.2
  | ignore term ih =>
      have inner := ih read.ignored
      rw [normalizeWith]
      unfold tightIgnore
      split
      · exact of_empty
      next term same => rwa [same] at inner
      · exact of_ignored inner
  | filter term action arity ih =>
      rw [normalizeWith]
      exact of_filtered (ih read.filtered)
  | custom reader parts ih =>
      rw [normalizeWith_custom, renew]
      split
      · exact of_custom (renews reader read.reader) (all fun part member =>
          ih part member (read.parts part member))
      · exact read

end Pattern.ReadBy

theorem Builtin.Terminator.readBy (serial : Nat) :
    (pattern serial).ReadBy (· = ⟨⟨serial, 0⟩, describe, script, 0, false, .never⟩) := by
  refine .of_custom rfl fun part member => ?_
  simp only [List.mem_cons, List.not_mem_nil, or_false] at member
  rcases member with rfl | rfl <;> exact .of_token

/-- What a task may come to run has readers that are allowed, and a script it runs is obeyed. -/
def Task.ReadBy (allowed : Reader → Prop) (obeyed : Script → Prop) : Task → Prop
  | .pattern whole => whole.ReadBy allowed
  | .terms rest _ => ∀ term ∈ rest, term.ReadBy allowed
  | .alternatives rest => ∀ alternative ∈ rest, alternative.ReadBy allowed
  | .rounds body separator _ => body.ReadBy allowed ∧ (separator.getD .empty).ReadBy allowed
  | .script _ requests => obeyed requests

end Parlance
