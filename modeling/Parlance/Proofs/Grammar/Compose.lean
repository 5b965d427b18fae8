import Parlance.Grammar.Rule
import Parlance.Proofs.Index

/-! What authored and composed rule sets hold under a name. -/

namespace Parlance

namespace RuleSet

open Index (get? names Ascending)

def editing (edits : List RuleEdit) (productions : List Production) : List Production :=
  edits.foldl (fun productions edit => edit.apply productions) productions

theorem get?_author (rules : RuleSet) (name : String) (edits : List RuleEdit) (wanted : String) :
    get? wanted (author name edits rules) =
      if wanted = name then some (editing edits ((get? name rules).getD []))
      else get? wanted rules := by
  unfold author
  split
  next same => rw [same, Index.get?_insert_self]; rfl
  next differs => exact Index.get?_insert_of_ne differs _ _

theorem get?_extend (rules : RuleSet) (name : String) (productions : List Production)
    (wanted : String) :
    get? wanted (extend rules name productions) =
      if wanted = name then some ((get? name rules).getD [] ++ productions)
      else get? wanted rules := by
  unfold extend
  split
  next same => rw [same, Index.get?_insert_self]
  next differs => exact Index.get?_insert_of_ne differs _ _

theorem get?_ofEdits {edits : List (String × List RuleEdit)} (distinct : (names edits).Nodup)
    {name : String} : get? name (ofEdits edits) = (get? name edits).map (editing · []) := by
  have grown (rules : RuleSet) : get? name
      (edits.foldl (fun rules entry => author entry.1 entry.2 rules) rules) =
        match get? name edits with
        | none => get? name rules
        | some written => some (editing written ((get? name rules).getD [])) := by
    induction edits generalizing rules with
    | nil => rfl
    | cons entry rest ih =>
        obtain ⟨absent, distinctRest⟩ := List.nodup_cons.mp distinct
        rw [List.foldl_cons, ih distinctRest, get?_author]
        by_cases same : name = entry.1
        · have none : get? name rest = none := Index.get?_eq_none_iff.mpr (same ▸ absent)
          simp only [get?, none, ← same, if_true]
        · simp only [get?, if_neg same]
  rw [ofEdits, grown]
  cases get? name edits <;> rfl

theorem ascending_ofEdits (edits : List (String × List RuleEdit)) : Ascending (ofEdits edits) := by
  have grown (rules : RuleSet) (ascending : Ascending rules) : Ascending
      (edits.foldl (fun rules entry => author entry.1 entry.2 rules) rules) := by
    induction edits generalizing rules with
    | nil => exact ascending
    | cons entry rest ih => exact ih _ (ascending.insert _ _)
  exact grown [] Index.ascending_nil

theorem get?_append {rules extra : RuleSet} (ascending : Ascending extra) {name : String} :
    get? name (append rules extra) =
      match get? name extra with
      | none => get? name rules
      | some productions => some ((get? name rules).getD [] ++ productions) := by
  unfold append
  induction extra generalizing rules with
  | nil => rfl
  | cons entry rest ih =>
      have ascendingRest : Ascending rest := (List.pairwise_cons.mp ascending).2
      rw [List.foldl_cons, ih ascendingRest, get?_extend]
      by_cases same : name = entry.1
      · simp only [get?, same, ascending.get?_rest, if_true]
      · simp only [get?, if_neg same]

theorem get?_nil_append {rules : RuleSet} (ascending : Ascending rules) (name : String) :
    get? name (append [] rules) = get? name rules := by
  rw [get?_append ascending]
  cases get? name rules <;> rfl

theorem ascending_append {rules extra : RuleSet} (ascending : Ascending rules) :
    Ascending (append rules extra) := by
  unfold append
  induction extra generalizing rules with
  | nil => exact ascending
  | cons entry rest ih => exact ih (ascending.insert _ _)

theorem ascending_compose (members : List RuleSet) : Ascending (compose members) := by
  have grown (rules : RuleSet) (ascending : Ascending rules) :
      Ascending (members.foldl append rules) := by
    induction members generalizing rules with
    | nil => exact ascending
    | cons extra rest ih => exact ih _ (ascending_append ascending)
  exact grown [] Index.ascending_nil

/-- The productions that a rule set lists for a name, in its own order. -/
def productionsFor (name : String) (rules : RuleSet) : List Production :=
  rules.flatMap fun rule => if rule.1 = name then rule.2 else []

theorem productionsFor_cons (name : String) (rule : String × List Production) (rest : RuleSet) :
    productionsFor name (rule :: rest) =
      (if name = rule.1 then rule.2 else []) ++ productionsFor name rest := by
  simp only [productionsFor, List.flatMap_cons, eq_comm]

theorem mem_names_append {rules extra : RuleSet} {name : String} :
    name ∈ names (append rules extra) ↔ name ∈ names rules ∨ name ∈ names extra := by
  unfold append
  induction extra generalizing rules with
  | nil => simp [names]
  | cons rule rest ih =>
      rw [List.foldl_cons, ih, extend, Index.mem_names_insert]
      simp only [names, List.map_cons, List.mem_cons]
      tauto

theorem getD_append (rules extra : RuleSet) (name : String) :
    (get? name (append rules extra)).getD [] =
      (get? name rules).getD [] ++ productionsFor name extra := by
  unfold append
  induction extra generalizing rules with
  | nil => simp [productionsFor]
  | cons rule rest ih =>
      rw [List.foldl_cons, ih, get?_extend, productionsFor_cons]
      by_cases same : name = rule.1
      · rw [if_pos same, if_pos same, Option.getD_some, same, List.append_assoc]
      · rw [if_neg same, if_neg same, List.nil_append]

theorem mem_names_compose {members : List RuleSet} {name : String} :
    name ∈ names (compose members) ↔ ∃ member ∈ members, name ∈ names member := by
  have grown (rules : RuleSet) : name ∈ names (members.foldl append rules) ↔
      name ∈ names rules ∨ ∃ member ∈ members, name ∈ names member := by
    induction members generalizing rules with
    | nil => simp
    | cons extra rest ih =>
        rw [List.foldl_cons, ih, mem_names_append, or_assoc]
        simp only [List.mem_cons, exists_eq_or_imp]
  exact (grown []).trans (or_iff_right List.not_mem_nil)

theorem get?_compose {members : List RuleSet} {name : String} (rule : name ∈ names (compose members)) :
    get? name (compose members) = some (members.flatMap (productionsFor name)) := by
  have grown (rules : RuleSet) : (get? name (members.foldl append rules)).getD [] =
      (get? name rules).getD [] ++ members.flatMap (productionsFor name) := by
    clear rule
    induction members generalizing rules with
    | nil => simp
    | cons extra rest ih =>
        rw [List.foldl_cons, ih, getD_append, List.append_assoc, List.flatMap_cons]
  have listed : (get? name (compose members)).getD [] = members.flatMap (productionsFor name) :=
    grown []
  cases found : get? name (compose members) with
  | none => exact absurd rule (Index.get?_eq_none_iff.mp found)
  | some productions => rw [← listed, found, Option.getD_some]

/-- A composite that comes first among members counts as its own members do. -/
theorem compose_compose (first rest : List RuleSet) :
    compose (compose first :: rest) = compose (first ++ rest) := by
  have same : append [] (compose first) = compose first := by
    apply Ascending.ext (ascending_append Index.ascending_nil) (ascending_compose first)
    exact get?_nil_append (ascending_compose first)
  calc compose (compose first :: rest)
      = rest.foldl append (append [] (compose first)) := rfl
    _ = rest.foldl append (compose first) := by rw [same]
    _ = compose (first ++ rest) := (List.foldl_append ..).symm

end RuleSet

end Parlance
