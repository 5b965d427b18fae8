import Mathlib.Data.String.Basic
import Parlance.Index

/-! Tables in the order of their names, and what they hold under a name. -/

namespace Parlance

namespace Index

variable {α : Type}

/-- No name appears twice, and the names are in order. -/
def Ascending (table : List (String × α)) : Prop := (names table).Pairwise (· < ·)

theorem ascending_nil : Ascending ([] : List (String × α)) := List.Pairwise.nil

theorem mem_names_insert {name wanted : String} {value : α} {table : List (String × α)} :
    wanted ∈ names (insert name value table) ↔ wanted = name ∨ wanted ∈ names table := by
  induction table with
  | nil => simp [insert, names]
  | cons entry rest ih =>
      obtain ⟨other, held⟩ := entry
      simp only [names] at ih
      by_cases same : name = other
      · simp [insert, names, same]
      · by_cases before : name < other
        · simp [insert, names, same, before]
        · simp only [insert, same, before, if_false, names, List.map_cons, List.mem_cons, ih]
          exact or_left_comm

theorem Ascending.insert {table : List (String × α)} (ascending : Ascending table) (name : String)
    (value : α) : Ascending (insert name value table) := by
  induction table with
  | nil => exact List.pairwise_singleton _ _
  | cons entry rest ih =>
      obtain ⟨other, held⟩ := entry
      obtain ⟨later, ascendingRest⟩ := List.pairwise_cons.mp ascending
      by_cases same : name = other
      · subst same
        simp only [Index.insert, if_pos]
        exact List.pairwise_cons.mpr ⟨later, ascendingRest⟩
      · by_cases before : name < other
        · simp only [Index.insert, if_neg same, if_pos before]
          refine List.pairwise_cons.mpr ⟨fun wanted member => ?_, ascending⟩
          rcases List.mem_cons.mp member with rfl | member
          · exact before
          · exact lt_trans before (later wanted member)
        · simp only [Index.insert, if_neg same, if_neg before]
          refine List.pairwise_cons.mpr ⟨fun wanted member => ?_, ih ascendingRest⟩
          rcases mem_names_insert.mp member with rfl | member
          · exact lt_of_le_of_ne (not_lt.mp before) (Ne.symm same)
          · exact later wanted member

theorem get?_eq_none_iff {name : String} {table : List (String × α)} :
    get? name table = none ↔ name ∉ names table := by
  induction table with
  | nil => simp [get?, names]
  | cons entry rest ih =>
      obtain ⟨other, held⟩ := entry
      by_cases same : name = other
      · simp [get?, names, same]
      · simpa [get?, names, same] using ih

theorem mem_names_of_get? {name : String} {table : List (String × α)} {value : α}
    (found : get? name table = some value) : name ∈ names table :=
  List.mem_map.mpr ⟨_, mem_of_get? found, rfl⟩

theorem get?_append (name : String) (table extra : List (String × α)) :
    get? name (table ++ extra) = (get? name table).or (get? name extra) := by
  induction table with
  | nil => rfl
  | cons entry rest ih =>
      obtain ⟨other, held⟩ := entry
      by_cases same : name = other
      · simp [get?, same]
      · simpa [get?, same] using ih

theorem get?_insert (name wanted : String) (value : α) (table : List (String × α)) :
    get? wanted (insert name value table) =
      if wanted = name then some value else get? wanted table := by
  by_cases same : wanted = name
  · rw [if_pos same, same, get?_insert_self]
  · rw [if_neg same, get?_insert_of_ne same]

theorem get?_merge (table : List (String × α)) {extra : List (String × α)}
    (distinct : (names extra).Nodup) (name : String) :
    get? name (merge table extra) = (get? name extra).or (get? name table) := by
  unfold merge
  induction extra generalizing table with
  | nil => rfl
  | cons entry extra ih =>
      obtain ⟨absent, distinctRest⟩ := List.nodup_cons.mp distinct
      rw [List.foldl_cons, ih _ distinctRest, get?_insert, get?]
      by_cases same : name = entry.1
      · have none : get? name extra = none := get?_eq_none_iff.mpr (same ▸ absent)
        rw [none, if_pos same, if_pos same]
        rfl
      · rw [if_neg same, if_neg same]

theorem Ascending.merge {table : List (String × α)} (ascending : Ascending table)
    (extra : List (String × α)) : Ascending (merge table extra) := by
  unfold Index.merge
  induction extra generalizing table with
  | nil => exact ascending
  | cons entry extra ih => exact ih (ascending.insert entry.1 entry.2)

theorem Ascending.nodup {table : List (String × α)} (ascending : Ascending table) :
    (names table).Nodup := List.Pairwise.imp ne_of_lt ascending

theorem Ascending.get?_rest {entry : String × α} {rest : List (String × α)}
    (ascending : Ascending (entry :: rest)) : get? entry.1 rest = none :=
  get?_eq_none_iff.mpr fun member =>
    lt_irrefl entry.1 ((List.pairwise_cons.mp ascending).1 entry.1 member)

/-- Tables in order that hold the same under each name are the same. -/
theorem Ascending.ext {table other : List (String × α)} (ascending : Ascending table)
    (ascendingToo : Ascending other) (same : ∀ name, get? name table = get? name other) :
    table = other := by
  induction table generalizing other with
  | nil =>
      cases other with
      | nil => rfl
      | cons entry rest =>
          have := same entry.1
          simp [get?] at this
  | cons entry rest ih =>
      obtain ⟨name, value⟩ := entry
      cases other with
      | nil =>
          have := same name
          simp [get?] at this
      | cons entryToo restToo =>
          obtain ⟨nameToo, valueToo⟩ := entryToo
          obtain ⟨later, ascendingRest⟩ := List.pairwise_cons.mp ascending
          obtain ⟨laterToo, ascendingRestToo⟩ := List.pairwise_cons.mp ascendingToo
          have equal : name = nameToo := by
            by_contra differ
            have here := same name
            have there := same nameToo
            simp only [get?, if_neg differ, if_neg (Ne.symm differ), if_true] at here there
            have after := laterToo name (mem_names_of_get? here.symm)
            have afterToo := later nameToo (mem_names_of_get? there)
            exact lt_asymm after afterToo
          subst equal
          have sameValue : value = valueToo := by simpa [get?] using same name
          rw [sameValue, ih ascendingRest ascendingRestToo]
          intro wanted
          by_cases first : wanted = name
          · rw [first, ascending.get?_rest, ascendingToo.get?_rest]
          · simpa [get?, first] using same wanted

theorem get?_of_mem {table : List (String × α)} (distinct : (names table).Nodup) {name : String}
    {value : α} (member : (name, value) ∈ table) : get? name table = some value := by
  induction table with
  | nil => cases member
  | cons entry rest ih =>
      obtain ⟨absent, distinctRest⟩ := List.nodup_cons.mp distinct
      rcases List.mem_cons.mp member with rfl | member
      · simp [get?]
      · have differs : name ≠ entry.1 := by
          rintro rfl
          exact absent (List.mem_map.mpr ⟨_, member, rfl⟩)
        rw [get?, if_neg differs]
        exact ih distinctRest member

end Index

end Parlance
