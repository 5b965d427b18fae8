import Mathlib.Tactic.SplitIfs
import Parlance.Proofs.Index
import Parlance.Tree.Node

/-! The members of a node, by the fields it was made of, and whether some part of a tree is of a
kind. -/

namespace Parlance

namespace Tree

variable {typeName : String} {fields : List (String × Tree)} {name : String} {value : Tree}

def nodeMembers (typeName : String) (fields : List (String × Tree)) : Members :=
  Index.merge [("type", .text typeName)] fields

theorem node_eq (typeName : String) (fields : List (String × Tree)) :
    node typeName fields = .record (nodeMembers typeName fields) := rfl

theorem ascending_nodeMembers (typeName : String) (fields : List (String × Tree)) :
    Index.Ascending (nodeMembers typeName fields) := by
  unfold nodeMembers Index.merge
  have start : Index.Ascending [("type", Tree.text typeName)] := List.pairwise_singleton _ _
  generalize [("type", Tree.text typeName)] = table at start
  induction fields generalizing table with
  | nil => exact start
  | cons field fields ih => exact ih _ (start.insert _ _)

/-- Fields are named apart from each other and from the type. -/
def Distinct (fields : List (String × Tree)) : Prop := ("type" :: Index.names fields).Nodup

theorem get?_node (distinct : Distinct fields) (name : String) :
    Index.get? name (nodeMembers typeName fields) =
      Index.get? name (("type", .text typeName) :: fields) := by
  obtain ⟨absent, distinctFields⟩ := List.nodup_cons.mp distinct
  rw [nodeMembers, Index.get?_merge _ distinctFields]
  by_cases same : name = "type"
  · have none : Index.get? name fields = none := Index.get?_eq_none_iff.mpr (same ▸ absent)
    simp only [none, Index.get?, if_pos same]
    rfl
  · simp only [Index.get?, if_neg same]
    cases Index.get? name fields <;> rfl

theorem typeName?_nodeMembers (distinct : Distinct fields) :
    Members.typeName? (nodeMembers typeName fields) = some typeName := by
  rw [Members.typeName?, get?_node distinct]
  rfl

theorem nodeType?_node (distinct : Distinct fields) :
    (node typeName fields).nodeType? = some typeName :=
  typeName?_nodeMembers distinct

theorem resolve_ok_iff {α : Type} {types : List (String × α)} {members : Members} {known : α} :
    members.resolve types = .ok (name, known) ↔
      members.typeName? = some name ∧ Index.get? name types = some known := by
  rw [Members.resolve]
  cases members.typeName? with
  | none => simp
  | some held => cases found : Index.get? held types <;> grind

theorem resolve_node {α : Type} {types : List (String × α)} {style : α}
    (known : Index.get? typeName types = some style) (distinct : Distinct fields) :
    Members.resolve (nodeMembers typeName fields) types = .ok (typeName, style) :=
  resolve_ok_iff.mpr ⟨typeName?_nodeMembers distinct, known⟩

theorem node_inj {otherType : String} {others : List (String × Tree)} (distinct : Distinct fields)
    (distinctToo : Distinct others) (same : node typeName fields = node otherType others) :
    typeName = otherType ∧
      ∀ name, Index.get? name (("type", .text typeName) :: fields) =
        Index.get? name (("type", .text otherType) :: others) := by
  have members : nodeMembers typeName fields = nodeMembers otherType others := by
    simpa only [node_eq, Tree.record.injEq] using same
  constructor
  · have types := congrArg Members.typeName? members
    rw [typeName?_nodeMembers distinct, typeName?_nodeMembers distinctToo] at types
    exact Option.some.inj types
  · intro name
    rw [← get?_node distinct, ← get?_node distinctToo, members]

theorem node_ne {otherType : String} {others : List (String × Tree)} (distinct : Distinct fields)
    (distinctToo : Distinct others) (differ : typeName ≠ otherType) :
    node typeName fields ≠ node otherType others :=
  fun same => differ (node_inj distinct distinctToo same).1

theorem node_ne_null (typeName : String) (fields : List (String × Tree)) :
    node typeName fields ≠ .null := nofun

theorem Distinct.none : Distinct [] := show ["type"].Nodup by decide

theorem Distinct.one {first : String} {value : Tree} (distinct : ["type", first].Nodup) :
    Distinct [(first, value)] := distinct

theorem Distinct.two {first second : String} {value other : Tree}
    (distinct : ["type", first, second].Nodup) : Distinct [(first, value), (second, other)] :=
  distinct

theorem Distinct.three {first second third : String} {value other last : Tree}
    (distinct : ["type", first, second, third].Nodup) :
    Distinct [(first, value), (second, other), (third, last)] := distinct

/-- Some part of the tree, perhaps all of it, satisfies the predicate. -/
inductive Occurs (holds : Tree → Prop) : Tree → Prop where
  | here {tree : Tree} (holdsHere : holds tree) : Occurs holds tree
  | item {items : List Tree} {item : Tree} (member : item ∈ items) (occurs : Occurs holds item) :
      Occurs holds (.list items)
  | field {members : Members} {name : String} {value : Tree}
      (found : Index.get? name members = some value) (occurs : Occurs holds value) :
      Occurs holds (.record members)

def OfTypes (holds : Tree → Prop) (types : List String) : Prop :=
  ∀ tree, holds tree → ∃ name ∈ types, tree.nodeType? = some name

def OfNodes (holds : Tree → Prop) : Prop :=
  ∀ tree, holds tree → ∃ members, tree = .record members

variable {holds : Tree → Prop} {types : List String}

theorem OfTypes.ofNodes (ofTypes : OfTypes holds types) : OfNodes holds := by
  intro tree holdsHere
  obtain ⟨name, -, typed⟩ := ofTypes tree holdsHere
  cases tree with
  | record members => exact ⟨members, rfl⟩
  | _ => cases typed

theorem OfNodes.not_text (ofNodes : OfNodes holds) (text : String) :
    ¬ Occurs holds (.text text) := by
  intro occurs
  cases occurs with
  | here holdsHere => obtain ⟨members, same⟩ := ofNodes _ holdsHere; cases same

theorem OfNodes.not_bool (ofNodes : OfNodes holds) (value : Bool) :
    ¬ Occurs holds (.bool value) := by
  intro occurs
  cases occurs with
  | here holdsHere => obtain ⟨members, same⟩ := ofNodes _ holdsHere; cases same

theorem OfNodes.not_number (ofNodes : OfNodes holds) (value : Number) :
    ¬ Occurs holds (.number value) := by
  intro occurs
  cases occurs with
  | here holdsHere => obtain ⟨members, same⟩ := ofNodes _ holdsHere; cases same

theorem OfNodes.not_null (ofNodes : OfNodes holds) : ¬ Occurs holds .null := by
  intro occurs
  cases occurs with
  | here holdsHere => obtain ⟨members, same⟩ := ofNodes _ holdsHere; cases same

theorem OfNodes.list_iff (ofNodes : OfNodes holds) (items : List Tree) :
    Occurs holds (.list items) ↔ ∃ item ∈ items, Occurs holds item := by
  constructor
  · intro occurs
    cases occurs with
    | here holdsHere => obtain ⟨members, same⟩ := ofNodes _ holdsHere; cases same
    | item member occurs => exact ⟨_, member, occurs⟩
  · rintro ⟨item, member, occurs⟩
    exact .item member occurs

theorem OfNodes.node_iff (ofNodes : OfNodes holds) (distinct : Distinct fields) :
    Occurs holds (node typeName fields) ↔
      holds (node typeName fields) ∨ ∃ field ∈ fields, Occurs holds field.2 := by
  constructor
  · intro occurs
    cases occurs with
    | here holdsHere => exact .inl holdsHere
    | @field _ name value found occurs =>
        have found : Index.get? name (nodeMembers typeName fields) = some value := found
        rw [get?_node distinct] at found
        rcases List.mem_cons.mp (Index.mem_of_get? found) with same | member
        · cases same
          exact absurd occurs (ofNodes.not_text _)
        · exact .inr ⟨_, member, occurs⟩
  · rintro (holdsHere | ⟨field, member, occurs⟩)
    · exact .here holdsHere
    · have found : Index.get? field.1 (nodeMembers typeName fields) = some field.2 := by
        rw [get?_node distinct]
        have names : (Index.names (("type", Tree.text typeName) :: fields)).Nodup := distinct
        exact Index.get?_of_mem names (List.mem_cons_of_mem _ member)
      exact .field found occurs

theorem OfTypes.not_node (ofTypes : OfTypes holds types) (distinct : Distinct fields)
    (other : typeName ∉ types) (none : ∀ field ∈ fields, ¬ Occurs holds field.2) :
    ¬ Occurs holds (node typeName fields) := by
  rw [ofTypes.ofNodes.node_iff distinct]
  rintro (holdsHere | ⟨field, member, occurs⟩)
  · obtain ⟨name, isType, typed⟩ := ofTypes _ holdsHere
    rw [nodeType?_node distinct] at typed
    exact other (Option.some.inj typed ▸ isType)
  · exact none field member occurs

end Tree

end Parlance
