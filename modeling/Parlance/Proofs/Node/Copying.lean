import Parlance.Proofs.Node.Projection

/-! Translating where no type has a translation of its own: a tree stays as it is, or the first record in
it that is of no registered type is the fault. -/

namespace Parlance

namespace Members

variable {α : Type} {types : List (String × α)} {members : Members}

def Registered (types : List (String × α)) (members : Members) : Prop :=
  ∃ name, Index.get? "type" members = some (.text name) ∧ Index.contains name types = true

def complaint (members : Members) : TreeFault :=
  match Index.get? "type" members with
  | some (.text name) => .unknownNodeType name
  | _ => .untypedObject

theorem typeName?_eq_some_iff {name : String} :
    members.typeName? = some name ↔ Index.get? "type" members = some (.text name) := by
  rw [Members.typeName?, Option.bind_eq_some_iff]
  constructor
  · rintro ⟨value, found, isText⟩
    cases value with
    | text => cases isText; exact found
    | _ => cases isText
  · exact fun found => ⟨_, found, rfl⟩

def fault? (types : List (String × α)) (members : Members) : Option TreeFault :=
  match members.resolve types with
  | .ok _ => none
  | .error fault => some fault

theorem fault?_of_registered (registered : members.Registered types) :
    members.fault? types = none := by
  obtain ⟨name, typed, known⟩ := registered
  obtain ⟨style, found⟩ := Option.isSome_iff_exists.mp known
  rw [fault?, Tree.resolve_ok_iff.mpr ⟨typeName?_eq_some_iff.mpr typed, found⟩]

theorem complaint_eq (members : Members) :
    members.complaint = members.typeName?.elim .untypedObject .unknownNodeType := by
  rw [complaint, Members.typeName?]
  cases Index.get? "type" members with
  | none => rfl
  | some value => cases value <;> rfl

theorem fault?_of_not_registered (unregistered : ¬ members.Registered types) :
    members.fault? types = some members.complaint := by
  rw [fault?, resolve, complaint_eq]
  cases typed : members.typeName? with
  | none => rfl
  | some name =>
      have unknown : Index.get? name types = none := by
        rw [← Option.not_isSome_iff_eq_none]
        exact fun known => unregistered ⟨name, typeName?_eq_some_iff.mp typed, known⟩
      simp only [unknown]
      rfl

end Members

namespace Tree

variable {types : NodeTypes}

/-- The records reached in a tree, each before those inside it; items and members are entered in their
order, but the type of a record is not. -/
def records : Tree → List Members
  | .list items => recordsOfItems items
  | .record members => members :: recordsOfMembers members
  | _ => []
where
  recordsOfItems : List Tree → List Members
    | [] => []
    | item :: rest => records item ++ recordsOfItems rest
  recordsOfMembers : Members → List Members
    | [] => []
    | (name, value) :: rest =>
        if name = "type" then recordsOfMembers rest else records value ++ recordsOfMembers rest

/-- The value, unless there is a fault among the records: then the first is. -/
def settle {α : Type} (types : NodeTypes) (records : List Members) (value : α) :
    Except TreeFault α :=
  (records.findSome? (Members.fault? types)).elim (.ok value) .error

theorem translateItems_settle {items : List Tree}
    (each : ∀ item ∈ items, item.translate types = settle types item.records item) :
    translate.translateItems types items = settle types (records.recordsOfItems items) items := by
  induction items with
  | nil => rfl
  | cons item rest ih =>
      obtain ⟨here, later⟩ := List.forall_mem_cons.mp each
      rw [translate.translateItems, here, ih later, records.recordsOfItems, settle, settle, settle,
        List.findSome?_append]
      cases item.records.findSome? (Members.fault? types) with
      | some fault => rfl
      | none => cases (records.recordsOfItems rest).findSome? (Members.fault? types) <;> rfl

theorem copyMembers_settle {members : Members}
    (each : ∀ entry ∈ members, entry.2.translate types = settle types entry.2.records entry.2) :
    copyMembers (translate.translateMembers types members) =
      settle types (records.recordsOfMembers members) members := by
  induction members with
  | nil => rfl
  | cons entry rest ih =>
      obtain ⟨name, value⟩ := entry
      obtain ⟨here, later⟩ := List.forall_mem_cons.mp each
      rw [translate.translateMembers, records.recordsOfMembers]
      by_cases isType : name = "type"
      · -- Copied without being entered, so there is nothing to settle.
        rw [if_pos isType, if_pos isType, copyMembers, ih later, settle, settle]
        cases (records.recordsOfMembers rest).findSome? (Members.fault? types) <;> rfl
      · rw [if_neg isType, if_neg isType, here, settle, settle, List.findSome?_append]
        cases value.records.findSome? (Members.fault? types) with
        | some fault => rfl
        | none =>
            rw [Option.elim_none, copyMembers, ih later, settle]
            cases (records.recordsOfMembers rest).findSome? (Members.fault? types) <;> rfl

theorem translate_settle
    (copied : ∀ name style, Index.get? name types = some style → style.translation = none)
    (tree : Tree) : tree.translate types = settle types tree.records tree := by
  induction tree using parts_induction with
  | null | bool | number | text => rfl
  | list items ih =>
      rw [translate, translateItems_settle ih, records, settle, settle]
      cases (records.recordsOfItems items).findSome? (Members.fault? types) <;> rfl
  | record members ih =>
      rw [translate, records, settle, List.findSome?_cons, Members.fault?]
      cases resolves : Members.resolve members types with
      | error fault => rfl
      | ok resolved =>
          obtain ⟨name, style⟩ := resolved
          obtain ⟨-, found⟩ := resolve_ok_iff.mp resolves
          simp only [copied name style found, copyMembers_settle ih, settle]
          cases (records.recordsOfMembers members).findSome? (Members.fault? types) <;> rfl

/-- Where no type has a translation of its own, a tree in which all records are of registered types
stays as it is; in any other, the fault is that of the first record that is not. -/
theorem translate_copies_or_complains
    (copied : ∀ name style, Index.get? name types = some style → style.translation = none)
    (tree : Tree) :
    ((∀ members ∈ tree.records, members.Registered types) → tree.translate types = .ok tree) ∧
    ∀ before first after, tree.records = before ++ first :: after →
      (∀ members ∈ before, members.Registered types) → ¬ first.Registered types →
        tree.translate types = .error first.complaint := by
  rw [translate_settle copied, settle]
  constructor
  · intro registered
    rw [List.findSome?_eq_none_iff.mpr fun members member =>
      Members.fault?_of_registered (registered members member)]
    rfl
  · intro before first after parts registered unregistered
    rw [parts, List.findSome?_append, List.findSome?_eq_none_iff.mpr fun members member =>
      Members.fault?_of_registered (registered members member), List.findSome?_cons,
      Members.fault?_of_not_registered unregistered]
    rfl

/-- The record whose type is no text comes before the one of a type that is not in the table. -/
theorem translate_copies_or_complains_pair :
    let types : NodeTypes :=
      [("Identifier", ⟨"Identifier", [], none⟩), ("Pair", ⟨"Pair", [], none⟩)]
    let name : Members := [("name", .text "a"), ("type", .text "Identifier")]
    let whole : Members := [("left", .record name), ("right", .null), ("type", .text "Pair")]
    let odd : Members := [("type", .list [.record name])]
    let unknown : Members := [("type", .text "Mystery")]
    let broken : Members :=
      [("left", .list [.record name, .record odd]), ("right", .record unknown), ("type", .text "Pair")]
    (∀ name style, Index.get? name types = some style → style.translation = none) ∧
      translate types (.record whole) = .ok (.record whole) ∧
      translate types (.list [.record whole, .record broken]) = .error .untypedObject := by
  intro types name whole odd unknown broken
  have copied : ∀ name style, Index.get? name types = some style → style.translation = none := by
    intro name style found
    have member := Index.mem_of_get? found
    simp only [types, List.mem_cons, List.not_mem_nil, or_false, Prod.mk.injEq] at member
    rcases member with ⟨-, rfl⟩ | ⟨-, rfl⟩ <;> rfl
  have pair (members : Members) (typed : Index.get? "type" members = some (.text "Pair")) :
      members.Registered types := ⟨"Pair", typed, rfl⟩
  have identifier : name.Registered types := ⟨"Identifier", rfl, rfl⟩
  have sound : ∀ members ∈ [whole, name], members.Registered types :=
    List.forall_mem_cons.mpr ⟨pair whole rfl, List.forall_mem_singleton.mpr identifier⟩
  have before : ∀ members ∈ [whole, name, broken, name], members.Registered types :=
    List.forall_mem_append.mpr ⟨sound,
      List.forall_mem_cons.mpr ⟨pair broken rfl, List.forall_mem_singleton.mpr identifier⟩⟩
  refine ⟨copied, (translate_copies_or_complains copied _).1 sound,
    (translate_copies_or_complains copied _).2 _ odd [unknown] rfl before ?_⟩
  rintro ⟨name, typed, -⟩
  cases typed

end Tree

end Parlance
