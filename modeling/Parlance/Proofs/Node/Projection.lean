import Parlance.Proofs.Node.Translating

/-! Translating any tree, not only one made node by node: where templates build copied nodes around
translated parts, the result consists of copied nodes, and translating it again changes nothing. -/

namespace Parlance

namespace Tree

variable {types target : NodeTypes} {tree result : Tree} {members : Members}

/-- Structural induction in which the parts of a tree are met as members of a list. -/
@[elab_as_elim]
theorem parts_induction {motive : Tree → Prop} (null : motive .null)
    (bool : ∀ value, motive (.bool value)) (number : ∀ value, motive (.number value))
    (text : ∀ value, motive (.text value))
    (list : ∀ items, (∀ item ∈ items, motive item) → motive (.list items))
    (record : ∀ members, (∀ entry ∈ members, motive entry.2) → motive (.record members)) :
    ∀ tree, motive tree
  | .null => null
  | .bool value => bool value
  | .number value => number value
  | .text value => text value
  | .list items => list items fun item _ =>
      parts_induction null bool number text list record item
  | .record members => record members fun entry member =>
      have : sizeOf entry.2 < 1 + sizeOf members := by
        have smaller := List.sizeOf_lt_of_mem member
        rw [show sizeOf entry = 1 + sizeOf entry.1 + sizeOf entry.2 from rfl] at smaller
        omega
      parts_induction null bool number text list record entry.2

theorem translateItems_ok_iff {items results : List Tree} :
    translate.translateItems types items = .ok results ↔
      items.map (translate types) = results.map .ok := by
  induction items generalizing results with
  | nil => cases results <;> simp [translate.translateItems]
  | cons item rest ih =>
      rw [translate.translateItems, List.map_cons]
      cases first : item.translate types with
      | error fault => cases results <;> simp
      | ok value =>
          cases results with
          | nil => cases translate.translateItems types rest <;> simp
          | cons head tail =>
              rw [List.map_cons, List.cons.injEq, ← ih]
              cases translate.translateItems types rest <;> simp

/-- All that translating a record can come to, unless it fails: what the template of its type makes of
it, or a copy. -/
theorem translate_record (translates : translate types (.record members) = .ok result) :
    ∃ name style, members.typeName? = some name ∧ Index.get? name types = some style ∧
      ((∃ template, style.translation = some template ∧
          template.fill members (translate.translateMembers types members) = .ok result) ∨
        (style.translation = none ∧ ∃ copied, result = .record copied ∧
          copyMembers (translate.translateMembers types members) = .ok copied)) := by
  rw [translate] at translates
  split at translates
  next => cases translates
  next name style resolves =>
    obtain ⟨typed, known⟩ := resolve_ok_iff.mp resolves
    refine ⟨name, style, typed, known, ?_⟩
    split at translates
    next template given => exact .inl ⟨template, given, translates⟩
    next given =>
      split at translates
      next => cases translates
      next copied copies =>
        cases translates
        exact .inr ⟨given, copied, rfl, copies⟩

section Copying

variable {copied : Members}
  (copies : copyMembers (translate.translateMembers types members) = .ok copied)
include copies

theorem typeName?_copy : copied.typeName? = members.typeName? := by
  rw [copyMembers_ok_iff, translateMembers_eq] at copies
  have same := congrArg (Index.get? "type") copies
  rw [Index.get?_mapValues, Index.get?_mapValues] at same
  have own : memberTranslation types "type" = .ok := funext fun _ => if_pos rfl
  rw [own] at same
  rw [Members.typeName?, Members.typeName?,
    Option.map_injective (fun _ _ => Except.ok.inj) same]

theorem mem_copy {entry : String × Tree} (member : entry ∈ copied) (other : entry.1 ≠ "type") :
    ∃ source ∈ members, source.2.translate types = .ok entry.2 := by
  rw [copyMembers_ok_iff, translateMembers_eq] at copies
  have among : (entry.1, Except.ok entry.2) ∈ Index.mapValues (memberTranslation types) members :=
    copies ▸ List.mem_map_of_mem member
  obtain ⟨source, isMember, same⟩ := List.mem_map.mp among
  obtain ⟨name, translation⟩ := Prod.ext_iff.mp same
  rw [memberTranslation, if_neg (show source.1 ≠ "type" from name ▸ other)] at translation
  exact ⟨source, isMember, translation⟩

end Copying

/-- Every node of the tree is of a type of the table, and of one that has no translation. -/
inductive Plain (types : NodeTypes) : Tree → Prop where
  | null : Plain types .null
  | bool (value : Bool) : Plain types (.bool value)
  | number (value : Number) : Plain types (.number value)
  | text (value : String) : Plain types (.text value)
  | list {items : List Tree} (each : ∀ item ∈ items, Plain types item) : Plain types (.list items)
  | record {members : Members} {name : String} {style : NodeType}
      (typed : members.typeName? = some name) (known : Index.get? name types = some style)
      (copied : style.translation = none)
      (each : ∀ entry ∈ members, entry.1 ≠ "type" → Plain types entry.2) :
      Plain types (.record members)

theorem Plain.translate (plain : Plain types tree) : tree.translate types = .ok tree := by
  induction plain with
  | null | bool | number | text => rfl
  | list _ ih =>
      have same := translateItems_ok_iff.mpr (List.map_congr_left ih)
      simp only [Tree.translate, same]
  | @record members name style typed known copied _ ih =>
      have same : copyMembers (translate.translateMembers types members) = .ok members := by
        rw [copyMembers_ok_iff, translateMembers_eq]
        refine List.map_congr_left fun entry member => Prod.ext rfl ?_
        by_cases isType : entry.1 = "type"
        · exact if_pos isType
        · exact (if_neg isType).trans (ih entry member isType)
      simp only [Tree.translate, resolve_ok_iff.mpr ⟨typed, known⟩, copied, same]

def CopiedIn (target types : NodeTypes) : Prop :=
  ∀ name style, Index.get? name target = some style → style.translation = none →
    ∃ again, Index.get? name types = some again ∧ again.translation = none

theorem Plain.mono (plain : Plain target tree) (copiedToo : CopiedIn target types) :
    Plain types tree := by
  induction plain with
  | null => exact .null
  | bool value => exact .bool value
  | number value => exact .number value
  | text value => exact .text value
  | list _ ih => exact .list ih
  | record typed known copied _ ih =>
      obtain ⟨again, knownToo, copied⟩ := copiedToo _ _ known copied
      exact .record typed knownToo copied ih

theorem Plain.node {typeName : String} {fields : List (String × Tree)} {style : NodeType}
    (distinct : Distinct fields) (known : Index.get? typeName types = some style)
    (copied : style.translation = none) (each : ∀ field ∈ fields, Plain types field.2) :
    Plain types (node typeName fields) := by
  refine .record (typeName?_nodeMembers distinct) known copied fun entry member other => ?_
  have names : (Index.names (nodeMembers typeName fields)).Nodup :=
    (ascending_nodeMembers typeName fields).imp fun before => ne_of_lt before
  have found := Index.get?_of_mem names member
  rw [get?_node distinct, Index.get?, if_neg other] at found
  exact each _ (Index.mem_of_get? found)

theorem Plain.typed (plain : Plain types tree) (occurs : Occurs (· = .record members) tree) :
    ∃ name, members.typeName? = some name ∧ Index.contains name types = true := by
  induction occurs with
  | here same =>
      subst same
      cases plain with
      | record typed known => exact ⟨_, typed, by rw [Index.contains, known]; rfl⟩
  | item member _ ih =>
      cases plain with
      | list each => exact ih (each _ member)
  | @field outer name value found occurs ih =>
      cases plain with
      | record typed _ _ each =>
          by_cases isType : name = "type"
          · rw [Members.typeName?, ← isType, found] at typed
            -- The name of a type is a text, and no record is part of that.
            cases value with
            | text => cases occurs with | here same => cases same
            | _ => cases typed
          · exact ih (each _ (Index.mem_of_get? found) isType)

end Tree

namespace Template

variable {target : NodeTypes} {template : Template} {members : Members}
  {translations : List (String × Except TreeFault Tree)}

/-- The template puts translations of fields into nodes of types of the table that have none. -/
inductive Builds (target : NodeTypes) : Template → Prop where
  | literal {value : Tree} (plain : value.Plain target) : Builds target (.literal value)
  | translated {field : String} (other : field ≠ "type") : Builds target (.translated field)
  | node {typeName : String} {fields : List (String × Template)} {style : NodeType}
      (distinct : ("type" :: Index.names fields).Nodup)
      (known : Index.get? typeName target = some style) (copied : style.translation = none)
      (each : ∀ field ∈ fields, Builds target field.2) : Builds target (.node typeName fields)

theorem fillFields_ok {fields : List (String × Template)} {filled : List (String × Tree)}
    (fills : fill.fillFields members translations fields = .ok filled) :
    Index.names filled = Index.names fields ∧
      ∀ entry ∈ filled, ∃ field ∈ fields,
        field.2.fill members translations = .ok entry.2 := by
  induction fields generalizing filled with
  | nil => cases fills; exact ⟨rfl, nofun⟩
  | cons field rest ih =>
      obtain ⟨name, template⟩ := field
      rw [fill.fillFields] at fills
      split at fills
      next => cases fills
      next value first =>
        split at fills
        next => cases fills
        next others later =>
          cases fills
          obtain ⟨names, each⟩ := ih later
          refine ⟨congrArg (name :: ·) names, fun entry member => ?_⟩
          rcases List.mem_cons.mp member with rfl | member
          · exact ⟨_, List.mem_cons_self .., first⟩
          · obtain ⟨field, isField, fills⟩ := each entry member
            exact ⟨field, List.mem_cons_of_mem _ isField, fills⟩

theorem Builds.plain (builds : template.Builds target) {result : Tree}
    (each : ∀ field value, field ≠ "type" →
      Index.get? field translations = some (.ok value) → value.Plain target)
    (fills : template.fill members translations = .ok result) : result.Plain target := by
  induction builds generalizing result with
  | literal plain =>
      cases fills
      exact plain
  | @translated field other =>
      rw [fill, Members.require] at fills
      split at fills
      next => cases fills
      next translation found =>
        split at found
        next value held =>
          cases found
          subst fills
          exact each field result other held
        next => cases found
  | node distinct known copied _ ih =>
      rw [fill] at fills
      split at fills
      next => cases fills
      next filled fillsFields =>
        cases fills
        obtain ⟨names, filling⟩ := fillFields_ok fillsFields
        refine .node (by rwa [Tree.Distinct, names]) known copied fun entry member => ?_
        obtain ⟨field, isField, fillsField⟩ := filling entry member
        exact ih field isField fillsField

end Template

/-- Translating by the one table leads into the other: the nodes of a type are built by its template,
or they are copied and of a type there. -/
def NodeTypes.LeadInto (types target : NodeTypes) : Prop :=
  ∀ name style, Index.get? name types = some style →
    match style.translation with
    | some template => template.Builds target
    | none => ∃ again, Index.get? name target = some again ∧ again.translation = none

namespace Tree

variable {types target : NodeTypes}

theorem plain_of_translate (lead : types.LeadInto target) {tree result : Tree}
    (translates : tree.translate types = .ok result) : result.Plain target := by
  induction tree using parts_induction generalizing result with
  | null => cases translates; exact .null
  | bool value => cases translates; exact .bool value
  | number value => cases translates; exact .number value
  | text value => cases translates; exact .text value
  | list items ih =>
      rw [translate] at translates
      split at translates
      next => cases translates
      next results each =>
        cases translates
        refine .list fun value member => ?_
        have among : Except.ok value ∈ items.map (translate types) :=
          translateItems_ok_iff.mp each ▸ List.mem_map_of_mem member
        obtain ⟨item, isItem, same⟩ := List.mem_map.mp among
        exact ih item isItem same
  | record members ih =>
      obtain ⟨name, style, typed, known, made⟩ := translate_record translates
      have leads := lead name style known
      rcases made with ⟨template, given, fills⟩ | ⟨given, copied, rfl, copies⟩
      · rw [given] at leads
        refine Template.Builds.plain leads (fun field value other found => ?_) fills
        rw [get?_translateMembers other] at found
        obtain ⟨source, held, same⟩ := Option.map_eq_some_iff.mp found
        exact ih _ (Index.mem_of_get? held) same
      · rw [given] at leads
        obtain ⟨again, knownToo, copiedToo⟩ := leads
        refine .record ((typeName?_copy copies).trans typed) knownToo copiedToo
          fun entry member other => ?_
        obtain ⟨source, isMember, same⟩ := mem_copy copies member other
        exact ih source isMember same

end Tree

end Parlance
