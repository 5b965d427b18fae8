import Parlance.Node.Translate
import Parlance.Proofs.Tree.Occurs

/-! What nodes are translated to, by the fields that they were made of. -/

namespace Parlance.Tree

variable {types : NodeTypes} {typeName : String} {fields : List (String × Tree)} {name : String}
  {value result : Tree} {items results : List Tree}

def translated (types : NodeTypes) (tree : Tree) : Tree :=
  match tree.translate types with
  | .ok result => result
  | .error _ => tree

theorem translated_eq (same : value.translate types = .ok result) :
    value.translated types = result := by
  rw [translated, same]

theorem translate_nil : translate types (.list []) = .ok (.list []) := rfl

theorem translate_cons {first : Tree} (same : first.translate types = .ok result)
    (rest : translate types (.list items) = .ok (.list results)) :
    translate types (.list (first :: items)) = .ok (.list (result :: results)) := by
  rw [translate] at rest ⊢
  rw [translate.translateItems, same]
  split at rest
  next => cases rest
  next => cases rest; rfl

def memberTranslation (types : NodeTypes) (name : String) (value : Tree) : Except TreeFault Tree :=
  if name = "type" then .ok value else value.translate types

theorem translateMembers_eq (members : Members) :
    translate.translateMembers types members =
      Index.mapValues (memberTranslation types) members := by
  induction members with
  | nil => rfl
  | cons entry rest ih => rw [translate.translateMembers, ih]; rfl

theorem copyMembers_ok_iff {entries : List (String × Except TreeFault Tree)} {copied : Members} :
    copyMembers entries = .ok copied ↔ entries = Index.mapValues (fun _ => .ok) copied := by
  induction entries generalizing copied with
  | nil => cases copied <;> simp [copyMembers, Index.mapValues]
  | cons entry rest ih =>
      obtain ⟨name, _ | value⟩ := entry
      · cases copied <;> simp [copyMembers, Index.mapValues]
      · rw [copyMembers]
        cases copied with
        | nil => cases copyMembers rest <;> simp [Index.mapValues]
        | cons head tail =>
            simp only [Index.mapValues] at ih ⊢
            rw [List.map_cons, List.cons.injEq, ← ih]
            cases copyMembers rest <;> simp [Prod.ext_iff]

theorem get?_translateMembers (other : name ≠ "type") (members : Members) :
    Index.get? name (translate.translateMembers types members) =
      (Index.get? name members).map (translate types) := by
  have same : memberTranslation types name = translate types := funext fun _ => if_neg other
  rw [translateMembers_eq, Index.get?_mapValues, same]

def translatedMember (types : NodeTypes) (name : String) (value : Tree) : Tree :=
  if name = "type" then value else value.translated types

theorem copyMembers_translateMembers {members : Members}
    (each : ∀ entry ∈ members, entry.1 ≠ "type" → ∃ result, entry.2.translate types = .ok result) :
    copyMembers (translate.translateMembers types members) =
      .ok (Index.mapValues (translatedMember types) members) := by
  rw [copyMembers_ok_iff, translateMembers_eq]
  simp only [Index.mapValues, List.map_map]
  refine List.map_congr_left fun entry member => Prod.ext rfl ?_
  by_cases isType : entry.1 = "type"
  · simp only [memberTranslation, translatedMember, Function.comp, if_pos isType]
  · obtain ⟨result, same⟩ := each entry member isType
    simp only [memberTranslation, translatedMember, Function.comp, if_neg isType, same,
      translated_eq same]

theorem ascending_mapValues {convert : String → Tree → Tree} {members : Members}
    (ascending : Index.Ascending members) : Index.Ascending (Index.mapValues convert members) := by
  have same : Index.names (Index.mapValues convert members) = Index.names members := by
    simp [Index.names, Index.mapValues]
  rwa [Index.Ascending, same]

def translatedFields (types : NodeTypes) (fields : List (String × Tree)) : List (String × Tree) :=
  fields.map fun field => (field.1, field.2.translated types)

theorem mapValues_nodeMembers (distinct : Distinct fields) :
    Index.mapValues (translatedMember types) (nodeMembers typeName fields) =
      nodeMembers typeName (translatedFields types fields) := by
  have names : Index.names (translatedFields types fields) = Index.names fields := by
    simp [Index.names, translatedFields]
  have distinctToo : Distinct (translatedFields types fields) := by
    rwa [Distinct, names]
  refine (ascending_mapValues (ascending_nodeMembers _ _)).ext (ascending_nodeMembers _ _)
    fun name => ?_
  rw [Index.get?_mapValues, get?_node distinct, get?_node distinctToo, Index.get?, Index.get?]
  by_cases isType : name = "type"
  · simp [isType, translatedMember]
  · rw [if_neg isType, if_neg isType]
    have same : translatedFields types fields =
        Index.mapValues (fun _ => translated types) fields := rfl
    rw [same, Index.get?_mapValues]
    cases Index.get? name fields with
    | none => rfl
    | some value => simp [translatedMember, isType]

theorem translate_node {style : NodeType} (known : Index.get? typeName types = some style)
    (plain : style.translation = none) (distinct : Distinct fields)
    (each : ∀ field ∈ fields, ∃ result, field.2.translate types = .ok result) :
    (node typeName fields).translate types = .ok (node typeName (translatedFields types fields)) := by
  have copied := @copyMembers_translateMembers types (nodeMembers typeName fields) ?_
  · rw [mapValues_nodeMembers distinct] at copied
    rw [node_eq, translate, resolve_node known distinct]
    simp only [plain, copied]
    rfl
  · intro entry member isField
    have names : (Index.names (nodeMembers typeName fields)).Nodup :=
      (ascending_nodeMembers typeName fields).imp fun before => ne_of_lt before
    have found := Index.get?_of_mem names member
    rw [get?_node distinct, Index.get?, if_neg isField] at found
    exact each _ (Index.mem_of_get? found)

theorem translate_same {style : NodeType} (known : Index.get? typeName types = some style)
    (plain : style.translation = none) (distinct : Distinct fields)
    (each : ∀ field ∈ fields, field.2.translate types = .ok field.2) :
    (node typeName fields).translate types = .ok (node typeName fields) := by
  have same : translatedFields types fields = fields := by
    refine (List.map_congr_left fun field member => ?_).trans (List.map_id _)
    rw [translated_eq (each field member)]
    rfl
  rw [translate_node known plain distinct fun field member => ⟨_, each field member⟩, same]

theorem translate_template {style : NodeType} {template : Template}
    (known : Index.get? typeName types = some style) (given : style.translation = some template)
    (distinct : Distinct fields) :
    (node typeName fields).translate types = template.fill (nodeMembers typeName fields)
      (translate.translateMembers types (nodeMembers typeName fields)) := by
  rw [node_eq, translate, resolve_node known distinct]
  simp only [given]

/-- A template that names a field stands for its translation. -/
theorem fill_translated (distinct : Distinct fields) (other : name ≠ "type")
    (found : Index.get? name fields = some value) :
    (Template.translated name).fill (nodeMembers typeName fields)
      (translate.translateMembers types (nodeMembers typeName fields)) =
      value.translate types := by
  have member : Index.get? name (nodeMembers typeName fields) = some value := by
    rw [get?_node distinct, Index.get?, if_neg other, found]
  rw [Template.fill, Members.require, get?_translateMembers other, member]
  rfl

end Parlance.Tree
