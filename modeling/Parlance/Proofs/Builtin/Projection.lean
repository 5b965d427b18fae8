import Parlance.Proofs.Builtin.Outcomes
import Parlance.Proofs.Builtin.Translating
import Parlance.Proofs.Node.Projection

/-! Translating trees of `sugar`: whatever the tree, the result is one of `base`, and neither dialect
has anything left to translate in it. -/

namespace Parlance.Builtin

open Index (get? names)

variable {settings : Settings} {sugar : Bool} {name : String} {style : NodeType}

/-- Whichever side wins, a type is one of the dialect's own or one of its parent's. -/
theorem get?_ownTypes_of_types (known : get? name (types settings sugar) = some style) :
    get? name (ownTypes sugar) = some style ∨ get? name (ownTypes false) = some style := by
  have distinct (sugar : Bool) : (names (ownTypes sugar)).Nodup := by
    cases sugar <;> decide +kernel
  unfold types at known
  cases sugar with
  | false =>
      have same : Registry.mergeTypes settings.precedence (ownTypes false) none = ownTypes false := by
        cases settings.precedence <;> rfl
      exact .inl (same ▸ known)
  | true =>
      cases precedence : settings.precedence with
      | parentWins =>
          simp only [precedence, if_true, Registry.mergeTypes] at known
          rw [Index.get?_merge _ (distinct false), Option.or_eq_some_iff] at known
          exact known.symm.imp And.right id
      | childWins =>
          simp only [precedence, if_true, Registry.mergeTypes] at known
          rw [Index.get?_merge _ (distinct true), Option.or_eq_some_iff] at known
          exact known.imp id And.right

theorem copied_base (known : get? name (types settings false) = some style) :
    style.translation = none := by
  have each : ∀ entry ∈ ownTypes false, entry.2.translation.isNone = true := by decide +kernel
  have own : get? name (ownTypes false) = some style := (get?_ownTypes_of_types known).elim id id
  exact Option.isNone_iff_eq_none.mp (each _ (Index.mem_of_get? own))

theorem unless_unknown (settings : Settings) :
    Index.contains "UnlessStatement" (types settings false) = false := by
  unfold types
  cases settings.precedence <;> rfl

theorem copiedIn_types (settings : Settings) (sugar : Bool) :
    Tree.CopiedIn (types settings false) (types settings sugar) := fun _ style known copied =>
  ⟨style, get?_types settings sugar ((get?_ownTypes_of_types known).elim id id), copied⟩

theorem unless_builds {types : NodeTypes} (styles : Styles types) {template : Template}
    (given : Unless.nodeType.translation = some template) : template.Builds types := by
  cases given
  have parenthesized : Template.Builds types
      (.node "ParenthesizedExpression" [("expression", .translated "test")]) :=
    .node (by decide) (styles.expressions _ _ rfl) rfl
      (List.forall_mem_singleton.mpr (.translated (by decide)))
  have negation : Unless.negation.Builds types := by
    refine .node (by decide) (styles.expressions _ _ rfl) rfl ?_
    simp only [List.forall_mem_cons]
    exact ⟨.literal (.text "!"), parenthesized, List.forall_mem_nil _⟩
  refine .node (by decide) (styles.statements _ _ rfl) rfl ?_
  simp only [List.forall_mem_cons]
  exact ⟨negation, .translated (by decide), .literal .null, List.forall_mem_nil _⟩

theorem types_leadInto (settings : Settings) (sugar : Bool) :
    (types settings sugar).LeadInto (types settings false) := by
  have ofBase {name : String} {style : NodeType} (known : get? name (ownTypes false) = some style) :
      get? name (types settings false) = some style := get?_types settings false known
  have sweet : ownTypes true = [("UnlessStatement", Unless.nodeType)] := rfl
  intro name style known
  rcases get?_ownTypes_of_types known with own | base
  · cases sugar with
    | false =>
        rw [copied_base (ofBase own)]
        exact ⟨style, ofBase own, copied_base (ofBase own)⟩
    | true =>
        have among := sweet ▸ Index.mem_of_get? own
        cases List.mem_singleton.mp among
        exact unless_builds (styles_types settings false) rfl
  · rw [copied_base (ofBase base)]
    exact ⟨style, ofBase base, copied_base (ofBase base)⟩

/-- What `sugar` makes of a tree, if it makes anything of it, has only nodes of types of `base`, so
no `unless`, and is left as it is by both dialects. -/
theorem translateTree_projects (settings : Settings) {tree result : Tree}
    (translates :
      outcome settings (Registry.translateTree (dialectName true) tree) = .ok result) :
    ∃ known, outcome settings (Registry.ask (Registry.types (dialectName false))) = .ok known ∧
      (∀ members, Tree.Occurs (· = .record members) result →
        ∃ name, Members.typeName? members = some name ∧ Index.contains name known = true ∧
          name ≠ "UnlessStatement") ∧
      outcome settings (Registry.translateTree (dialectName false) result) = .ok result ∧
      outcome settings (Registry.translateTree (dialectName true) result) = .ok result := by
  rw [(yields_translateTree settings true tree).outcome_eq] at translates
  cases translated : tree.translate (types settings true) with
  | error fault => rw [translated] at translates; cases translates
  | ok same =>
      rw [translated] at translates
      cases translates
      have plain := Tree.plain_of_translate (types_leadInto settings true) translated
      have again (sugar : Bool) :
          outcome settings (Registry.translateTree (dialectName sugar) result) = .ok result := by
        rw [(yields_translateTree settings sugar result).outcome_eq,
          (plain.mono (copiedIn_types settings sugar)).translate]
        rfl
      refine ⟨_, (answers_types settings false).yields.outcome_eq, fun members occurs => ?_,
        again false, again true⟩
      obtain ⟨name, typed, known⟩ := plain.typed occurs
      refine ⟨name, typed, known, ?_⟩
      rintro rfl
      rw [unless_unknown] at known
      cases known

/-- An `unless` in a list in an `unless`. -/
theorem translateTree_projects_nested :
    let nested := unlessNode (.bool true) (.list [unlessNode (.text "a") .null, .null])
    let result := branch (negated (.bool true))
      (.list [branch (negated (.text "a")) .null .null, .null]) .null
    outcome .defaults (Registry.translateTree (dialectName true) nested) = .ok result ∧
      outcome .defaults (Registry.translateTree (dialectName false) result) = .ok result ∧
      outcome .defaults (Registry.translateTree (dialectName true) result) = .ok result := by
  intro nested result
  have sweet : get? "UnlessStatement" (types .defaults true) = some Unless.nodeType :=
    sweet_types .defaults rfl
  have null : Tree.null.translate (types .defaults true) = .ok .null := rfl
  have text : (Tree.text "a").translate (types .defaults true) = .ok (.text "a") := rfl
  have bool : (Tree.bool true).translate (types .defaults true) = .ok (.bool true) := rfl
  have body := Tree.translate_cons (unless_translated sweet text null)
    (Tree.translate_cons null Tree.translate_nil)
  have translates :
      outcome .defaults (Registry.translateTree (dialectName true) nested) = .ok result := by
    rw [(yields_translateTree .defaults true nested).outcome_eq,
      unless_translated sweet bool body]
    rfl
  obtain ⟨known, -, -, again⟩ := translateTree_projects .defaults translates
  exact ⟨translates, again⟩

end Parlance.Builtin
