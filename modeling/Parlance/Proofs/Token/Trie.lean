import Mathlib.Data.List.Basic
import Parlance.Text.Bytes
import Parlance.Token.Trie

/-! What a trie holds: the paths that can be followed in it are the beginnings of its words, and
munching takes the longest of them that a text begins with. -/

namespace Parlance.Trie

def BeginsWord (words : List String) (path : List Char) : Prop :=
  ∃ word ∈ words, path <+: word.toList

@[simp] theorem findBranch_putBranch (wanted char : Char) (trie : Trie)
    (branches : List (Char × Trie)) :
    findBranch wanted (putBranch char trie branches) =
      if wanted = char then some trie else findBranch wanted branches := by
  induction branches with
  | nil => rfl
  | cons branch rest ih =>
      obtain ⟨other, held⟩ := branch
      by_cases same : char = other
      · subst same
        by_cases here : wanted = char
        · simp [putBranch, findBranch, here]
        · simp [putBranch, findBranch, here]
      · by_cases before : char < other
        · simp [putBranch, findBranch, same, before]
        · by_cases here : wanted = other
          · simp [putBranch, findBranch, same, before, here, Ne.symm same]
          · simp [putBranch, findBranch, same, before, here, ih]

theorem get?_insert (wanted char : Char) (rest : List Char) (trie : Trie) :
    (insert (char :: rest) trie).get? wanted =
      if wanted = char then some (insert rest ((trie.get? char).getD empty))
      else trie.get? wanted := by
  cases trie
  exact findBranch_putBranch wanted char _ _

theorem get?_insert_nil (wanted : Char) (trie : Trie) :
    (insert [] trie).get? wanted = trie.get? wanted := by
  cases trie
  rfl

theorem follow?_empty (char : Char) (path : List Char) : empty.follow? (char :: path) = none := rfl

theorem follow?_insert_isSome (word path : List Char) (trie : Trie) :
    ((insert word trie).follow? path).isSome ↔ path <+: word ∨ (trie.follow? path).isSome := by
  induction path generalizing word trie with
  | nil => simp [follow?]
  | cons char path ih =>
      cases word with
      | nil => simp [follow?, get?_insert_nil]
      | cons first rest =>
          rw [follow?, follow?, get?_insert]
          by_cases same : char = first
          · subst same
            rw [if_pos rfl, Option.bind_some, ih, List.cons_prefix_cons]
            cases trie.get? char with
            | some branch => simp
            | none =>
                cases path with
                | nil => simp
                | cons next path => simp [follow?_empty]
          · rw [if_neg same, List.cons_prefix_cons]
            simp [same]

theorem follow?_foldl_isSome (words : List String) (path : List Char) (trie : Trie) :
    ((words.foldl (fun trie word => insert word.toList trie) trie).follow? path).isSome ↔
      BeginsWord words path ∨ (trie.follow? path).isSome := by
  induction words generalizing trie with
  | nil => simp [BeginsWord]
  | cons word rest ih =>
      rw [List.foldl_cons, ih, follow?_insert_isSome]
      simp only [BeginsWord, List.exists_mem_cons_iff]
      exact or_left_comm.trans or_assoc.symm

theorem follow?_ofWords_isSome {words : List String} {path : List Char} (some : path ≠ []) :
    ((ofWords words).follow? path).isSome ↔ BeginsWord words path := by
  obtain ⟨char, rest, rfl⟩ := List.exists_cons_of_ne_nil some
  rw [ofWords, follow?_foldl_isSome, follow?_empty]
  simp

theorem munch_prefix (trie : Trie) (text : List Char) : trie.munch text <+: text :=
  ⟨_, trie.munch_append_drop text⟩

theorem munchSize_eq (trie : Trie) (text : List Char) :
    trie.munchSize text = Text.byteSize (trie.munch text) := by
  induction text generalizing trie with
  | nil => rfl
  | cons char rest ih =>
      rw [munchSize, munch]
      cases trie.get? char with
      | none => rfl
      | some branch => simp only [ih, Text.byteSize]

theorem follow?_munch_isSome (trie : Trie) (text : List Char) :
    (trie.follow? (trie.munch text)).isSome := by
  induction text generalizing trie with
  | nil => rfl
  | cons char rest ih =>
      rw [munch]
      cases found : trie.get? char with
      | none => rfl
      | some branch =>
          simp only [follow?, found, Option.bind_some]
          exact ih branch

/-- No longer beginning of the text can be followed. -/
theorem prefix_munch {trie : Trie} {path text : List Char} (begins : path <+: text)
    (followed : (trie.follow? path).isSome) : path <+: trie.munch text := by
  induction path generalizing trie text with
  | nil => exact List.nil_prefix
  | cons char path ih =>
      obtain ⟨after, rfl⟩ := begins
      rw [follow?] at followed
      rw [List.cons_append, munch]
      cases found : trie.get? char with
      | none => simp [found] at followed
      | some branch =>
          rw [found, Option.bind_some] at followed
          apply (List.prefix_cons_inj char).mpr
          exact ih (List.prefix_append path after) followed

theorem munch_of_prefix {trie : Trie} {text run : List Char} (munched : trie.munch text <+: run)
    (begins : run <+: text) : trie.munch run = trie.munch text := by
  have followed := trie.follow?_munch_isSome text
  have within : trie.munch run <+: trie.munch text :=
    prefix_munch ((trie.munch_prefix run).trans begins) (trie.follow?_munch_isSome run)
  exact List.IsPrefix.eq_of_length_le within (prefix_munch munched followed).length_le

end Parlance.Trie
