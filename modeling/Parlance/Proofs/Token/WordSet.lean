import Mathlib.Data.List.Sort
import Mathlib.Data.String.Basic
import Parlance.Proofs.Token.Trie

/-! A trie as the set of its words. Its shape depends on them alone: branches are in order, a word ends
in each of them, and tries of such a shape in which the same words end are equal. -/

namespace Parlance.Trie

variable {trie other : Trie} {word path : List Char}

/-- A word ends where the path leads to. -/
def Holds (trie : Trie) (path : List Char) : Prop :=
  ∃ node, trie.follow? path = some node ∧ node.isTerminal = true

theorem holds_nil : trie.Holds [] ↔ trie.isTerminal = true := by simp [Holds, follow?]

theorem holds_cons {char : Char} :
    trie.Holds (char :: path) ↔ ∃ branch, trie.get? char = some branch ∧ branch.Holds path := by
  simp only [Holds, follow?, Option.bind_eq_some_iff]
  constructor
  · rintro ⟨node, ⟨branch, found, leads⟩, terminal⟩
    exact ⟨branch, found, node, leads, terminal⟩
  · rintro ⟨branch, found, node, leads, terminal⟩
    exact ⟨node, ⟨branch, found, leads⟩, terminal⟩

theorem not_holds_empty (path : List Char) : ¬ empty.Holds path := by
  cases path with
  | nil => rw [holds_nil]; exact Bool.false_ne_true
  | cons char path => rw [holds_cons]; rintro ⟨branch, found, -⟩; cases found

theorem isTerminal_insert_cons (char : Char) (rest : List Char) (trie : Trie) :
    (insert (char :: rest) trie).isTerminal = trie.isTerminal := by
  cases trie
  rfl

theorem isTerminal_insert_nil (trie : Trie) : (insert [] trie).isTerminal = true := by
  cases trie
  rfl

theorem holds_insert : (insert word trie).Holds path ↔ path = word ∨ trie.Holds path := by
  induction path generalizing word trie with
  | nil =>
      cases word with
      | nil => simp [holds_nil, isTerminal_insert_nil]
      | cons char rest => simp [holds_nil, isTerminal_insert_cons]
  | cons char path ih =>
      cases word with
      | nil => simp [holds_cons, get?_insert_nil]
      | cons first rest =>
          simp only [holds_cons, get?_insert]
          by_cases same : char = first
          · subst same
            simp only [if_pos, Option.some.injEq, exists_eq_left', ih, List.cons.injEq, true_and]
            cases trie.get? char with
            | none => simp [not_holds_empty]
            | some branch => simp
          · simp [same]

theorem holds_foldl (words : List String) :
    (words.foldl (fun trie word => insert word.toList trie) trie).Holds path ↔
      String.ofList path ∈ words ∨ trie.Holds path := by
  induction words generalizing trie with
  | nil => simp
  | cons word rest ih =>
      have same : path = word.toList ↔ String.ofList path = word := by
        rw [← String.toList_inj, String.toList_ofList]
      rw [List.foldl_cons, ih, holds_insert, same, List.mem_cons]
      exact or_left_comm.trans or_assoc.symm

theorem holds_ofWords {words : List String} :
    (ofWords words).Holds path ↔ String.ofList path ∈ words := by
  rw [ofWords, holds_foldl]
  simp [not_holds_empty]

/-- Branches are in the order of their characters, and none is dead: some word ends in each. -/
inductive Canonical : Trie → Prop where
  | node {terminal : Bool} {branches : List (Char × Trie)}
      (ordered : branches.Pairwise fun first second => first.1 < second.1)
      (live : ∀ branch ∈ branches, ∃ word, branch.2.Holds word)
      (each : ∀ branch ∈ branches, Canonical branch.2) : Canonical (.node terminal branches)

variable {branches : List (Char × Trie)} {char : Char}

theorem mem_of_findBranch (found : findBranch char branches = some trie) :
    (char, trie) ∈ branches := by
  induction branches with
  | nil => cases found
  | cons branch rest ih =>
      obtain ⟨other, held⟩ := branch
      rw [findBranch] at found
      split at found
      next same => cases found; rw [same]; exact List.mem_cons_self
      next => exact List.mem_cons_of_mem _ (ih found)

theorem findBranch_of_mem (ordered : branches.Pairwise fun first second => first.1 < second.1)
    (member : (char, trie) ∈ branches) : findBranch char branches = some trie := by
  induction branches with
  | nil => cases member
  | cons branch rest ih =>
      obtain ⟨other, held⟩ := branch
      obtain ⟨later, ordered⟩ := List.pairwise_cons.mp ordered
      rw [findBranch]
      rcases List.mem_cons.mp member with same | member
      · cases same
        exact if_pos rfl
      · rw [if_neg (ne_of_gt (later _ member)), ih ordered member]

theorem mem_putBranch {entry : Char × Trie} (member : entry ∈ putBranch char trie branches) :
    entry = (char, trie) ∨ entry ∈ branches := by
  induction branches with
  | nil => exact .inl (List.mem_singleton.mp member)
  | cons branch rest ih =>
      rw [putBranch] at member
      split at member
      next => exact (List.mem_cons.mp member).imp_right (List.mem_cons_of_mem _)
      next =>
        split at member
        next => exact List.mem_cons.mp member
        next =>
          rcases List.mem_cons.mp member with rfl | member
          · exact .inr List.mem_cons_self
          · exact (ih member).imp_right (List.mem_cons_of_mem _)

theorem ordered_putBranch (ordered : branches.Pairwise fun first second => first.1 < second.1)
    (char : Char) (trie : Trie) :
    (putBranch char trie branches).Pairwise fun first second => first.1 < second.1 := by
  induction branches with
  | nil => exact List.pairwise_singleton _ _
  | cons branch rest ih =>
      obtain ⟨other, held⟩ := branch
      obtain ⟨later, orderedRest⟩ := List.pairwise_cons.mp ordered
      rw [putBranch]
      split
      next same => subst same; exact List.pairwise_cons.mpr ⟨later, orderedRest⟩
      next differs =>
        split
        next before =>
          refine List.pairwise_cons.mpr ⟨fun entry member => ?_, ordered⟩
          rcases List.mem_cons.mp member with rfl | member
          · exact before
          · exact lt_trans before (later entry member)
        next behind =>
          refine List.pairwise_cons.mpr ⟨fun entry member => ?_, ih orderedRest⟩
          rcases mem_putBranch member with rfl | member
          · exact lt_of_le_of_ne (not_lt.mp behind) (Ne.symm differs)
          · exact later entry member

theorem canonical_empty : empty.Canonical := .node .nil nofun nofun

theorem Canonical.insert (canonical : trie.Canonical) (word : List Char) :
    (insert word trie).Canonical := by
  induction word generalizing trie with
  | nil =>
      obtain ⟨ordered, live, each⟩ := canonical
      exact .node ordered live each
  | cons char rest ih =>
      obtain @⟨terminal, branches, ordered, live, each⟩ := canonical
      -- The branch that the rest goes into is there already, or it is new and holds nothing yet.
      have within : ((findBranch char branches).getD empty).Canonical := by
        cases found : findBranch char branches with
        | none => exact canonical_empty
        | some branch => exact each _ (mem_of_findBranch found)
      refine .node (ordered_putBranch ordered char _) (fun branch member => ?_) fun branch member => ?_
      · rcases mem_putBranch member with rfl | member
        · exact ⟨rest, holds_insert.mpr (.inl rfl)⟩
        · exact live branch member
      · rcases mem_putBranch member with rfl | member
        · exact ih within
        · exact each branch member

theorem canonical_ofWords (words : List String) : (ofWords words).Canonical := by
  unfold ofWords
  generalize empty = trie, canonical_empty = canonical
  induction words generalizing trie with
  | nil => exact canonical
  | cons word rest ih => exact ih _ (canonical.insert word.toList)

theorem Canonical.branch (canonical : trie.Canonical) {branch : Trie}
    (found : trie.get? char = some branch) : branch.Canonical ∧ ∃ word, branch.Holds word := by
  obtain ⟨-, live, each⟩ := canonical
  have member := mem_of_findBranch found
  exact ⟨each _ member, live _ member⟩

theorem exists_branch (same : ∀ word, trie.Holds word ↔ other.Holds word) {branch : Trie}
    (found : trie.get? char = some branch) (live : ∃ word, branch.Holds word) :
    ∃ twin, other.get? char = some twin ∧ ∀ word, branch.Holds word ↔ twin.Holds word := by
  have goesOn (word : List Char) :
      branch.Holds word ↔ ∃ twin, other.get? char = some twin ∧ twin.Holds word := by
    rw [← holds_cons, ← same, holds_cons]
    simp [found]
  obtain ⟨word, held⟩ := live
  obtain ⟨twin, foundToo, -⟩ := (goesOn word).mp held
  refine ⟨twin, foundToo, fun word => ?_⟩
  rw [goesOn]
  simp [foundToo]

/-- Tries of this shape in which the same words end are equal. -/
theorem Canonical.ext (canonical : trie.Canonical) (canonicalToo : other.Canonical)
    (same : ∀ word, trie.Holds word ↔ other.Holds word) : trie = other := by
  -- On the shape of the first. A branch of either is one of the other: as it is not dead, some word
  -- leads into it, and by induction the branch that the same word leads into there is equal to it.
  induction canonical generalizing other with
  | @node terminal branches ordered live each ih =>
      obtain @⟨terminalToo, twins, orderedToo, liveToo, eachToo⟩ := canonicalToo
      have terminals : terminal = terminalToo := by
        simpa only [holds_nil, isTerminal, Bool.coe_iff_coe] using same []
      have subset : branches ⊆ twins := by
        rintro ⟨char, branch⟩ member
        obtain ⟨twin, found, alike⟩ :=
          exists_branch same (findBranch_of_mem ordered member) (live _ member)
        have memberToo := mem_of_findBranch found
        have equal : branch = twin := ih _ member (eachToo _ memberToo) alike
        exact equal ▸ memberToo
      have supset : twins ⊆ branches := by
        rintro ⟨char, twin⟩ memberToo
        obtain ⟨branch, found, alike⟩ := exists_branch (fun word => (same word).symm)
          (findBranch_of_mem orderedToo memberToo) (liveToo _ memberToo)
        have member := mem_of_findBranch found
        have equal : branch = twin :=
          ih _ member (eachToo _ memberToo) fun word => (alike word).symm
        exact equal ▸ member
      have : Std.Antisymm fun first second : Char × Trie => first.1 < second.1 :=
        ⟨fun _ _ before behind => (lt_asymm before behind).elim⟩
      have : Std.Irrefl fun first second : Char × Trie => first.1 < second.1 :=
        ⟨fun _ => lt_irrefl _⟩
      rw [terminals, List.Subset.antisymm_of_pairwise ordered orderedToo subset supset]

theorem ofWords_inj_iff {words others : List String} :
    ofWords words = ofWords others ↔ ∀ word, word ∈ words ↔ word ∈ others := by
  constructor
  · intro same word
    rw [← String.ofList_toList (s := word), ← holds_ofWords, same, holds_ofWords]
  · intro same
    refine (canonical_ofWords words).ext (canonical_ofWords others) fun word => ?_
    rw [holds_ofWords, holds_ofWords, same]

def tails (char : Char) (words : List String) : List String :=
  words.filterMap fun word =>
    match word.toList with
    | [] => none
    | first :: rest => if first = char then some (String.ofList rest) else none

theorem mem_tails {words : List String} :
    String.ofList path ∈ tails char words ↔ String.ofList (char :: path) ∈ words := by
  rw [tails, List.mem_filterMap]
  constructor
  · rintro ⟨word, member, begins⟩
    split at begins
    next => cases begins
    next first rest chars =>
      split at begins
      next same =>
        obtain rfl := String.ofList_injective (Option.some.inj begins)
        rwa [← same, ← chars, String.ofList_toList]
      next => cases begins
  · intro member
    exact ⟨_, member, by simp⟩

/-- The branch of a character is the trie of what follows it; there is one if some word begins with the
character. -/
theorem get?_ofWords (words : List String) (char : Char) :
    (ofWords words).get? char =
      if tails char words = [] then none else some (ofWords (tails char words)) := by
  have goesOn (word : List Char) :
      (∃ branch, (ofWords words).get? char = some branch ∧ branch.Holds word) ↔
        (ofWords (tails char words)).Holds word := by
    rw [← holds_cons, holds_ofWords, holds_ofWords, mem_tails]
  cases found : (ofWords words).get? char with
  | none =>
      rw [if_pos]
      refine List.eq_nil_iff_forall_not_mem.mpr fun word member => ?_
      rw [← String.ofList_toList (s := word), ← holds_ofWords, ← goesOn, found] at member
      obtain ⟨branch, impossible, -⟩ := member
      cases impossible
  | some branch =>
      have alike (word : List Char) :
          branch.Holds word ↔ (ofWords (tails char words)).Holds word := by
        rw [← goesOn]
        simp [found]
      obtain ⟨canonical, word, held⟩ := (canonical_ofWords words).branch found
      have member := holds_ofWords.mp ((alike word).mp held)
      rw [if_neg (List.ne_nil_of_mem member), canonical.ext (canonical_ofWords _) alike]

theorem follow?_append (trie : Trie) (path more : List Char) :
    trie.follow? (path ++ more) = (trie.follow? path).bind fun node => node.follow? more := by
  induction path generalizing trie with
  | nil => rfl
  | cons char path ih =>
      rw [List.cons_append, follow?, follow?]
      cases trie.get? char with
      | none => rfl
      | some branch => exact ih branch

theorem isEmpty_iff : trie.isEmpty = true ↔ ∀ char, trie.get? char = none := by
  obtain ⟨terminal, branches⟩ := trie
  cases branches with
  | nil => exact ⟨fun _ _ => rfl, fun _ => rfl⟩
  | cons branch rest =>
      refine ⟨nofun, fun none => ?_⟩
      have found : get? (.node terminal (branch :: rest)) branch.1 = some branch.2 := if_pos rfl
      rw [none] at found
      cases found

theorem isTerminal_iff {node : Trie} (leads : trie.follow? path = some node) :
    node.isTerminal = true ↔ trie.Holds path := by
  simp [Holds, leads]

theorem isEmpty_ofWords {words : List String} {node : Trie}
    (leads : (ofWords words).follow? path = some node) :
    node.isEmpty = true ↔ ¬ ∃ word ∈ words, path <+: word.toList ∧ path ≠ word.toList := by
  have goesOn (char : Char) : (node.get? char).isSome ↔ BeginsWord words (path ++ [char]) := by
    rw [← follow?_ofWords_isSome (List.append_ne_nil_of_right_ne_nil _ (List.cons_ne_nil _ _)),
      follow?_append, leads]
    simp [follow?]
  rw [isEmpty_iff]
  constructor
  · rintro none ⟨word, member, ⟨rest, same⟩, further⟩
    cases rest with
    | nil => exact further (by rw [← same, List.append_nil])
    | cons char rest =>
        have found := (goesOn char).mpr ⟨word, member, rest, by rw [← same]; simp⟩
        rw [none] at found
        cases found
  · intro whole char
    rw [← Option.not_isSome_iff_eq_none, goesOn]
    rintro ⟨word, member, begins⟩
    refine whole ⟨word, member, (List.prefix_append path [char]).trans begins, fun same => ?_⟩
    have long := begins.length_le
    rw [← same, List.length_append] at long
    exact absurd long (by simp)

theorem begins_munch (words : List String) (text : List Char) :
    BeginsWord words ((ofWords words).munch text) ∨
      words = [] ∧ (ofWords words).munch text = [] := by
  by_cases nothing : (ofWords words).munch text = []
  · rw [nothing]
    cases words with
    | nil => exact .inr ⟨rfl, rfl⟩
    | cons word rest => exact .inl ⟨word, List.mem_cons_self, List.nil_prefix⟩
  · exact .inl ((follow?_ofWords_isSome nothing).mp (follow?_munch_isSome _ _))

theorem prefix_munch_ofWords {words : List String} {text : List Char} (begins : path <+: text)
    (beginsWord : BeginsWord words path) : path <+: (ofWords words).munch text := by
  by_cases nothing : path = []
  · rw [nothing]
    exact List.nil_prefix
  · exact prefix_munch begins ((follow?_ofWords_isSome nothing).mpr beginsWord)

theorem byteSize_eq (text : List Char) : Text.byteSize text = (String.ofList text).utf8ByteSize := by
  induction text with
  | nil => rfl
  | cons char rest ih =>
      rw [Text.byteSize, ih, String.utf8ByteSize_ofList, String.utf8ByteSize_ofList,
        String.utf8Len_cons, Nat.add_comm]

/-- A trie is the set of the beginnings of its words. A path of at least one character leads somewhere
just when it begins a word, to a place where a word ends just when it is one, and to one without
branches just when no word goes on after it; what is munched is the longest beginning of a text that
also begins a word, counted in bytes; and tries are equal just when they are made of the same words. -/
theorem ofWords_prefix_set (words : List String) :
    (∀ path, path ≠ [] → (((ofWords words).follow? path).isSome ↔ BeginsWord words path)) ∧
    (∀ path node, (ofWords words).follow? path = some node →
      (node.isTerminal = true ↔ String.ofList path ∈ words) ∧
      (node.isEmpty = true ↔ ¬ ∃ word ∈ words, path <+: word.toList ∧ path ≠ word.toList)) ∧
    (∀ input : String, ∃ longest : String,
      (ofWords words).munchSize input.toList = longest.utf8ByteSize ∧
      longest.toList <+: input.toList ∧
      (BeginsWord words longest.toList ∨ words = [] ∧ longest = "") ∧
      ∀ path, path <+: input.toList → BeginsWord words path → path <+: longest.toList) ∧
    ∀ others, ofWords words = ofWords others ↔ ∀ word, word ∈ words ↔ word ∈ others := by
  refine ⟨fun path some => follow?_ofWords_isSome some, fun path node leads => ⟨?_, ?_⟩, ?_,
    fun others => ofWords_inj_iff⟩
  · rw [isTerminal_iff leads, holds_ofWords]
  · exact isEmpty_ofWords leads
  · intro input
    refine ⟨String.ofList ((ofWords words).munch input.toList), (munchSize_eq _ _).trans (byteSize_eq _), ?_⟩
    rw [String.toList_ofList, String.ofList_eq_empty_iff]
    have within := munch_prefix (ofWords words) input.toList
    exact ⟨within, begins_munch _ _, fun path => prefix_munch_ofWords⟩

/-- The two characters that both have take one byte and three. -/
example : (ofWords ["<…>", "<"]).munchSize "<…/".toList = 4 := by decide

end Parlance.Trie
