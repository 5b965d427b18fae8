/-! Prefix trees over words. Branches are in the order of their characters and none is dead, so
equal sets of words have equal trees. -/

namespace Parlance

inductive Trie where
  | node (terminal : Bool) (branches : List (Char × Trie))
  deriving Inhabited

namespace Trie

def empty : Trie := .node false []

def isTerminal : Trie → Bool
  | .node terminal _ => terminal

def branches : Trie → List (Char × Trie)
  | .node _ branches => branches

def isEmpty (trie : Trie) : Bool := trie.branches.isEmpty

def findBranch (char : Char) : List (Char × Trie) → Option Trie
  | [] => none
  | (other, trie) :: rest => if char = other then some trie else findBranch char rest

def putBranch (char : Char) (trie : Trie) : List (Char × Trie) → List (Char × Trie)
  | [] => [(char, trie)]
  | (other, held) :: rest =>
      if char = other then (char, trie) :: rest
      else if char < other then (char, trie) :: (other, held) :: rest
      else (other, held) :: putBranch char trie rest

def get? (trie : Trie) (char : Char) : Option Trie := findBranch char trie.branches

def insert : List Char → Trie → Trie
  | [], .node _ branches => .node true branches
  | char :: rest, .node terminal branches =>
      .node terminal (putBranch char (insert rest ((findBranch char branches).getD empty)) branches)

def ofWords (words : List String) : Trie :=
  words.foldl (fun trie word => insert word.toList trie) empty

def follow? (trie : Trie) : List Char → Option Trie
  | [] => some trie
  | char :: rest => (trie.get? char).bind fun branch => branch.follow? rest

/-- The longest beginning of the text that can be followed; no word need end with it. -/
def munch (trie : Trie) : List Char → List Char
  | [] => []
  | char :: rest =>
      match trie.get? char with
      | some branch => char :: branch.munch rest
      | none => []

def munchSize (trie : Trie) : List Char → Nat
  | [] => 0
  | char :: rest =>
      match trie.get? char with
      | some branch => char.utf8Size + branch.munchSize rest
      | none => 0

theorem munch_append_drop (trie : Trie) (text : List Char) :
    trie.munch text ++ text.drop (trie.munch text).length = text := by
  induction text generalizing trie with
  | nil => rfl
  | cons char rest ih =>
      simp only [munch]
      cases trie.get? char with
      | none => rfl
      | some branch => simp [ih]

end Trie

end Parlance
