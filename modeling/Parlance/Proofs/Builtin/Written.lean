import Parlance.Node.Writer
import Parlance.Proofs.Builtin.Formula

/-! Statements as trees beside the tokens that they are written as. The relation alone does not tell
which `if` an `else` belongs to; `LeavesElse` and `Dangles` do. -/

namespace Parlance.Builtin

def lineBreak (unit : String) (level : Nat) : Token := .soft (Writer.lineStart unit level)

def declarator (name : String) (init : Tree) : Tree :=
  .node "VariableDeclarator" [("id", identifier name), ("init", init)]

def branch (test consequent alternate : Tree) : Tree :=
  .node "IfStatement" [("test", test), ("consequent", consequent), ("alternate", alternate)]

def loopNode (test body : Tree) : Tree := .node "WhileStatement" [("test", test), ("body", body)]

def unlessNode (test body : Tree) : Tree := .node "UnlessStatement" [("test", test), ("body", body)]

def guard (word : String) (test : List Token) : List Token :=
  .literal word :: .soft " " :: .literal "(" :: test ++ [.literal ")", .soft " "]

inductive Part where
  | statement
  | statements
  | declarator
  | declarators

/-- A tree as statements or declarators, at a level of indentation, and the tokens it is written as.
-/
inductive Written (lexicon : Lexicon) (unit : String) (sugar : Bool) :
    Part → Nat → Tree → List Token → Prop where
  | emptyBlock {level : Nat} :
      Written lexicon unit sugar .statement level (.node "BlockStatement" [("body", .list [])])
        [.literal "\x7b", .literal "\x7d"]
  | block {level : Nat} {values : List Tree} {tokens : List Token}
      (body : Written lexicon unit sugar .statements (level + 1) (.list values) tokens) :
      Written lexicon unit sugar .statement level (.node "BlockStatement" [("body", .list values)])
        (.literal "\x7b" :: lineBreak unit (level + 1) :: tokens ++
          [lineBreak unit level, .literal "\x7d"])
  | declaration {level : Nat} {kind : String} {values : List Tree} {tokens : List Token}
      (isKind : kind ∈ declarationKinds)
      (given : Written lexicon unit sugar .declarators level (.list values) tokens) :
      Written lexicon unit sugar .statement level
        (.node "VariableDeclaration" [("kind", .text kind), ("declarations", .list values)])
        (.literal kind :: .soft " " :: tokens ++ [.literal ";"])
  | conditional {level : Nat} {test consequent : Tree} {tokens more : List Token}
      (tested : Formula lexicon .assignment test tokens)
      (body : Written lexicon unit sugar .statement level consequent more) :
      Written lexicon unit sugar .statement level (branch test consequent .null)
        (guard "if" tokens ++ more)
  | conditionalElse {level : Nat} {test consequent alternate : Tree} {tokens more last : List Token}
      (tested : Formula lexicon .assignment test tokens)
      (body : Written lexicon unit sugar .statement level consequent more)
      (otherwise : Written lexicon unit sugar .statement level alternate last) :
      Written lexicon unit sugar .statement level (branch test consequent alternate)
        (guard "if" tokens ++ more ++ spaced "else" ++ last)
  | loop {level : Nat} {test body : Tree} {tokens more : List Token}
      (tested : Formula lexicon .assignment test tokens)
      (repeated : Written lexicon unit sugar .statement level body more) :
      Written lexicon unit sugar .statement level (loopNode test body)
        (guard "while" tokens ++ more)
  | returning {level : Nat} :
      Written lexicon unit sugar .statement level (.node "ReturnStatement" [("argument", .null)])
        [.literal "return", .literal ";"]
  | returningValue {level : Nat} {tree : Tree} {tokens : List Token}
      (value : Formula lexicon .assignment tree tokens) :
      Written lexicon unit sugar .statement level (.node "ReturnStatement" [("argument", tree)])
        (.literal "return" :: .soft " " :: tokens ++ [.literal ";"])
  | empty {level : Nat} :
      Written lexicon unit sugar .statement level (.node "EmptyStatement" []) [.literal ";"]
  | expression {level : Nat} {tree : Tree} {tokens : List Token}
      (value : Formula lexicon .assignment tree tokens) :
      Written lexicon unit sugar .statement level
        (.node "ExpressionStatement" [("expression", tree)]) (tokens ++ [.literal ";"])
  | inverted {level : Nat} {test body : Tree} {tokens more : List Token} (sweet : sugar = true)
      (tested : Formula lexicon .assignment test tokens)
      (avoided : Written lexicon unit sugar .statement level body more) :
      Written lexicon unit sugar .statement level (unlessNode test body)
        (guard "unless" tokens ++ more)
  | statement {level : Nat} {tree : Tree} {tokens : List Token}
      (only : Written lexicon unit sugar .statement level tree tokens) :
      Written lexicon unit sugar .statements level (.list [tree]) tokens
  | nextStatement {level : Nat} {tree : Tree} {values : List Tree} {tokens more : List Token}
      (first : Written lexicon unit sugar .statement level tree tokens)
      (later : Written lexicon unit sugar .statements level (.list values) more) :
      Written lexicon unit sugar .statements level (.list (tree :: values))
        (tokens ++ lineBreak unit level :: more)
  | bareDeclarator {level : Nat} {name : String}
      (reads : lexicon.Reads (.hard Lexicon.identifierClass name)) :
      Written lexicon unit sugar .declarator level (declarator name .null)
        [.hard Lexicon.identifierClass name]
  | initialized {level : Nat} {name : String} {tree : Tree} {tokens : List Token}
      (reads : lexicon.Reads (.hard Lexicon.identifierClass name))
      (value : Formula lexicon .assignment tree tokens) :
      Written lexicon unit sugar .declarator level (declarator name tree)
        (.hard Lexicon.identifierClass name :: spaced "=" ++ tokens)
  | declarator {level : Nat} {tree : Tree} {tokens : List Token}
      (only : Written lexicon unit sugar .declarator level tree tokens) :
      Written lexicon unit sugar .declarators level (.list [tree]) tokens
  | nextDeclarator {level : Nat} {tree : Tree} {values : List Tree} {tokens more : List Token}
      (first : Written lexicon unit sugar .declarator level tree tokens)
      (later : Written lexicon unit sugar .declarators level (.list values) more) :
      Written lexicon unit sugar .declarators level (.list (tree :: values))
        (tokens ++ comma ++ more)

def program (values : List Tree) : Tree := .node "Program" [("body", .list values)]

/-- A program and the tokens it is written as, which are none if it has no statements. -/
inductive WrittenProgram (lexicon : Lexicon) (unit : String) (sugar : Bool) :
    Tree → List Token → Prop where
  | empty : WrittenProgram lexicon unit sugar (program []) []
  | statements {values : List Tree} {tokens : List Token}
      (body : Written lexicon unit sugar .statements 0 (.list values) tokens) :
      WrittenProgram lexicon unit sugar (program values) tokens

theorem Written.ne_null {lexicon : Lexicon} {unit : String} {sugar : Bool} {part : Part}
    {level : Nat} {tree : Tree} {tokens : List Token}
    (written : Written lexicon unit sugar part level tree tokens) : tree ≠ .null := by
  cases written with
  | statement | nextStatement | declarator | nextDeclarator => exact nofun
  | _ => exact Tree.node_ne_null _ _

/-- The statement ends in an `if` that could take an `else` behind it. -/
inductive LeavesElse : Tree → Prop where
  | conditional (test consequent : Tree) : LeavesElse (branch test consequent .null)
  | alternate (test consequent : Tree) {alternate : Tree} (leaves : LeavesElse alternate) :
      LeavesElse (branch test consequent alternate)
  | loop (test : Tree) {body : Tree} (leaves : LeavesElse body) : LeavesElse (loopNode test body)
  | inverted (test : Tree) {body : Tree} (leaves : LeavesElse body) :
      LeavesElse (unlessNode test body)

/-- The `else` of the statement stands behind another `if` that takes it. -/
def Misplaces (tree : Tree) : Prop :=
  ∃ test consequent alternate, tree = branch test consequent alternate ∧ alternate ≠ .null ∧
    LeavesElse consequent

/-- Somewhere in the tree an `else` stands behind another `if` that takes it. -/
def Dangles (tree : Tree) : Prop := tree.Occurs Misplaces

theorem branch_distinct {test consequent alternate : Tree} : Tree.Distinct
    [("test", test), ("consequent", consequent), ("alternate", alternate)] :=
  .three (by decide)

theorem guarded_distinct {test body : Tree} : Tree.Distinct [("test", test), ("body", body)] :=
  .two (by decide)

theorem branch_inj {test consequent alternate test' consequent' alternate' : Tree}
    (same : branch test consequent alternate = branch test' consequent' alternate') :
    test = test' ∧ consequent = consequent' ∧ alternate = alternate' := by
  have fields := (Tree.node_inj branch_distinct branch_distinct same).2
  exact ⟨Option.some.inj (fields "test"), Option.some.inj (fields "consequent"),
    Option.some.inj (fields "alternate")⟩

theorem LeavesElse.typed {tree : Tree} (leaves : LeavesElse tree) :
    ∃ name ∈ ["IfStatement", "WhileStatement", "UnlessStatement"], tree.nodeType? = some name := by
  cases leaves with
  | conditional | alternate => exact ⟨_, by decide, Tree.nodeType?_node branch_distinct⟩
  | loop | inverted => exact ⟨_, by decide, Tree.nodeType?_node guarded_distinct⟩

theorem not_leavesElse {typeName : String} {fields : List (String × Tree)}
    (distinct : Tree.Distinct fields)
    (other : typeName ∉ ["IfStatement", "WhileStatement", "UnlessStatement"]) :
    ¬ LeavesElse (.node typeName fields) := by
  intro leaves
  obtain ⟨name, listed, typed⟩ := leaves.typed
  rw [Tree.nodeType?_node distinct] at typed
  exact other (Option.some.inj typed ▸ listed)

theorem LeavesElse.of_branch {test consequent alternate : Tree}
    (leaves : LeavesElse (branch test consequent alternate)) :
    alternate = .null ∨ LeavesElse alternate := by
  generalize same : branch test consequent alternate = tree at leaves
  cases leaves with
  | conditional => exact .inl (branch_inj same).2.2
  | alternate _ _ leaves => exact .inr ((branch_inj same).2.2 ▸ leaves)
  | loop => exact absurd same (Tree.node_ne branch_distinct guarded_distinct (by decide))
  | inverted => exact absurd same (Tree.node_ne branch_distinct guarded_distinct (by decide))

theorem LeavesElse.of_loop {test body : Tree} (leaves : LeavesElse (loopNode test body)) :
    LeavesElse body := by
  generalize same : loopNode test body = tree at leaves
  cases leaves with
  | conditional => exact absurd same (Tree.node_ne guarded_distinct branch_distinct (by decide))
  | alternate => exact absurd same (Tree.node_ne guarded_distinct branch_distinct (by decide))
  | loop _ leaves =>
      have fields := (Tree.node_inj guarded_distinct guarded_distinct same).2
      exact Option.some.inj (fields "body") ▸ leaves
  | inverted => exact absurd same (Tree.node_ne guarded_distinct guarded_distinct (by decide))

theorem LeavesElse.of_unless {test body : Tree} (leaves : LeavesElse (unlessNode test body)) :
    LeavesElse body := by
  generalize same : unlessNode test body = tree at leaves
  cases leaves with
  | conditional => exact absurd same (Tree.node_ne guarded_distinct branch_distinct (by decide))
  | alternate => exact absurd same (Tree.node_ne guarded_distinct branch_distinct (by decide))
  | loop => exact absurd same (Tree.node_ne guarded_distinct guarded_distinct (by decide))
  | inverted _ leaves =>
      have fields := (Tree.node_inj guarded_distinct guarded_distinct same).2
      exact Option.some.inj (fields "body") ▸ leaves

theorem misplaces_ofTypes : Tree.OfTypes Misplaces ["IfStatement"] := by
  rintro _ ⟨test, consequent, alternate, rfl, -⟩
  exact ⟨_, List.mem_singleton_self _, Tree.nodeType?_node branch_distinct⟩

theorem dangles_branch {test consequent alternate : Tree} :
    Dangles (branch test consequent alternate) ↔
      (alternate ≠ .null ∧ LeavesElse consequent) ∨ Dangles test ∨ Dangles consequent ∨
        Dangles alternate := by
  have here : Misplaces (branch test consequent alternate) ↔
      alternate ≠ .null ∧ LeavesElse consequent := by
    constructor
    · rintro ⟨test', consequent', alternate', same, some, leaves⟩
      obtain ⟨-, rfl, rfl⟩ := branch_inj same
      exact ⟨some, leaves⟩
    · rintro ⟨some, leaves⟩
      exact ⟨test, consequent, alternate, rfl, some, leaves⟩
  rw [Dangles, branch, misplaces_ofTypes.ofNodes.node_iff branch_distinct]
  simp [Dangles, ← here, branch]

theorem Formula.not_dangles {lexicon : Lexicon} {form : Form} {tree : Tree} {tokens : List Token}
    (formula : Formula lexicon form tree tokens) : ¬ Dangles tree :=
  formula.not_occurs misplaces_ofTypes (by decide)

theorem not_dangles_null : ¬ Dangles .null := misplaces_ofTypes.ofNodes.not_null

theorem not_dangles_node {typeName : String} {fields : List (String × Tree)}
    (distinct : Tree.Distinct fields) (other : typeName ∉ ["IfStatement"])
    (none : ∀ field ∈ fields, ¬ Dangles field.2) : ¬ Dangles (.node typeName fields) :=
  misplaces_ofTypes.not_node distinct other none

theorem not_dangles_list {items : List Tree} (none : ∀ item ∈ items, ¬ Dangles item) :
    ¬ Dangles (.list items) := by
  rw [Dangles, misplaces_ofTypes.ofNodes.list_iff]
  rintro ⟨item, member, occurs⟩
  exact none item member occurs

theorem dangles_of_field {typeName : String} {fields : List (String × Tree)} {name : String}
    {value : Tree} (distinct : Tree.Distinct fields) (member : (name, value) ∈ fields)
    (dangles : Dangles value) : Dangles (.node typeName fields) :=
  (misplaces_ofTypes.ofNodes.node_iff distinct).mpr (.inr ⟨_, member, dangles⟩)

end Parlance.Builtin
