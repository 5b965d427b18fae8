import Parlance.Dialect.Derive
import Parlance.Failure
import Parlance.Parse.Parser
import Parlance.Node.Translate
import Parlance.Node.Writer

/-! What a dialect does with source text and trees: tokenizing, parsing, translating and writing. -/

namespace Parlance.Registry

/-- Work that may fail, on a registry that keeps what is derived on the way. -/
abbrev Work (α : Type) := ExceptT Failure (StateM Registry) α

def ask {α : Type} (query : Registry → Answer α) : Work α := fun registry =>
  match query registry with
  | (.ok value, registry) => (.ok value, registry)
  | (.error fault, registry) => (.error (.definition fault), registry)

def treeResult {α : Type} (result : Except TreeFault α) : Work α :=
  match result with
  | .ok value => pure value
  | .error fault => throw (.tree fault)

def find (name : String) : Work Dialect := ask fun registry => (registry.dialect name, registry)

def tokenize (name source : String) : Work (List Token) := do
  let lexicon ← ask (lexicon name)
  pure (lexicon.tokenize source)

def parser (name : String) : Work Parser := do
  let grammar ← ask (grammar name)
  let dialect ← find name
  pure ⟨grammar, dialect.maxDepth⟩

/-- The verdict of a parse; a parse that does not end is a fault of the grammar. -/
def settle : Option Verdict → Work (Except SyntaxError Tree × List Nat)
  | some (.parsed outcome log) => pure (outcome, log)
  | some (.broken fault) => throw (.definition fault)
  | none => throw (.definition .unending)

def parseFrom (name start source : String) (origin : Option String) : Work Tree := do
  let tokens ← tokenize name source
  let parser ← parser name
  let (outcome, _) ← settle (parser.run start tokens origin false)
  match outcome with
  | .ok tree => pure tree
  | .error error => throw (.source error)

def parseSource (name source : String) (origin : Option String) : Work Tree := do
  let dialect ← find name
  parseFrom name dialect.start source origin

/-- Like parsing, but with a trace and with a syntax error as part of the record. -/
def traceSource (name source : String) (origin : Option String) : Work TraceRecord := do
  let dialect ← find name
  let tokens ← tokenize name source
  let parser ← parser name
  let (outcome, log) ← settle (parser.run dialect.start tokens origin true)
  pure ⟨log, tokens, outcome⟩

def translateTree (name : String) (tree : Tree) : Work Tree := do
  let types ← ask (types name)
  treeResult (tree.translate types)

def unparse (name : String) (tree : Tree) : Work String := do
  let types ← ask (types name)
  let registry ← get
  treeResult (tree.unparse types registry.settings.indentUnit)

def translate (name source : String) (origin : Option String) : Work String := do
  let tree ← parseSource name source origin
  let translated ← translateTree name tree
  unparse name translated

def traceTranslate (name source : String) (origin : Option String) : Work TraceRecord := do
  let record ← traceSource name source origin
  match record.outcome with
  | .error _ => pure record
  | .ok tree =>
      let translated ← translateTree name tree
      let text ← unparse name translated
      pure { record with outcome := .ok (.text text) }

end Parlance.Registry
