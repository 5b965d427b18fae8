import Parlance.Index

/-! Configurations: how far source text is taken, and how the result is rendered. -/

namespace Parlance

inductive TreeFormat where
  | json
  | yaml
  deriving DecidableEq

inductive Target where
  | tokens
  | tree (format : TreeFormat)
  | translation
  | trace
  deriving DecidableEq

structure Configuration where
  name : String
  description : String
  target : Target
  deriving DecidableEq

abbrev Configurations := List (String × Configuration)

namespace Configurations

def register (configurations : Configurations) (configuration : Configuration) : Configurations :=
  Index.insert configuration.name configuration configurations

def all (configurations : Configurations) : List Configuration := configurations.map Prod.snd

def standard : Configurations :=
  [ ⟨"tokens", "Tokenize with the dialect's keywords and punctuators, output tokens", .tokens⟩,
    ⟨"ast-json", "Parse and serialize the tree as JSON", .tree .json⟩,
    ⟨"ast-yaml", "Parse and serialize the tree as YAML", .tree .yaml⟩,
    ⟨"translate", "Parse, translate to the base language and unparse", .translation⟩,
    ⟨"trace", "Parse with tracing, output the trace record as JSON", .trace⟩ ].foldl register []

end Configurations

end Parlance
