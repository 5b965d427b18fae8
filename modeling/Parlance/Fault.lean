/-! What can be wrong with a definition of dialects. None of it depends on source text. -/

namespace Parlance

inductive DefinitionFault where
  | unknownFragment (name : String)
  | unknownDialect (name : String)
  | emptyFragment (name : String)
  | unresolvedRule (name : String)
  | missingStart (dialect rule : String)
  | cyclicDialect (name : String)
  | unending
  deriving DecidableEq

def DefinitionFault.message : DefinitionFault → String
  | .unknownFragment name => "unknown fragment '" ++ name ++ "'"
  | .unknownDialect name => "unknown dialect '" ++ name ++ "'"
  | .emptyFragment name => "fragment '" ++ name ++ "' did not provide a syntax"
  | .unresolvedRule name => "no rule named '" ++ name ++ "'"
  | .missingStart dialect rule =>
      "dialect '" ++ dialect ++ "' starts at '" ++ rule ++ "', which has no productions"
  | .cyclicDialect name => "dialect '" ++ name ++ "' inherits from itself"
  | .unending => "the query does not end"

end Parlance
