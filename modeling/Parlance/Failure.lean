import Parlance.Fault
import Parlance.Tree.Fault
import Parlance.Parse.SyntaxError

/-! Why work on source text came to nothing. -/

namespace Parlance

inductive Failure where
  | definition (fault : DefinitionFault)
  | source (error : SyntaxError)
  | tree (fault : TreeFault)

def Failure.message : Failure → String
  | .definition fault => fault.message
  | .source error => error.message
  | .tree fault => fault.message

end Parlance
