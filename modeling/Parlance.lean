import Parlance.Main
import Parlance.Grammar.Workbench
import Parlance.Pattern.Describe
import Parlance.Tree.Outline
import Parlance.Proofs.Token.Lossless
import Parlance.Proofs.Token.Boundaries
import Parlance.Proofs.Builtin.Expressions
import Parlance.Proofs.Builtin.Conservative
import Parlance.Proofs.Parse.Ether
import Parlance.Proofs.Parse.Literals
import Parlance.Proofs.Parse.Reached
import Parlance.Proofs.Parse.Bounded
import Parlance.Proofs.Parse.Rounds
import Parlance.Proofs.Evaluation.Arity
import Parlance.Proofs.Dialect.Blame
import Parlance.Proofs.Dialect.Caching
import Parlance.Proofs.Dialect.SyntaxErrors
import Parlance.Proofs.Dialect.Words
import Parlance.Proofs.Dialect.Precedence
import Parlance.Proofs.Dialect.Validity
import Parlance.Proofs.Dialect.Tracing
import Parlance.Proofs.Builtin.Punctuation
import Parlance.Proofs.Builtin.Nesting
import Parlance.Proofs.Builtin.Projection
import Parlance.Proofs.Grammar.Snapshot
import Parlance.Proofs.Evaluation.ChoiceOrder
import Parlance.Proofs.Normalization.Idempotence
import Parlance.Proofs.Builtin.Integers
import Parlance.Proofs.Builtin.Levels
import Parlance.Proofs.Token.WordSet
import Parlance.Proofs.Node.Copying
import Parlance.Proofs.Parse.Session
