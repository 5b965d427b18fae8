import Parlance.Pipeline.Configuration
import Parlance.Dialect.Work
import Parlance.Text.Json
import Parlance.Text.Yaml

/-! Running a configuration on source text. -/

namespace Parlance

inductive PipelineFailure where
  | unknownConfiguration (name : String)
  | failed (failure : Failure)

def PipelineFailure.message : PipelineFailure → String
  | .unknownConfiguration name => "config '" ++ name ++ "' not found"
  | .failed failure => failure.message

namespace Configuration

def renderTree : TreeFormat → Tree → String
  | .json, tree => Text.jsonPretty 0 tree
  | .yaml, tree => Text.Yaml.document tree

def output (configuration : Configuration) (dialect source : String) (origin : Option String) :
    Registry.Work String := do
  match configuration.target with
  | .tokens =>
      let tokens ← Registry.tokenize dialect source
      pure (Text.jsonPretty 0 (.list (tokens.map Token.describe)))
  | .tree format =>
      let tree ← Registry.parseSource dialect source origin
      pure (renderTree format tree)
  | .translation => Registry.translate dialect source origin
  | .trace =>
      let record ← Registry.traceSource dialect source origin
      pure (Text.jsonPretty 0 record.describe)

end Configuration

/-- A configuration that is not there is reported before anything is asked of the dialect. -/
def Configurations.execute (configurations : Configurations) (name dialect source : String)
    (origin : Option String) (registry : Registry) : Except PipelineFailure String × Registry :=
  match Index.get? name configurations with
  | none => (.error (.unknownConfiguration name), registry)
  | some configuration =>
      match (do
        discard (Registry.find dialect)
        configuration.output dialect source origin : Registry.Work String).run.run registry with
      | (.ok output, registry) => (.ok output, registry)
      | (.error failure, registry) => (.error (.failed failure), registry)

end Parlance
