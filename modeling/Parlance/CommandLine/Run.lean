import Parlance.Builtin.Dialects
import Parlance.CommandLine.Help
import Parlance.CommandLine.Options
import Parlance.Pipeline.Execute
import Parlance.Settings.Loader

/-! What the command line program does, given the files it can see. -/

namespace Parlance.CommandLine

open Settings (Loader)

/-- How the program ends. Reports on malformed command lines and malformed settings are left open. -/
structure Exit where
  status : Nat
  output : String
  report : Option String
  deriving DecidableEq

def succeed (output : String) : Exit := ⟨0, output, none⟩

def fail (report : Option String) : Exit := ⟨1, "", report⟩

def padded (name : String) : String := padTo 12 name

def configurationLine (configuration : Configuration) : String :=
  "  " ++ padded configuration.name ++ " " ++ configuration.description ++ "\n"

def configurationList : String :=
  "Available configurations:\n\n" ++
    String.join (Configurations.standard.all.map configurationLine)

def dialectLine (dialect : Dialect) : String :=
  let fragments := ", ".intercalate dialect.fragments
  "  " ++ padded dialect.name ++ " " ++
    (match dialect.parent with
    | some parent => "extends " ++ parent ++ " with " ++ fragments
    | none => fragments) ++ "\n"

def dialectList (registry : Registry) : String :=
  "Available dialects:\n\n" ++ String.join (registry.dialects.map fun entry => dialectLine entry.2)

def settingsOf (folder : Folder) (options : Options) : Except SettingsFault Settings :=
  let loader := match options.settings with
    | some path => Loader.empty.addSource (.file path)
    | none => Loader.empty
  loader.build folder

def unreadable (path : String) (place : Place) : String :=
  let reason := match place with
    | .directory => "Is a directory (os error 21)"
    | .beyondFile => "Not a directory (os error 20)"
    | .tooLong => "File name too long (os error 36)"
    | _ => "No such file or directory (os error 2)"
  "Error reading file '" ++ path ++ "': " ++ reason ++ "\n"

def process (folder : Folder) (registry : Registry) (options : Options) : Exit :=
  let path := options.path.getD ""
  match folder.look path with
  | .file source =>
      let configuration := options.configuration.getD "translate"
      let dialect := options.dialect.getD "sugar"
      let execution :=
        Configurations.standard.execute configuration dialect source (some path) registry
      match execution.1 with
      | .ok output => succeed (output ++ "\n")
      | .error failure => fail (some (failure.message ++ "\n"))
  | place => fail (some (unreadable path place))

/-- Settings are read before anything else, also for listings. -/
def work (folder : Folder) (options : Options) : Exit :=
  match settingsOf folder options with
  | .error fault => fail (fault.message?.map fun message => "Settings error: " ++ message ++ "\n")
  | .ok settings =>
      let registry := Builtin.registry settings
      if options.listConfigurations then succeed configurationList
      else if options.listDialects then succeed (dialectList registry)
      else process folder registry options

def run (folder : Folder) (arguments : List String) : Exit :=
  match Request.ofArguments arguments with
  | .work options => work folder options
  | .version => succeed versionText
  | .help => succeed helpText
  | .misuse => ⟨2, "", none⟩

def wanted (arguments : List String) : List String :=
  match Request.ofArguments arguments with
  | .work options =>
      options.path.toList ++ options.settings.toList.flatMap fun path =>
        path :: (extendedPath? "toml" path).toList
  | _ => []

end Parlance.CommandLine
