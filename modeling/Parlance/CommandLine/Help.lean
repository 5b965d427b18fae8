/-! What the program says about itself. -/

namespace Parlance.CommandLine

def padTo (width : Nat) (text : String) : String :=
  text ++ String.ofList (List.replicate (width - text.length) ' ')

def versionText : String := "lingo 0.1.0\n"

structure OptionHelp where
  letter : Option Char
  long : String
  about : String

def optionHelps : List OptionHelp := [
  ⟨some 'c', "config <config>",
    "Processing configuration (e.g., 'translate', 'ast-json', 'tokens') [default: translate]"⟩,
  ⟨some 'd', "dialect <dialect>", "Dialect the source is written in [default: sugar]"⟩,
  ⟨some 's', "settings <settings>", "TOML settings file layered over the built-in defaults"⟩,
  ⟨some 'v', "verbose", "Log grammar construction at debug level"⟩,
  ⟨none, "list-configs", "List available processing configurations"⟩,
  ⟨none, "list-dialects", "List registered dialects"⟩,
  ⟨some 'h', "help", "Print help"⟩,
  ⟨some 'V', "version", "Print version"⟩]

def optionLine (width : Nat) (help : OptionHelp) : String :=
  let letter := match help.letter with
    | some letter => "-" ++ letter.toString ++ ", "
    | none => "    "
  "  " ++ letter ++ "--" ++ padTo width help.long ++ "  " ++ help.about ++ "\n"

def helpText : String :=
  let width := (optionHelps.map (·.long.length)).foldl max 0
  "A tool for parsing and translating dialect source files\n\n" ++
    "Usage: lingo [OPTIONS] [path]\n\n" ++
    "Arguments:\n  [path]  Path to the source file\n\n" ++
    "Options:\n" ++ String.join (optionHelps.map (optionLine width))

end Parlance.CommandLine
