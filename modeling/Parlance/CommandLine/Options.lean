/-! Command-line options. -/

namespace Parlance.CommandLine

structure Options where
  path : Option String
  configuration : Option String
  dialect : Option String
  settings : Option String
  verbose : Bool
  listConfigurations : Bool
  listDialects : Bool
  deriving DecidableEq

def Options.none : Options := ⟨.none, .none, .none, .none, false, false, false⟩

inductive Request where
  | work (options : Options)
  | help
  | version
  | misuse
  deriving DecidableEq

inductive Slot where
  | configuration
  | dialect
  | settings
  deriving DecidableEq

inductive Switch where
  | verbose
  | listConfigurations
  | listDialects
  | help
  | version
  deriving DecidableEq

inductive Known where
  | slot (slot : Slot)
  | switch (switch : Switch)

def longOption? (name : String) : Option Known :=
  match name with
  | "config" => some (.slot .configuration)
  | "dialect" => some (.slot .dialect)
  | "settings" => some (.slot .settings)
  | "verbose" => some (.switch .verbose)
  | "list-configs" => some (.switch .listConfigurations)
  | "list-dialects" => some (.switch .listDialects)
  | "help" => some (.switch .help)
  | "version" => some (.switch .version)
  | _ => none

def shortOption? (letter : Char) : Option Known :=
  match letter with
  | 'c' => some (.slot .configuration)
  | 'd' => some (.slot .dialect)
  | 's' => some (.slot .settings)
  | 'v' => some (.switch .verbose)
  | 'h' => some (.switch .help)
  | 'V' => some (.switch .version)
  | _ => none

def fillOnce (held : Option String) (value : String) : Option (Option String) :=
  match held with
  | some _ => none
  | none => some (some value)

def setOnce (held : Bool) : Option Bool := if held then none else some true

def fill (slot : Slot) (value : String) (options : Options) : Option Options :=
  match slot with
  | .configuration =>
      (fillOnce options.configuration value).map ({ options with configuration := · })
  | .dialect => (fillOnce options.dialect value).map ({ options with dialect := · })
  | .settings => (fillOnce options.settings value).map ({ options with settings := · })

def flip (switch : Switch) (options : Options) : Except Request Options :=
  let set? := match switch with
    | .verbose => (setOnce options.verbose).map ({ options with verbose := · })
    | .listConfigurations =>
        (setOnce options.listConfigurations).map ({ options with listConfigurations := · })
    | .listDialects => (setOnce options.listDialects).map ({ options with listDialects := · })
    | .help | .version => none
  match switch, set? with
  | .help, _ => .error .help
  | .version, _ => .error .version
  | _, some options => .ok options
  | _, none => .error .misuse

def isPlain (argument : String) : Bool := !argument.startsWith "-" || argument == "-"

def addPath (path : String) (options : Options) : Except Request Options :=
  match options.path with
  | some _ => .error .misuse
  | none => .ok { options with path := some path }

def readLetters : List Char → Options → Except Request (Options × Option Slot)
  | [], options => .ok (options, none)
  | letter :: rest, options =>
      match shortOption? letter with
      | none => .error .misuse
      | some (.switch switch) =>
          match flip switch options with
          | .error request => .error request
          | .ok options => readLetters rest options
      | some (.slot slot) =>
          match rest with
          | [] => .ok (options, some slot)
          | attached =>
              let value := match attached with
                | '=' :: value => value
                | value => value
              match fill slot (String.ofList value) options with
              | some options => .ok (options, none)
              | none => .error .misuse

def readLong (text : List Char) (options : Options) : Except Request (Options × Option Slot) :=
  let name := String.ofList (text.takeWhile (· != '='))
  let attached := text.dropWhile (· != '=')
  match longOption? name, attached with
  | none, _ => .error .misuse
  | some (.switch switch), [] => (flip switch options).map (·, none)
  | some (.switch _), _ :: _ => .error .misuse
  | some (.slot slot), [] => .ok (options, some slot)
  | some (.slot slot), _ :: value =>
      match fill slot (String.ofList value) options with
      | some options => .ok (options, none)
      | none => .error .misuse

/-- Reads arguments from left to right; `open?` is an option whose value comes next. -/
def readArguments : Option Slot → Bool → List String → Options → Request
  | some _, _, [], _ => .misuse
  | none, _, [], options => .work options
  | some slot, onlyPaths, argument :: rest, options =>
      if isPlain argument then
        match fill slot argument options with
        | some options => readArguments none onlyPaths rest options
        | none => .misuse
      else .misuse
  | none, onlyPaths, argument :: rest, options =>
      if onlyPaths || isPlain argument then
        match addPath argument options with
        | .ok options => readArguments none onlyPaths rest options
        | .error request => request
      else if argument = "--" then readArguments none true rest options
      else
        let read := match argument.toList with
          | '-' :: '-' :: text => readLong text options
          | _ :: letters => readLetters letters options
          | [] => .error .misuse
        match read with
        | .error request => request
        | .ok (options, slot) => readArguments slot onlyPaths rest options

/-- Without a listing a path is needed; without any argument there is only help to give. -/
def Request.ofArguments (arguments : List String) : Request :=
  match readArguments none false arguments .none with
  | .work options =>
      if arguments.isEmpty then .misuse
      else if options.path.isSome || options.listConfigurations || options.listDialects then
        .work options
      else .misuse
  | other => other

end Parlance.CommandLine
