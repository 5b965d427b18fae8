/-! Settings, and what can be wrong with what they are read from. -/

namespace Parlance

inductive Precedence where
  | parentWins
  | childWins
  deriving DecidableEq, Inhabited

def Precedence.name : Precedence → String
  | .parentWins => "parent-wins"
  | .childWins => "child-wins"

structure Settings where
  indentUnit : String
  precedence : Precedence
  deriving DecidableEq

def Settings.defaults : Settings := ⟨"    ", .parentWins⟩

inductive SettingsFault where
  | malformedSource
  | malformedKey
  | missingFile (path : String)
  | notText (found key : String) (origin : Option String)
  | notGroup (found group : String)
  | emptyGroup (group : String)
  | missingField (field : String)
  | unknownPrecedence (name : String)
  | notPrecedence
  deriving DecidableEq

def SettingsFault.message? : SettingsFault → Option String
  | .malformedSource | .malformedKey => none
  | .missingFile path => some ("configuration file \"" ++ path ++ "\" not found")
  | .notText found key origin =>
      some ("invalid type: " ++ found ++ ", expected a string for key `" ++ key ++ "`" ++
        match origin with
        | some origin => " in " ++ origin
        | none => "")
  | .notGroup found group => some ("invalid type: " ++ found ++ ", expected struct " ++ group)
  | .emptyGroup group => some ("invalid length 0, expected struct " ++ group ++ " with 1 element")
  | .missingField field => some ("missing field `" ++ field ++ "`")
  | .unknownPrecedence name =>
      some ("enum TypePrecedence does not have variant constructor " ++ name)
  | .notPrecedence =>
      some ("value of enum TypePrecedence should be represented by either string or " ++
        "table with exactly one key")

end Parlance
