import Parlance.Pattern.Basic

/-! Descriptions of patterns. -/

namespace Parlance.Pattern

def label : Pattern → String
  | .token .. => "token"
  | .rule _ => "nonterm"
  | .sequence _ => "seq"
  | .choice _ => "choice"
  | .repetition _ _ true => "star"
  | .repetition _ _ false => "plus"
  | .ignore _ => "ignore"
  | .filter .. => "filter"
  | .custom .. => "custom"
  | .empty => "empty"

def tokenLabel : Option Role → String
  | some .keyword => "keyword"
  | some .punctuator => "punctuator"
  | none => "token"

def describe : Pattern → String
  | .token kind role => Text.applied (tokenLabel role) [Text.quoted kind]
  | .rule name => Text.applied "nonterm" [Text.quoted name]
  | .sequence terms => Text.applied "seq" [Text.bracketed (describeAll terms)]
  | .choice alternatives => Text.applied "choice" [Text.bracketed (describeAll alternatives)]
  | .repetition body none allowEmpty =>
      Text.applied (if allowEmpty then "star" else "plus") [describe body, Text.optional none]
  | .repetition body (some separator) allowEmpty =>
      Text.applied (if allowEmpty then "star" else "plus")
        [describe body, Text.optional (some (describe separator))]
  | .ignore term => Text.applied "ignore" [describe term]
  | .filter term action arity =>
      Text.applied "filter" [describe term, action.describe, Text.optional (arity.map toString)]
  | .custom reader parts => Text.applied "custom" [reader.describe (describeAll parts)]
  | .empty => "empty"
where
  describeAll : List Pattern → List String
    | [] => []
    | term :: rest => describe term :: describeAll rest

end Parlance.Pattern
