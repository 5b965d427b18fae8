import Parlance.Tree.Basic
import Parlance.Text.Quoted

/-! Actions turn the value of a matched term into another value. The value is first spread into
arguments, by the number of values that the term yields. -/

namespace Parlance

structure NodeShape where
  typeName : String
  fields : List String
  deriving DecidableEq

/-- A field without an argument is null; arguments without a field are dropped. -/
def NodeShape.fill : List String → List Tree → List (String × Tree)
  | [], _ => []
  | field :: fields, [] => (field, .null) :: fill fields []
  | field :: fields, argument :: rest => (field, argument) :: fill fields rest

def NodeShape.build (shape : NodeShape) (arguments : List Tree) : Tree :=
  .node shape.typeName (fill shape.fields arguments)

/-- A function on arguments. It is known by its identity: a copy has the same one, a handler made
anew has another. -/
structure Handler where
  identity : Nat
  run : List Tree → Tree

inductive Action where
  | handle (handler : Handler)
  | construct (shape : NodeShape)

namespace Action

/-- One value is one argument, even when it is a list; several values are the items of a list. -/
def spread (arity : Nat) (value : Tree) : List Tree :=
  match arity, value with
  | 0, _ => []
  | 1, value => [value]
  | _, .list items => items
  | _, value => [value]

def invoke (action : Action) (arity : Nat) (value : Tree) : Tree :=
  match action with
  | .handle handler => handler.run (spread arity value)
  | .construct shape => shape.build (spread arity value)

def isConstructor : Action → Bool
  | .handle _ => false
  | .construct _ => true

def same : Action → Action → Bool
  | .handle first, .handle second => first.identity == second.identity
  | .construct first, .construct second => first == second
  | _, _ => false

def describe : Action → String
  | .handle _ => "Handler(..)"
  | .construct shape =>
      Text.applied "Construct"
        ["NodeFactory \x7b type_name: " ++ Text.quoted shape.typeName ++ ", fields: " ++
          Text.bracketed (shape.fields.map Text.quoted) ++ " \x7d"]

end Action

end Parlance
