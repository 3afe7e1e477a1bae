/-!
Contract: values that have no Nim text.

Owns: the three things that cannot be written. None of them arises from tables:
formulas are read into trees without holes or empty numbers, and every synthesized
method has its receiver.
-/

set_option autoImplicit false

namespace TensorBindings

inductive RenderError where
  /-- A tree with a node that has no form. -/
  | hole
  /-- A number without characters. -/
  | emptyNumber
  /-- A method call without a receiver. -/
  | noReceiver
deriving DecidableEq, Repr

def RenderError.message : RenderError → String
  | .hole => "cannot print Expr"
  | .emptyNumber => "string index out of range"
  | .noReceiver => "list index out of range"

end TensorBindings
