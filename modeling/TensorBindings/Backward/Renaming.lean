import TensorBindings.Expr.Basic
import TensorBindings.Registry
import TensorBindings.Text.Affix
import TensorBindings.Text.DecimalDigit

/-!
Contract: from the names of formulas to the names of a backward procedure.

Owns: the parameters that every backward procedure has, the names of forward arguments
inside it, and the renaming of a formula. All names change at once, so that no change
sees the result of another:

- a called method or function takes its display name;
- `result` and `output` are the result of the forward procedure, and a number after them
  selects an element of it;
- the name of a result in a tuple selects that field of the forward result;
- the name of a forward argument becomes the name of its parameter.

The first of these rules that applies is taken. A qualified name keeps its meaning.
-/

set_option autoImplicit false

namespace TensorBindings

open TensorBindings.Text

namespace Backward

/-- The gradient of the forward result. -/
def gradientName : String := "grad"

/-- The result of the forward procedure. -/
def forwardResultName : String := "fwd_result"

/-- Which of several gradients are wanted. -/
def maskName : String := "grad_input_mask"

/-- The gradients of several forward results, which no formula may use. -/
def severalGradientsName : String := "grads"

/-- The flag for training mode. -/
def trainingName : String := "training"

/-- The parameters that a backward procedure declares by itself. -/
def ownParameters : List String := [gradientName, forwardResultName, maskName]

/-- The parameter for a forward argument. -/
def parameterName (name : String) : String :=
  if name ∈ ownParameters then name ++ "_arg" else name

/-- The value that a list of pairs gives last for a key. -/
def lastValue? (key : String) (pairs : List (String × String)) : Option String :=
  (pairs.reverse.find? (·.1 == key)).map (·.2)

/-- The digits after `result` or `output`, if the name is one of these with nothing but
digits after it. -/
def placeholder? (ident : String) : Option String :=
  ((dropStart? "result" ident).or (dropStart? "output" ident)).filter
    fun digits => digits.toList.all isDecimalDigit

/-- How the names of a formula change. -/
structure Renaming where
  callSites : CallSites := {}
  /-- Fields of the forward result, by the names that formulas use. -/
  fields : List (String × String) := []
  /-- Parameters that are not named as the argument they stand for. -/
  parameters : List (String × String) := []

namespace Renaming

/-- The renaming for formulas of one forward procedure. The gradient and the mask keep
their meaning, even if a forward argument has the same name. -/
def ofForward (forward : Signature) (callSites : CallSites) : Renaming :=
  { callSites
    fields :=
      if forward.returnsTuple then
        forward.returns.map fun field => (field.declaredName, field.name)
      else []
    parameters :=
      (forward.args.filter fun argument =>
        argument.declaredName ≠ gradientName ∧ argument.declaredName ≠ maskName ∧
          parameterName argument.name ≠ argument.declaredName).map fun argument =>
        (argument.declaredName, parameterName argument.name) }

/-- What an unqualified name stands for. -/
def value (names : Renaming) (ident : String) : Expr :=
  let forwardResult := Expr.name [] forwardResultName
  match placeholder? ident with
  | some digits => if digits = "" then forwardResult else .index forwardResult (.number digits)
  | none =>
      match lastValue? ident names.fields with
      | some field => .member forwardResult field
      | none => .name [] ((lastValue? ident names.parameters).getD ident)

mutual

def apply (names : Renaming) : Expr → Expr
  | .name [] ident => names.value ident
  | .name qualifier ident => .name qualifier ident
  | .number text => .number text
  | .string text => .string text
  | .member inner field => .member (apply names inner) field
  | .call (.member inner field) arguments =>
      .call (.member (apply names inner) (names.callSites.method field))
        (applyAll names arguments)
  | .call (.name qualifier ident) arguments =>
      .call (.name qualifier (names.callSites.function ident)) (applyAll names arguments)
  | .call callee arguments => .call (apply names callee) (applyAll names arguments)
  | .index inner position => .index (apply names inner) (apply names position)
  | .unary op operand => .unary op (apply names operand)
  | .binary op left right => .binary op (apply names left) (apply names right)
  | .ternary condition thenValue elseValue =>
      .ternary (apply names condition) (apply names thenValue) (apply names elseValue)
  | .list items => .list (applyAll names items)
  | .paren inner => .paren (apply names inner)
  | .hole => .hole

def applyAll (names : Renaming) : List Expr → List Expr
  | [] => []
  | tree :: rest => apply names tree :: applyAll names rest

end

end Renaming

/-- Split a choice between training and evaluation at the top of a formula: the value for
training, and whether there was such a choice. -/
def stripTrainingGuard : Expr → Expr × Bool
  | .ternary (.name [] flag) thenValue elseValue =>
      if flag = trainingName then (thenValue, true)
      else (.ternary (.name [] flag) thenValue elseValue, false)
  | tree => (tree, false)

end Backward

end TensorBindings
