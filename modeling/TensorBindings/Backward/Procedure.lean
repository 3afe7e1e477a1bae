import TensorBindings.Backward.Renaming
import TensorBindings.Expr.Printer

/-!
Contract: backward procedures.

Owns: bindings of expressions to names, assignments of outputs, the procedure made of
them, and its assembly from the bodies of a formula entry that passed all checks.

An expression is bound once, under the name of the first output that needs it; every
later body with the same text uses that binding. The outputs of one body are the elements
of its value, in the order of its key, or the value itself if there is one output only.

Does not own: the checks (`Backward.Entry`) and the Nim text (`Emission`).
-/

set_option autoImplicit false

namespace TensorBindings

namespace Backward

structure Binding where
  name : String
  expr : String
deriving DecidableEq, Repr

/-- The name that an expression is bound to, and the bindings after that. The first
binding of an expression stays. -/
def bind (bindings : List Binding) (expr name : String) : String × List Binding :=
  match bindings.find? (·.expr == expr) with
  | some binding => (binding.name, bindings)
  | none => (name, bindings ++ [⟨name, expr⟩])

/-- Append a subscript. -/
def subscript (text : String) : Option Nat → String
  | some index => text ++ "[" ++ toString index ++ "]"
  | none => text

structure Assignment where
  field : String
  source : String
  /-- The element of the source, if the source has several outputs. -/
  index? : Option Nat
deriving DecidableEq, Repr

def Assignment.value (assignment : Assignment) : String :=
  subscript assignment.source assignment.index?

/-- A body that passed all checks. -/
structure CheckedBody where
  /-- The arguments that the body is the gradient of. -/
  targets : List Argument
  /-- The body in the names of the backward procedure. -/
  tree : Expr
  /-- The body was given for training mode only. -/
  guarded : Bool
  usesMask : Bool

/-- The arguments of a body, each with its index if there are several. -/
def indexed (targets : List Argument) : List (Argument × Option Nat) :=
  targets.zipIdx.map fun (target, index) =>
    (target, if 1 < targets.length then some index else none)

end Backward

structure BackwardProcedure where
  forward : Signature
  fields : List Argument
  bindings : List Backward.Binding
  assignments : List Backward.Assignment
  trainingGuard : Bool := false
  maskSize : Option Nat := none
  /-- Outputs and their expressions, for the autograd block. -/
  autogradLines : List (String × String)
deriving DecidableEq, Repr

namespace BackwardProcedure

open Backward

def name (procedure : BackwardProcedure) : String := procedure.forward.name ++ "_bwd"

def returnType (procedure : BackwardProcedure) : String :=
  TargetType.tupleSpelling (procedure.fields.map fun field => (field.name, field.type))

/-- The parameters with their types. -/
def parameters (procedure : BackwardProcedure) : List (String × String) :=
  [(gradientName, TargetType.tensor.spelling), (forwardResultName, procedure.forward.returnType)] ++
    procedure.forward.args.map (fun argument =>
      (parameterName argument.name, argument.type.spelling)) ++
    (procedure.maskSize.map fun size => (maskName, "StdArray[bool, " ++ toString size ++ "]")).toList

def parameterText (procedure : BackwardProcedure) : String :=
  "; ".intercalate (procedure.parameters.map fun (name, type) => name ++ ": " ++ type)

/-- Add the outputs of one body, whose text is `printed`. -/
def addBody (procedure : BackwardProcedure) (targets : List Argument) (printed : String) :
    BackwardProcedure :=
  match targets with
  | [] => procedure
  | first :: _ =>
      let (source, bindings) := bind procedure.bindings printed (first.name ++ "_result")
      { procedure with
        fields := procedure.fields ++ targets
        bindings
        assignments := procedure.assignments ++
          (indexed targets).map fun (target, index?) => ⟨target.name, source, index?⟩
        autogradLines := procedure.autogradLines ++
          (indexed targets).map fun (target, index?) => (target.name, subscript printed index?) }

/-- The procedure before any of its bodies. Its mask has the size of the first body that
uses the mask. -/
def start (forward : Signature) (bodies : List CheckedBody) : BackwardProcedure :=
  { forward
    fields := []
    bindings := []
    assignments := []
    trainingGuard := bodies.any (·.guarded)
    maskSize := (bodies.find? (·.usesMask)).map (·.targets.length)
    autogradLines := [] }

def addBodies (procedure : BackwardProcedure) : List (List Argument × String) → BackwardProcedure
  | [] => procedure
  | (targets, printed) :: rest => (procedure.addBody targets printed).addBodies rest

def printBody (body : CheckedBody) : Except RenderError (List Argument × String) := do
  return (body.targets, ← body.tree.toNim)

/-- The procedure of a list of bodies; without any output there is none. -/
def assemble (forward : Signature) (bodies : List CheckedBody) :
    Except RenderError (Option BackwardProcedure) := do
  let printed ← bodies.mapM printBody
  let procedure := (start forward bodies).addBodies printed
  return if procedure.fields.isEmpty then none else some procedure

end BackwardProcedure

end TensorBindings
