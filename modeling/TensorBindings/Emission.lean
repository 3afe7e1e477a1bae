import TensorBindings.Backward.Procedure

/-!
Contract: the Nim files.

Owns: the lines of a binding, of a backward procedure and of an autograd block, and the
texts of the two files. Bindings stand in the order of the registry, procedures in the
order of the formula table.
-/

set_option autoImplicit false

namespace TensorBindings.Emission

def banner : String := "# Automatically generated by atenbind, do not edit."

def guardMessage : String := "CuDNN cannot be used to compute backward in evaluation mode"

def pragma : String := "\x7b.inline, noinit.\x7d"

/-- The first lines of the file of backward procedures. -/
def derivativesPrelude : List String :=
  ["import math", "import ../torch", "import autograd_helpers", "", "const M_PI = math.PI"]

def forwardBinding (signature : Signature) : String :=
  "proc " ++ signature.name ++ "*(" ++ signature.parameterText ++ "): " ++ signature.returnType ++
    " " ++ pragma ++ " = " ++ signature.callExpr

/-- A file of these lines, each but the last ended by a line feed. -/
def fileText (lines : List String) : String := "\n".intercalate lines

def bindingsText (registry : Registry) : String :=
  fileText ([banner, ""] ++ registry.generated.map forwardBinding ++ [""])

/-- The call of a signature with its own parameters. -/
def forwardCall (signature : Signature) : Except RenderError String :=
  let names := signature.args.map (·.name)
  match signature.invocation, names with
  | .method, [] => .error .noReceiver
  | .method, receiver :: rest =>
      .ok (receiver ++ "." ++ signature.name ++ "(" ++ ", ".intercalate rest ++ ")")
  | .onType, names => .ok (signature.name ++ "(" ++ ", ".intercalate ("ty" :: names) ++ ")")
  | .function, names => .ok (signature.name ++ "(" ++ ", ".intercalate names ++ ")")

def guardLines (procedure : BackwardProcedure) : List String :=
  if procedure.trainingGuard then
    ["  if not training:", "    raiseAssert(\"" ++ guardMessage ++ "\")"]
  else []

def bindingLine (binding : Backward.Binding) : String :=
  "  let " ++ binding.name ++ " = " ++ binding.expr

def assignmentLine (assignment : Backward.Assignment) : String :=
  "  result." ++ assignment.field ++ " = " ++ assignment.value

def procedureLines (procedure : BackwardProcedure) : List String :=
  ["proc " ++ procedure.name ++ "*(" ++ procedure.parameterText ++ "): " ++ procedure.returnType ++
    " " ++ pragma ++ " ="] ++
    guardLines procedure ++ procedure.bindings.map bindingLine ++
    procedure.assignments.map assignmentLine

def autogradLines (procedure : BackwardProcedure) : Except RenderError (List String) := do
  let forward := procedure.forward
  let call ← forwardCall forward
  return ["autograd " ++ forward.name ++ "(" ++ forward.parameterText ++ ") -> " ++
      forward.returnType ++ ":", "  result: " ++ call] ++
    procedure.autogradLines.map fun (field, expr) => "  " ++ field ++ ": " ++ expr

/-- The lines of one procedure, with its autograd block on request. -/
def blockLines (autogradBlocks : Bool) (procedure : BackwardProcedure) :
    Except RenderError (List String) := do
  let lines := "" :: procedureLines procedure
  if autogradBlocks then return lines ++ "" :: (← autogradLines procedure) else return lines

def derivativesText (autogradBlocks : Bool) (procedures : List BackwardProcedure) :
    Except RenderError String := do
  let blocks ← procedures.mapM (blockLines autogradBlocks)
  return fileText ([banner, ""] ++ derivativesPrelude ++ [""] ++ blocks.flatten ++ [""])

end TensorBindings.Emission
