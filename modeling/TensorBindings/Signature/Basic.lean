import TensorBindings.TargetType

/-!
Contract: typed signatures of callable procedures.

Owns: the three ways to invoke an operation, arguments and results with their names in
generated code, signatures, and the parts of a Nim declaration that follow from them.

A signature is generated from a declaration, or it is a helper: a procedure that is
written by hand in Nim, of which only the name and the invocation are known.

Does not own: how signatures follow from declarations (`Signature.Synthesis`).
-/

set_option autoImplicit false

namespace TensorBindings

inductive Invocation where
  /-- A method of a tensor. -/
  | method
  /-- A method of a tensor type. -/
  | onType
  /-- A free function. -/
  | function
deriving DecidableEq, Repr

structure Argument where
  name : String
  /-- The name in the declaration, which formulas use. -/
  declaredName : String
  type : TargetType
  /-- The default value as a Nim literal. -/
  default? : Option String := none
deriving DecidableEq, Repr

structure ReturnField where
  /-- Empty for a result that is no tuple. -/
  name : String
  declaredName : String
  type : TargetType
deriving DecidableEq, Repr

structure Signature where
  /-- The entry point of the engine. -/
  engineName : String
  name : String
  invocation : Invocation
  args : List Argument := []
  returns : List ReturnField := []
  /-- A second name under which formulas may refer to the operation. -/
  alias? : Option String := none
  /-- The Nim expression that calls the engine and converts its result. -/
  callExpr : String := ""
  isHelper : Bool := false
deriving DecidableEq, Repr

/-- The parameter as a Nim declaration writes it, without its default. -/
def Argument.bareText (argument : Argument) : String :=
  argument.name ++ ": " ++ argument.type.spelling

/-- The parameter as a Nim declaration writes it. -/
def Argument.text (argument : Argument) : String :=
  match argument.default? with
  | some value => argument.bareText ++ " = " ++ value
  | none => argument.bareText

namespace Signature

def helper (engineName name : String) (invocation : Invocation) : Signature :=
  { engineName, name, invocation, isHelper := true }

/-- Several results come as a tuple. -/
def returnsTuple (signature : Signature) : Bool := 1 < signature.returns.length

def returnType (signature : Signature) : String :=
  match signature.returns with
  | [] => ""
  | [result] => result.type.spelling
  | fields => TargetType.tupleSpelling (fields.map fun field => (field.name, field.type))

/-- The parameter list, with the tensor type in front where that is the receiver. -/
def parameterText (signature : Signature) : String :=
  let parameters := ", ".intercalate (signature.args.map Argument.text)
  match signature.invocation with
  | .onType => if parameters = "" then "ty: TensorType" else "ty: TensorType; " ++ parameters
  | _ => parameters

/-- The argument that a formula calls by this name. -/
def argument? (signature : Signature) (declaredName : String) : Option Argument :=
  signature.args.find? (·.declaredName == declaredName)

/-- The signature goes by this name, as its engine name or as its alias. -/
def hasName (signature : Signature) (name : String) : Bool :=
  signature.engineName == name || signature.alias? == some name

end Signature

end TensorBindings
