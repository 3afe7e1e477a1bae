import TensorBindings.Diagnostic
import TensorBindings.Identifier
import TensorBindings.Signature.Basic
import TensorBindings.Table.Declaration

/-!
Contract: signatures from declarations.

Owns: the literal of a default value, the names of arguments and results in generated
code, the call of the engine, and the signatures of one declaration and of a whole table.

A declaration gives at most two signatures. The first is a method of the tensor type, if
the declaration asks for one. The second is a method of a tensor, if one is asked for and
there is a tensor argument `self`; otherwise a free function, if one is asked for. A type
without a target, or a declaration without results, costs the whole declaration; a method
without a receiver costs that method only.
-/

set_option autoImplicit false

namespace TensorBindings

open TensorBindings.Text

/-! ### Default values -/

namespace DeclaredArgument

/-- Integers and truth values as Nim literals. -/
def scalarLiteral? : Document → Option String
  | .bool value => some (if value then "true" else "false")
  | .integer value => some (toString value)
  | _ => none

def sequenceLiteral (items : List String) : String := "@[" ++ ", ".intercalate items ++ "]"

/-- The Nim literal for a default value. Only scalars, lists of scalars for a list type,
and the null pointer have one; all other defaults are left out. -/
def literal? (type : TargetType) (value : Document) : Option String :=
  match scalarLiteral? value, value with
  | some text, _ => some (if type.isList then sequenceLiteral [text] else text)
  | none, .list items =>
      if type.isList then (items.mapM scalarLiteral?).map sequenceLiteral else none
  | none, .text "nullptr" => some "nil"
  | none, _ => none

/-- The argument of a signature for a declared argument. -/
def resolve (argument : DeclaredArgument) : Except EntryError Argument := do
  let type ← TargetType.resolveArgument argument.typeTag
  return {
    name := Identifier.escape argument.name
    declaredName := argument.name
    type
    default? := argument.default?.bind (literal? type) }

end DeclaredArgument

/-! ### Results -/

namespace DeclaredReturn

/-- A gradient is named for the argument that it belongs to. -/
def fieldName (name : String) : String :=
  if name = "grad_input" then "self" else (dropStart? "grad_" name).getD name

/-- The only result of a declaration, which needs no field name. -/
def resolveSingle (result : DeclaredReturn) : Except EntryError ReturnField := do
  return { name := "", declaredName := result.name, type := ← TargetType.resolve result.typeTag }

/-- One of several results. -/
def resolveField (result : DeclaredReturn) : Except EntryError ReturnField := do
  return {
    name := Identifier.escape (fieldName result.name)
    declaredName := result.name
    type := ← TargetType.resolve result.typeTag }

end DeclaredReturn

/-! ### Engine calls -/

/-- What follows an engine call: the conversion of its result. -/
def conversionText (returns : List ReturnField) : String :=
  match returns with
  | [result] =>
      if result.type.isTensor then ".to(ATensor).newTensor()"
      else ".to(" ++ result.type.spelling ++ ")"
  | fields =>
      let types := fields.map fun field => if field.type.isTensor then "ATensor" else field.type.spelling
      ".to(StdTuple" ++ toString fields.length ++ "[" ++ ", ".intercalate types ++
        "]).toNimTuple().newTensors()"

/-- An argument as it is passed to the engine. -/
def Argument.passedText (argument : Argument) : String :=
  if argument.type.isTensor then ", " ++ argument.name ++ ".tensor" else ", " ++ argument.name

/-- An argument that can be the receiver of a method. -/
def Argument.isReceiver (argument : Argument) : Bool :=
  argument.declaredName == "self" && argument.type.isTensor

/-- The arguments of a call besides its receiver. -/
def passedArguments (invocation : Invocation) (declared : List Argument) : List Argument :=
  match invocation with
  | .method => declared.eraseP Argument.isReceiver
  | _ => declared

def engineCall
    (invocation : Invocation)
    (engineName : String)
    (declared : List Argument)
    (returns : List ReturnField) : String :=
  let passed := String.join ((passedArguments invocation declared).map Argument.passedText)
  let call := match invocation with
    | .method => "self.tensor.dynamicCppCall(\"" ++ engineName ++ "\"" ++ passed ++ ")"
    | .onType => "ty.dynamicCppCall(\"" ++ engineName ++ "\"" ++ passed ++ ")"
    | .function => "dynamicCCall(\"at::" ++ engineName ++ "\"" ++ passed ++ ")"
  call ++ conversionText returns

/-! ### Signatures -/

namespace Invocation

/-- The invocation that a place in a declaration asks for. -/
def ofPlace? : String → Option Invocation
  | "Tensor" | "instance" => some method
  | "Type" | "static-type" => some onType
  | "namespace" => some function
  | _ => none

/-- The invocations that places ask for, each once. -/
def requested (places : List String) : List Invocation :=
  [onType, method, function].filter fun invocation =>
    places.any fun place => ofPlace? place == some invocation

end Invocation

namespace Declaration

/-- The name that a declaration is bound to, and its alias. An operation of a neural
network counts only as one of a pair; its forward half goes by the common name as well. -/
def pairing (declaration : Declaration) : Option (String × Option String) :=
  if declaration.isNetwork then
    match dropEnd? "_forward" declaration.name, dropEnd? "_backward" declaration.name with
    | some common, _ => some (common, some common)
    | none, some _ => some (declaration.name, none)
    | none, none => none
  else some (declaration.name, none)

def resolveArguments (declaration : Declaration) : Except EntryError (List Argument) :=
  declaration.arguments.mapM DeclaredArgument.resolve

def resolveReturns (declaration : Declaration) : Except EntryError (List ReturnField) :=
  match declaration.returns with
  | [] => .error (.noReturns declaration.name)
  | [result] => do return [← result.resolveSingle]
  | results => results.mapM DeclaredReturn.resolveField

/-- The invocations that a declaration gets. -/
def selected (declaration : Declaration) (declared : List Argument) : List Invocation :=
  let requested := Invocation.requested declaration.methodOf
  let ofType := if .onType ∈ requested then [Invocation.onType] else []
  if .method ∈ requested ∧ declared.any Argument.isReceiver then ofType ++ [.method]
  else if .function ∈ requested then ofType ++ [.function]
  else ofType

/-- The error of a method without a receiver, if there is one. -/
def receiverProblems (declaration : Declaration) (declared : List Argument) : List EntryError :=
  if .method ∈ Invocation.requested declaration.methodOf ∧ ¬ declared.any Argument.isReceiver then
    [.missingReceiver declaration.name]
  else []

/-- The parameters of a signature: a method has its receiver first. -/
def parameters (invocation : Invocation) (declared : List Argument) : List Argument :=
  match invocation with
  | .method => (declared.find? Argument.isReceiver).toList ++ declared.eraseP Argument.isReceiver
  | _ => declared

/-- The signatures of a declaration, and the errors that cost one of them. -/
def signatures (declaration : Declaration) :
    Except EntryError (List Signature × List EntryError) :=
  match declaration.pairing with
  | none => .ok ([], [])
  | some (display, alias?) => do
      let declared ← declaration.resolveArguments
      let returns ← declaration.resolveReturns
      let build (invocation : Invocation) : Signature :=
        { engineName := declaration.name
          name := Identifier.escape display
          invocation
          args := parameters invocation declared
          returns
          alias?
          callExpr := engineCall invocation declaration.name declared returns }
      return ((declaration.selected declared).map build, declaration.receiverProblems declared)

/-- Deprecated declarations and out variants get no bindings; in-place variants are left
out on request. -/
def isSkipped (skipInplace : Bool) (declaration : Declaration) : Bool :=
  declaration.deprecated || declaration.isOutVariant || (skipInplace && declaration.inplace)

/-- What one declaration contributes: its signatures and its diagnostics. -/
def contribution (skipInplace : Bool) (declaration : Declaration) :
    List Signature × List Diagnostic :=
  let report (error : EntryError) : Diagnostic :=
    .ofError error Table.declarations.label declaration.name
  if declaration.isSkipped skipInplace then ([], [])
  else
    match declaration.signatures with
    | .ok (signatures, problems) => (signatures, problems.map report)
    | .error error => ([], [report error])

/-- The signatures and diagnostics of a table, in its order. -/
def ingest (skipInplace : Bool) (declarations : List Declaration) :
    List Signature × List Diagnostic :=
  (declarations.flatMap fun declaration => (declaration.contribution skipInplace).1,
   declarations.flatMap fun declaration => (declaration.contribution skipInplace).2)

end Declaration

end TensorBindings
