import TensorBindings.EntryError

/-!
Contract: the closed vocabulary of types.

Owns: the types of generated code with their Nim spelling, and the type that each tag of
a table stands for. A tag outside the vocabulary is an error of the entry that uses it.
-/

set_option autoImplicit false

namespace TensorBindings

inductive TargetType where
  | tensor
  | tensorOptions
  | storage
  | tensorList
  | int64
  | bool
  | float
  | float64
  | pointer
  | intList
  | boolArray2
  | boolArray3
  | boolArray4
  | scalarType
  | string
  | tensorType
  | sparseTensorRef
  | void
deriving DecidableEq, Repr

namespace TargetType

/-- The type in Nim. -/
def spelling : TargetType → String
  | tensor => "Tensor"
  | tensorOptions => "TensorOptions"
  | storage => "AStorage"
  | tensorList => "TensorList"
  | int64 => "int64"
  | bool => "bool"
  | float => "float"
  | float64 => "float64"
  | pointer => "pointer"
  | intList => "IntList"
  | boolArray2 => "StdArray[bool, 2]"
  | boolArray3 => "StdArray[bool, 3]"
  | boolArray4 => "StdArray[bool, 4]"
  | scalarType => "AScalarType"
  | string => "StdString"
  | tensorType => "TensorType"
  | sparseTensorRef => "ASparseTensorRef"
  | void => "void"

def isTensor : TargetType → Bool
  | tensor => true
  | _ => false

def isList : TargetType → Bool
  | intList | tensorList => true
  | _ => false

/-- The type that a tag stands for. -/
def ofTag? : String → Option TargetType
  | "Tensor" | "BoolTensor" | "IndexTensor" | "IntegerTensor" => some tensor
  | "TensorOptions" => some tensorOptions
  | "Storage" => some storage
  | "TensorList" => some tensorList
  | "int64_t" => some int64
  | "bool" => some bool
  | "real" | "accreal" | "Scalar" => some float
  | "double" => some float64
  | "Generator*" | "Generator *" | "Generator" | "void*" => some pointer
  | "IntList" => some intList
  | "std::array<bool,2>" => some boolArray2
  | "std::array<bool,3>" => some boolArray3
  | "std::array<bool,4>" => some boolArray4
  | "ScalarType" => some scalarType
  | "std::string" => some string
  | "Type" => some tensorType
  | "SparseTensorRef" => some sparseTensorRef
  | "void" => some void
  | _ => none

/-- Tags that make sense for results only. -/
def resultOnlyTags : List String := ["void", "void*"]

/-- The type of a result. -/
def resolve (tag : String) : Except EntryError TargetType :=
  match ofTag? tag with
  | some type => .ok type
  | none => .error (.unsupportedType tag)

/-- The type of an argument. -/
def resolveArgument (tag : String) : Except EntryError TargetType :=
  if tag ∈ resultOnlyTags then .error (.unsupportedArgumentType tag) else resolve tag

/-- The type of a tuple with named fields. -/
def tupleSpelling (fields : List (String × TargetType)) : String :=
  "tuple[" ++ ", ".intercalate (fields.map fun (name, type) => name ++ ": " ++ type.spelling) ++ "]"

end TargetType

end TensorBindings
