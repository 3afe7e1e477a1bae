import TensorBindings.Signature.Basic
import TensorBindings.Table.Contents

/-!
Contract: helpers, the procedures written by hand that formulas call.

Owns: the helpers that are always there, and the table of further ones. An entry of that
table has a name, a kind that is a method or a free function (the latter if it is
missing), and a display name (the name itself if it is missing).

A kind is found by comparison with words, and a list or a record can be compared with
none: such a kind is not an error of the table but stops the run on the spot.
-/

set_option autoImplicit false

namespace TensorBindings

inductive LoadError where
  | table (error : TableError)
  | incomparableKind (typeName : String)
deriving DecidableEq, Repr

namespace Helper

/-- Helpers that every registry starts with. -/
def defaults : List Signature :=
  [.helper "maybe_multiply" "maybe_multiply" .function,
   .helper "mm_mat1_backward" "mm_mat1_backward" .function,
   .helper "mm_mat2_backward" "mm_mat2_backward" .function,
   .helper "pow_backward" "pow_backward" .function,
   .helper "pow_backward_self" "pow_backward_self" .function,
   .helper "pow_backward_exponent" "pow_backward_exponent" .function,
   .helper "atan2_backward" "atan2_backward" .function,
   .helper "split_backward" "split_backward" .function,
   .helper "split_with_sizes_backward" "split_with_sizes_backward" .function,
   .helper "sizes" "sizes" .method,
   .helper "strides" "strides" .method,
   .helper "type" "getType" .method]

def readKind (name : String) : Document → Except LoadError Invocation
  | .text "instance" => .ok .method
  | .text "namespace" => .ok .function
  | .list items => .error (.incomparableKind (Document.list items).typeName)
  | .record fields => .error (.incomparableKind (Document.record fields).typeName)
  | _ => .error (.table (.helperKindUnknown name))

def readDisplay (name : String) : Document → Except LoadError String
  | .text display => .ok display
  | _ => .error (.table (.helperDisplayNotText name))

def ofFields (fields : List (String × Document)) : Except LoadError Signature :=
  match Document.lookup "name" fields with
  | some (.text name) => do
      let kind ← readKind name ((Document.lookup "kind" fields).getD (.text "namespace"))
      let display ← readDisplay name ((Document.lookup "display" fields).getD (.text name))
      return .helper name display kind
  | _ => .error (.table .helperWithoutName)

def ofEntry : Document → Except LoadError Signature
  | .record fields => ofFields fields
  | _ => .error (.table .helperWithoutName)

/-- The helpers of a document. -/
def ofDocument (table : Document) : Except LoadError (List Signature) :=
  match Table.entries .helpers table with
  | .ok entries => entries.mapM ofEntry
  | .error error => .error (.table error)

/-- The helpers of a table's text. -/
def readTable (path text : String) : Except LoadError (List Signature) :=
  match Table.document .helpers path text with
  | .ok document => ofDocument document
  | .error error => .error (.table error)

end Helper

def LoadError.message : LoadError → String
  | .table error => error.message
  | .incomparableKind typeName => "unhashable type: '" ++ typeName ++ "'"

end TensorBindings
