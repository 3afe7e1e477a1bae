import TensorBindings.Table.Contents
import TensorBindings.Text.Affix

/-!
Contract: the declaration table.

Owns: declarations of engine operations and their reading from a document. An entry
without a name is passed over. A named entry needs the list of places it is a method of
and the list of its arguments; its results may be missing. Reading checks the form only:
whether types exist is decided when signatures are made.
-/

set_option autoImplicit false

namespace TensorBindings

structure DeclaredArgument where
  name : String
  typeTag : String
  /-- The declared default, of whatever form. -/
  default? : Option Document := none
deriving Repr

structure DeclaredReturn where
  name : String
  typeTag : String
deriving DecidableEq, Repr

structure Declaration where
  name : String
  methodOf : List String
  arguments : List DeclaredArgument
  returns : List DeclaredReturn
  mode : Option String := none
  deprecated : Bool := false
  inplace : Bool := false
  out : Bool := false
deriving Repr

namespace Declaration

/-- Operations of neural networks, which come in pairs of implementations. -/
def isNetwork (declaration : Declaration) : Bool := declaration.mode = some "NN"

/-- Variants that write their result into an argument. -/
def isOutVariant (declaration : Declaration) : Bool :=
  declaration.out || Text.contains "_out" declaration.name

def readArgument (owner : String) : Document → Except TableError DeclaredArgument
  | .record fields => do
      let name ← Table.requiredText .declarations owner "name" fields
      let typeTag ← Table.requiredText .declarations owner "dynamic_type" fields
      return { name, typeTag, default? := Document.lookup "default" fields }
  | _ => .error (.argumentNotARecord owner)

def readReturn (owner : String) : Document → Except TableError DeclaredReturn
  | .record fields => do
      let typeTag ← Table.requiredText .declarations owner "dynamic_type" fields
      match (Document.lookup "name" fields).getD (.text "") with
      | .text name => return { name, typeTag }
      | _ => .error (.returnNameNotText owner)
  | _ => .error (.returnNotARecord owner)

/-- The texts of a list that holds nothing else. -/
def texts? : Option Document → Option (List String)
  | some (.list items) => items.mapM Document.text?
  | _ => none

def items? : Option Document → Option (List Document)
  | some (.list items) => some items
  | _ => none

def isFieldSet (key : String) (fields : List (String × Document)) : Bool :=
  ((Document.lookup key fields).map Document.isSet).getD false

/-- A declaration from the fields of a named entry. The two lists are checked before any
of their members. -/
def ofFields (fields : List (String × Document)) : Except TableError Declaration := do
  let name ← Table.requiredText .declarations "<record>" "name" fields
  let some methodOf := texts? (Document.lookup "method_of" fields)
    | .error (.methodOfNotTexts name)
  let some arguments := items? (Document.lookup "arguments" fields)
    | .error (.argumentsNotAList name)
  let some returns := items? ((Document.lookup "returns" fields).getD (.list []))
    | .error (.returnsNotAList name)
  let arguments ← arguments.mapM (readArgument name)
  let returns ← returns.mapM (readReturn name)
  return {
    name, methodOf, arguments, returns
    mode := (Document.lookup "mode" fields).bind Document.text?
    deprecated := isFieldSet "deprecated" fields
    inplace := isFieldSet "inplace" fields
    out := isFieldSet "out" fields }

def ofEntry : Document → Except TableError (Option Declaration)
  | .record fields =>
      if (Document.lookup "name" fields).isSome then some <$> ofFields fields else .ok none
  | _ => .error .declarationNotARecord

/-- The declarations of a document. -/
def ofDocument (table : Document) : Except TableError (List Declaration) := do
  Table.collect ofEntry (← Table.entries .declarations table)

/-- The declarations of a table's text. -/
def readTable (path text : String) : Except TableError (List Declaration) := do
  ofDocument (← Table.document .declarations path text)

end Declaration

end TensorBindings
