import TensorBindings.Document.Reader
import TensorBindings.Files.Error

/-!
Contract: why a table stops a run.

Owns: the three input tables and the errors in their form. A table with such an error is
not processed at all, and nothing is written.

Does not own: errors of single entries (`EntryError`).
-/

set_option autoImplicit false

namespace TensorBindings

inductive Table where
  | declarations
  | derivatives
  | helpers
deriving DecidableEq, Repr

def Table.label : Table → String
  | .declarations => "declarations"
  | .derivatives => "derivatives"
  | .helpers => "helpers"

inductive TableError where
  | unreadable (table : Table) (path : String) (error : FileError)
  | malformed (table : Table) (path : String) (error : Document.ReadError)
  | notAList (table : Table) (typeName : String)
  | declarationNotARecord
  | formulaNotARecord
  | fieldNotText (table : Table) (owner key : String)
  | methodOfNotTexts (declaration : String)
  | argumentsNotAList (declaration : String)
  | returnsNotAList (declaration : String)
  | argumentNotARecord (declaration : String)
  | returnNotARecord (declaration : String)
  | returnNameNotText (declaration : String)
  | bodyNotText (header key : String)
  | helperWithoutName
  | helperKindUnknown (helper : String)
  | helperDisplayNotText (helper : String)
deriving DecidableEq, Repr

namespace TableError

def table : TableError → Table
  | unreadable table _ _ | malformed table _ _ | notAList table _ | fieldNotText table _ _ => table
  | declarationNotARecord | methodOfNotTexts _ | argumentsNotAList _ | returnsNotAList _
  | argumentNotARecord _ | returnNotARecord _ | returnNameNotText _ => .declarations
  | formulaNotARecord | bodyNotText _ _ => .derivatives
  | helperWithoutName | helperKindUnknown _ | helperDisplayNotText _ => .helpers

def message : TableError → String
  | unreadable .helpers path error => "cannot load helpers from " ++ path ++ ": " ++ error.message
  | unreadable table path error =>
      "cannot read " ++ table.label ++ " table " ++ path ++ ": " ++ error.message
  | malformed .helpers path error => "cannot load helpers from " ++ path ++ ": " ++ error.message
  | malformed table path error =>
      table.label ++ " table " ++ path ++ " is not valid JSON: " ++ error.message
  | notAList .helpers _ => "helpers file must hold a list of objects"
  | notAList table typeName =>
      table.label ++ " table must be a list of records, got " ++ typeName
  | declarationNotARecord => "declaration records must be objects"
  | formulaNotARecord => "formula records must be objects"
  | fieldNotText _ owner key => owner ++ ": field '" ++ key ++ "' must be a string"
  | methodOfNotTexts declaration => declaration ++ ": 'method_of' must be a list of strings"
  | argumentsNotAList declaration => declaration ++ ": 'arguments' must be a list"
  | returnsNotAList declaration => declaration ++ ": 'returns' must be a list"
  | argumentNotARecord declaration => declaration ++ ": arguments must be objects"
  | returnNotARecord declaration => declaration ++ ": returns must be objects"
  | returnNameNotText declaration => declaration ++ ": return name must be a string"
  | bodyNotText header key => header ++ ": body '" ++ key ++ "' must be a string"
  | helperWithoutName => "every helper needs a string 'name'"
  | helperKindUnknown helper => "helper '" ++ helper ++ "': kind must be 'instance' or 'namespace'"
  | helperDisplayNotText helper => "helper '" ++ helper ++ "': display must be a string"

end TableError

end TensorBindings
