import TensorBindings.Table.Contents

/-!
Contract: the formula table.

Owns: formula entries and their reading from a document. An entry holds a header under
`name`; each other field is a body, and its key lists the arguments that the body is the
gradient of. Bodies keep the order of the table. An entry without a name is passed over.
-/

set_option autoImplicit false

namespace TensorBindings

structure FormulaBody where
  /-- Names of outputs, with commas between them. -/
  key : String
  text : String
deriving DecidableEq, Repr

structure FormulaEntry where
  header : String
  bodies : List FormulaBody
deriving DecidableEq, Repr

/-- The output names in a key, without blanks around them; empty ones do not count. -/
def FormulaBody.splitKey (key : String) : List String :=
  ((Text.splitAt ',' key.toList).map fun piece => Text.trim (String.ofList piece)).filter (· ≠ "")

def FormulaBody.outputNames (body : FormulaBody) : List String := splitKey body.key

namespace FormulaEntry

def readBodies (header : String) :
    List (String × Document) → Except TableError (List FormulaBody)
  | [] => .ok []
  | (key, value) :: rest =>
      if key = "name" then readBodies header rest
      else
        match value with
        | .text text => do
            let others ← readBodies header rest
            return ⟨key, text⟩ :: others
        | _ => .error (.bodyNotText header key)

def ofFields (fields : List (String × Document)) : Except TableError FormulaEntry := do
  let header ← Table.requiredText .derivatives "<record>" "name" fields
  let bodies ← readBodies header fields
  return ⟨header, bodies⟩

def ofEntry : Document → Except TableError (Option FormulaEntry)
  | .record fields =>
      if (Document.lookup "name" fields).isSome then some <$> ofFields fields else .ok none
  | _ => .error .formulaNotARecord

/-- The formula entries of a document. -/
def ofDocument (table : Document) : Except TableError (List FormulaEntry) := do
  Table.collect ofEntry (← Table.entries .derivatives table)

/-- The formula entries of a table's text. -/
def readTable (path text : String) : Except TableError (List FormulaEntry) := do
  ofDocument (← Table.document .derivatives path text)

end FormulaEntry

end TensorBindings
