import TensorBindings.Table.Error

/-!
Contract: from the text of a table to its entries.

Owns: the document in a table, its list of entries, and the fields that an entry must
have as texts. Line ends are unified first, so that positions in reports count each line
end as one character.

Does not own: what the entries of a certain table look like.
-/

set_option autoImplicit false

namespace TensorBindings.Table

/-- Every line end becomes a line feed. -/
def unifyLineEnds : List Char → List Char
  | '\r' :: '\n' :: rest => '\n' :: unifyLineEnds rest
  | '\r' :: rest => '\n' :: unifyLineEnds rest
  | c :: rest => c :: unifyLineEnds rest
  | [] => []

/-- The document that the text of a table holds. -/
def document (table : Table) (path text : String) : Except TableError Document :=
  match Document.parse (String.ofList (unifyLineEnds text.toList)) with
  | .ok value => .ok value
  | .error error => .error (.malformed table path error)

/-- The entries of a table. -/
def entries (table : Table) : Document → Except TableError (List Document)
  | .list items => .ok items
  | other => .error (.notAList table other.typeName)

def requiredText (table : Table) (owner key : String) (fields : List (String × Document)) :
    Except TableError String :=
  match Document.lookup key fields with
  | some (.text value) => .ok value
  | _ => .error (.fieldNotText table owner key)

/-- Read entries in order and keep those that yield something; the first error counts. -/
def collect {ε α : Type} (read : Document → Except ε (Option α)) :
    List Document → Except ε (List α)
  | [] => .ok []
  | item :: rest => do
      let first ← read item
      let others ← collect read rest
      return first.toList ++ others

end TensorBindings.Table
