import TensorBindings.Document.Writer
import TensorBindings.EntryError

/-!
Contract: reports about entries.

Owns: the diagnostic, with its one-line form for readers and its form as a JSON record.
-/

set_option autoImplicit false

namespace TensorBindings

inductive Severity where
  | error
  | note
  | custom (label : String)
deriving DecidableEq, Repr

namespace Severity

def label : Severity → String
  | error => "error"
  | note => "note"
  | custom text => text

def ofLabel : String → Severity
  | "error" => error
  | "note" => note
  | text => custom text

end Severity

structure Diagnostic where
  message : String
  code : Option String := none
  /-- The table that the entry stands in. -/
  phase : Option String := none
  severity : Severity := .error
  entry : Option String := none
  notes : List String := []
deriving DecidableEq, Repr

namespace Diagnostic

def ofError (error : EntryError) (phase entry : String) : Diagnostic :=
  { message := error.message, code := some error.code, phase := some phase, entry := some entry }

/-- A part of a report that may be missing; an empty one counts as missing. -/
def present (part : Option String) : Option String := part.filter (· ≠ "")

/-- One line: `phase:entry: severity: [Code] message (note: …)`. -/
def render (diagnostic : Diagnostic) : String :=
  let place := (present diagnostic.phase).getD "?" ++ ":" ++ (present diagnostic.entry).getD "?"
  let code := match present diagnostic.code with
    | some code => "[" ++ code ++ "] "
    | none => ""
  place ++ ": " ++ diagnostic.severity.label ++ ": " ++ code ++ diagnostic.message ++
    String.join (diagnostic.notes.map fun note => " (note: " ++ note ++ ")")

def optionalText : Option String → Document
  | some text => .text text
  | none => .null

def toDocument (diagnostic : Diagnostic) : Document :=
  .record
    [("phase", optionalText diagnostic.phase), ("entry", optionalText diagnostic.entry),
     ("code", optionalText diagnostic.code), ("severity", .text diagnostic.severity.label),
     ("message", .text diagnostic.message), ("notes", .list (diagnostic.notes.map .text))]

end Diagnostic

end TensorBindings
