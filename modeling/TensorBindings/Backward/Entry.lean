import TensorBindings.Backward.Procedure
import TensorBindings.Diagnostic
import TensorBindings.Expr.Reader
import TensorBindings.Overload
import TensorBindings.Table.Formula

/-!
Contract: from formula entries to backward procedures.

Owns: the checks of an entry against a registry, and what comes of it. A body is read and
checked in this order: its form, the use of several gradients, its outputs, its calls. A
body that says it is not implemented is passed over unread. The first error of the first
body that has one costs the whole entry.

Every entry of a table comes to exactly one of two ends: a procedure or a diagnostic.
-/

set_option autoImplicit false

namespace TensorBindings

open TensorBindings.Text

/-- What a body begins with that says it is not implemented. -/
def FormulaBody.notImplementedMark : String := "not_implemented"

def FormulaBody.isImplemented (body : FormulaBody) : Bool :=
  !startsWith notImplementedMark (trim body.text)

namespace Backward

def readFormula (text : String) : Except EntryError Expr :=
  match Expr.parse text with
  | .ok tree => .ok tree
  | .error fault => .error (.formulaSyntax text fault)

def readHeader (text : String) : Except EntryError Header :=
  match Header.parse text with
  | .ok header => .ok header
  | .error fault => .error (.headerSyntax text fault)

/-- The arguments that outputs name. No output may be named twice, here or in an earlier
body. -/
def checkOutputs (forward : Signature) (seen : List String) :
    List String → Except EntryError (List Argument)
  | [] => .ok []
  | output :: rest =>
      if output ∈ seen then .error (.duplicateOutput output)
      else
        match forward.argument? output with
        | none => .error (.unknownOutput output forward.engineName)
        | some argument => do
            let others ← checkOutputs forward (output :: seen) rest
            return argument :: others

/-- Every name that is called can be called. -/
def checkCalls (registry : Registry) : List String → Except EntryError Unit
  | [] => .ok ()
  | name :: rest =>
      if registry.isCallable name then checkCalls registry rest else .error (.unknownCallee name)

def checkGradients (body : FormulaBody) (tree : Expr) : Except EntryError Unit :=
  if tree.mentions severalGradientsName then .error (.severalGradients body.key) else .ok ()

def checkBody (registry : Registry) (forward : Signature) (seen : List String) (body : FormulaBody) :
    Except EntryError CheckedBody := do
  let tree ← readFormula (trim body.text)
  checkGradients body tree
  let targets ← checkOutputs forward seen body.outputNames
  checkCalls registry tree.callNames
  let (value, guarded) := stripTrainingGuard tree
  return {
    targets
    tree := (Renaming.ofForward forward registry.callSites).apply value
    guarded
    usesMask := value.mentions maskName }

/-- Check the implemented bodies in order; `seen` are the outputs of those before. -/
def checkBodies (registry : Registry) (forward : Signature) (seen : List String) :
    List FormulaBody → Except EntryError (List CheckedBody)
  | [] => .ok []
  | body :: rest =>
      if body.isImplemented then do
        let checked ← checkBody registry forward seen body
        let others ← checkBodies registry forward (seen ++ body.outputNames) rest
        return checked :: others
      else checkBodies registry forward seen rest

end Backward

/-- Why an entry gave no answer at all. -/
inductive FormulaError where
  | entry (error : EntryError)
  | render (error : RenderError)
deriving DecidableEq, Repr

namespace FormulaEntry

open Backward

/-- The forward procedure of an entry and its checked bodies. -/
def check (registry : Registry) (entry : FormulaEntry) :
    Except EntryError (Signature × List CheckedBody) := do
  let header ← readHeader entry.header
  let forward ← registry.resolve header
  let bodies ← checkBodies registry forward [] entry.bodies
  return (forward, bodies)

/-- The backward procedure of an entry; an entry without outputs has none. -/
def backward (registry : Registry) (entry : FormulaEntry) :
    Except FormulaError (Option BackwardProcedure) :=
  match entry.check registry with
  | .error error => .error (.entry error)
  | .ok (forward, bodies) =>
      match BackwardProcedure.assemble forward bodies with
      | .error error => .error (.render error)
      | .ok procedure? => .ok procedure?

/-- The note about an entry without a procedure. -/
def notImplemented (entry : FormulaEntry) : Diagnostic :=
  { message := "every formula body is not_implemented"
    code := some "NotImplemented"
    phase := some Table.derivatives.label
    severity := .note
    entry := some entry.header }

/-- What an entry of a table comes to. -/
inductive Outcome where
  | accepted (procedure : BackwardProcedure)
  | skipped (diagnostic : Diagnostic)
deriving DecidableEq, Repr

def outcome (registry : Registry) (entry : FormulaEntry) : Except RenderError Outcome :=
  match entry.backward registry with
  | .ok (some procedure) => .ok (.accepted procedure)
  | .ok none => .ok (.skipped entry.notImplemented)
  | .error (.entry error) =>
      .ok (.skipped (.ofError error Table.derivatives.label entry.header))
  | .error (.render error) => .error error

def Outcome.procedure? : Outcome → Option BackwardProcedure
  | .accepted procedure => some procedure
  | .skipped _ => none

def Outcome.diagnostic? : Outcome → Option Diagnostic
  | .accepted _ => none
  | .skipped diagnostic => some diagnostic

/-- The procedures and the diagnostics of a table, each in its order. The display names for
call sites are collected once for all entries. -/
def processAll (registry : Registry) (entries : List FormulaEntry) :
    Except RenderError (List BackwardProcedure × List Diagnostic) := do
  let outcomes ← entries.mapM (outcome registry.keepCallSites)
  return (outcomes.filterMap Outcome.procedure?, outcomes.filterMap Outcome.diagnostic?)

end FormulaEntry

end TensorBindings
