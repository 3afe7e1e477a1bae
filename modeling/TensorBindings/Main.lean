import TensorBindings.CommandLine.Run

/-!
Contract: the program.

Owns: the passage between the plan of a run and the files of the machine. It reads the
tables that a request names, writes what the plan says, and prints the report.
-/

set_option autoImplicit false

open TensorBindings
open TensorBindings.CommandLine

/-- The system gives the number of a problem as it is or negated. -/
def hasNumber (code : UInt32) (problem : FileProblem) : Bool :=
  code == problem.number.toUInt32 || code == 0 - problem.number.toUInt32

/-- The problem behind a failed file operation, if the path is at fault. -/
def fileProblem? : IO.Error → Option FileProblem
  | .noFileOrDirectory .. => some .notFound
  | .alreadyExists .. => some .alreadyExists
  | .inappropriateType _ code _ =>
      some (if hasNumber code .isADirectory then .isADirectory else .notADirectory)
  | .invalidArgument _ code _ => if hasNumber code .nameTooLong then some .nameTooLong else none
  | _ => none

/-- Run a file operation and keep a fault of its path as a value. -/
def attempt {α : Type} (path : Path) (action : IO α) : IO (Except FileError α) := do
  try
    return .ok (← action)
  catch error =>
    match fileProblem? error with
    | some problem => return .error ⟨problem, path.toText⟩
    | none => throw error

def readTableFile (text : String) : IO TableFile := do
  let path := Path.ofText text
  if path.hasNull then return { path, text := .error ⟨.notFound, path.toText⟩ }
  return { path, text := ← attempt path (IO.FS.readFile path.toText) }

def readTableFiles (request : Request) : IO TableFiles := do
  let declarations? ← request.declarations?.mapM readTableFile
  let derivatives? ← request.derivatives?.mapM readTableFile
  let helpers? ← request.helpers?.mapM readTableFile
  return { declarations?, derivatives?, helpers? }

/-- Make a directory with those above it. Should that fail, a second attempt at the last one
alone tells the problem of the whole path. -/
def makeDirectories (directory : Path) : IO (Except FileError Unit) := do
  match ← attempt directory (IO.FS.createDirAll directory.toText) with
  | .ok () => return .ok ()
  | .error _ => attempt directory (IO.FS.createDir directory.toText)

/-- Hand a path to a file operation, if it can be handed over. -/
def withPath (path : Except Break Path) (action : Path → IO (Except FileError Unit)) :
    IO (Except Break Unit) := do
  match path with
  | .error reason => return .error reason
  | .ok path =>
      match ← action path with
      | .ok () => return .ok ()
      | .error error => return .error (.file error)

def writeOutputs (directory : Path) (outputs : List Output) : IO (Except Break Unit) := do
  if let .error reason ← withPath (checkedPath directory) makeDirectories then
    return .error reason
  for output in outputs do
    let write (path : Path) := attempt path (IO.FS.writeFile path.toText output.text)
    if let .error reason ← withPath output.checkedPath write then
      return .error reason
  return .ok ()

def printReport (report : Report) : IO UInt32 := do
  IO.print report.stdout
  IO.eprint report.stderr
  return report.exitCode.toUInt32

def printBreak (reason : Break) : IO UInt32 := do
  IO.eprintln reason.message
  return 1

def main (words : List String) : IO UInt32 := do
  match parse words with
  | .error stop => printReport (stopReport stop)
  | .ok request =>
      match plan request (← readTableFiles request) with
      | .showOnly report => printReport report
      | .broken reason => printBreak reason
      | .write directory outputs report =>
          match ← writeOutputs directory outputs with
          | .ok () => printReport report
          | .error reason => printBreak reason
