import TensorBindings.CommandLine.Arguments
import TensorBindings.Files.Tree
import TensorBindings.Generation

/-!
Contract: a run of the program.

Owns: the plan of a run, made from the texts of its tables, and its execution on a file
tree. All tables are read before anything is made, so that a faulty table leaves no output.
Entries that were skipped are reported, and do not make a run fail.

A run ends with an exit code, or it breaks off: on a helper kind that cannot be compared,
on a value without a text, on a path that cannot be written, and where it needs a path or a
name of which no value was left.
-/

set_option autoImplicit false

namespace TensorBindings.CommandLine

inductive Break where
  | load (error : LoadError)
  | render (error : RenderError)
  | file (error : FileError)
  /-- A path holds a null character. -/
  | nullInPath
  /-- No value was left of the path of a table. -/
  | tableUnnamed
  /-- No value was left of the output directory. -/
  | directoryUnnamed
  /-- No value was left of the name of an output. -/
  | outputUnnamed
deriving DecidableEq, Repr

def Break.message : Break → String
  | .load error => error.message
  | .render error => error.message
  | .file error => error.message
  | .nullInPath => "embedded null byte"
  | .tableUnnamed => "'list' object has no attribute 'read_text'"
  | .directoryUnnamed => "'list' object has no attribute 'mkdir'"
  | .outputUnnamed => "unsupported operand type(s) for /: 'PosixPath' and 'list'"

/-- What a run that ends shows: its exit code and what it prints. -/
structure Report where
  exitCode : Nat
  stdout : String := ""
  stderr : String := ""
deriving DecidableEq, Repr

def lines (texts : List String) : String := String.join (texts.map (· ++ "\n"))

/-! ### Reading tables -/

/-- A table at its path, as far as it could be read. -/
structure TableFile where
  path : Path
  text : Except FileError String

/-- The tables that a request names. -/
structure TableFiles where
  declarations? : Option TableFile
  derivatives? : Option TableFile
  helpers? : Option TableFile

structure Tables where
  declarations : List Declaration
  formulas : List FormulaEntry
  helpers : List Signature

def TableFile.readable (table : Table) (file : TableFile) : Except Break String :=
  if file.path.hasNull then .error .nullInPath
  else
    match file.text with
    | .ok text => .ok text
    | .error error => .error (.load (.table (.unreadable table file.path.toText error)))

def TableFile.declarations (file : TableFile) : Except Break (List Declaration) := do
  let text ← file.readable .declarations
  match Declaration.readTable file.path.toText text with
  | .ok declarations => return declarations
  | .error error => .error (.load (.table error))

def TableFile.formulas (file : TableFile) : Except Break (List FormulaEntry) := do
  let text ← file.readable .derivatives
  match FormulaEntry.readTable file.path.toText text with
  | .ok formulas => return formulas
  | .error error => .error (.load (.table error))

def TableFile.helpers (file : TableFile) : Except Break (List Signature) := do
  let text ← file.readable .helpers
  match Helper.readTable file.path.toText text with
  | .ok helpers => return helpers
  | .error error => .error (.load error)

/-- A table that a run cannot do without. -/
def neededTable : Option TableFile → Except Break TableFile
  | some file => .ok file
  | none => .error .tableUnnamed

/-- Read the tables; the first fault counts. -/
def TableFiles.load (files : TableFiles) : Except Break Tables := do
  let declarations ← (← neededTable files.declarations?).declarations
  let formulas ← (← neededTable files.derivatives?).formulas
  let helpers ← match files.helpers? with
    | some file => file.helpers
    | none => .ok []
  return { declarations, formulas, helpers }

/-! ### Planning -/

/-- A text and the path where it goes, unless it has no name. -/
structure Output where
  path? : Option Path
  text : String
deriving DecidableEq, Repr

inductive Plan where
  /-- Nothing is written. -/
  | showOnly (report : Report)
  /-- The texts are written one after the other into a directory. -/
  | write (directory : Path) (outputs : List Output) (report : Report)
  | broken (reason : Break)

/-- Diagnostics as a record on one line. -/
def recordLine (exitCode : Nat) (diagnostics : List Diagnostic) : String :=
  (Document.record
    [("exit_code", .integer exitCode),
     ("diagnostics", .list (diagnostics.map Diagnostic.toDocument))]).render

def tableReport (request : Request) (error : TableError) : Report :=
  if request.json then
    let diagnostic : Diagnostic :=
      { message := error.message, code := some "TableError", phase := some error.table.label }
    { exitCode := 1, stdout := lines [recordLine 1 [diagnostic]] }
  else
    { exitCode := 1, stderr := lines [error.table.label ++ ": error: " ++ error.message] }

/-- The diagnostics that are shown. -/
def shown (request : Request) (diagnostics : List Diagnostic) : List Diagnostic :=
  diagnostics.filter fun diagnostic => !(request.quiet && diagnostic.severity == .note)

def finalReport (request : Request) (diagnostics : List Diagnostic) : Report :=
  if request.json then
    { exitCode := 0, stdout := lines [recordLine 0 (shown request diagnostics)] }
  else
    { exitCode := 0, stderr := lines ((shown request diagnostics).map Diagnostic.render) }

def outputPath (directory : Path) (name : String) : Path := directory.join (.ofText name)

def planOutputs (request : Request) (generation : Generation) : Plan :=
  match request.outDir? with
  | none => .broken .directoryUnnamed
  | some text =>
      let directory := Path.ofText text
      let output (name? : Option String) (text : String) : Output :=
        { path? := name?.map (outputPath directory), text }
      .write directory
        [output request.bindingsName? generation.bindings,
         output request.derivativesName? generation.derivatives]
        (finalReport request generation.diagnostics)

/-- The plan of a run, from its tables. -/
def plan (request : Request) (files : TableFiles) : Plan :=
  match files.load with
  | .error (.load (.table error)) => .showOnly (tableReport request error)
  | .error reason => .broken reason
  | .ok tables =>
      let options : GenerationOptions :=
        { skipInplace := request.skipInplace
          autogradBlocks := request.autogradBlocks
          extraHelpers := tables.helpers }
      match generate options tables.declarations tables.formulas with
      | .ok generation => planOutputs request generation
      | .error error => .broken (.render error)

/-! ### Execution -/

/-- How a run ended, and the files after it. -/
structure Ending where
  outcome : Except Break Report
  tree : FileTree

/-- A path that can be handed to a file system. -/
def checkedPath (path : Path) : Except Break Path :=
  if path.hasNull then .error .nullInPath else .ok path

def Output.checkedPath (output : Output) : Except Break Path :=
  match output.path? with
  | some path => CommandLine.checkedPath path
  | none => .error .outputUnnamed

def Output.write (tree : FileTree) (output : Output) : Except Break FileTree := do
  let path ← output.checkedPath
  match tree.write path output.text with
  | .ok written => return written
  | .error error => .error (.file error)

/-- Write texts in order; the first that cannot be written ends this, and what was written
before stays. -/
def writeAll (tree : FileTree) : List Output → Option Break × FileTree
  | [] => (none, tree)
  | output :: rest =>
      match output.write tree with
      | .ok written => writeAll written rest
      | .error reason => (some reason, tree)

def prepareDirectory (tree : FileTree) (directory : Path) : Except Break FileTree := do
  let path ← checkedPath directory
  match tree.ensureDirectories path with
  | .ok prepared => return prepared
  | .error error => .error (.file error)

def readTable (tree : FileTree) (text : String) : TableFile :=
  let path := Path.ofText text
  { path, text := tree.read path }

def readTables (tree : FileTree) (request : Request) : TableFiles :=
  { declarations? := request.declarations?.map (readTable tree)
    derivatives? := request.derivatives?.map (readTable tree)
    helpers? := request.helpers?.map (readTable tree) }

def Plan.execute (tree : FileTree) : Plan → Ending
  | .showOnly report => { outcome := .ok report, tree }
  | .broken reason => { outcome := .error reason, tree }
  | .write directory outputs report =>
      match prepareDirectory tree directory with
      | .error reason => { outcome := .error reason, tree }
      | .ok prepared =>
          match writeAll prepared outputs with
          | (none, written) => { outcome := .ok report, tree := written }
          | (some reason, written) => { outcome := .error reason, tree := written }

def programName : String := "atenbind"

def usageText : String :=
  "usage: " ++ programName ++ " [options] declarations derivatives"

/-- The report of a command line that asks for no run. -/
def stopReport : Stop → Report
  | .help => { exitCode := 0, stdout := lines [usageText] }
  | .usage error => { exitCode := 2, stderr := lines [programName ++ ": error: " ++ error.message] }

/-- Run the program with these words on a file tree. -/
def run (tree : FileTree) (words : List String) : Ending :=
  match parse words with
  | .error stop => { outcome := .ok (stopReport stop), tree }
  | .ok request => (plan request (readTables tree request)).execute tree

end TensorBindings.CommandLine
