import TensorBindings.CommandLine.Run
import TensorBindings.Proofs.Files
import TensorBindings.Proofs.Generation.Totality
import TensorBindings.Proofs.Table

/-!
Contract: what a run does to the files.

Owns: the tables of a request and the first fault among them, the file operations of a run, and
the theorem that a run either loads all tables and writes its two outputs, or stops at the first
faulty table, reports it and leaves the files alone.

Loading is described by relations on the file tree. That a table was not loaded because an
earlier one is at fault is then a matter of the statement, not of the order of the code.

Does not own: the diagnostics of single entries, and the reading of the words.
-/

set_option autoImplicit false

namespace TensorBindings.CommandLine

/-! ### One table -/

section OneTable

variable {Fault α : Type}

/-- The table of this name can be read and holds this. -/
structure Loads (tree : FileTree) (read : String → String → Except Fault α) (name : String)
    (content : α) : Prop where
  noNull : (Path.ofText name).hasNull = false
  holds : ∃ text, tree.read (.ofText name) = .ok text ∧
    read (Path.ofText name).toText text = .ok content

/-- The table of this name cannot be read, or its text is at fault. -/
inductive Refuses (tree : FileTree) (table : Table) (read : String → String → Except Fault α)
    (ofTable : TableError → Fault) (name : String) : TableError → Prop where
  | unreadable {error : FileError}
      (noNull : (Path.ofText name).hasNull = false)
      (unread : tree.read (.ofText name) = .error error) :
      Refuses tree table read ofTable name (.unreadable table (Path.ofText name).toText error)
  | invalid {text : String} {error : TableError}
      (noNull : (Path.ofText name).hasNull = false)
      (readable : tree.read (.ofText name) = .ok text)
      (refused : read (Path.ofText name).toText text = .error (ofTable error)) :
      Refuses tree table read ofTable name error

/-- The content of a table, which `read` finds in its text. -/
def TableFile.content (table : Table) (read : String → String → Except Fault α)
    (stop : Fault → Break) (file : TableFile) : Except Break α := do
  let text ← file.readable table
  (read file.path.toText text).mapError stop

variable {tree : FileTree} {table : Table} {read : String → String → Except Fault α}
  {stop : Fault → Break} {name : String}

private theorem readable_eq (noNull : (Path.ofText name).hasNull = false) :
    (readTable tree name).readable table =
      (tree.read (.ofText name)).mapError fun error =>
        .load (.table (.unreadable table (Path.ofText name).toText error)) := by
  unfold TableFile.readable readTable
  simp only [noNull]
  cases tree.read (.ofText name) <;> rfl

theorem content_of_read (noNull : (Path.ofText name).hasNull = false) {text : String}
    (isRead : tree.read (.ofText name) = .ok text) :
    (readTable tree name).content table read stop =
      (read (Path.ofText name).toText text).mapError stop := by
  unfold TableFile.content
  rw [readable_eq noNull, isRead]
  rfl

private theorem content_of_unread (noNull : (Path.ofText name).hasNull = false) {error : FileError}
    (unread : tree.read (.ofText name) = .error error) :
    (readTable tree name).content table read stop =
      .error (.load (.table (.unreadable table (Path.ofText name).toText error))) := by
  unfold TableFile.content
  rw [readable_eq noNull, unread]
  rfl

/-- All that can become of a table. -/
theorem content_cases (tree : FileTree) (table : Table)
    (read : String → String → Except Fault α) (stop : Fault → Break) (name : String) :
    (readTable tree name).content table read stop = .error .nullInPath ∨
    (∃ error, (Path.ofText name).hasNull = false ∧ tree.read (.ofText name) = .error error ∧
      (readTable tree name).content table read stop =
        .error (.load (.table (.unreadable table (Path.ofText name).toText error)))) ∨
    (∃ text, (Path.ofText name).hasNull = false ∧ tree.read (.ofText name) = .ok text ∧
      (readTable tree name).content table read stop =
        (read (Path.ofText name).toText text).mapError stop) := by
  cases null : (Path.ofText name).hasNull with
  | true =>
      refine Or.inl ?_
      unfold TableFile.content TableFile.readable readTable
      simp only [null]
      rfl
  | false =>
      cases isRead : tree.read (.ofText name) with
      | error problem => exact Or.inr (Or.inl ⟨problem, rfl, rfl, content_of_unread null isRead⟩)
      | ok text => exact Or.inr (Or.inr ⟨text, rfl, rfl, content_of_read null isRead⟩)

private theorem content_eq_ok_iff {content : α} :
    (readTable tree name).content table read stop = .ok content ↔ Loads tree read name content := by
  constructor
  · intro loaded
    rcases content_cases tree table read stop name with
      null | ⟨_, _, _, unread⟩ | ⟨text, noNull, isRead, found⟩
    · rw [null] at loaded
      cases loaded
    · rw [unread] at loaded
      cases loaded
    · rw [found, mapError_eq_ok_iff] at loaded
      exact ⟨noNull, text, isRead, loaded⟩
  · rintro ⟨noNull, text, isRead, holds⟩
    rw [content_of_read noNull isRead, holds]
    rfl

private theorem content_eq_fault_iff {ofTable : TableError → Fault}
    (stops : ∀ fault error, stop fault = .load (.table error) ↔ fault = ofTable error)
    {error : TableError} :
    (readTable tree name).content table read stop = .error (.load (.table error)) ↔
      Refuses tree table read ofTable name error := by
  constructor
  · intro failed
    rcases content_cases tree table read stop name with
      null | ⟨_, noNull, isUnread, unread⟩ | ⟨text, noNull, isRead, found⟩
    · rw [null] at failed
      cases failed
    · rw [unread] at failed
      cases failed
      exact .unreadable noNull isUnread
    · rw [found, mapError_eq_error_iff] at failed
      obtain ⟨fault, refused, isFault⟩ := failed
      rw [(stops fault error).mp isFault] at refused
      exact .invalid noNull isRead refused
  · rintro (⟨noNull, unread⟩ | ⟨noNull, readable, refused⟩)
    · exact content_of_unread noNull unread
    · rw [content_of_read noNull readable, refused]
      exact congrArg Except.error ((stops _ error).mpr rfl)

end OneTable

/-! ### All tables -/

/-- The tables of a request, all of which could be loaded. -/
structure LoadsTables (tree : FileTree) (request : Request) (tables : Tables) : Prop where
  declarations : ∃ name ∈ request.declarations?,
    Loads tree Declaration.readTable name tables.declarations
  formulas : ∃ name ∈ request.derivatives?,
    Loads tree FormulaEntry.readTable name tables.formulas
  /-- Helpers need not be given. -/
  helpers : (request.helpers? = none ∧ tables.helpers = []) ∨
    ∃ name ∈ request.helpers?, Loads tree Helper.readTable name tables.helpers

/-- The first table of a request that is at fault, with its fault. The tables before it could be
loaded. -/
inductive FirstFault (tree : FileTree) (request : Request) : Table → TableError → Prop where
  | declarations {error : TableError}
      (refused : ∃ name ∈ request.declarations?,
        Refuses tree .declarations Declaration.readTable id name error) :
      FirstFault tree request .declarations error
  | derivatives {declarations : List Declaration} {error : TableError}
      (loaded : ∃ name ∈ request.declarations?, Loads tree Declaration.readTable name declarations)
      (refused : ∃ name ∈ request.derivatives?,
        Refuses tree .derivatives FormulaEntry.readTable id name error) :
      FirstFault tree request .derivatives error
  | helpers {declarations : List Declaration} {formulas : List FormulaEntry} {error : TableError}
      (loaded : ∃ name ∈ request.declarations?, Loads tree Declaration.readTable name declarations)
      (loadedFormulas : ∃ name ∈ request.derivatives?,
        Loads tree FormulaEntry.readTable name formulas)
      (refused : ∃ name ∈ request.helpers?,
        Refuses tree .helpers Helper.readTable .table name error) :
      FirstFault tree request .helpers error

section Load

variable {tree : FileTree} {request : Request}

section Given

variable {Fault α : Type} {table : Table} {read : String → String → Except Fault α}
  {stop : Fault → Break} {missing : Except Break α} {name? : Option String}

/-- The content of a table that may be given or not. -/
def givenContent (tree : FileTree) (table : Table) (read : String → String → Except Fault α)
    (stop : Fault → Break) (missing : Except Break α) : Option String → Except Break α
  | none => missing
  | some name => (readTable tree name).content table read stop

theorem givenContent_eq_ok_iff {content : α} :
    givenContent tree table read stop missing name? = .ok content ↔
      (name? = none ∧ missing = .ok content) ∨ ∃ name ∈ name?, Loads tree read name content := by
  cases name? with
  | none => simp [givenContent]
  | some name =>
      rw [givenContent, content_eq_ok_iff]
      simp

private theorem givenContent_eq_fault_iff {ofTable : TableError → Fault}
    (stops : ∀ fault error, stop fault = .load (.table error) ↔ fault = ofTable error)
    {error : TableError} :
    givenContent tree table read stop missing name? = .error (.load (.table error)) ↔
      (name? = none ∧ missing = .error (.load (.table error))) ∨
        ∃ name ∈ name?, Refuses tree table read ofTable name error := by
  cases name? with
  | none => simp [givenContent]
  | some name =>
      rw [givenContent, content_eq_fault_iff stops]
      simp

private theorem neededTable_content :
    (do (← neededTable (name?.map (readTable tree))).content table read stop) =
      givenContent tree table read stop (.error .tableUnnamed) name? := by
  cases name? <;> rfl

end Given

private theorem declarations_eq_content (file : TableFile) :
    file.declarations =
      file.content .declarations Declaration.readTable fun error => .load (.table error) := by
  refine bind_congr fun text => ?_
  cases Declaration.readTable file.path.toText text <;> rfl

private theorem formulas_eq_content (file : TableFile) :
    file.formulas =
      file.content .derivatives FormulaEntry.readTable fun error => .load (.table error) := by
  refine bind_congr fun text => ?_
  cases FormulaEntry.readTable file.path.toText text <;> rfl

private theorem helpers_eq_content (file : TableFile) :
    file.helpers = file.content .helpers Helper.readTable .load := by
  refine bind_congr fun text => ?_
  cases Helper.readTable file.path.toText text <;> rfl

theorem load_readTables :
    (readTables tree request).load = do
      let declarations ← givenContent tree .declarations Declaration.readTable
        (fun error => .load (.table error)) (.error .tableUnnamed) request.declarations?
      let formulas ← givenContent tree .derivatives FormulaEntry.readTable
        (fun error => .load (.table error)) (.error .tableUnnamed) request.derivatives?
      let helpers ← givenContent tree .helpers Helper.readTable .load (.ok []) request.helpers?
      return ⟨declarations, formulas, helpers⟩ := by
  unfold TableFiles.load readTables
  simp only [declarations_eq_content, formulas_eq_content, helpers_eq_content,
    ← neededTable_content, bind_assoc]
  cases request.helpers? with
  | none => rfl
  | some helpers => rfl

private theorem load_eq_ok_iff {tables : Tables} :
    (readTables tree request).load = .ok tables ↔ LoadsTables tree request tables := by
  rw [load_readTables]
  simp only [bind_eq_ok_iff, givenContent_eq_ok_iff, reduceCtorEq, and_false, false_or]
  constructor
  · rintro ⟨declarations, ofDeclarations, formulas, ofFormulas, helpers, ofHelpers, returned⟩
    cases returned
    refine ⟨ofDeclarations, ofFormulas, ofHelpers.imp_left (And.imp_right fun none => ?_)⟩
    exact (Except.ok.inj none).symm
  · rintro ⟨ofDeclarations, ofFormulas, ofHelpers⟩
    refine ⟨_, ofDeclarations, _, ofFormulas, _,
      ofHelpers.imp_left (And.imp_right fun none => ?_), rfl⟩
    exact congrArg Except.ok none.symm

private theorem load_eq_fault_iff {error : TableError} :
    (readTables tree request).load = .error (.load (.table error)) ↔
      ∃ table, FirstFault tree request table error := by
  have stops : ∀ fault error : TableError,
      Break.load (.table fault) = .load (.table error) ↔ fault = id error := by simp
  have stopsHelpers : ∀ fault error, Break.load fault = .load (.table error) ↔
      fault = LoadError.table error := by simp
  rw [load_readTables]
  simp only [bind_eq_error_iff, givenContent_eq_ok_iff, givenContent_eq_fault_iff stops,
    givenContent_eq_fault_iff stopsHelpers, Except.error.injEq, reduceCtorEq, and_false, false_or]
  constructor
  · rintro (refused | ⟨declarations, loaded, refused | ⟨formulas, loadedFormulas,
      refused | ⟨helpers, _, returned⟩⟩⟩)
    · exact ⟨_, .declarations refused⟩
    · exact ⟨_, .derivatives loaded refused⟩
    · exact ⟨_, .helpers loaded loadedFormulas refused⟩
    · cases returned
  · rintro ⟨_, refused | ⟨loaded, refused⟩ | ⟨loaded, loadedFormulas, refused⟩⟩
    · exact Or.inl refused
    · exact Or.inr ⟨_, loaded, Or.inl refused⟩
    · exact Or.inr ⟨_, loaded, Or.inr ⟨_, loadedFormulas, Or.inl refused⟩⟩

private theorem Refuses.table_eq {Fault α : Type} {table : Table}
    {read : String → String → Except Fault α} {ofTable : TableError → Fault} {name : String}
    {error : TableError} (refused : Refuses tree table read ofTable name error)
    (names : ∀ path text fault, read path text = .error (ofTable fault) → fault.table = table) :
    error.table = table := by
  cases refused with
  | unreadable _ _ => rfl
  | invalid _ _ refused => exact names _ _ _ refused

/-- The fault names the table that it is in. -/
theorem FirstFault.table_eq {table : Table} {error : TableError}
    (fault : FirstFault tree request table error) : error.table = table := by
  cases fault with
  | declarations refused =>
      obtain ⟨_, _, refused⟩ := refused
      exact refused.table_eq fun path text => Declaration.failsOnly_readTable path text
  | derivatives _ refused =>
      obtain ⟨_, _, refused⟩ := refused
      exact refused.table_eq fun path text => FormulaEntry.failsOnly_readTable path text
  | helpers _ _ refused =>
      obtain ⟨_, _, refused⟩ := refused
      exact refused.table_eq fun path text fault failed =>
        Helper.failsOnly_readTable path text _ failed fault rfl

theorem LoadsTables.areHelpers {tables : Tables} (loads : LoadsTables tree request tables) :
    ∀ helper ∈ tables.helpers, helper.isHelper = true := by
  rcases loads.helpers with ⟨_, none⟩ | ⟨_, _, _, _, _, holds⟩
  · rw [none]
    exact List.forall_mem_nil _
  · exact Helper.isHelper_of_readTable holds

end Load

/-! ### Writing -/

private theorem prepareDirectory_eq_ok_iff {tree prepared : FileTree} {directory : Path} :
    prepareDirectory tree directory = .ok prepared ↔
      directory.hasNull = false ∧ tree.ensureDirectories directory = .ok prepared := by
  unfold prepareDirectory checkedPath
  cases directory.hasNull with
  | true => simp [bind, Except.bind]
  | false =>
      simp only [bind, Except.bind]
      cases made : tree.ensureDirectories directory <;> simp [made, pure, Except.pure]

theorem Output.write_eq_ok_iff {tree written : FileTree} {output : Output} :
    output.write tree = .ok written ↔
      ∃ path ∈ output.path?, path.hasNull = false ∧ tree.write path output.text = .ok written := by
  unfold Output.write Output.checkedPath CommandLine.checkedPath
  cases output.path? with
  | none => simp [bind, Except.bind]
  | some path =>
      simp only [Option.mem_def, Option.some.injEq, exists_eq_left']
      cases path.hasNull with
      | true => simp [bind, Except.bind]
      | false =>
          simp only [bind, Except.bind]
          cases wrote : tree.write path output.text <;> simp [wrote, pure, Except.pure]

private theorem writeAll_cons_eq_none_iff {tree written : FileTree} {output : Output}
    {rest : List Output} :
    writeAll tree (output :: rest) = (none, written) ↔
      ∃ between, output.write tree = .ok between ∧ writeAll between rest = (none, written) := by
  rw [writeAll]
  cases output.write tree <;> simp

/-- The paths that a run writes to. -/
structure Targets where
  directory : Path
  bindings : Path
  derivatives : Path

namespace Targets

def ofNames (directory bindings derivatives : String) : Targets :=
  { directory := .ofText directory
    bindings := outputPath (.ofText directory) bindings
    derivatives := outputPath (.ofText directory) derivatives }

/-- The paths that a request names. -/
def AreOf (targets : Targets) (request : Request) : Prop :=
  ∃ directory ∈ request.outDir?, ∃ bindings ∈ request.bindingsName?,
    ∃ derivatives ∈ request.derivativesName?, targets = ofNames directory bindings derivatives

/-- The file operations of a run all succeed: the directory is made, then one text is written
after the other. -/
structure Written (targets : Targets) (before after : FileTree) (bindings derivatives : String) :
    Prop where
  noNull : ∀ path ∈ [targets.directory, targets.bindings, targets.derivatives],
    path.hasNull = false
  steps : ∃ prepared between,
    before.ensureDirectories targets.directory = .ok prepared ∧
    prepared.write targets.bindings bindings = .ok between ∧
    between.write targets.derivatives derivatives = .ok after

end Targets

private theorem execute_write_eq_ok_iff {tree after : FileTree} {directory : Path}
    {outputs : List Output} {report shown : Report} :
    (Plan.write directory outputs report).execute tree = ⟨.ok shown, after⟩ ↔
      report = shown ∧ ∃ prepared, prepareDirectory tree directory = .ok prepared ∧
        writeAll prepared outputs = (none, after) := by
  rw [Plan.execute]
  cases prepareDirectory tree directory with
  | error reason => simp
  | ok prepared =>
      simp only [Except.ok.injEq, exists_eq_left']
      cases writeAll prepared outputs with
      | mk reason? written => cases reason? <;> simp

/-- A run with outputs ends with a report exactly if its file operations succeed. -/
theorem execute_planOutputs_eq_ok_iff {tree after : FileTree} {request : Request}
    {generation : Generation} {report : Report} :
    (planOutputs request generation).execute tree = ⟨.ok report, after⟩ ↔
      finalReport request generation.diagnostics = report ∧
        ∃ targets : Targets, targets.AreOf request ∧
          targets.Written tree after generation.bindings generation.derivatives := by
  unfold planOutputs
  cases named : request.outDir? with
  | none =>
      simp only [Plan.execute]
      constructor
      · intro ends
        cases ends
      · rintro ⟨_, targets, ⟨name, isNamed, _⟩, _⟩
        rw [named] at isNamed
        cases isNamed
  | some directory =>
      dsimp only
      rw [execute_write_eq_ok_iff]
      refine and_congr_right fun _ => ?_
      simp only [prepareDirectory_eq_ok_iff, writeAll_cons_eq_none_iff, Output.write_eq_ok_iff,
        Option.mem_def, Option.map_eq_some_iff]
      constructor
      · rintro ⟨prepared, ⟨directoryNull, made⟩, between,
          ⟨_, ⟨bindings, isBindings, rfl⟩, bindingsNull, wrote⟩, last,
          ⟨_, ⟨derivatives, isDerivatives, rfl⟩, derivativesNull, wroteLast⟩, done⟩
        cases done
        refine ⟨.ofNames directory bindings derivatives,
          ⟨directory, named, bindings, isBindings, derivatives, isDerivatives, rfl⟩, ?_,
          prepared, between, made, wrote, wroteLast⟩
        exact List.forall_mem_cons.mpr ⟨directoryNull, List.forall_mem_cons.mpr
          ⟨bindingsNull, List.forall_mem_singleton.mpr derivativesNull⟩⟩
      · rintro ⟨_, ⟨name, isNamed, bindings, isBindings, derivatives, isDerivatives, rfl⟩, noNull,
          prepared, between, made, wrote, wroteLast⟩
        obtain rfl : directory = name := Option.some.inj (named.symm.trans isNamed)
        simp only [List.forall_mem_cons] at noNull
        obtain ⟨directoryNull, bindingsNull, derivativesNull, _⟩ := noNull
        exact ⟨prepared, ⟨directoryNull, made⟩, between,
          ⟨_, ⟨bindings, isBindings, rfl⟩, bindingsNull, wrote⟩, after,
          ⟨_, ⟨derivatives, isDerivatives, rfl⟩, derivativesNull, wroteLast⟩, rfl⟩

namespace Targets

/-- What stands in the files after a run: its two texts, and nothing else that is new but
directories. Where both texts go to one place, the last one stays. -/
structure Hold (targets : Targets) (before after : FileTree) (bindings derivatives : String) :
    Prop where
  bindings : after.locate targets.bindings ≠ after.locate targets.derivatives →
    after.read targets.bindings = .ok bindings
  derivatives : after.read targets.derivatives = .ok derivatives
  others : ∀ location, after.locate targets.bindings ≠ .ok location →
    after.locate targets.derivatives ≠ .ok location →
    after.node? location = before.node? location ∨
      (before.node? location = none ∧ after.node? location = some .directory)

section Written

variable {targets : Targets} {before after : FileTree} {bindings derivatives : String}

theorem Written.hold (written : targets.Written before after bindings derivatives) :
    targets.Hold before after bindings derivatives := by
  obtain ⟨_, prepared, between, made, wrote, wroteLast⟩ := written
  have makes := FileTree.onlyMakesDirectories_of_ensureSteps made
  obtain ⟨first, firstLocated, firstText, firstOthers, firstKeeps⟩ := FileTree.write_spec wrote
  obtain ⟨last, lastLocated, lastText, lastOthers, lastKeeps⟩ := FileTree.write_spec wroteLast
  -- The paths lead in the end where they led when they were written to.
  have toFirst := (firstKeeps.trans lastKeeps).locate firstLocated
  have toLast := lastKeeps.locate lastLocated
  refine ⟨fun differ => ?_, ?_, fun location notFirst notLast => ?_⟩
  · have apart : first ≠ last := by
      rintro rfl
      exact differ (toFirst.trans toLast.symm)
    refine FileTree.read_eq_ok_iff.mpr ⟨first, toFirst, ?_⟩
    rw [lastOthers first apart]
    exact firstText
  · exact FileTree.read_eq_ok_iff.mpr ⟨last, toLast, lastText⟩
  · have isNotFirst : location ≠ first := by
      rintro rfl
      exact notFirst toFirst
    have isNotLast : location ≠ last := by
      rintro rfl
      exact notLast toLast
    rw [lastOthers location isNotLast, firstOthers location isNotFirst]
    exact makes.node location

/-- Whether texts can be written depends on the places where they go, and not on the texts. -/
theorem exists_written {prepared : FileTree}
    (noNull : ∀ path ∈ [targets.directory, targets.bindings, targets.derivatives],
      path.hasNull = false)
    (made : before.ensureDirectories targets.directory = .ok prepared) {first last : Location}
    (toFirst : prepared.locate targets.bindings = .ok first)
    (toLast : prepared.locate targets.derivatives = .ok last)
    (firstFree : prepared.node? first ≠ some .directory)
    (lastFree : prepared.node? last ≠ some .directory) (bindings derivatives : String) :
    ∃ after, targets.Written before after bindings derivatives := by
  have wrote : prepared.write targets.bindings bindings =
      .ok (prepared.put first (.file bindings)) :=
    FileTree.write_eq_ok_iff.mpr ⟨first, toFirst, firstFree, rfl⟩
  obtain ⟨place, located, text, others, keeps⟩ := FileTree.write_spec wrote
  obtain rfl : first = place := Except.ok.inj (toFirst.symm.trans located)
  have stillFree : (prepared.put first (.file bindings)).node? last ≠ some .directory := by
    by_cases same : last = first
    · rw [same, text]
      simp
    · rw [others last same]
      exact lastFree
  exact ⟨_, noNull, prepared, _, made, wrote,
    FileTree.write_eq_ok_iff.mpr ⟨last, keeps.locate toLast, stillFree, rfl⟩⟩

/-- Different file names lead to different places. -/
theorem Written.locate_ne {directory name other : String}
    (written : (ofNames directory name other).Written before after bindings derivatives)
    (isName : Path.IsFileName name) (isOther : Path.IsFileName other) (different : name ≠ other) :
    after.locate (ofNames directory name other).bindings ≠
      after.locate (ofNames directory name other).derivatives := by
  intro same
  obtain ⟨location, toLast, _⟩ := FileTree.read_eq_ok_iff.mp written.hold.derivatives
  rw [toLast] at same
  exact different (FileTree.locate_fileName_injective isName isOther same toLast)

end Written

end Targets

/-! ### Runs -/

/-- The options of a run over these tables. -/
def Request.options (request : Request) (tables : Tables) : GenerationOptions :=
  { skipInplace := request.skipInplace
    autogradBlocks := request.autogradBlocks
    extraHelpers := tables.helpers }

/-- The report shows the fault of one table and nothing else. -/
structure Report.ShowsOnly (request : Request) (table : Table) (error : TableError)
    (report : Report) : Prop where
  asRecord : request.json = true → report.stderr = "" ∧
    report.stdout = recordLine 1
      [{ message := error.message, code := some "TableError", phase := some table.label }] ++ "\n"
  asText : request.json = false → report.stdout = "" ∧
    report.stderr = table.label ++ ": error: " ++ error.message ++ "\n"

section Run

variable {tree : FileTree} {words : List String} {request : Request}

private theorem showsOnly_tableReport {table : Table} {error : TableError}
    (named : error.table = table) :
    (tableReport request error).exitCode = 1 ∧
      (tableReport request error).ShowsOnly request table error := by
  subst named
  unfold tableReport
  split_ifs with asRecord
  · exact ⟨rfl, fun _ => ⟨rfl, by simp [lines]⟩, fun asText => absurd asRecord (by simp [asText])⟩
  · exact ⟨rfl, fun isRecord => absurd isRecord asRecord, fun _ => ⟨rfl, by simp [lines]⟩⟩

private theorem exitCode_finalReport (diagnostics : List Diagnostic) :
    (finalReport request diagnostics).exitCode = 0 := by
  unfold finalReport
  split_ifs <;> rfl

/-- All that a run can do once its words are accepted: report a faulty table, break off before
anything is written, or come to its outputs. -/
theorem run_cases (accepted : parse words = .ok request) :
    (∃ error, (readTables tree request).load = .error (.load (.table error)) ∧
      run tree words = ⟨.ok (tableReport request error), tree⟩) ∨
    (∃ reason, (readTables tree request).load = .error reason ∧
      (∀ error, reason ≠ .load (.table error)) ∧ run tree words = ⟨.error reason, tree⟩) ∨
    (∃ tables generation, (readTables tree request).load = .ok tables ∧
      generate (request.options tables) tables.declarations tables.formulas = .ok generation ∧
      run tree words = (planOutputs request generation).execute tree) := by
  have runs : run tree words = (plan request (readTables tree request)).execute tree := by
    rw [run, accepted]
  rw [runs, plan]
  cases loaded : (readTables tree request).load with
  | error reason =>
      split
      · next error same =>
          cases same
          exact Or.inl ⟨error, rfl, rfl⟩
      · next noTable same =>
          cases same
          refine Or.inr (Or.inl ⟨reason, rfl, fun error isTable => ?_, rfl⟩)
          exact noTable error (by rw [isTable])
      · next same => cases same
  | ok tables =>
      obtain ⟨_, _, runs⟩ := exists_generate (request.options tables) tables.declarations
        (load_eq_ok_iff.mp loaded).areHelpers
      obtain ⟨derivatives, _, generated⟩ := runs tables.formulas
      refine Or.inr (Or.inr ⟨tables, _, rfl, generated, ?_⟩)
      have sameOptions : generate
          { skipInplace := request.skipInplace, autogradBlocks := request.autogradBlocks,
            extraHelpers := tables.helpers } tables.declarations tables.formulas = _ := generated
      simp only [sameOptions]

end Run

/-- What a run does to the files, and what it reports. -/
structure WritesAllOrNothing (tree : FileTree) (words : List String) (request : Request) :
    Prop where
  /-- The first faulty table is reported, and the files are left alone. -/
  faulty : ∀ table error, FirstFault tree request table error →
    ∃ report, run tree words = ⟨.ok report, tree⟩ ∧ report.exitCode = 1 ∧
      report.ShowsOnly request table error
  /-- The exit code 1 means that a table is at fault. -/
  onlyFaulty : ∀ report, (run tree words).outcome = .ok report → report.exitCode = 1 →
    ∃ table error, FirstFault tree request table error
  /-- Unless all tables are loaded, the files are left alone. -/
  untouched : (∀ tables, ¬ LoadsTables tree request tables) → (run tree words).tree = tree
  /-- With all tables loaded there are two texts, whatever becomes of single entries. The run
  ends exactly if these can be written, with the exit code 0 and with both texts in their
  files. -/
  loaded : ∀ tables, LoadsTables tree request tables →
    ∃ generation,
      generate (request.options tables) tables.declarations tables.formulas = .ok generation ∧
      (∀ report after, run tree words = ⟨.ok report, after⟩ ↔
        finalReport request generation.diagnostics = report ∧
          ∃ targets : Targets, targets.AreOf request ∧
            targets.Written tree after generation.bindings generation.derivatives) ∧
      (finalReport request generation.diagnostics).exitCode = 0 ∧
      ∀ (targets : Targets) after,
        targets.Written tree after generation.bindings generation.derivatives →
        targets.Hold tree after generation.bindings generation.derivatives
  /-- Two different file names are two places. -/
  apart : ∀ directory name other after bindings derivatives,
    (Targets.ofNames directory name other).Written tree after bindings derivatives →
    Path.IsFileName name → Path.IsFileName other → name ≠ other →
    after.locate (Targets.ofNames directory name other).bindings ≠
      after.locate (Targets.ofNames directory name other).derivatives

/-- A run writes both of its outputs, or it stops at the first faulty table, reports it and
writes nothing. -/
theorem run_writes_all_or_nothing {words : List String} {request : Request}
    (accepted : parse words = .ok request) (tree : FileTree) :
    WritesAllOrNothing tree words request where
  faulty := by
    intro table error fault
    have failed := load_eq_fault_iff.mpr ⟨table, fault⟩
    rcases run_cases accepted with ⟨other, loads, runs⟩ | ⟨_, loads, noTable, _⟩ | ⟨_, _, loads, _⟩
    · obtain rfl : error = other := by
        rw [failed] at loads
        cases loads
        rfl
      exact ⟨_, runs, showsOnly_tableReport fault.table_eq⟩
    · rw [failed] at loads
      exact absurd (Except.error.inj loads).symm (noTable error)
    · rw [failed] at loads
      cases loads
  onlyFaulty := by
    intro report ends isOne
    rcases run_cases accepted with ⟨error, loads, _⟩ | ⟨_, _, _, runs⟩ | ⟨_, generation, _, _, runs⟩
    · obtain ⟨table, fault⟩ := load_eq_fault_iff.mp loads
      exact ⟨table, error, fault⟩
    · rw [runs] at ends
      cases ends
    · have ended : (planOutputs request generation).execute tree =
          ⟨.ok report, (run tree words).tree⟩ := by
        rw [← runs, ← ends]
      rw [← (execute_planOutputs_eq_ok_iff.mp ended).1, exitCode_finalReport] at isOne
      cases isOne
  untouched := by
    intro unloaded
    rcases run_cases accepted with ⟨_, _, runs⟩ | ⟨_, _, _, runs⟩ | ⟨tables, _, loads, _⟩
    · rw [runs]
    · rw [runs]
    · exact absurd (load_eq_ok_iff.mp loads) (unloaded tables)
  loaded := by
    intro tables loads
    have succeeded := load_eq_ok_iff.mpr loads
    rcases run_cases accepted with ⟨_, failed, _⟩ | ⟨_, failed, _⟩ |
      ⟨others, generation, same, generated, runs⟩
    · rw [succeeded] at failed
      cases failed
    · rw [succeeded] at failed
      cases failed
    · obtain rfl : tables = others := Except.ok.inj (succeeded.symm.trans same)
      refine ⟨generation, generated, fun report after => ?_, exitCode_finalReport _,
        fun targets after written => written.hold⟩
      rw [runs]
      exact execute_planOutputs_eq_ok_iff
  apart := fun _ _ _ _ _ _ written isName isOther different =>
    written.locate_ne isName isOther different

/-! ### Two small runs

In the first the only formula has no declaration, so that the run has an entry to skip. In the
second the formulas are no list. -/

namespace Sample

def tableTree (formulas : String) : FileTree :=
  { nodes := [(["decl.json"], .file "[]"), (["deriv.json"], .file formulas)] }

def tableWords : List String := ["decl.json", "deriv.json"]

def tableRequest : Request :=
  { declarations? := some "decl.json", derivatives? := some "deriv.json" }

def strayFormulas : String := "[\x7b\"name\":\"neg(Tensor self)\",\"self\":\"grad\"\x7d]"

def strayTables : Tables :=
  { declarations := []
    formulas := [⟨"neg(Tensor self)", [⟨"self", "grad"⟩]⟩]
    helpers := [] }

private theorem parse_tableWords : parse tableWords = .ok tableRequest := by
  decide +kernel

private theorem loads_declarations (formulas : String) :
    Loads (tableTree formulas) Declaration.readTable "decl.json" [] := by
  refine ⟨by decide +kernel, "[]", ?_, by with_unfolding_all rfl⟩
  rfl

private theorem loadsTables_strayTables :
    LoadsTables (tableTree strayFormulas) tableRequest strayTables where
  declarations := ⟨"decl.json", rfl, loads_declarations strayFormulas⟩
  formulas := ⟨"deriv.json", rfl, by decide +kernel, strayFormulas, by rfl, by decide +kernel⟩
  helpers := Or.inl ⟨rfl, rfl⟩

private theorem firstFault_noList :
    FirstFault (tableTree "\x7b\x7d") tableRequest .derivatives
      (.notAList .derivatives "dict") := by
  refine .derivatives ⟨"decl.json", rfl, loads_declarations _⟩ ⟨"deriv.json", rfl, ?_⟩
  exact .invalid (by decide +kernel) rfl (by with_unfolding_all rfl)

def tableTargets : Targets := .ofNames "torch" "declarations.nim" "derivatives.nim"

private theorem areOf_tableRequest : tableTargets.AreOf tableRequest :=
  ⟨"torch", rfl, "declarations.nim", rfl, "derivatives.nim", rfl, rfl⟩

private theorem exists_written_tableTargets (bindings derivatives : String) :
    ∃ after, tableTargets.Written (tableTree strayFormulas) after bindings derivatives := by
  have made : (tableTree strayFormulas).ensureDirectories tableTargets.directory =
      .ok ((tableTree strayFormulas).put ["torch"] .directory) := by
    decide +kernel
  have toBindings : ((tableTree strayFormulas).put ["torch"] .directory).locate
      tableTargets.bindings = .ok ["torch", "declarations.nim"] := by
    decide +kernel
  have toDerivatives : ((tableTree strayFormulas).put ["torch"] .directory).locate
      tableTargets.derivatives = .ok ["torch", "derivatives.nim"] := by
    decide +kernel
  exact Targets.exists_written (by decide +kernel) made
    toBindings toDerivatives (by decide +kernel) (by decide +kernel) _ _

theorem run_of_small_tables :
    parse tableWords = .ok tableRequest ∧
      (LoadsTables (tableTree strayFormulas) tableRequest strayTables ∧
        ∃ generation report after,
          generate (tableRequest.options strayTables) strayTables.declarations
            strayTables.formulas = .ok generation ∧
          run (tableTree strayFormulas) tableWords = ⟨.ok report, after⟩ ∧ report.exitCode = 0 ∧
          after.read tableTargets.bindings = .ok generation.bindings ∧
          after.read tableTargets.derivatives = .ok generation.derivatives) ∧
      (FirstFault (tableTree "\x7b\x7d") tableRequest .derivatives
          (.notAList .derivatives "dict") ∧
        ∃ report, run (tableTree "\x7b\x7d") tableWords = ⟨.ok report, tableTree "\x7b\x7d"⟩ ∧
          report.exitCode = 1) := by
  have runsOn := run_writes_all_or_nothing parse_tableWords
  refine ⟨parse_tableWords, ⟨loadsTables_strayTables, ?_⟩, firstFault_noList, ?_⟩
  · obtain ⟨generation, generated, ends, succeeds, holds⟩ :=
      (runsOn _).loaded _ loadsTables_strayTables
    obtain ⟨after, written⟩ :=
      exists_written_tableTargets generation.bindings generation.derivatives
    have hold := holds _ _ written
    have differ := (runsOn _).apart _ _ _ _ _ _ written (by decide +kernel) (by decide +kernel)
      (by decide)
    exact ⟨generation, _, after, generated,
      (ends _ _).mpr ⟨rfl, tableTargets, areOf_tableRequest, written⟩, succeeds,
      hold.bindings differ, hold.derivatives⟩
  · obtain ⟨report, ends, isOne, _⟩ := (runsOn _).faulty _ _ firstFault_noList
    exact ⟨report, ends, isOne⟩

end Sample

end TensorBindings.CommandLine
