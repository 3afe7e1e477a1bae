import TensorBindings.Proofs.CommandLine
import TensorBindings.Proofs.Table.Entries

/-!
Contract: what becomes of a table of helpers.

Owns: what a helper takes from its entry, the entries at which reading breaks off, and the theorem
that a table of helpers is read or refused unless it has such an entry behind good ones. Of all
that can be wrong with what the tables of a run hold, this alone breaks off the run. A path that
was not given or holds a null character breaks it off too, whatever the tables hold.

The kind of a helper is looked up before anything is known of it but that it is there. So a kind
that is a list or a record is no fault of the table, but one that is a number is.
-/

set_option autoImplicit false

namespace TensorBindings

open Document

namespace Helper

/-- The words for the kinds of helpers. -/
def kindWords : List (String × Invocation) := [("instance", .method), ("namespace", .function)]

/-- What a helper takes from its fields. -/
structure IsFrom (helper : Signature) (fields : List (String × Document)) : Prop where
  isHelper : helper = .helper helper.engineName helper.name helper.invocation
  name : ("name", .text helper.engineName) ∈ fields
  display : HoldsOr fields "display" (.text helper.engineName) (.text helper.name)
  kind : ∃ word, HoldsOr fields "kind" (.text "namespace") (.text word) ∧
    (word, helper.invocation) ∈ kindWords

/-- A list or a record. -/
def IsCompound (value : Document) : Prop :=
  (∃ items, value = .list items) ∨ ∃ fields, value = .record fields

/-- The fields hold a name, and a kind that is a list or a record of this type name. -/
def HasCompoundKind (typeName : String) (fields : List (String × Document)) : Prop :=
  (∃ name, ("name", .text name) ∈ fields) ∧
    ∃ kind, ("kind", kind) ∈ fields ∧ IsCompound kind ∧ kind.typeName = typeName

/-- All entries before the first that is no helper are read, and that one has a name and a kind
that is a list or a record. -/
def BreaksOff (path text typeName : String) : Prop :=
  ∃ before item after, Table.document .helpers path text = .ok (.list (before ++ item :: after)) ∧
    (∀ earlier ∈ before, ∃ helper, IsRecordOf IsFrom earlier helper) ∧
    IsRecordOf HasCompoundKind item typeName

/-! ### One entry -/

section Entry

variable {name typeName : String} {kind display item : Document}

private theorem not_isCompound_text (text : String) : ¬ IsCompound (.text text) := by
  simp [IsCompound]

private theorem readKind_eq_ok_iff {invocation : Invocation} :
    readKind name kind = .ok invocation ↔
      ∃ word, kind = .text word ∧ (word, invocation) ∈ kindWords := by
  constructor
  · intro read
    unfold readKind at read
    split at read
    · cases read
      exact ⟨"instance", rfl, by simp [kindWords]⟩
    · cases read
      exact ⟨"namespace", rfl, by simp [kindWords]⟩
    · cases read
    · cases read
    · cases read
  · rintro ⟨word, rfl, member⟩
    simp only [kindWords, List.mem_cons, Prod.mk.injEq, List.not_mem_nil, or_false] at member
    rcases member with ⟨rfl, rfl⟩ | ⟨rfl, rfl⟩
    · rfl
    · rfl

private theorem readKind_eq_incomparable_iff :
    readKind name kind = .error (.incomparableKind typeName) ↔
      IsCompound kind ∧ kind.typeName = typeName := by
  unfold readKind IsCompound
  split <;> simp_all

private theorem readDisplay_eq_ok_iff {shown : String} :
    readDisplay name display = .ok shown ↔ display = .text shown := by
  cases display <;> simp [readDisplay]

private theorem readDisplay_ne_incomparable :
    readDisplay name display ≠ .error (.incomparableKind typeName) := by
  cases display <;> simp [readDisplay]

/-- The name of an entry comes first, then its kind, then its display name. -/
theorem ofFields_eq_of_name {fields : List (String × Document)}
    (distinct : (fields.map Prod.fst).Nodup) (named : ("name", .text name) ∈ fields) :
    ofFields fields = do
      let kind ← readKind name ((lookup "kind" fields).getD (.text "namespace"))
      let display ← readDisplay name ((lookup "display" fields).getD (.text name))
      return .helper name display kind := by
  rw [ofFields, (lookup_eq_some_iff distinct).mpr named]

private theorem ofFields_of_no_name {fields : List (String × Document)}
    (distinct : (fields.map Prod.fst).Nodup) (unnamed : ∀ name, ("name", .text name) ∉ fields) :
    ofFields fields = .error (.table .helperWithoutName) := by
  unfold ofFields
  split
  · next name found => exact absurd ((lookup_eq_some_iff distinct).mp found) (unnamed name)
  · rfl

private theorem ofEntry_eq_ok_iff (distinct : item.HasDistinctNames) {helper : Signature} :
    ofEntry item = .ok helper ↔ IsRecordOf IsFrom item helper := by
  cases item with
  | record fields =>
      have names := distinct.names
      rw [ofEntry]
      by_cases named : ∃ name, ("name", .text name) ∈ fields
      · obtain ⟨name, held⟩ := named
        simp only [ofFields_eq_of_name names held, bind_eq_ok_iff, readKind_eq_ok_iff,
          readDisplay_eq_ok_iff, lookup_getD_eq_iff names]
        constructor
        · rintro ⟨invocation, ⟨word, heldKind, isKind⟩, display, heldDisplay, returned⟩
          cases returned
          exact ⟨fields, rfl, rfl, held, heldDisplay, word, heldKind, isKind⟩
        · rintro ⟨_, same, taken⟩
          cases same
          obtain ⟨word, heldKind, isKind⟩ := taken.kind
          cases eq_of_mem_of_mem names held taken.name
          exact ⟨helper.invocation, ⟨word, heldKind, isKind⟩, helper.name, taken.display,
            congrArg Except.ok taken.isHelper.symm⟩
      · rw [ofFields_of_no_name names (not_exists.mp named)]
        constructor
        · intro read
          cases read
        · rintro ⟨_, same, taken⟩
          cases same
          exact absurd ⟨_, taken.name⟩ named
  | _ => simp [ofEntry, IsRecordOf]

private theorem ofEntry_eq_incomparable_iff (distinct : item.HasDistinctNames) :
    ofEntry item = .error (.incomparableKind typeName) ↔
      IsRecordOf HasCompoundKind item typeName := by
  cases item with
  | record fields =>
      have names := distinct.names
      rw [ofEntry]
      by_cases named : ∃ name, ("name", .text name) ∈ fields
      · obtain ⟨name, held⟩ := named
        rw [ofFields_eq_of_name names held, bind_eq_error_iff, readKind_eq_incomparable_iff]
        constructor
        · rintro (⟨compound, isType⟩ | ⟨_, _, failed⟩)
          · refine ⟨fields, rfl, ⟨name, held⟩, _, ?_, compound, isType⟩
            rcases (lookup_getD_eq_iff names).mp rfl with present | ⟨_, isMissing⟩
            · exact present
            · rw [isMissing] at compound
              exact absurd compound (not_isCompound_text _)
          · rcases bind_eq_error_iff.mp failed with ofDisplay | ⟨_, _, returned⟩
            · exact absurd ofDisplay readDisplay_ne_incomparable
            · cases returned
        · rintro ⟨_, same, _, kind, heldKind, compound, isType⟩
          cases same
          rw [(lookup_eq_some_iff names).mpr heldKind]
          exact Or.inl ⟨compound, isType⟩
      · rw [ofFields_of_no_name names (not_exists.mp named)]
        constructor
        · intro read
          cases read
        · rintro ⟨_, same, hasName, _⟩
          cases same
          exact absurd hasName named
  | _ => simp [ofEntry, IsRecordOf]

end Entry

/-! ### The whole table -/

section Whole

variable {path text typeName : String}

private theorem hasDistinctNames_of_document {table : Table} {contents : Document}
    (read : Table.document table path text = .ok contents) : contents.HasDistinctNames := by
  unfold Table.document at read
  split at read
  · next value parsed =>
      cases read
      exact hasDistinctNames_of_parse parsed
  · cases read

/-- Reading comes to a result or to a fault of an entry only if the text is a list. -/
theorem readTable_eq_mapM {items : List Document}
    (listed : Table.document .helpers path text = .ok (.list items)) :
    readTable path text = items.mapM ofEntry := by
  rw [readTable, listed]
  rfl

/-- A text that is no list is refused. -/
theorem readTable_of_no_list
    (unlisted : ∀ items, Table.document .helpers path text ≠ .ok (.list items)) :
    ∃ fault, readTable path text = .error (.table fault) := by
  rw [readTable]
  cases read : Table.document .helpers path text with
  | error fault => exact ⟨fault, rfl⟩
  | ok contents =>
      cases contents with
      | list items => exact absurd read (unlisted items)
      | _ => exact ⟨_, rfl⟩

/-- Helpers are read exactly if the text is a list and each entry gives one, in their order. -/
theorem readTable_eq_ok_iff {helpers : List Signature} :
    readTable path text = .ok helpers ↔
      ∃ items, Table.document .helpers path text = .ok (.list items) ∧
        List.Forall₂ (IsRecordOf IsFrom) items helpers := by
  have ofEntries {items : List Document}
      (listed : Table.document .helpers path text = .ok (.list items)) :
      items.mapM ofEntry = .ok helpers ↔ List.Forall₂ (IsRecordOf IsFrom) items helpers :=
    mapM_eq_ok_iff_forall₂ fun item member _ =>
      ofEntry_eq_ok_iff ((hasDistinctNames_of_document listed).of_mem_list member)
  constructor
  · intro read
    by_cases isList : ∃ items, Table.document .helpers path text = .ok (.list items)
    · obtain ⟨items, listed⟩ := isList
      rw [readTable_eq_mapM listed] at read
      exact ⟨items, listed, (ofEntries listed).mp read⟩
    · obtain ⟨fault, refused⟩ := readTable_of_no_list (not_exists.mp isList)
      rw [refused] at read
      cases read
  · rintro ⟨items, listed, related⟩
    rw [readTable_eq_mapM listed]
    exact (ofEntries listed).mpr related

private theorem readTable_eq_incomparable_iff :
    readTable path text = .error (.incomparableKind typeName) ↔ BreaksOff path text typeName := by
  constructor
  · intro broken
    by_cases isList : ∃ items, Table.document .helpers path text = .ok (.list items)
    · obtain ⟨items, listed⟩ := isList
      have distinct := hasDistinctNames_of_document listed
      rw [readTable_eq_mapM listed, mapM_eq_error_iff] at broken
      obtain ⟨before, item, after, rfl, ofEarlier, failing⟩ := broken
      refine ⟨before, item, after, listed, fun earlier member => ?_, ?_⟩
      · obtain ⟨helper, read⟩ := ofEarlier earlier member
        exact ⟨helper, (ofEntry_eq_ok_iff (distinct.of_mem_list (by simp [member]))).mp read⟩
      · exact (ofEntry_eq_incomparable_iff (distinct.of_mem_list (by simp))).mp failing
    · obtain ⟨fault, refused⟩ := readTable_of_no_list (not_exists.mp isList)
      rw [refused] at broken
      cases broken
  · rintro ⟨before, item, after, listed, ofEarlier, hasCompound⟩
    have distinct := hasDistinctNames_of_document listed
    rw [readTable_eq_mapM listed, mapM_eq_error_iff]
    refine ⟨before, item, after, rfl, fun earlier member => ?_, ?_⟩
    · obtain ⟨helper, taken⟩ := ofEarlier earlier member
      exact ⟨helper, (ofEntry_eq_ok_iff (distinct.of_mem_list (by simp [member]))).mpr taken⟩
    · exact (ofEntry_eq_incomparable_iff (distinct.of_mem_list (by simp))).mpr hasCompound

end Whole

end Helper

/-! ### Runs that break off while loading -/

namespace CommandLine

/-- The reason is not one that loading gives. -/
def Break.IsLater (reason : Break) : Prop := ∀ error, reason ≠ .load error

private theorem failsOnly_checkedPath (path : Path) :
    FailsOnly Break.IsLater (checkedPath path) := by
  unfold checkedPath
  split_ifs
  · exact .error (by simp [Break.IsLater])
  · exact .ok _

private theorem failsOnly_prepareDirectory (tree : FileTree) (directory : Path) :
    FailsOnly Break.IsLater (prepareDirectory tree directory) := by
  refine (failsOnly_checkedPath directory).bind fun path => ?_
  split
  · exact .ok _
  · exact .error (by simp [Break.IsLater])

private theorem failsOnly_write (tree : FileTree) (output : Output) :
    FailsOnly Break.IsLater (output.write tree) := by
  have ofPath : FailsOnly Break.IsLater output.checkedPath := by
    unfold Output.checkedPath
    split
    · exact failsOnly_checkedPath _
    · exact .error (by simp [Break.IsLater])
  refine ofPath.bind fun path => ?_
  split
  · exact .ok _
  · exact .error (by simp [Break.IsLater])

private theorem isLater_of_writeAll {tree written : FileTree} {outputs : List Output}
    {reason : Break} (stopped : writeAll tree outputs = (some reason, written)) :
    reason.IsLater := by
  induction outputs generalizing tree with
  | nil => cases stopped
  | cons output rest inductionHypothesis =>
      rw [writeAll] at stopped
      split at stopped
      · exact inductionHypothesis stopped
      · next fault failed =>
          cases stopped
          exact failsOnly_write _ output _ failed

/-- Once its texts are made, a run breaks off for other reasons only. -/
theorem failsOnly_execute_planOutputs (tree : FileTree) (request : Request)
    (generation : Generation) :
    FailsOnly Break.IsLater ((planOutputs request generation).execute tree).outcome := by
  unfold planOutputs
  split
  · exact .error (by simp [Break.IsLater])
  · simp only [Plan.execute]
    split
    · next reason failed => exact .error (failsOnly_prepareDirectory _ _ reason failed)
    · split
      · exact .ok _
      · next reason written stopped => exact .error (isLater_of_writeAll stopped)

section Load

variable {tree : FileTree} {typeName : String}

private theorem content_eq_incomparable_iff {Fault α : Type} {table : Table}
    {read : String → String → Except Fault α} {stop : Fault → Break} {name : String} :
    (readTable tree name).content table read stop = .error (.load (.incomparableKind typeName)) ↔
      (Path.ofText name).hasNull = false ∧ ∃ text, tree.read (.ofText name) = .ok text ∧
        ∃ fault, read (Path.ofText name).toText text = .error fault ∧
          stop fault = .load (.incomparableKind typeName) := by
  constructor
  · intro broken
    rcases content_cases tree table read stop name with
      null | ⟨_, _, _, unread⟩ | ⟨text, noNull, isRead, found⟩
    · rw [null] at broken
      cases broken
    · rw [unread] at broken
      cases broken
    · rw [found, mapError_eq_error_iff] at broken
      exact ⟨noNull, text, isRead, broken⟩
  · rintro ⟨noNull, text, isRead, fails⟩
    rw [content_of_read noNull isRead, mapError_eq_error_iff]
    exact fails

/-- The tables before the helpers are loaded, and the table of helpers is one at which reading
breaks off. -/
structure BreaksAtHelpers (tree : FileTree) (request : Request) (typeName : String) : Prop where
  declarations : ∃ name ∈ request.declarations?, ∃ declarations,
    Loads tree Declaration.readTable name declarations
  formulas : ∃ name ∈ request.derivatives?, ∃ formulas,
    Loads tree FormulaEntry.readTable name formulas
  helpers : ∃ name ∈ request.helpers?, (Path.ofText name).hasNull = false ∧
    ∃ text, tree.read (.ofText name) = .ok text ∧
      Helper.BreaksOff (Path.ofText name).toText text typeName

/-- Loading breaks off at the helpers only: the other tables have faults of their own. -/
theorem load_eq_incomparable_iff {request : Request} :
    (readTables tree request).load = .error (.load (.incomparableKind typeName)) ↔
      BreaksAtHelpers tree request typeName := by
  have neverTable {α : Type} {table : Table} {read : String → String → Except TableError α}
      {name? : Option String} :
      givenContent tree table read (fun error => .load (.table error)) (.error .tableUnnamed)
          name? ≠
        .error (.load (.incomparableKind typeName)) := by
    cases name? with
    | none => simp [givenContent]
    | some name =>
        rw [givenContent, ne_eq, content_eq_incomparable_iff]
        simp
  have atHelpers : givenContent tree .helpers Helper.readTable .load (.ok []) request.helpers? =
        .error (.load (.incomparableKind typeName)) ↔
      ∃ name ∈ request.helpers?, (Path.ofText name).hasNull = false ∧
        ∃ text, tree.read (.ofText name) = .ok text ∧
          Helper.BreaksOff (Path.ofText name).toText text typeName := by
    cases request.helpers? with
    | none => simp [givenContent]
    | some name =>
        rw [givenContent, content_eq_incomparable_iff]
        simp [← Helper.readTable_eq_incomparable_iff]
  rw [load_readTables]
  simp only [bind_eq_error_iff, givenContent_eq_ok_iff, neverTable, atHelpers, reduceCtorEq,
    and_false, false_or]
  constructor
  · rintro ⟨_, ⟨name, isName, loaded⟩, _, ⟨other, isOther, loadedFormulas⟩,
      helpers | ⟨_, _, returned⟩⟩
    · exact ⟨⟨name, isName, _, loaded⟩, ⟨other, isOther, _, loadedFormulas⟩, helpers⟩
    · cases returned
  · rintro ⟨⟨name, isName, _, loaded⟩, ⟨other, isOther, _, loadedFormulas⟩, helpers⟩
    exact ⟨_, ⟨name, isName, loaded⟩, _, ⟨other, isOther, loadedFormulas⟩, Or.inl helpers⟩

end Load

/-- What a table holds breaks off a run exactly if reading breaks off at its helpers. -/
theorem run_outcome_eq_load_iff {tree : FileTree} {words : List String} {request : Request}
    (accepted : parse words = .ok request) {error : LoadError} :
    (run tree words).outcome = .error (.load error) ↔
      ∃ typeName, error = .incomparableKind typeName ∧ BreaksAtHelpers tree request typeName := by
  simp only [← load_eq_incomparable_iff]
  rcases run_cases accepted with
    ⟨fault, loads, runs⟩ | ⟨reason, loads, noTable, runs⟩ | ⟨_, generation, loads, _, runs⟩
  · rw [runs, loads]
    simp
  · rw [runs, loads]
    cases error with
    | table fault =>
        have other := noTable fault
        simp [other]
    | incomparableKind typeName => simp
  · have later := failsOnly_execute_planOutputs tree request generation
    rw [runs, loads]
    constructor
    · intro broken
      exact absurd rfl (later _ broken error)
    · rintro ⟨_, _, failed⟩
      cases failed

end CommandLine

/-! ### Texts of helper tables -/

namespace Helper

/-- What becomes of the text of a table of helpers. -/
structure LoadsUnlessCompound (path text : String) : Prop where
  /-- A table that is read gives one helper for each entry, in their order. -/
  yields : ∀ helpers, readTable path text = .ok helpers ↔
    ∃ items, Table.document .helpers path text = .ok (.list items) ∧
      List.Forall₂ (IsRecordOf IsFrom) items helpers
  /-- A table is read, or refused as a table of helpers, unless reading breaks off. -/
  settled : (∀ typeName, ¬ BreaksOff path text typeName) ↔
    (∃ helpers, readTable path text = .ok helpers) ∨
      ∃ fault, readTable path text = .error (.table fault) ∧ fault.table = .helpers
  breaksOff : ∀ typeName, readTable path text = .error (.incomparableKind typeName) ↔
    BreaksOff path text typeName

private theorem loadsUnlessCompound (path text : String) : LoadsUnlessCompound path text where
  yields _ := readTable_eq_ok_iff
  breaksOff _ := readTable_eq_incomparable_iff
  settled := by
    simp only [← readTable_eq_incomparable_iff]
    have failsOnly := failsOnly_readTable path text
    cases read : readTable path text with
    | ok helpers => simp
    | error error =>
        cases error with
        | table fault =>
            have named : fault.table = .helpers := failsOnly _ read fault rfl
            simpa using named
        | incomparableKind typeName => simp

/-- A table of helpers is read or refused, unless an entry behind good ones has a kind that is a
list or a record. A run ends with the error of such a kind exactly if its other tables are loaded
and its helpers are such a table, and with no other error in what a table holds. -/
theorem helpers_are_read_or_refused_unless_kind_is_compound (path text : String) :
    LoadsUnlessCompound path text ∧
      ∀ (tree : FileTree) (words : List String) (request : CommandLine.Request),
        CommandLine.parse words = .ok request → ∀ error,
          (CommandLine.run tree words).outcome = .error (.load error) ↔
            ∃ typeName, error = .incomparableKind typeName ∧
              CommandLine.BreaksAtHelpers tree request typeName :=
  ⟨loadsUnlessCompound path text, fun _ _ _ accepted _ =>
    CommandLine.run_outcome_eq_load_iff accepted⟩

end Helper

namespace CommandLine.Sample

def listKindText : String := "[\x7b\"name\":\"scale\",\"kind\":[]\x7d]"

/-- An entry whose kind is a list makes the table neither read nor refused. -/
theorem kind_that_is_a_list_is_no_table_error :
    ¬ ((∃ helpers, Helper.readTable "helpers.json" listKindText = .ok helpers) ∨
      ∃ fault, Helper.readTable "helpers.json" listKindText = .error (.table fault)) := by
  have broken : Helper.readTable "helpers.json" listKindText =
      .error (.incomparableKind "list") := by
    with_unfolding_all rfl
  simp [broken]

/-! A run with a table of two helpers, of which the second has a record for its kind. -/

def recordKindText : String :=
  "[\x7b\"name\":\"blend\"\x7d,\x7b\"name\":\"scale\",\"kind\":\x7b\x7d\x7d]"

def helperTree : FileTree :=
  { nodes := [(["decl.json"], .file "[]"), (["deriv.json"], .file "[]"),
      (["helpers.json"], .file recordKindText)] }

def helperWords : List String := ["decl.json", "deriv.json", "--helpers", "helpers.json"]

def helperRequest : Request :=
  { declarations? := some "decl.json", derivatives? := some "deriv.json",
    helpers? := some "helpers.json" }

private theorem breaksOff_recordKindText :
    Helper.BreaksOff "helpers.json" recordKindText "dict" := by
  refine ⟨[.record [("name", .text "blend")]],
    .record [("name", .text "scale"), ("kind", .record [])], [], by with_unfolding_all rfl, ?_, ?_⟩
  · rw [List.forall_mem_singleton]
    exact ⟨.helper "blend" "blend" .function, _, rfl, rfl, by simp [Signature.helper],
      by simp [HoldsOr, Signature.helper], "namespace", by simp [HoldsOr],
      by simp [Helper.kindWords, Signature.helper]⟩
  · exact ⟨_, rfl, ⟨"scale", by simp⟩, .record [], by simp, Or.inr ⟨[], rfl⟩, rfl⟩

theorem run_breaks_off_at_record_kind :
    parse helperWords = .ok helperRequest ∧ BreaksAtHelpers helperTree helperRequest "dict" ∧
      (run helperTree helperWords).outcome = .error (.load (.incomparableKind "dict")) := by
  have accepted : parse helperWords = .ok helperRequest := by decide +kernel
  have samePath : (Path.ofText "helpers.json").toText = "helpers.json" := by decide +kernel
  have breaks : BreaksAtHelpers helperTree helperRequest "dict" :=
    { declarations :=
        ⟨"decl.json", rfl, [], by decide +kernel, "[]", rfl, by with_unfolding_all rfl⟩
      formulas := ⟨"deriv.json", rfl, [], by decide +kernel, "[]", rfl, by decide +kernel⟩
      helpers := ⟨"helpers.json", rfl, by decide +kernel, recordKindText, rfl,
        samePath.symm ▸ breaksOff_recordKindText⟩ }
  obtain ⟨-, runs⟩ :=
    Helper.helpers_are_read_or_refused_unless_kind_is_compound "helpers.json" recordKindText
  exact ⟨accepted, breaks, (runs _ _ _ accepted _).mpr ⟨"dict", rfl, breaks⟩⟩

end CommandLine.Sample

end TensorBindings
