import TensorBindings.Proofs.Fallible
import TensorBindings.Table.Declaration
import TensorBindings.Table.Formula
import TensorBindings.Table.Helper

/-!
Contract: reading the three tables.

Owns: the theorem that a fault in a table names that table, and that a table of helpers yields
helpers only.

Does not own: which documents are accepted.
-/

set_option autoImplicit false

namespace TensorBindings

namespace Table

/-- The fault is one of this table. -/
def IsFaultOf (table : Table) (fault : TableError) : Prop := fault.table = table

private theorem failsOnly_document (table : Table) (path text : String) :
    FailsOnly table.IsFaultOf (document table path text) := by
  unfold document
  split
  · exact .ok _
  · exact .error rfl

theorem failsOnly_entries (table : Table) (contents : Document) :
    FailsOnly table.IsFaultOf (entries table contents) := by
  unfold entries
  split
  · exact .ok _
  · exact .error rfl

private theorem failsOnly_requiredText (table : Table) (owner key : String)
    (fields : List (String × Document)) :
    FailsOnly table.IsFaultOf (requiredText table owner key fields) := by
  unfold requiredText
  split
  · exact .ok _
  · exact .error rfl

theorem failsOnly_collect {Fault α : Type} {expected : Fault → Prop}
    {read : Document → Except Fault (Option α)} (ofEntry : ∀ item, FailsOnly expected (read item))
    (items : List Document) : FailsOnly expected (collect read items) := by
  induction items with
  | nil => exact .ok _
  | cons item rest inductionHypothesis =>
      exact (ofEntry item).bind fun _ => inductionHypothesis.bind fun _ => .ok _

end Table

namespace Declaration

private theorem failsOnly_readArgument (owner : String) (contents : Document) :
    FailsOnly Table.declarations.IsFaultOf (readArgument owner contents) := by
  unfold readArgument
  split
  · exact (Table.failsOnly_requiredText _ _ _ _).bind fun _ =>
      (Table.failsOnly_requiredText _ _ _ _).bind fun _ => .ok _
  · exact .error rfl

private theorem failsOnly_readReturn (owner : String) (contents : Document) :
    FailsOnly Table.declarations.IsFaultOf (readReturn owner contents) := by
  unfold readReturn
  split
  · refine (Table.failsOnly_requiredText _ _ _ _).bind fun _ => ?_
    split
    · exact .ok _
    · exact .error rfl
  · exact .error rfl

private theorem failsOnly_ofFields (fields : List (String × Document)) :
    FailsOnly Table.declarations.IsFaultOf (ofFields fields) := by
  refine (Table.failsOnly_requiredText _ _ _ _).bind fun name => ?_
  split
  · split
    · split
      · refine (FailsOnly.mapM (failsOnly_readArgument name) _).bind fun _ => ?_
        exact (FailsOnly.mapM (failsOnly_readReturn name) _).bind fun _ => .ok _
      · exact .error rfl
    · exact .error rfl
  · exact .error rfl

theorem failsOnly_ofEntry (contents : Document) :
    FailsOnly Table.declarations.IsFaultOf (ofEntry contents) := by
  unfold ofEntry
  split
  · split
    · exact (failsOnly_ofFields _).bind fun _ => .ok _
    · exact .ok _
  · exact .error rfl

/-- A fault in a declaration table names the declaration table. -/
theorem failsOnly_readTable (path text : String) :
    FailsOnly Table.declarations.IsFaultOf (readTable path text) :=
  (Table.failsOnly_document _ _ _).bind fun _ =>
    (Table.failsOnly_entries _ _).bind (Table.failsOnly_collect failsOnly_ofEntry)

end Declaration

namespace FormulaEntry

private theorem failsOnly_readBodies (header : String) (fields : List (String × Document)) :
    FailsOnly Table.derivatives.IsFaultOf (readBodies header fields) := by
  fun_induction readBodies header fields with
  | case1 => exact .ok _
  | case2 _ _ inductionHypothesis => exact inductionHypothesis
  | case3 _ _ _ _ inductionHypothesis => exact inductionHypothesis.bind fun _ => .ok _
  | case4 => exact .error rfl

theorem failsOnly_ofEntry (contents : Document) :
    FailsOnly Table.derivatives.IsFaultOf (ofEntry contents) := by
  unfold ofEntry
  split
  · split
    · refine FailsOnly.bind ?_ fun _ => .ok _
      exact (Table.failsOnly_requiredText _ _ _ _).bind fun header =>
        (failsOnly_readBodies header _).bind fun _ => .ok _
    · exact .ok _
  · exact .error rfl

/-- A fault in a formula table names the formula table. -/
theorem failsOnly_readTable (path text : String) :
    FailsOnly Table.derivatives.IsFaultOf (readTable path text) :=
  (Table.failsOnly_document _ _ _).bind fun _ =>
    (Table.failsOnly_entries _ _).bind (Table.failsOnly_collect failsOnly_ofEntry)

end FormulaEntry

/-- Where reading the helpers ends with a fault of a table, it is the table of helpers. -/
def LoadError.IsOfHelpers (error : LoadError) : Prop :=
  ∀ fault, error = .table fault → Table.helpers.IsFaultOf fault

namespace Helper

private theorem isOfHelpers_table {fault : TableError} (ofHelpers : Table.helpers.IsFaultOf fault) :
    (LoadError.table fault).IsOfHelpers := by
  intro other same
  cases same
  exact ofHelpers

private theorem failsOnly_ofFields (fields : List (String × Document)) :
    FailsOnly LoadError.IsOfHelpers (ofFields fields) := by
  have ofKind (name : String) (kind : Document) :
      FailsOnly LoadError.IsOfHelpers (readKind name kind) := by
    unfold readKind
    split
    · exact .ok _
    · exact .ok _
    · exact .error nofun
    · exact .error nofun
    · exact .error (isOfHelpers_table rfl)
  have ofDisplay (name : String) (display : Document) :
      FailsOnly LoadError.IsOfHelpers (readDisplay name display) := by
    unfold readDisplay
    split
    · exact .ok _
    · exact .error (isOfHelpers_table rfl)
  unfold ofFields
  split
  · exact (ofKind _ _).bind fun _ => (ofDisplay _ _).bind fun _ => .ok _
  · exact .error (isOfHelpers_table rfl)

theorem failsOnly_ofEntry (contents : Document) :
    FailsOnly LoadError.IsOfHelpers (ofEntry contents) := by
  unfold ofEntry
  split
  · exact failsOnly_ofFields _
  · exact .error (isOfHelpers_table rfl)

/-- A fault in a table of helpers names that table. -/
theorem failsOnly_readTable (path text : String) :
    FailsOnly LoadError.IsOfHelpers (readTable path text) := by
  unfold readTable ofDocument
  split
  · split
    · exact .mapM failsOnly_ofEntry _
    · next fault listed =>
        exact .error (isOfHelpers_table (Table.failsOnly_entries _ _ fault listed))
  · next fault read =>
      exact .error (isOfHelpers_table (Table.failsOnly_document _ _ _ fault read))

private theorem isHelper_of_ofEntry {contents : Document} {helper : Signature}
    (read : ofEntry contents = .ok helper) : helper.isHelper = true := by
  unfold ofEntry ofFields at read
  split at read
  · split at read
    · obtain ⟨_, _, read⟩ := bind_eq_ok_iff.mp read
      obtain ⟨_, _, read⟩ := bind_eq_ok_iff.mp read
      obtain rfl := Except.ok.inj read
      rfl
    · cases read
  · cases read

/-- Whatever a table of helpers yields is marked as a helper. -/
theorem isHelper_of_readTable {path text : String} {helpers : List Signature}
    (read : readTable path text = .ok helpers) : ∀ helper ∈ helpers, helper.isHelper = true := by
  intro helper member
  unfold readTable ofDocument at read
  split at read
  · split at read
    · obtain ⟨_, _, ofHelper⟩ := exists_of_mem_mapM read member
      exact isHelper_of_ofEntry ofHelper
    · cases read
  · cases read

end Helper

end TensorBindings
