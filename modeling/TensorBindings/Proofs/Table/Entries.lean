import Mathlib.Data.Set.List
import TensorBindings.Proofs.Document
import TensorBindings.Proofs.Table

/-!
Contract: tables of entries that may have a name.

Owns: what it means that the fields of a record hold something, schemas of tables in which every
named entry has a certain form, and the theorem that a reader is exact on a table if it is exact on
each entry.

Forms are stated by the fields that a record holds, whatever their order. Look-up finds these
wherever the names of a record are distinct, and so they are in every document that is read
(`Document.hasDistinctNames_of_parse`).

Does not own: the form of the entries of a certain table.
-/

set_option autoImplicit false

namespace TensorBindings

namespace Document

/-- The fields hold this value under the key, or the value is the one for a missing field. -/
def HoldsOr (fields : List (String × Document)) (key : String) (missing value : Document) : Prop :=
  (key, value) ∈ fields ∨ (∀ other, (key, other) ∉ fields) ∧ value = missing

/-- The fields hold a value under the key that counts as set. -/
def HoldsSet (fields : List (String × Document)) (key : String) : Prop :=
  ∃ value, (key, value) ∈ fields ∧ value.isSet = true

/-- The item is a record, and the result is taken from its fields. -/
def IsRecordOf {α : Type} (isFrom : α → List (String × Document) → Prop) (item : Document)
    (result : α) : Prop :=
  ∃ fields, item = .record fields ∧ isFrom result fields

section Lookup

variable {fields : List (String × Document)} {key : String}

theorem lookup_getD_eq_iff (distinct : (fields.map Prod.fst).Nodup) {missing value : Document} :
    (lookup key fields).getD missing = value ↔ HoldsOr fields key missing value := by
  cases found : lookup key fields with
  | none =>
      have absent := lookup_eq_none_iff.mp found
      simp [HoldsOr, absent, eq_comm]
  | some held =>
      have member := mem_of_lookup found
      have present : ¬ ∀ other, (key, other) ∉ fields := fun absent => absent held member
      rw [HoldsOr, ← lookup_eq_some_iff distinct, found]
      simp [present]

/-- Everything that a field may hold is of a form exactly if what is taken for the field is, since
the value for a missing field is of that form. -/
theorem forall_held_iff (distinct : (fields.map Prod.fst).Nodup) {form : Document → Prop}
    {missing : Document} (ofMissing : form missing) :
    (∀ value, (key, value) ∈ fields → form value) ↔
      ∃ value, HoldsOr fields key missing value ∧ form value := by
  simp only [← lookup_eq_some_iff distinct, ← lookup_getD_eq_iff distinct]
  cases lookup key fields with
  | none => simp [ofMissing]
  | some value => simp

theorem lookup_eq_iff (distinct : (fields.map Prod.fst).Nodup) {found : Option Document} :
    lookup key fields = found ↔ ∀ value, found = some value ↔ (key, value) ∈ fields := by
  simp only [← lookup_eq_some_iff distinct]
  exact Option.ext_iff.trans (forall_congr' fun _ => iff_comm)

theorem text?_eq_some_iff {value : Document} {text : String} :
    value.text? = some text ↔ value = .text text := by
  cases value <;> simp [text?]

theorem lookup_bind_text?_eq_iff (distinct : (fields.map Prod.fst).Nodup) {found : Option String} :
    (lookup key fields).bind text? = found ↔
      ∀ text, found = some text ↔ (key, .text text) ∈ fields := by
  have ofText (text : String) :
      (lookup key fields).bind text? = some text ↔ (key, .text text) ∈ fields := by
    rw [← lookup_eq_some_iff distinct, Option.bind_eq_some_iff]
    simp [text?_eq_some_iff]
  simp only [← ofText]
  exact Option.ext_iff.trans (forall_congr' fun _ => iff_comm)

theorem isFieldSet_eq_iff (distinct : (fields.map Prod.fst).Nodup) {set : Bool} :
    Declaration.isFieldSet key fields = set ↔ (set = true ↔ HoldsSet fields key) := by
  have isSet : Declaration.isFieldSet key fields = true ↔ HoldsSet fields key := by
    unfold Declaration.isFieldSet HoldsSet
    simp only [← lookup_eq_some_iff distinct]
    cases lookup key fields <;> simp
  rw [Bool.eq_iff_iff, isSet]
  exact iff_comm

end Lookup

end Document

/-! ### Traversals that are described by a relation -/

section Traversals

variable {α β : Type} {items : List α}

/-- A relation leads from a list to another one exactly if it leads from each member to
something. -/
theorem exists_forall₂_iff {related : α → β → Prop} :
    (∃ results, List.Forall₂ related items results) ↔
      ∀ item ∈ items, ∃ result, related item result := by
  induction items with
  | nil => simp
  | cons item rest inductionHypothesis =>
      rw [List.forall_mem_cons, ← inductionHypothesis]
      constructor
      · rintro ⟨_, _ | ⟨ofItem, ofRest⟩⟩
        exact ⟨⟨_, ofItem⟩, _, ofRest⟩
      · rintro ⟨⟨result, ofItem⟩, results, ofRest⟩
        exact ⟨result :: results, .cons ofItem ofRest⟩

private theorem forall₂_congr_left {left right : α → β → Prop} {results : List β}
    (same : ∀ item ∈ items, ∀ result, left item result ↔ right item result) :
    List.Forall₂ left items results ↔ List.Forall₂ right items results := by
  induction items generalizing results with
  | nil => simp
  | cons item rest inductionHypothesis =>
      obtain ⟨ofItem, ofRest⟩ := List.forall_mem_cons.mp same
      simp only [List.forall₂_cons_left_iff, ofItem, inductionHypothesis ofRest]

/-- A list consists of made values exactly if each member is one. -/
theorem exists_eq_map_iff {make : β → α} :
    (∃ results : List β, items = results.map make) ↔
      ∀ item ∈ items, ∃ result, item = make result := by
  have range := Set.ext_iff.mp (Set.range_list_map make) items
  simpa [eq_comm] using range

theorem mapM_eq_ok_iff_forall₂ {Fault : Type} {step : α → Except Fault β} {related : α → β → Prop}
    {results : List β}
    (same : ∀ item ∈ items, ∀ result, step item = .ok result ↔ related item result) :
    items.mapM step = .ok results ↔ List.Forall₂ related items results :=
  mapM_eq_ok_iff.trans (forall₂_congr_left same)

end Traversals

/-! ### Tables of entries that may have a name -/

namespace Table

variable {α : Type}

def IsNamed (fields : List (String × Document)) : Prop := "name" ∈ fields.map Prod.fst

instance (fields : List (String × Document)) : Decidable (IsNamed fields) :=
  inferInstanceAs (Decidable (_ ∈ _))

/-- The fields of an entry that has a name. -/
def named? : Document → Option (List (String × Document))
  | .record fields => if IsNamed fields then some fields else none
  | _ => none

/-- The document is a list of records, of which all that have a name have a certain form. -/
def HasSchema (form : List (String × Document) → Prop) (contents : Document) : Prop :=
  ∃ items, contents = .list items ∧
    ∀ item ∈ items, ∃ fields, item = .record fields ∧ (IsNamed fields → form fields)

/-- The document is a list of records, and the results are taken from those with a name, one from
each and in their order. -/
def Yields (isFrom : α → List (String × Document) → Prop) (contents : Document)
    (results : List α) : Prop :=
  ∃ items, contents = .list items ∧ (∀ item ∈ items, ∃ fields, item = .record fields) ∧
    List.Forall₂ (fun fields result => isFrom result fields) (items.filterMap named?) results

/-- The reader accepts the documents of a schema and no others, and its results are all that these
hold. -/
structure ReadsExactly (table : Table) (read : Document → Except TableError (List α))
    (form : List (String × Document) → Prop) (isFrom : α → List (String × Document) → Prop)
    (contents : Document) : Prop where
  accepts : (∃ results, read contents = .ok results) ↔ HasSchema form contents
  refuses : ¬ HasSchema form contents → ∃ fault, read contents = .error fault ∧ fault.table = table
  yields : ∀ results, read contents = .ok results ↔ Yields isFrom contents results

/-- Read an entry if it has a name. -/
def readNamed (noRecord : TableError)
    (ofFields : List (String × Document) → Except TableError α) :
    Document → Except TableError (Option α)
  | .record fields =>
      if (Document.lookup "name" fields).isSome then some <$> ofFields fields else .ok none
  | _ => .error noRecord

/-- Read the entries of a table that have a name. -/
def readEntries (table : Table) (noRecord : TableError)
    (ofFields : List (String × Document) → Except TableError α) (contents : Document) :
    Except TableError (List α) := do
  collect (readNamed noRecord ofFields) (← entries table contents)

private theorem named?_of_named {fields : List (String × Document)} (named : IsNamed fields) :
    named? (.record fields) = some fields :=
  if_pos named

private theorem named?_of_unnamed {fields : List (String × Document)} (unnamed : ¬ IsNamed fields) :
    named? (.record fields) = none :=
  if_neg unnamed

private theorem isSome_lookup_name_iff {fields : List (String × Document)} :
    (Document.lookup "name" fields).isSome = true ↔ IsNamed fields := by
  rw [IsNamed, ← not_iff_not, Bool.not_eq_true, Option.isSome_eq_false_iff,
    Option.isNone_iff_eq_none, Document.lookup_eq_none_iff]
  simp

private theorem mem_filterMap_named?_iff {items : List Document}
    {fields : List (String × Document)} :
    fields ∈ items.filterMap named? ↔ .record fields ∈ items ∧ IsNamed fields := by
  rw [List.mem_filterMap]
  constructor
  · rintro ⟨item, member, named⟩
    unfold named? at named
    split at named
    · split_ifs at named with isNamed
      cases named
      exact ⟨member, isNamed⟩
    · cases named
  · rintro ⟨member, isNamed⟩
    exact ⟨_, member, named?_of_named isNamed⟩

section Entries

variable {noRecord : TableError} {ofFields : List (String × Document) → Except TableError α}

/-- An entry is read if it is a record without a name, or a record with a name whose fields are
read. -/
theorem readNamed_eq_ok_iff {item : Document} {result? : Option α} :
    readNamed noRecord ofFields item = .ok result? ↔
      ∃ fields, item = .record fields ∧
        ((¬ IsNamed fields ∧ none = result?) ∨
          (IsNamed fields ∧ ∃ result, ofFields fields = .ok result ∧ some result = result?)) := by
  cases item with
  | record fields =>
      simp only [readNamed, isSome_lookup_name_iff]
      by_cases named : IsNamed fields
      · simp [named, map_eq_ok_iff]
      · simp [named]
  | _ => simp [readNamed]

/-- All entries are read exactly if they are records and the fields of the named ones are read,
one after another. -/
theorem collect_readNamed_eq_ok_iff {items : List Document} {results : List α} :
    collect (readNamed noRecord ofFields) items = .ok results ↔
      (∀ item ∈ items, ∃ fields, item = .record fields) ∧
        List.Forall₂ (fun fields result => ofFields fields = .ok result)
          (items.filterMap named?) results := by
  induction items generalizing results with
  | nil => simp [collect, eq_comm]
  | cons item rest inductionHypothesis =>
      simp only [collect, bind_eq_ok_iff, readNamed_eq_ok_iff, inductionHypothesis]
      constructor
      · rintro ⟨_, ⟨fields, rfl, ⟨unnamed, rfl⟩ | ⟨named, result, read, rfl⟩⟩, others,
          ⟨areRecords, ofOthers⟩, returned⟩
        · cases returned
          rw [List.filterMap_cons_none (named?_of_unnamed unnamed)]
          exact ⟨List.forall_mem_cons.mpr ⟨⟨fields, rfl⟩, areRecords⟩, ofOthers⟩
        · cases returned
          rw [List.filterMap_cons_some (named?_of_named named)]
          exact ⟨List.forall_mem_cons.mpr ⟨⟨fields, rfl⟩, areRecords⟩, .cons read ofOthers⟩
      · rintro ⟨areRecords, related⟩
        obtain ⟨⟨fields, rfl⟩, restRecords⟩ := List.forall_mem_cons.mp areRecords
        by_cases named : IsNamed fields
        · rw [List.filterMap_cons_some (named?_of_named named)] at related
          cases related with
          | cons read ofOthers =>
              exact ⟨_, ⟨fields, rfl, Or.inr ⟨named, _, read, rfl⟩⟩, _, ⟨restRecords, ofOthers⟩,
                rfl⟩
        · rw [List.filterMap_cons_none (named?_of_unnamed named)] at related
          exact ⟨_, ⟨fields, rfl, Or.inl ⟨named, rfl⟩⟩, _, ⟨restRecords, related⟩, rfl⟩

private theorem entries_eq_ok_iff {table : Table} {contents : Document} {items : List Document} :
    entries table contents = .ok items ↔ contents = .list items := by
  cases contents <;> simp [entries]

end Entries

section Exactness

variable {form : List (String × Document) → Prop} {isFrom : α → List (String × Document) → Prop}
  {contents : Document}

/-- A document has a schema exactly if it yields something, where that is so of each entry. -/
theorem hasSchema_iff_exists_yields
    (ofForm : ∀ fields, Document.HasDistinctNames (.record fields) → IsNamed fields →
      (form fields ↔ ∃ result, isFrom result fields))
    (distinct : contents.HasDistinctNames) :
    HasSchema form contents ↔ ∃ results, Yields isFrom contents results := by
  constructor
  · rintro ⟨items, rfl, areFormed⟩
    have ofNamed : ∀ fields ∈ items.filterMap named?, ∃ result, isFrom result fields := by
      intro fields member
      obtain ⟨inItems, named⟩ := mem_filterMap_named?_iff.mp member
      obtain ⟨_, same, formed⟩ := areFormed _ inItems
      cases same
      exact (ofForm fields (distinct.of_mem_list inItems) named).mp (formed named)
    obtain ⟨results, related⟩ := exists_forall₂_iff.mpr ofNamed
    exact ⟨results, items, rfl, fun item member => (areFormed item member).imp fun _ => And.left,
      related⟩
  · rintro ⟨results, items, rfl, areRecords, related⟩
    refine ⟨items, rfl, fun item member => ?_⟩
    obtain ⟨fields, rfl⟩ := areRecords item member
    refine ⟨fields, rfl, fun named => (ofForm fields (distinct.of_mem_list member) named).mpr ?_⟩
    exact exists_forall₂_iff.mp ⟨results, related⟩ fields
      (mem_filterMap_named?_iff.mpr ⟨member, named⟩)

/-- The reader of a table is exact if the reader of its entries is. -/
theorem readsExactly_of_entries {table : Table} {noRecord : TableError}
    {ofFields : List (String × Document) → Except TableError α}
    (faults : ∀ item, FailsOnly table.IsFaultOf (readNamed noRecord ofFields item))
    (ofForm : ∀ fields, Document.HasDistinctNames (.record fields) → IsNamed fields →
      (form fields ↔ ∃ result, isFrom result fields))
    (ofSource : ∀ fields result, Document.HasDistinctNames (.record fields) →
      (ofFields fields = .ok result ↔ isFrom result fields))
    (distinct : contents.HasDistinctNames) :
    ReadsExactly table (readEntries table noRecord ofFields) form isFrom contents := by
  have yields (results : List α) :
      readEntries table noRecord ofFields contents = .ok results ↔
        Yields isFrom contents results := by
    rw [readEntries, bind_eq_ok_iff]
    refine exists_congr fun items => ?_
    rw [entries_eq_ok_iff, collect_readNamed_eq_ok_iff]
    refine and_congr_right fun isList => and_congr_right fun _ => ?_
    rw [isList] at distinct
    refine forall₂_congr_left fun fields member result => ?_
    exact ofSource fields result (distinct.of_mem_list (mem_filterMap_named?_iff.mp member).1)
  have accepts := (exists_congr yields).trans (hasSchema_iff_exists_yields ofForm distinct).symm
  refine ⟨accepts, fun unfit => ?_, yields⟩
  have failsOnly := (failsOnly_entries table contents).bind (failsOnly_collect faults)
  cases read : readEntries table noRecord ofFields contents with
  | ok results => exact absurd (accepts.mp ⟨results, read⟩) unfit
  | error fault => exact ⟨fault, rfl, failsOnly fault read⟩

end Exactness

theorem requiredText_eq_ok_iff {table : Table} {owner key text : String}
    {fields : List (String × Document)} (distinct : (fields.map Prod.fst).Nodup) :
    requiredText table owner key fields = .ok text ↔ (key, .text text) ∈ fields := by
  rw [← Document.lookup_eq_some_iff distinct]
  unfold requiredText
  split
  · next value found => simp [found]
  · next noText => simpa using noText text

end Table

end TensorBindings
