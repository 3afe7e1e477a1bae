import TensorBindings.Proofs.Table.Entries

/-!
Contract: which documents are tables of declarations or of formulas.

Owns: the form that the entries of either table must have, what is taken from an entry of that
form, and the theorem that the readers accept exactly the documents whose named entries have it.

Does not own: the table of helpers (`Proofs.Table.Helpers`).
-/

set_option autoImplicit false

namespace TensorBindings

/-! ### Declarations -/

/-- What an argument takes from its fields. -/
structure DeclaredArgument.IsFrom (argument : DeclaredArgument)
    (fields : List (String × Document)) : Prop where
  name : ("name", .text argument.name) ∈ fields
  typeTag : ("dynamic_type", .text argument.typeTag) ∈ fields
  default? : ∀ value, argument.default? = some value ↔ ("default", value) ∈ fields

/-- What a result takes from its fields. -/
structure DeclaredReturn.IsFrom (result : DeclaredReturn)
    (fields : List (String × Document)) : Prop where
  name : Document.HoldsOr fields "name" (.text "") (.text result.name)
  typeTag : ("dynamic_type", .text result.typeTag) ∈ fields

namespace Declaration

open Document

/-- What a declaration takes from the fields of its entry. -/
structure IsFrom (declaration : Declaration) (fields : List (String × Document)) : Prop where
  name : ("name", .text declaration.name) ∈ fields
  methodOf : ("method_of", .list (declaration.methodOf.map .text)) ∈ fields
  arguments : ∃ items, ("arguments", .list items) ∈ fields ∧
    List.Forall₂ (IsRecordOf DeclaredArgument.IsFrom) items declaration.arguments
  returns : ∃ items, HoldsOr fields "returns" (.list []) (.list items) ∧
    List.Forall₂ (IsRecordOf DeclaredReturn.IsFrom) items declaration.returns
  mode : ∀ mode, declaration.mode = some mode ↔ ("mode", .text mode) ∈ fields
  deprecated : declaration.deprecated = true ↔ HoldsSet fields "deprecated"
  inplace : declaration.inplace = true ↔ HoldsSet fields "inplace"
  out : declaration.out = true ↔ HoldsSet fields "out"

/-- An argument is a record with a name and a type. -/
def IsArgumentForm (item : Document) : Prop :=
  ∃ fields, item = .record fields ∧ (∃ name, ("name", .text name) ∈ fields) ∧
    ∃ typeTag, ("dynamic_type", .text typeTag) ∈ fields

/-- A result is a record with a type, and its name is a text if it has one. -/
def IsReturnForm (item : Document) : Prop :=
  ∃ fields, item = .record fields ∧ (∃ typeTag, ("dynamic_type", .text typeTag) ∈ fields) ∧
    ∀ value, ("name", value) ∈ fields → ∃ name, value = .text name

/-- The form of an entry with a name. -/
structure HasForm (fields : List (String × Document)) : Prop where
  name : ∃ name, ("name", .text name) ∈ fields
  methodOf : ∃ items, ("method_of", .list items) ∈ fields ∧
    ∀ item ∈ items, ∃ place, item = .text place
  arguments : ∃ items, ("arguments", .list items) ∈ fields ∧ ∀ item ∈ items, IsArgumentForm item
  returns : ∀ value, ("returns", value) ∈ fields →
    ∃ items, value = .list items ∧ ∀ item ∈ items, IsReturnForm item

section Reading

variable {item : Document} {fields : List (String × Document)}

private theorem readArgument_eq_ok_iff (distinct : item.HasDistinctNames) {owner : String}
    {argument : DeclaredArgument} :
    readArgument owner item = .ok argument ↔ IsRecordOf DeclaredArgument.IsFrom item argument := by
  cases item with
  | record fields =>
      simp only [readArgument, bind_eq_ok_iff, Table.requiredText_eq_ok_iff distinct.names]
      constructor
      · rintro ⟨name, named, typeTag, typed, returned⟩
        cases returned
        exact ⟨fields, rfl, named, typed, (lookup_eq_iff distinct.names).mp rfl⟩
      · rintro ⟨_, same, taken⟩
        cases same
        refine ⟨_, taken.name, _, taken.typeTag, ?_⟩
        rw [(lookup_eq_iff distinct.names).mpr taken.default?]
        rfl
  | _ => simp [readArgument, IsRecordOf]

private theorem readReturn_eq_ok_iff (distinct : item.HasDistinctNames) {owner : String}
    {result : DeclaredReturn} :
    readReturn owner item = .ok result ↔ IsRecordOf DeclaredReturn.IsFrom item result := by
  cases item with
  | record fields =>
      simp only [readReturn, bind_eq_ok_iff, Table.requiredText_eq_ok_iff distinct.names]
      constructor
      · rintro ⟨typeTag, typed, read⟩
        split at read
        · next name held =>
            cases read
            exact ⟨fields, rfl, (lookup_getD_eq_iff distinct.names).mp held, typed⟩
        · cases read
      · rintro ⟨_, same, taken⟩
        cases same
        refine ⟨_, taken.typeTag, ?_⟩
        rw [(lookup_getD_eq_iff distinct.names).mpr taken.name]
        rfl
  | _ => simp [readReturn, IsRecordOf]

private theorem mapM_text?_eq_some_iff {items : List Document} {texts : List String} :
    items.mapM Document.text? = some texts ↔ items = texts.map .text := by
  induction items generalizing texts with
  | nil => cases texts <;> simp
  | cons item rest inductionHypothesis =>
      cases texts with
      | nil => simp [List.mapM_cons, Option.bind_eq_some_iff]
      | cons text others =>
          simp [List.mapM_cons, Option.bind_eq_some_iff, text?_eq_some_iff, inductionHypothesis]

private theorem texts?_eq_some_iff (distinct : (fields.map Prod.fst).Nodup) {key : String}
    {texts : List String} :
    texts? (lookup key fields) = some texts ↔ (key, .list (texts.map .text)) ∈ fields := by
  rw [← lookup_eq_some_iff distinct]
  unfold texts?
  split
  · next items found => simp [found, mapM_text?_eq_some_iff]
  · next noList => simpa using noList _

private theorem items?_eq_some_iff {value? : Option Document} {items : List Document} :
    items? value? = some items ↔ value? = some (.list items) := by
  unfold items?
  split
  · simp
  · next noList => simpa using noList items

/-- The results of an entry have distinct names, also where they are missing. -/
theorem hasDistinctNames_of_holdsOr (distinct : HasDistinctNames (.record fields)) {key : String}
    {items : List Document} (held : HoldsOr fields key (.list []) (.list items)) :
    ∀ item ∈ items, item.HasDistinctNames := by
  rcases held with present | ⟨_, isEmpty⟩
  · exact fun item => (distinct.of_mem_record present).of_mem_list
  · cases isEmpty
    exact List.forall_mem_nil _

private theorem readArguments_eq_ok_iff (distinct : HasDistinctNames (.record fields))
    {items : List Document} (held : ("arguments", .list items) ∈ fields) {owner : String}
    {arguments : List DeclaredArgument} :
    items.mapM (readArgument owner) = .ok arguments ↔
      List.Forall₂ (IsRecordOf DeclaredArgument.IsFrom) items arguments :=
  mapM_eq_ok_iff_forall₂ fun _ member _ =>
    readArgument_eq_ok_iff ((distinct.of_mem_record held).of_mem_list member)

private theorem readReturns_eq_ok_iff (distinct : HasDistinctNames (.record fields))
    {items : List Document} (held : HoldsOr fields "returns" (.list []) (.list items))
    {owner : String} {returns : List DeclaredReturn} :
    items.mapM (readReturn owner) = .ok returns ↔
      List.Forall₂ (IsRecordOf DeclaredReturn.IsFrom) items returns :=
  mapM_eq_ok_iff_forall₂ fun item member _ =>
    readReturn_eq_ok_iff (hasDistinctNames_of_holdsOr distinct held item member)

/-- An entry is read exactly if a declaration can be taken from its fields, and that is the
result. -/
theorem ofFields_eq_ok_iff (distinct : HasDistinctNames (.record fields))
    {declaration : Declaration} :
    ofFields fields = .ok declaration ↔ declaration.IsFrom fields := by
  have names := distinct.names
  simp only [ofFields, bind_eq_ok_iff, Table.requiredText_eq_ok_iff names]
  constructor
  · rintro ⟨name, named, read⟩
    split at read
    · next methodOf isMethodOf =>
      split at read
      · next argumentItems areArguments =>
        split at read
        · next returnItems areReturns =>
          obtain ⟨arguments, argumentsRead, read⟩ := bind_eq_ok_iff.mp read
          obtain ⟨returns, returnsRead, returned⟩ := bind_eq_ok_iff.mp read
          cases returned
          have heldArguments := (lookup_eq_some_iff names).mp (items?_eq_some_iff.mp areArguments)
          have heldReturns :=
            (lookup_getD_eq_iff names).mp (Option.some.inj (items?_eq_some_iff.mp areReturns))
          exact {
            name := named
            methodOf := (texts?_eq_some_iff names).mp isMethodOf
            arguments := ⟨_, heldArguments,
              (readArguments_eq_ok_iff distinct heldArguments).mp argumentsRead⟩
            returns := ⟨_, heldReturns, (readReturns_eq_ok_iff distinct heldReturns).mp returnsRead⟩
            mode := (lookup_bind_text?_eq_iff names).mp rfl
            deprecated := (isFieldSet_eq_iff names).mp rfl
            inplace := (isFieldSet_eq_iff names).mp rfl
            out := (isFieldSet_eq_iff names).mp rfl }
        · cases read
      · cases read
    · cases read
  · intro taken
    obtain ⟨argumentItems, heldArguments, ofArguments⟩ := taken.arguments
    obtain ⟨returnItems, heldReturns, ofReturns⟩ := taken.returns
    refine ⟨declaration.name, taken.name, ?_⟩
    rw [(texts?_eq_some_iff names).mpr taken.methodOf, (lookup_eq_some_iff names).mpr heldArguments,
      (lookup_getD_eq_iff names).mpr heldReturns, (lookup_bind_text?_eq_iff names).mpr taken.mode,
      (isFieldSet_eq_iff names).mpr taken.deprecated, (isFieldSet_eq_iff names).mpr taken.inplace,
      (isFieldSet_eq_iff names).mpr taken.out]
    exact bind_eq_ok_iff.mpr ⟨_, (readArguments_eq_ok_iff distinct heldArguments).mpr ofArguments,
      bind_eq_ok_iff.mpr ⟨_, (readReturns_eq_ok_iff distinct heldReturns).mpr ofReturns, rfl⟩⟩

/-! What has the form of an entry can be taken from it. -/

private theorem isArgumentForm_iff (distinct : item.HasDistinctNames) :
    IsArgumentForm item ↔ ∃ argument, IsRecordOf DeclaredArgument.IsFrom item argument := by
  constructor
  · rintro ⟨fields, rfl, ⟨name, named⟩, typeTag, typed⟩
    exact ⟨⟨name, typeTag, lookup "default" fields⟩, fields, rfl, named, typed,
      (lookup_eq_iff distinct.names).mp rfl⟩
  · rintro ⟨argument, fields, rfl, taken⟩
    exact ⟨fields, rfl, ⟨_, taken.name⟩, _, taken.typeTag⟩

private theorem isReturnForm_iff (distinct : item.HasDistinctNames) :
    IsReturnForm item ↔ ∃ result, IsRecordOf DeclaredReturn.IsFrom item result := by
  constructor
  · rintro ⟨fields, rfl, ⟨typeTag, typed⟩, ofName⟩
    obtain ⟨_, held, name, rfl⟩ := (forall_held_iff distinct.names ⟨"", rfl⟩).mp ofName
    exact ⟨⟨name, typeTag⟩, fields, rfl, held, typed⟩
  · rintro ⟨result, fields, rfl, taken⟩
    exact ⟨fields, rfl, ⟨_, taken.typeTag⟩,
      (forall_held_iff distinct.names ⟨"", rfl⟩).mpr ⟨_, taken.name, _, rfl⟩⟩

private theorem areArgumentForms_iff (distinct : HasDistinctNames (.record fields))
    {items : List Document} (held : ("arguments", .list items) ∈ fields) :
    (∀ item ∈ items, IsArgumentForm item) ↔
      ∃ arguments, List.Forall₂ (IsRecordOf DeclaredArgument.IsFrom) items arguments := by
  rw [exists_forall₂_iff]
  exact forall₂_congr fun _ member =>
    isArgumentForm_iff ((distinct.of_mem_record held).of_mem_list member)

private theorem areReturnForms_iff (distinct : HasDistinctNames (.record fields))
    {items : List Document} (held : HoldsOr fields "returns" (.list []) (.list items)) :
    (∀ item ∈ items, IsReturnForm item) ↔
      ∃ returns, List.Forall₂ (IsRecordOf DeclaredReturn.IsFrom) items returns := by
  rw [exists_forall₂_iff]
  exact forall₂_congr fun item member =>
    isReturnForm_iff (hasDistinctNames_of_holdsOr distinct held item member)

private theorem hasForm_iff (distinct : HasDistinctNames (.record fields)) :
    HasForm fields ↔ ∃ declaration : Declaration, declaration.IsFrom fields := by
  have names := distinct.names
  have noReturns : ∃ items, Document.list [] = .list items ∧ ∀ item ∈ items, IsReturnForm item :=
    ⟨[], rfl, List.forall_mem_nil _⟩
  constructor
  · intro form
    obtain ⟨name, named⟩ := form.name
    obtain ⟨placeItems, heldPlaces, areTexts⟩ := form.methodOf
    obtain ⟨methodOf, rfl⟩ := exists_eq_map_iff.mpr areTexts
    obtain ⟨argumentItems, heldArguments, areArguments⟩ := form.arguments
    obtain ⟨arguments, ofArguments⟩ := (areArgumentForms_iff distinct heldArguments).mp areArguments
    obtain ⟨_, heldReturns, returnItems, rfl, areReturns⟩ :=
      (forall_held_iff names noReturns).mp form.returns
    obtain ⟨returns, ofReturns⟩ := (areReturnForms_iff distinct heldReturns).mp areReturns
    refine ⟨{
      name, methodOf, arguments, returns
      mode := (lookup "mode" fields).bind text?
      deprecated := isFieldSet "deprecated" fields
      inplace := isFieldSet "inplace" fields
      out := isFieldSet "out" fields }, ?_⟩
    exact {
      name := named
      methodOf := heldPlaces
      arguments := ⟨argumentItems, heldArguments, ofArguments⟩
      returns := ⟨returnItems, heldReturns, ofReturns⟩
      mode := (lookup_bind_text?_eq_iff names).mp rfl
      deprecated := (isFieldSet_eq_iff names).mp rfl
      inplace := (isFieldSet_eq_iff names).mp rfl
      out := (isFieldSet_eq_iff names).mp rfl }
  · rintro ⟨declaration, taken⟩
    obtain ⟨argumentItems, heldArguments, ofArguments⟩ := taken.arguments
    obtain ⟨returnItems, heldReturns, ofReturns⟩ := taken.returns
    have areReturns := (areReturnForms_iff distinct heldReturns).mpr ⟨_, ofReturns⟩
    exact {
      name := ⟨_, taken.name⟩
      methodOf := ⟨_, taken.methodOf, exists_eq_map_iff.mp ⟨_, rfl⟩⟩
      arguments := ⟨argumentItems, heldArguments,
        (areArgumentForms_iff distinct heldArguments).mpr ⟨_, ofArguments⟩⟩
      returns := (forall_held_iff names noReturns).mpr
        ⟨_, heldReturns, returnItems, rfl, areReturns⟩ }

end Reading

private theorem ofEntry_eq_readNamed :
    ofEntry = Table.readNamed .declarationNotARecord ofFields := by
  funext item
  cases item <;> rfl

private theorem readsExactly_ofDocument {contents : Document}
    (distinct : contents.HasDistinctNames) :
    Table.ReadsExactly .declarations ofDocument HasForm IsFrom contents := by
  have faults := failsOnly_ofEntry
  have reader : ofDocument = Table.readEntries .declarations .declarationNotARecord ofFields := by
    unfold ofDocument
    rw [ofEntry_eq_readNamed]
    rfl
  rw [ofEntry_eq_readNamed] at faults
  rw [reader]
  exact Table.readsExactly_of_entries faults (fun _ distinctFields _ => hasForm_iff distinctFields)
    (fun _ _ distinctFields => ofFields_eq_ok_iff distinctFields) distinct

end Declaration

/-! ### Formulas -/

namespace FormulaEntry

open Document

/-- What an entry takes from its fields: its header, and all other fields as bodies in their
order. -/
structure IsFrom (entry : FormulaEntry) (fields : List (String × Document)) : Prop where
  header : ("name", .text entry.header) ∈ fields
  bodies : fields.filter (·.1 ≠ "name") = entry.bodies.map fun body => (body.key, .text body.text)

/-- The form of an entry with a name: all values are texts. -/
def HasForm (fields : List (String × Document)) : Prop :=
  ∀ field ∈ fields, ∃ text, field.2 = .text text

section Reading

variable {fields : List (String × Document)}

private theorem readBodies_eq_ok_iff {header : String} {bodies : List FormulaBody} :
    readBodies header fields = .ok bodies ↔
      fields.filter (·.1 ≠ "name") = bodies.map fun body => (body.key, .text body.text) := by
  fun_induction readBodies header fields generalizing bodies with
  | case1 => cases bodies <;> simp
  | case2 value rest inductionHypothesis =>
      rw [inductionHypothesis, List.filter_cons_of_neg (by simp)]
  | case3 key rest other text inductionHypothesis =>
      rw [List.filter_cons_of_pos (by simpa using other)]
      simp only [bind_eq_ok_iff, inductionHypothesis]
      constructor
      · rintro ⟨others, ofRest, returned⟩
        cases returned
        rw [ofRest]
        rfl
      · intro same
        obtain ⟨⟨_, _⟩, others, rfl, first, ofRest⟩ := List.map_eq_cons_iff.mp same.symm
        cases first
        exact ⟨others, ofRest.symm, rfl⟩
  | case4 key value rest other noText =>
      rw [List.filter_cons_of_pos (by simpa using other)]
      constructor
      · intro read
        cases read
      · intro same
        obtain ⟨⟨_, text⟩, others, rfl, first, _⟩ := List.map_eq_cons_iff.mp same.symm
        cases first
        exact absurd rfl (noText text)

private theorem ofFields_eq_ok_iff (distinct : HasDistinctNames (.record fields))
    {entry : FormulaEntry} :
    ofFields fields = .ok entry ↔ entry.IsFrom fields := by
  simp only [ofFields, bind_eq_ok_iff, Table.requiredText_eq_ok_iff distinct.names,
    readBodies_eq_ok_iff]
  constructor
  · rintro ⟨header, held, bodies, areBodies, returned⟩
    cases returned
    exact ⟨held, areBodies⟩
  · intro taken
    exact ⟨entry.header, taken.header, entry.bodies, taken.bodies, rfl⟩

private theorem hasForm_iff (distinct : HasDistinctNames (.record fields))
    (named : Table.IsNamed fields) :
    HasForm fields ↔ ∃ entry : FormulaEntry, entry.IsFrom fields := by
  constructor
  · intro form
    obtain ⟨⟨_, value⟩, held, rfl⟩ := List.mem_map.mp named
    obtain ⟨header, rfl⟩ := form _ held
    have areBodies : ∀ field ∈ fields.filter (·.1 ≠ "name"),
        ∃ body : FormulaBody, field = (body.key, .text body.text) := by
      rintro ⟨key, value⟩ member
      obtain ⟨text, rfl⟩ := form _ (List.mem_of_mem_filter member)
      exact ⟨⟨key, text⟩, rfl⟩
    obtain ⟨bodies, ofBodies⟩ := exists_eq_map_iff.mpr areBodies
    exact ⟨⟨header, bodies⟩, held, ofBodies⟩
  · rintro ⟨entry, taken⟩ ⟨key, value⟩ held
    by_cases isName : key = "name"
    · subst isName
      exact ⟨entry.header, eq_of_mem_of_mem distinct.names held taken.header⟩
    · have isBody : (key, value) ∈ fields.filter (·.1 ≠ "name") :=
        List.mem_filter.mpr ⟨held, by simpa using isName⟩
      rw [taken.bodies] at isBody
      obtain ⟨body, _, same⟩ := List.mem_map.mp isBody
      exact ⟨body.text, (Prod.mk.inj same).2.symm⟩

end Reading

private theorem ofEntry_eq_readNamed : ofEntry = Table.readNamed .formulaNotARecord ofFields := by
  funext item
  cases item <;> rfl

private theorem readsExactly_ofDocument {contents : Document}
    (distinct : contents.HasDistinctNames) :
    Table.ReadsExactly .derivatives ofDocument HasForm IsFrom contents := by
  have faults := failsOnly_ofEntry
  have reader : ofDocument = Table.readEntries .derivatives .formulaNotARecord ofFields := by
    unfold ofDocument
    rw [ofEntry_eq_readNamed]
    rfl
  rw [ofEntry_eq_readNamed] at faults
  rw [reader]
  exact Table.readsExactly_of_entries faults (fun _ distinctFields => hasForm_iff distinctFields)
    (fun _ _ distinctFields => ofFields_eq_ok_iff distinctFields) distinct

end FormulaEntry

/-- Both readers accept exactly the documents of their schema and take everything from them. A
document that is refused is a fault of the table that it was read for. -/
theorem Table.schema_is_accepted_exactly {contents : Document}
    (distinct : contents.HasDistinctNames) :
    ReadsExactly .declarations Declaration.ofDocument Declaration.HasForm Declaration.IsFrom
        contents ∧
      ReadsExactly .derivatives FormulaEntry.ofDocument FormulaEntry.HasForm FormulaEntry.IsFrom
        contents :=
  ⟨Declaration.readsExactly_ofDocument distinct, FormulaEntry.readsExactly_ofDocument distinct⟩

/-! ### A table of declarations

Its first entry gives the name twice, of which the last counts, and its second has none. As a table
of formulas it is refused, since a body is a list there. -/

namespace Sample

def negationText : String :=
  "[\x7b\"name\":0,\"method_of\":[\"Tensor\"],\"arguments\":" ++
    "[\x7b\"name\":\"self\",\"dynamic_type\":\"Tensor\",\"default\":null\x7d]," ++
    "\"name\":\"neg\"\x7d,\x7b\"note\":[]\x7d]"

def negationTable : Document :=
  .list [
    .record [("name", .text "neg"), ("method_of", .list [.text "Tensor"]),
      ("arguments", .list [.record [("name", .text "self"), ("dynamic_type", .text "Tensor"),
        ("default", .null)]])],
    .record [("note", .list [])]]

private theorem parse_negationText : Document.parse negationText = .ok negationTable := by
  set_option maxRecDepth 4000 in
  with_unfolding_all rfl

theorem negationTable_is_no_formula_table :
    negationTable.HasDistinctNames ∧
      Table.HasSchema Declaration.HasForm negationTable ∧
      Declaration.ofDocument negationTable = .ok
        [{ name := "neg", methodOf := ["Tensor"],
           arguments := [⟨"self", "Tensor", some .null⟩], returns := [] }] ∧
      ∃ fault, FormulaEntry.ofDocument negationTable = .error fault ∧
        fault.table = .derivatives := by
  have distinct := Document.hasDistinctNames_of_parse parse_negationText
  obtain ⟨declarations, formulas⟩ := Table.schema_is_accepted_exactly distinct
  refine ⟨distinct, declarations.accepts.mp ⟨_, rfl⟩, rfl, formulas.refuses fun schema => ?_⟩
  obtain ⟨_, read⟩ := formulas.accepts.mpr schema
  cases read

end Sample

end TensorBindings
