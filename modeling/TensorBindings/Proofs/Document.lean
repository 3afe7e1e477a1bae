import Mathlib.Data.List.Nodup
import TensorBindings.Document.Reader
import TensorBindings.Proofs.Fallible

/-!
Contract: the fields of the records in a document.

Owns: documents in which no record has two fields of one name, look-up in such records, and
the theorem that every document that is read is one of these.

The reader sets a field that is there already and adds no second one. So the names stay
distinct in every record that is still open, and in every value that is finished, whatever
tokens follow.

Does not own: the grammar of documents.
-/

set_option autoImplicit false

namespace TensorBindings.Document

/-- No record in the document has two fields of one name. -/
inductive HasDistinctNames : Document → Prop where
  | null : HasDistinctNames .null
  | bool (value : Bool) : HasDistinctNames (.bool value)
  | integer (value : Int) : HasDistinctNames (.integer value)
  | decimal (value : Decimal) : HasDistinctNames (.decimal value)
  | text (value : String) : HasDistinctNames (.text value)
  | list {items : List Document} (ofItems : ∀ item ∈ items, HasDistinctNames item) :
      HasDistinctNames (.list items)
  | record {fields : List (String × Document)} (distinct : (fields.map Prod.fst).Nodup)
      (ofFields : ∀ field ∈ fields, HasDistinctNames field.2) : HasDistinctNames (.record fields)

theorem HasDistinctNames.of_mem_list {items : List Document}
    (distinct : HasDistinctNames (.list items)) {item : Document} (member : item ∈ items) :
    item.HasDistinctNames := by
  cases distinct with
  | list ofItems => exact ofItems item member

theorem HasDistinctNames.names {fields : List (String × Document)}
    (distinct : HasDistinctNames (.record fields)) : (fields.map Prod.fst).Nodup := by
  cases distinct with
  | record names ofFields => exact names

theorem HasDistinctNames.of_mem_record {fields : List (String × Document)}
    (distinct : HasDistinctNames (.record fields)) {key : String} {value : Document}
    (member : (key, value) ∈ fields) : value.HasDistinctNames := by
  cases distinct with
  | record names ofFields => exact ofFields _ member

/-! ### Look-up -/

section Lookup

variable {key : String} {fields : List (String × Document)} {value : Document}

theorem lookup_eq_none_iff : lookup key fields = none ↔ ∀ value, (key, value) ∉ fields := by
  rw [lookup, Option.map_eq_none_iff, List.find?_eq_none]
  constructor
  · intro noneMatches value member
    exact noneMatches _ member (beq_iff_eq.mpr rfl)
  · rintro absent ⟨name, value⟩ member isKey
    obtain rfl : name = key := beq_iff_eq.mp isKey
    exact absent value member

theorem mem_of_lookup (found : lookup key fields = some value) : (key, value) ∈ fields := by
  obtain ⟨⟨name, held⟩, first, rfl⟩ := Option.map_eq_some_iff.mp found
  have isKey := List.find?_some first
  obtain rfl : name = key := beq_iff_eq.mp isKey
  exact List.mem_of_find?_eq_some first

theorem eq_of_mem_of_mem (distinct : (fields.map Prod.fst).Nodup) {other : Document}
    (held : (key, value) ∈ fields) (alsoHeld : (key, other) ∈ fields) : value = other :=
  (Prod.mk.inj (List.inj_on_of_nodup_map distinct held alsoHeld rfl)).2

/-- Where names are distinct, look-up finds whatever is there. -/
theorem lookup_eq_some_iff (distinct : (fields.map Prod.fst).Nodup) :
    lookup key fields = some value ↔ (key, value) ∈ fields := by
  refine ⟨mem_of_lookup, fun member => ?_⟩
  cases found : lookup key fields with
  | none => exact absurd member (lookup_eq_none_iff.mp found value)
  | some other => rw [eq_of_mem_of_mem distinct (mem_of_lookup found) member]

end Lookup

/-! ### Setting a field -/

private theorem mem_of_mem_setField {key : String} {value : Document}
    {fields : List (String × Document)} {field : String × Document}
    (member : field ∈ setField key value fields) :
    field = (key, value) ∨ field ∈ fields := by
  fun_induction setField key value fields with
  | case1 => exact Or.inl (List.mem_singleton.mp member)
  | case2 old rest =>
      exact (List.mem_cons.mp member).imp_right (List.mem_cons_of_mem _)
  | case3 name old rest other inductionHypothesis =>
      rcases List.mem_cons.mp member with rfl | later
      · exact Or.inr List.mem_cons_self
      · exact (inductionHypothesis later).imp_right (List.mem_cons_of_mem _)

/-- Setting a field gives its record no second field of that name. -/
theorem nodup_setField {key : String} {value : Document} {fields : List (String × Document)}
    (distinct : (fields.map Prod.fst).Nodup) :
    ((setField key value fields).map Prod.fst).Nodup := by
  fun_induction setField key value fields with
  | case1 => exact List.nodup_singleton key
  | case2 old rest => exact distinct
  | case3 name old rest other inductionHypothesis =>
      rw [List.map_cons, List.nodup_cons] at distinct ⊢
      refine ⟨fun repeated => ?_, inductionHypothesis distinct.2⟩
      obtain ⟨field, member, isName⟩ := List.mem_map.mp repeated
      rcases mem_of_mem_setField member with rfl | inRest
      · exact other isName.symm
      · exact distinct.1 (isName ▸ List.mem_map_of_mem inRest)

theorem HasDistinctNames.setField {key : String} {value : Document}
    {fields : List (String × Document)} (distinct : HasDistinctNames (.record fields))
    (ofValue : value.HasDistinctNames) :
    HasDistinctNames (.record (setField key value fields)) := by
  refine .record (nodup_setField distinct.names) fun field member => ?_
  rcases mem_of_mem_setField member with rfl | old
  · exact ofValue
  · exact distinct.of_mem_record old

/-! ### Tokens -/

/-- A token that is a value of its own has distinct names. -/
def Token.IsDistinct : Token → Prop
  | .scalar value => value.HasDistinctNames
  | _ => True

private theorem hasDistinctNames_of_literal? {cs : List Char} {length : Nat} {value : Document}
    (found : literal? cs = some (length, value)) : value.HasDistinctNames := by
  obtain ⟨⟨word, meant⟩, isLiteral, same⟩ := Option.map_eq_some_iff.mp found
  cases same
  have member := List.mem_of_find?_eq_some isLiteral
  simp only [literals, List.mem_cons, Prod.mk.injEq, List.not_mem_nil, or_false] at member
  rcases member with ⟨-, rfl⟩ | ⟨-, rfl⟩ | ⟨-, rfl⟩ | ⟨-, rfl⟩ | ⟨-, rfl⟩ | ⟨-, rfl⟩
  · exact .null
  · exact .bool true
  · exact .bool false
  · exact .decimal _
  · exact .decimal _
  · exact .decimal _

private theorem hasDistinctNames_of_unsignedNumber? {negative : Bool} {cs : List Char}
    {length : Nat} {value : Document} (found : unsignedNumber? negative cs = some (length, value)) :
    value.HasDistinctNames := by
  unfold unsignedNumber? at found
  dsimp only at found
  split at found
  · cases found
  · split at found
    · cases found
      exact .integer _
    · cases found
      exact .decimal _

private theorem hasDistinctNames_of_number? {cs : List Char} {length : Nat} {value : Document}
    (found : number? cs = some (length, value)) : value.HasDistinctNames := by
  unfold number? at found
  split at found
  · obtain ⟨⟨_, _⟩, isNumber, same⟩ := Option.map_eq_some_iff.mp found
    cases same
    exact hasDistinctNames_of_unsignedNumber? isNumber
  · exact hasDistinctNames_of_unsignedNumber? found

private theorem isDistinct_lexeme (here : Nat) (first : Char) (rest : List Char) :
    (lexeme here first rest).1.IsDistinct := by
  unfold lexeme
  split
  · next token isPunctuation =>
      unfold punctuation? at isPunctuation
      split at isPunctuation <;> cases isPunctuation <;> trivial
  · split_ifs
    · split <;> trivial
    · split
      · next length value found =>
          rcases Option.or_eq_some_iff.mp found with isLiteral | ⟨-, isNumber⟩
          · exact hasDistinctNames_of_literal? isLiteral
          · exact hasDistinctNames_of_number? isNumber
      · trivial

private theorem isDistinct_of_mem_tokens {here : Nat} {cs : List Char} :
    ∀ placed ∈ tokens here cs, placed.token.IsDistinct := by
  fun_induction tokens here cs with
  | case1 here => simp [Token.IsDistinct]
  | case2 here first rest isSpace inductionHypothesis => exact inductionHypothesis
  | case3 here first rest notSpace token length split inductionHypothesis =>
      rw [List.forall_mem_cons]
      have ofLexeme := isDistinct_lexeme here first rest
      rw [split] at ofLexeme
      exact ⟨ofLexeme, inductionHypothesis⟩

/-! ### The reader -/

def Frame.IsDistinct : Frame → Prop
  | .list read => ∀ item ∈ read, item.HasDistinctNames
  | .record fields _ => HasDistinctNames (.record fields)

namespace ReaderState

/-- Whatever the reader has read so far has distinct names. -/
def IsDistinct : ReaderState → Prop
  | .valueNeeded stack | .listOpened stack | .recordOpened stack =>
      ∀ frame ∈ stack, frame.IsDistinct
  | .nameNeeded stack fields | .nameRead stack fields _ =>
      (∀ frame ∈ stack, frame.IsDistinct) ∧ HasDistinctNames (.record fields)
  | .valueRead stack value => (∀ frame ∈ stack, frame.IsDistinct) ∧ value.HasDistinctNames
  | .done value => value.HasDistinctNames

variable {stack : List Frame} {placed : PlacedToken} {next : ReaderState}

private theorem isDistinct_stepValue (ofStack : ∀ frame ∈ stack, frame.IsDistinct)
    (ofToken : placed.token.IsDistinct) (steps : stepValue stack placed = .ok next) :
    next.IsDistinct := by
  unfold stepValue at steps
  split at steps
  · cases steps
    exact ofStack
  · cases steps
    exact ofStack
  · next value isScalar =>
      cases steps
      rw [isScalar] at ofToken
      exact ⟨ofStack, ofToken⟩
  · cases steps
    exact ⟨ofStack, .text _⟩
  · cases steps
  · cases steps

private theorem isDistinct_stepName {fields : List (String × Document)}
    (ofStack : ∀ frame ∈ stack, frame.IsDistinct) (ofFields : HasDistinctNames (.record fields))
    (steps : stepName stack fields placed = .ok next) : next.IsDistinct := by
  unfold stepName at steps
  split at steps
  · cases steps
    exact ⟨ofStack, ofFields⟩
  · cases steps
  · cases steps

private theorem isDistinct_stepValueRead {value : Document}
    (ofStack : ∀ frame ∈ stack, frame.IsDistinct) (ofValue : value.HasDistinctNames)
    (steps : stepValueRead stack value placed = .ok next) :
    next.IsDistinct := by
  have ofItems {read : List Document} (ofRead : ∀ item ∈ read, item.HasDistinctNames) :
      ∀ item ∈ read ++ [value], item.HasDistinctNames :=
    List.forall_mem_append.mpr ⟨ofRead, List.forall_mem_singleton.mpr ofValue⟩
  unfold stepValueRead at steps
  split at steps
  · cases steps
    exact ofValue
  · cases steps
  · cases steps
    obtain ⟨ofFrame, ofBelow⟩ := List.forall_mem_cons.mp ofStack
    exact List.forall_mem_cons.mpr ⟨ofItems ofFrame, ofBelow⟩
  · cases steps
    obtain ⟨ofFrame, ofBelow⟩ := List.forall_mem_cons.mp ofStack
    exact ⟨ofBelow, .list (ofItems ofFrame)⟩
  · cases steps
    obtain ⟨ofFrame, ofBelow⟩ := List.forall_mem_cons.mp ofStack
    exact ⟨ofBelow, HasDistinctNames.setField ofFrame ofValue⟩
  · cases steps
    obtain ⟨ofFrame, ofBelow⟩ := List.forall_mem_cons.mp ofStack
    exact ⟨ofBelow, HasDistinctNames.setField ofFrame ofValue⟩
  · cases steps

/-- One token leaves all names distinct. -/
theorem isDistinct_step {state : ReaderState} (distinct : state.IsDistinct)
    (ofToken : placed.token.IsDistinct) (steps : state.step placed = .ok next) :
    next.IsDistinct := by
  have noFields : HasDistinctNames (.record []) := .record List.nodup_nil (List.forall_mem_nil _)
  unfold step at steps
  split at steps
  · exact isDistinct_stepValue distinct ofToken steps
  · cases steps
    exact ⟨distinct, .list (List.forall_mem_nil _)⟩
  · refine isDistinct_stepValue (List.forall_mem_cons.mpr ⟨?_, distinct⟩) ofToken steps
    exact List.forall_mem_nil _
  · cases steps
    exact ⟨distinct, noFields⟩
  · exact isDistinct_stepName distinct noFields steps
  · exact isDistinct_stepName distinct.1 distinct.2 steps
  · cases steps
    exact List.forall_mem_cons.mpr ⟨distinct.2, distinct.1⟩
  · cases steps
  · exact isDistinct_stepValueRead distinct.1 distinct.2 steps
  · cases steps

end ReaderState

/-- A run of the reader ends with distinct names if it starts with them. -/
theorem hasDistinctNames_of_readTokens {state : ReaderState} {placed : List PlacedToken}
    {value : Document} (distinct : state.IsDistinct)
    (ofTokens : ∀ token ∈ placed, token.token.IsDistinct)
    (read : readTokens state placed = .ok value) : value.HasDistinctNames := by
  fun_induction readTokens state placed with
  | case1 result =>
      cases read
      exact distinct
  | case2 => cases read
  | case3 state token rest next steps inductionHypothesis =>
      obtain ⟨ofToken, ofRest⟩ := List.forall_mem_cons.mp ofTokens
      exact inductionHypothesis (ReaderState.isDistinct_step distinct ofToken steps) ofRest read
  | case4 => cases read

/-- In a document that is read, no record has two fields of one name. -/
theorem hasDistinctNames_of_parse {text : String} {value : Document}
    (read : parse text = .ok value) : value.HasDistinctNames := by
  have begins : (ReaderState.valueNeeded []).IsDistinct := List.forall_mem_nil _
  unfold parse readChars at read
  split at read
  · next result succeeded =>
      cases read
      split_ifs at succeeded
      exact hasDistinctNames_of_readTokens begins isDistinct_of_mem_tokens succeeded
  · cases read

end TensorBindings.Document
