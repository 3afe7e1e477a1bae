import Mathlib.Data.List.Forall2

/-!
Contract: steps that may fail, in sequences and in traversals.

Owns: when a sequence or a traversal succeeds, and which faults it can end with.
-/

set_option autoImplicit false

namespace TensorBindings

variable {Fault α β : Type}

/-! ### Success -/

/-- A sequence of two steps succeeds exactly if both do. -/
theorem bind_eq_ok_iff {first : Except Fault α} {next : α → Except Fault β} {result : β} :
    first >>= next = .ok result ↔ ∃ value, first = .ok value ∧ next value = .ok result := by
  cases first with
  | error fault =>
      constructor
      · intro succeeded
        cases succeeded
      · rintro ⟨value, succeeded, _⟩
        cases succeeded
  | ok value =>
      constructor
      · intro succeeded
        exact ⟨value, rfl, succeeded⟩
      · rintro ⟨other, same, succeeded⟩
        cases same
        exact succeeded

/-- A sequence of two steps fails where the first of its steps fails. -/
theorem bind_eq_error_iff {first : Except Fault α} {next : α → Except Fault β} {fault : Fault} :
    first >>= next = .error fault ↔
      first = .error fault ∨ ∃ value, first = .ok value ∧ next value = .error fault := by
  cases first with
  | error other =>
      constructor
      · intro failed
        cases failed
        exact Or.inl rfl
      · rintro (failed | ⟨value, succeeded, _⟩)
        · cases failed
          rfl
        · cases succeeded
  | ok value =>
      constructor
      · intro failed
        exact Or.inr ⟨value, rfl, failed⟩
      · rintro (failed | ⟨other, same, failed⟩)
        · cases failed
        · cases same
          exact failed

theorem mapError_eq_ok_iff {Other : Type} {first : Except Fault α} {wrap : Fault → Other}
    {value : α} : first.mapError wrap = .ok value ↔ first = .ok value := by
  cases first <;> simp [Except.mapError]

theorem mapError_eq_error_iff {Other : Type} {first : Except Fault α} {wrap : Fault → Other}
    {other : Other} :
    first.mapError wrap = .error other ↔ ∃ fault, first = .error fault ∧ wrap fault = other := by
  cases first <;> simp [Except.mapError]

theorem map_eq_ok_iff {first : Except Fault α} {make : α → β} {result : β} :
    make <$> first = .ok result ↔ ∃ value, first = .ok value ∧ make value = result := by
  cases first <;> simp [Functor.map, Except.map]

/-- A traversal succeeds exactly if it gives one result for each member. -/
theorem mapM_eq_ok_iff {step : α → Except Fault β} {items : List α} {results : List β} :
    items.mapM step = .ok results ↔
      List.Forall₂ (fun item result => step item = .ok result) items results := by
  constructor
  · intro succeeded
    induction items generalizing results with
    | nil =>
        cases succeeded
        exact .nil
    | cons item rest inductionHypothesis =>
        rw [List.mapM_cons] at succeeded
        obtain ⟨first, ofFirst, succeeded⟩ := bind_eq_ok_iff.mp succeeded
        obtain ⟨others, ofRest, returned⟩ := bind_eq_ok_iff.mp succeeded
        cases returned
        exact .cons ofFirst (inductionHypothesis ofRest)
  · intro related
    induction related with
    | nil => rfl
    | cons ofFirst _ ofRest =>
        rw [List.mapM_cons, ofFirst, ofRest]
        rfl

/-- A traversal succeeds if it succeeds on every member. -/
theorem exists_mapM_eq_ok {step : α → Except Fault β} {items : List α}
    (ofEach : ∀ item ∈ items, ∃ result, step item = .ok result) :
    ∃ results, items.mapM step = .ok results := by
  induction items with
  | nil => exact ⟨[], rfl⟩
  | cons item rest inductionHypothesis =>
      obtain ⟨⟨first, ofFirst⟩, ofRest⟩ := List.forall_mem_cons.mp ofEach
      obtain ⟨others, ofOthers⟩ := inductionHypothesis ofRest
      refine ⟨first :: others, ?_⟩
      rw [List.mapM_cons, ofFirst, ofOthers]
      rfl

/-- Every result of a traversal is that of a member. -/
theorem exists_of_mem_mapM {step : α → Except Fault β} {items : List α} {results : List β}
    (succeeded : items.mapM step = .ok results) {result : β} (member : result ∈ results) :
    ∃ item ∈ items, step item = .ok result := by
  have related := mapM_eq_ok_iff.mp succeeded
  induction related with
  | nil => cases member
  | @cons item first items results ofItem _ inductionHypothesis =>
      rcases List.mem_cons.mp member with rfl | inRest
      · exact ⟨item, List.mem_cons_self, ofItem⟩
      · obtain ⟨other, otherMember, ofOther⟩ :=
          inductionHypothesis (mapM_eq_ok_iff.mpr ‹_›) inRest
        exact ⟨other, List.mem_cons_of_mem item otherMember, ofOther⟩

/-- A traversal fails with the fault of the first member on which it fails. -/
theorem mapM_eq_error_iff {step : α → Except Fault β} {items : List α} {fault : Fault} :
    items.mapM step = .error fault ↔
      ∃ before item after, items = before ++ item :: after ∧
        (∀ earlier ∈ before, ∃ result, step earlier = .ok result) ∧ step item = .error fault := by
  constructor
  · intro failed
    induction items with
    | nil => cases failed
    | cons item rest inductionHypothesis =>
        rw [List.mapM_cons] at failed
        rcases bind_eq_error_iff.mp failed with atFirst | ⟨first, ofFirst, failed⟩
        · exact ⟨[], item, rest, rfl, List.forall_mem_nil _, atFirst⟩
        · rcases bind_eq_error_iff.mp failed with later | ⟨others, _, returned⟩
          · obtain ⟨before, failing, after, rfl, ofEarlier, fails⟩ := inductionHypothesis later
            exact ⟨item :: before, failing, after, rfl,
              List.forall_mem_cons.mpr ⟨⟨first, ofFirst⟩, ofEarlier⟩, fails⟩
          · cases returned
  · rintro ⟨before, item, after, rfl, ofEarlier, fails⟩
    obtain ⟨results, succeeded⟩ := exists_mapM_eq_ok ofEarlier
    rw [List.mapM_append, List.mapM_cons, succeeded, fails]
    rfl

/-! ### Faults -/

/-- If the computation fails, then with such a fault. -/
def FailsOnly (expected : Fault → Prop) (computation : Except Fault α) : Prop :=
  ∀ fault, computation = .error fault → expected fault

namespace FailsOnly

variable {expected : Fault → Prop}

theorem ok (value : α) : FailsOnly expected (.ok value) := nofun

theorem error {fault : Fault} (isExpected : expected fault) :
    FailsOnly expected (.error fault : Except Fault α) := by
  intro other same
  cases same
  exact isExpected

theorem bind {first : Except Fault α} {next : α → Except Fault β}
    (ofFirst : FailsOnly expected first) (ofNext : ∀ value, FailsOnly expected (next value)) :
    FailsOnly expected (first >>= next) := by
  cases first with
  | error fault => exact error (ofFirst fault rfl)
  | ok value => exact ofNext value

theorem mapM {step : α → Except Fault β} (ofStep : ∀ item, FailsOnly expected (step item))
    (items : List α) : FailsOnly expected (items.mapM step) := by
  induction items with
  | nil => exact ok []
  | cons item rest inductionHypothesis =>
      rw [List.mapM_cons]
      exact (ofStep item).bind fun _ => inductionHypothesis.bind fun _ => ok _

end FailsOnly

end TensorBindings
