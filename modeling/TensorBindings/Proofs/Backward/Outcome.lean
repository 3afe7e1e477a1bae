import Mathlib.Tactic.Choose
import TensorBindings.Proofs.Backward.Rendering
import TensorBindings.Proofs.Registry

/-!
Contract: what the entries of a formula table come to.

Owns: the two ways in which an entry is accounted for, the theorem that every entry is, and
the procedures and diagnostics of a whole table in terms of its entries one by one.

A table is processed with kept display names, which changes no answer of the registry. So
the end of an entry depends on the registry and on the entry alone, and never on the entries
before it.
-/

set_option autoImplicit false

namespace TensorBindings

open TensorBindings.Text

/-! ### Kept display names change no check -/

section KeptCallSites

open Backward

variable (registry : Registry)

private theorem Registry.isCallable_keepCallSites (name : String) :
    registry.keepCallSites.isCallable name = registry.isCallable name := by
  unfold keepCallSites
  split <;> rfl

private theorem Registry.resolve_keepCallSites (header : Header) :
    registry.keepCallSites.resolve header = registry.resolve header := by
  unfold keepCallSites
  split <;> rfl

private theorem Backward.checkCalls_keepCallSites (names : List String) :
    checkCalls registry.keepCallSites names = checkCalls registry names := by
  induction names with
  | nil => rfl
  | cons name rest inductionHypothesis =>
      rw [checkCalls, checkCalls, registry.isCallable_keepCallSites, inductionHypothesis]

private theorem Backward.checkBodies_keepCallSites (forward : Signature) (seen : List String)
    (bodies : List FormulaBody) :
    checkBodies registry.keepCallSites forward seen bodies =
      checkBodies registry forward seen bodies := by
  have sameBody (seen : List String) (body : FormulaBody) :
      checkBody registry.keepCallSites forward seen body = checkBody registry forward seen body := by
    unfold checkBody
    simp only [checkCalls_keepCallSites, registry.callSites_keepCallSites]
  induction bodies generalizing seen with
  | nil => rfl
  | cons body rest inductionHypothesis =>
      rw [checkBodies, checkBodies, sameBody, inductionHypothesis, inductionHypothesis]

private theorem FormulaEntry.backward_keepCallSites (entry : FormulaEntry) :
    entry.backward registry.keepCallSites = entry.backward registry := by
  have sameCheck : entry.check registry.keepCallSites = entry.check registry := by
    unfold check
    simp only [registry.resolve_keepCallSites, checkBodies_keepCallSites]
  unfold backward
  rw [sameCheck]

end KeptCallSites

namespace FormulaEntry

/-! ### One entry -/

/-- The entry has a backward procedure. -/
def isAccepted (registry : Registry) (entry : FormulaEntry) : Bool :=
  match entry.backward registry with
  | .ok (some _) => true
  | _ => false

/-- The outcome accounts for the entry: it is the procedure of the entry, or a diagnostic that
carries its header and says why the entry has none. -/
def AccountedFor (registry : Registry) (entry : FormulaEntry) : Outcome → Prop
  | .accepted procedure => entry.backward registry = .ok (some procedure)
  | .skipped diagnostic =>
      diagnostic.entry = some entry.header ∧
      diagnostic.phase = some Table.derivatives.label ∧
      ((entry.backward registry = .ok none ∧ diagnostic = entry.notImplemented) ∨
        ∃ error, entry.backward registry = .error (.entry error) ∧
          diagnostic = .ofError error Table.derivatives.label entry.header)

/-- Nothing but an error of the entry keeps it from a result. -/
theorem backward_ne_render (registry : Registry) (entry : FormulaEntry) (error : RenderError) :
    entry.backward registry ≠ .error (.render error) := by
  unfold backward
  cases checks : entry.check registry with
  | error entryError => simp
  | ok checkedEntry =>
      obtain ⟨forward, checked⟩ := checkedEntry
      obtain ⟨header, _, _, bodies⟩ := check_eq_ok_iff.mp checks
      obtain ⟨procedure?, assembled⟩ :=
        BackwardProcedure.exists_assemble (Backward.fault?_of_checkBodies bodies) forward
      simp [assembled]

/-- What an entry comes to is what accounts for it. -/
theorem outcome_eq_ok_iff {registry : Registry} {entry : FormulaEntry} {ending : Outcome} :
    entry.outcome registry.keepCallSites = .ok ending ↔ entry.AccountedFor registry ending := by
  unfold outcome
  rw [backward_keepCallSites]
  constructor
  · intro comesTo
    split at comesTo
    · next procedure result =>
        cases comesTo
        exact result
    · next result =>
        cases comesTo
        exact ⟨rfl, rfl, Or.inl ⟨result, rfl⟩⟩
    · next error result =>
        cases comesTo
        exact ⟨rfl, rfl, Or.inr ⟨error, result, rfl⟩⟩
    · cases comesTo
  · intro accounted
    cases ending with
    | accepted procedure =>
        have result : entry.backward registry = .ok (some procedure) := accounted
        rw [result]
    | skipped diagnostic =>
        obtain ⟨_, _, ⟨result, rfl⟩ | ⟨error, result, rfl⟩⟩ := accounted
        · rw [result]
        · rw [result]

/-- Every entry comes to an outcome. -/
theorem exists_outcome (registry : Registry) (entry : FormulaEntry) :
    ∃ ending, entry.outcome registry.keepCallSites = .ok ending := by
  unfold outcome
  rw [backward_keepCallSites]
  split
  · exact ⟨_, rfl⟩
  · exact ⟨_, rfl⟩
  · exact ⟨_, rfl⟩
  · next error result => exact absurd result (backward_ne_render registry entry error)

/-- An entry is accounted for in one way only. -/
theorem AccountedFor.unique {registry : Registry} {entry : FormulaEntry} {first second : Outcome}
    (byFirst : entry.AccountedFor registry first) (bySecond : entry.AccountedFor registry second) :
    first = second :=
  Except.ok.inj ((outcome_eq_ok_iff.mpr byFirst).symm.trans (outcome_eq_ok_iff.mpr bySecond))

/-- The procedure that accounts for an entry is the procedure of that entry. -/
theorem AccountedFor.backward_eq {registry : Registry} {entry : FormulaEntry} {outcome : Outcome}
    (accounted : entry.AccountedFor registry outcome) {procedure : BackwardProcedure}
    (isProcedure : outcome.procedure? = some procedure) :
    entry.backward registry = .ok (some procedure) := by
  cases outcome with
  | accepted other =>
      cases isProcedure
      exact accounted
  | skipped diagnostic => cases isProcedure

/-- An accepted entry is accounted for by a procedure, any other by a diagnostic. -/
theorem AccountedFor.cases {registry : Registry} {entry : FormulaEntry} {outcome : Outcome}
    (accounted : entry.AccountedFor registry outcome) :
    (entry.isAccepted registry = true ∧ outcome.diagnostic? = none) ∨
      (entry.isAccepted registry = false ∧ outcome.procedure? = none) := by
  unfold isAccepted
  cases outcome with
  | accepted procedure =>
      have accepted : entry.backward registry = .ok (some procedure) := accounted
      rw [accepted]
      exact Or.inl ⟨rfl, rfl⟩
  | skipped diagnostic =>
      obtain ⟨_, _, ⟨without, _⟩ | ⟨error, failed, _⟩⟩ := accounted
      · rw [without]
        exact Or.inr ⟨rfl, rfl⟩
      · rw [failed]
        exact Or.inr ⟨rfl, rfl⟩

/-! ### A whole table -/

/-- The outcome of each entry is the same in every table. -/
theorem exists_ends (registry : Registry) :
    ∃ ends : FormulaEntry → Outcome,
      (∀ entry, AccountedFor registry entry (ends entry)) ∧
      ∀ entries, processAll registry entries =
        .ok ((entries.map ends).filterMap Outcome.procedure?,
          (entries.map ends).filterMap Outcome.diagnostic?) := by
  choose ends comesTo using exists_outcome registry
  refine ⟨ends, fun entry => outcome_eq_ok_iff.mp (comesTo entry), fun entries => ?_⟩
  have traversed : entries.mapM (outcome registry.keepCallSites) = .ok (entries.map ends) := by
    rw [funext comesTo]
    exact List.mapM_pure
  exact bind_eq_ok_iff.mpr ⟨_, traversed, rfl⟩

/-- The entries that are not accepted give no procedure, and the others no diagnostic. -/
theorem filterMap_ends_accepted {registry : Registry} {ends : FormulaEntry → Outcome}
    (accounted : ∀ entry, AccountedFor registry entry (ends entry)) (entries : List FormulaEntry) :
    ((entries.filter (·.isAccepted registry)).map ends).filterMap Outcome.procedure? =
        (entries.map ends).filterMap Outcome.procedure? ∧
      ((entries.filter (·.isAccepted registry)).map ends).filterMap Outcome.diagnostic? = [] := by
  induction entries with
  | nil => exact ⟨rfl, rfl⟩
  | cons entry rest inductionHypothesis =>
      obtain ⟨sameProcedures, noDiagnostics⟩ := inductionHypothesis
      rcases (accounted entry).cases with ⟨accepted, noDiagnostic⟩ | ⟨rejected, noProcedure⟩
      · simp [accepted, noDiagnostic, sameProcedures, noDiagnostics, List.filterMap_cons]
      · simp [rejected, noProcedure, sameProcedures, noDiagnostics]

end FormulaEntry

end TensorBindings
