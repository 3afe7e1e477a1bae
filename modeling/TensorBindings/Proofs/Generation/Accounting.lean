import Mathlib.Data.List.Forall2
import TensorBindings.Proofs.Generation.Totality

/-!
Contract: failed entries leave no trace, and every entry is accounted for.

Owns: the tables without the entries that contributed nothing, and the comparison of a run on
them with the run on the whole tables.

Signatures are collected declaration by declaration, so the shorter table gives the same
registry. With the same registry every formula comes to the same end, whatever other formulas
stand in its table.
-/

set_option autoImplicit false

namespace TensorBindings

namespace Declaration

/-- The declaration gives at least one signature. -/
def contributes (skipInplace : Bool) (declaration : Declaration) : Bool :=
  !(declaration.contribution skipInplace).1.isEmpty

/-- The diagnostics of a table of declarations, in its order. -/
def reports (skipInplace : Bool) (declarations : List Declaration) : List Diagnostic :=
  declarations.flatMap fun declaration => (declaration.contribution skipInplace).2

private theorem phase_of_mem_reports {skipInplace : Bool} {declarations : List Declaration}
    {diagnostic : Diagnostic} (member : diagnostic ∈ reports skipInplace declarations) :
    diagnostic.phase = some Table.declarations.label := by
  obtain ⟨declaration, _, reported⟩ := List.mem_flatMap.mp member
  exact (place_of_mem_contribution reported).1

/-- Declarations without a signature can be left out. -/
theorem signatures_of_contributing (skipInplace : Bool) (declarations : List Declaration) :
    (ingest skipInplace (declarations.filter (·.contributes skipInplace))).1 =
      (ingest skipInplace declarations).1 := by
  show (declarations.filter (·.contributes skipInplace)).flatMap
      (fun declaration => (declaration.contribution skipInplace).1) =
    declarations.flatMap fun declaration => (declaration.contribution skipInplace).1
  induction declarations with
  | nil => rfl
  | cons declaration rest inductionHypothesis =>
      by_cases contributing : declaration.contributes skipInplace = true
      · rw [List.filter_cons_of_pos contributing, List.flatMap_cons, List.flatMap_cons,
          inductionHypothesis]
      · have nothing : (declaration.contribution skipInplace).1 = [] := by
          simpa [contributes] using contributing
        rw [List.filter_cons_of_neg contributing, List.flatMap_cons, nothing, inductionHypothesis]
        rfl

end Declaration

private theorem registryOf_contributing (options : GenerationOptions)
    (declarations : List Declaration) :
    registryOf options (declarations.filter (·.contributes options.skipInplace)) =
      registryOf options declarations := by
  unfold registryOf
  rw [Declaration.signatures_of_contributing]

/-- Without the declarations that gave no signature and the formulas that gave no procedure, a
run writes the same texts and has no diagnostic of a formula. In the run on all of them, the
diagnostics are those of the declarations and then those of the formulas, each in the order
of its table, and every formula is accounted for by its procedure or by its diagnostic. -/
theorem failed_entries_leave_no_trace
    (options : GenerationOptions)
    (areHelpers : ∀ helper ∈ options.extraHelpers, helper.isHelper = true)
    (declarations : List Declaration) (formulas : List FormulaEntry) :
    ∃ full reduced : Generation, ∃ outcomes : List FormulaEntry.Outcome,
      generate options declarations formulas = .ok full ∧
      generate options (declarations.filter (·.contributes options.skipInplace))
        (formulas.filter (·.isAccepted (registryOf options declarations))) = .ok reduced ∧
      reduced.bindings = full.bindings ∧
      reduced.derivatives = full.derivatives ∧
      reduced.diagnostics = Declaration.reports options.skipInplace
        (declarations.filter (·.contributes options.skipInplace)) ∧
      (∀ diagnostic ∈ reduced.diagnostics,
        diagnostic.phase = some Table.declarations.label) ∧
      full.diagnostics =
        Declaration.reports options.skipInplace declarations ++
          outcomes.filterMap FormulaEntry.Outcome.diagnostic? ∧
      full.procedures = outcomes.filterMap FormulaEntry.Outcome.procedure? ∧
      List.Forall₂ (FormulaEntry.AccountedFor (registryOf options declarations))
        formulas outcomes := by
  obtain ⟨ends, accounted, runs⟩ := exists_generate options declarations areHelpers
  obtain ⟨derivatives, written, ofAll⟩ := runs formulas
  obtain ⟨reducedEnds, reducedAccounted, reducedRuns⟩ :=
    exists_generate options (declarations.filter (·.contributes options.skipInplace)) areHelpers
  obtain ⟨reducedDerivatives, reducedWritten, ofReduced⟩ :=
    reducedRuns (formulas.filter (·.isAccepted (registryOf options declarations)))
  -- The registry is the same, and it alone decides what an entry comes to.
  rw [registryOf_contributing] at reducedAccounted
  obtain rfl : ends = reducedEnds :=
    funext fun entry => (accounted entry).unique (reducedAccounted entry)
  obtain ⟨sameProcedures, noDiagnostics⟩ :=
    FormulaEntry.filterMap_ends_accepted accounted formulas
  have sameDerivatives : reducedDerivatives = derivatives := by
    rw [sameProcedures] at reducedWritten
    exact Except.ok.inj (reducedWritten.symm.trans written)
  have sameBindings : Emission.bindingsText (registryOf options
        (declarations.filter (·.contributes options.skipInplace))) =
      Emission.bindingsText (registryOf options declarations) := by
    rw [registryOf_contributing]
  have ofDeclarations : (generationOf options
        (declarations.filter (·.contributes options.skipInplace))
        ((formulas.filter (·.isAccepted (registryOf options declarations))).map ends)
        reducedDerivatives).diagnostics =
      Declaration.reports options.skipInplace
        (declarations.filter (·.contributes options.skipInplace)) := by
    unfold generationOf
    rw [noDiagnostics]
    exact List.append_nil _
  refine ⟨_, _, formulas.map ends, ofAll, ofReduced, sameBindings, sameDerivatives,
    ofDeclarations, ?_, rfl, rfl, ?_⟩
  · rw [ofDeclarations]
    exact fun diagnostic member => Declaration.phase_of_mem_reports member
  · exact List.forall₂_map_right_iff.mpr (List.forall₂_same.mpr fun entry _ => accounted entry)

namespace Sample

/-- Both tables of the small run lose their first entry. -/
theorem orphan_leaves_no_trace :
    [orphan, negation].filter (·.contributes tableOptions.skipInplace) = [negation] ∧
      [orphanEntry, negationEntry].filter
        (·.isAccepted (registryOf tableOptions [orphan, negation])) = [negationEntry] ∧
      ∃ full reduced : Generation, ∃ outcomes : List FormulaEntry.Outcome,
        generate tableOptions [orphan, negation] [orphanEntry, negationEntry] = .ok full ∧
        generate tableOptions [negation] [negationEntry] = .ok reduced ∧
        reduced.bindings = full.bindings ∧
        reduced.derivatives = full.derivatives ∧
        reduced.diagnostics = Declaration.reports tableOptions.skipInplace [negation] ∧
        (∀ diagnostic ∈ reduced.diagnostics,
          diagnostic.phase = some Table.declarations.label) ∧
        full.diagnostics =
          Declaration.reports tableOptions.skipInplace [orphan, negation] ++
            outcomes.filterMap FormulaEntry.Outcome.diagnostic? ∧
        full.procedures = outcomes.filterMap FormulaEntry.Outcome.procedure? ∧
        List.Forall₂ (FormulaEntry.AccountedFor (registryOf tableOptions [orphan, negation]))
          [orphanEntry, negationEntry] outcomes := by
  have kept : [orphan, negation].filter (·.contributes tableOptions.skipInplace) = [negation] := by
    rfl
  have accepted : [orphanEntry, negationEntry].filter
      (·.isAccepted (registryOf tableOptions [orphan, negation])) = [negationEntry] := by
    rw [List.filter_cons_of_neg (by simp [isAccepted_orphanEntry]),
      List.filter_cons_of_pos isAccepted_negationEntry]
    rfl
  have areHelpers : ∀ helper ∈ tableOptions.extraHelpers, helper.isHelper = true := by decide
  have traceless := failed_entries_leave_no_trace tableOptions areHelpers
    [orphan, negation] [orphanEntry, negationEntry]
  rw [kept, accepted] at traceless
  exact ⟨kept, accepted, traceless⟩

end Sample

end TensorBindings
