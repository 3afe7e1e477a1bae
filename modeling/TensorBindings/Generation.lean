import TensorBindings.Backward.Entry
import TensorBindings.Emission
import TensorBindings.Signature.Synthesis
import TensorBindings.Table.Helper

/-!
Contract: the whole way from tables to files, in memory.

Owns: the options of a run, its result, and the run itself. Declarations become signatures,
these and the helpers a frozen registry, and the formulas backward procedures. What cannot
be processed becomes a diagnostic, those of declarations before those of formulas.
-/

set_option autoImplicit false

namespace TensorBindings

structure GenerationOptions where
  skipInplace : Bool := false
  autogradBlocks : Bool := false
  /-- Helpers besides those that are always there. -/
  extraHelpers : List Signature := []

structure Generation where
  registry : Registry
  procedures : List BackwardProcedure
  bindings : String
  derivatives : String
  diagnostics : List Diagnostic

/-- The registry of a list of declarations. -/
def registryOf (options : GenerationOptions) (declarations : List Declaration) : Registry :=
  .build (Helper.defaults ++ options.extraHelpers)
    (Declaration.ingest options.skipInplace declarations).1

def generate
    (options : GenerationOptions)
    (declarations : List Declaration)
    (formulas : List FormulaEntry) : Except RenderError Generation := do
  let registry := registryOf options declarations
  let (procedures, formulaDiagnostics) ← FormulaEntry.processAll registry formulas
  let derivatives ← Emission.derivativesText options.autogradBlocks procedures
  return {
    registry
    procedures
    bindings := Emission.bindingsText registry
    derivatives
    diagnostics :=
      (Declaration.ingest options.skipInplace declarations).2 ++ formulaDiagnostics }

/-- The entries that were skipped with an error. -/
def Generation.errors (generation : Generation) : List Diagnostic :=
  generation.diagnostics.filter (·.severity == .error)

end TensorBindings
