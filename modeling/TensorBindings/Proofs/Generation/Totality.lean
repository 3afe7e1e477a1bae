import TensorBindings.Generation
import TensorBindings.Proofs.Backward.Outcome
import TensorBindings.Proofs.Signature.Synthesis

/-!
Contract: a run from tables to files always comes to its end.

Owns: what a header can resolve to, the calls of forward procedures, the result of a run in
terms of its entries, and the theorem that a run succeeds on all tables and options.

Three things have no text, and each is kept out at another place. Holes and empty numbers
are kept out by the grammar and by the renaming. A method without a receiver is kept out by
the synthesis of signatures: the only ones without arguments are helpers, and no header
resolves to a helper.
-/

set_option autoImplicit false

namespace TensorBindings

namespace Registry

private theorem mem_generated_iff {registry : Registry} {signature : Signature} :
    signature ∈ registry.generated ↔
      signature ∈ registry.entries ∧ signature.isHelper = false := by
  unfold generated
  rw [List.mem_filter, Bool.not_eq_true']

/-- A header resolves to one of the declarations with its name. -/
theorem mem_declared_of_resolve {registry : Registry} {header : Header} {forward : Signature}
    (resolved : registry.resolve header = .ok forward) :
    forward ∈ registry.declared header.name := by
  unfold resolve at resolved
  split at resolved
  · cases resolved
  · next only single =>
      cases resolved
      rw [single]
      exact List.mem_singleton_self forward
  · obtain ⟨types, _, chosen⟩ := bind_eq_ok_iff.mp resolved
    split at chosen
    · next found =>
        cases chosen
        exact List.mem_of_find?_eq_some found
    · cases chosen

/-- No header resolves to a helper. -/
theorem mem_generated_of_resolve {registry : Registry} (reachable : registry.Reachable)
    {header : Header} {forward : Signature} (resolved : registry.resolve header = .ok forward) :
    forward ∈ registry.generated := by
  have declared := mem_declared_of_resolve resolved
  rw [reachable.indexed.declared_eq] at declared
  obtain ⟨listed, noHelper, _⟩ := mem_declaredAmong declared
  exact mem_generated_iff.mpr ⟨listed, noHelper⟩

end Registry

private theorem FormulaEntry.forward_mem_generated {registry : Registry}
    (reachable : registry.Reachable) {entry : FormulaEntry} {procedure : BackwardProcedure}
    (accepted : entry.backward registry = .ok (some procedure)) :
    procedure.forward ∈ registry.generated := by
  obtain ⟨header, _, _, resolved, _, _⟩ := backward_eq_some_iff.mp accepted
  exact Registry.mem_generated_of_resolve reachable resolved

namespace Emission

/-- A signature can be called, if it has its receiver in case it needs one. -/
theorem exists_forwardCall {signature : Signature}
    (hasReceiver : signature.invocation = .method → signature.HasReceiver) :
    ∃ call, forwardCall signature = .ok call := by
  unfold forwardCall
  cases style : signature.invocation with
  | onType => exact ⟨_, rfl⟩
  | function => exact ⟨_, rfl⟩
  | method =>
      obtain ⟨receiver, others, split, _⟩ := hasReceiver style
      rw [split]
      exact ⟨_, rfl⟩

/-- The file of backward procedures is written, with and without autograd blocks. -/
theorem exists_derivativesText (autogradBlocks : Bool) {procedures : List BackwardProcedure}
    (haveReceivers : ∀ procedure ∈ procedures,
      procedure.forward.invocation = .method → procedure.forward.HasReceiver) :
    ∃ text, derivativesText autogradBlocks procedures = .ok text := by
  have blocks : ∃ blocks, procedures.mapM (blockLines autogradBlocks) = .ok blocks := by
    refine exists_mapM_eq_ok fun procedure member => ?_
    obtain ⟨call, calls⟩ := exists_forwardCall (haveReceivers procedure member)
    have block : ∃ lines, autogradLines procedure = .ok lines :=
      ⟨_, bind_eq_ok_iff.mpr ⟨call, calls, rfl⟩⟩
    obtain ⟨lines, block⟩ := block
    cases autogradBlocks with
    | false => exact ⟨_, rfl⟩
    | true => exact ⟨_, bind_eq_ok_iff.mpr ⟨lines, block, rfl⟩⟩
  obtain ⟨blocks, written⟩ := blocks
  exact ⟨_, bind_eq_ok_iff.mpr ⟨blocks, written, rfl⟩⟩

end Emission

section Run

variable {options : GenerationOptions} {declarations : List Declaration}

private theorem reachable_registryOf : (registryOf options declarations).Reachable :=
  Registry.reachable_build _ _

/-- The signatures of a run that are no helpers come from declarations. -/
theorem exists_declaration_of_mem_generated
    (areHelpers : ∀ helper ∈ options.extraHelpers, helper.isHelper = true)
    {signature : Signature} (member : signature ∈ (registryOf options declarations).generated) :
    ∃ declaration ∈ declarations,
      signature ∈ (declaration.contribution options.skipInplace).1 := by
  obtain ⟨listed, noHelper⟩ := Registry.mem_generated_iff.mp member
  have defaultsAreHelpers : ∀ helper ∈ Helper.defaults, helper.isHelper = true := by decide
  rw [registryOf, Registry.entries_build, List.mem_append, List.mem_append] at listed
  rcases listed with (isDefault | isExtra) | ingested
  · exact absurd (defaultsAreHelpers signature isDefault) (Bool.eq_false_iff.mp noHelper)
  · exact absurd (areHelpers signature isExtra) (Bool.eq_false_iff.mp noHelper)
  · exact List.mem_flatMap.mp ingested

private theorem hasReceiver_of_mem_generated
    (areHelpers : ∀ helper ∈ options.extraHelpers, helper.isHelper = true)
    {signature : Signature} (member : signature ∈ (registryOf options declarations).generated)
    (isMethod : signature.invocation = .method) : signature.HasReceiver := by
  obtain ⟨declaration, _, contributed⟩ := exists_declaration_of_mem_generated areHelpers member
  exact Declaration.hasReceiver_of_mem_contribution contributed isMethod

variable (options declarations)

/-- The result of a run, given what its entries come to and the text of their procedures. -/
def generationOf (outcomes : List FormulaEntry.Outcome) (derivatives : String) : Generation :=
  { registry := registryOf options declarations
    procedures := outcomes.filterMap FormulaEntry.Outcome.procedure?
    bindings := Emission.bindingsText (registryOf options declarations)
    derivatives
    diagnostics :=
      (Declaration.ingest options.skipInplace declarations).2 ++
        outcomes.filterMap FormulaEntry.Outcome.diagnostic? }

/-- The run: whatever the formulas are, each of them is accounted for by itself, and their
procedures are written. -/
theorem exists_generate
    (areHelpers : ∀ helper ∈ options.extraHelpers, helper.isHelper = true) :
    ∃ ends : FormulaEntry → FormulaEntry.Outcome,
      (∀ entry, FormulaEntry.AccountedFor (registryOf options declarations) entry (ends entry)) ∧
      ∀ formulas, ∃ derivatives,
        Emission.derivativesText options.autogradBlocks
          ((formulas.map ends).filterMap FormulaEntry.Outcome.procedure?) = .ok derivatives ∧
        generate options declarations formulas =
          .ok (generationOf options declarations (formulas.map ends) derivatives) := by
  obtain ⟨ends, accounted, processed⟩ := FormulaEntry.exists_ends (registryOf options declarations)
  refine ⟨ends, accounted, fun formulas => ?_⟩
  have haveReceivers : ∀ procedure ∈ (formulas.map ends).filterMap FormulaEntry.Outcome.procedure?,
      procedure.forward.invocation = .method → procedure.forward.HasReceiver := by
    intro procedure member isMethod
    obtain ⟨outcome, listed, isProcedure⟩ := List.mem_filterMap.mp member
    obtain ⟨entry, _, rfl⟩ := List.mem_map.mp listed
    have accepted := (accounted entry).backward_eq isProcedure
    exact hasReceiver_of_mem_generated areHelpers
      (FormulaEntry.forward_mem_generated reachable_registryOf accepted) isMethod
  obtain ⟨derivatives, written⟩ :=
    Emission.exists_derivativesText options.autogradBlocks haveReceivers
  refine ⟨derivatives, written, ?_⟩
  exact bind_eq_ok_iff.mpr ⟨_, processed formulas, bind_eq_ok_iff.mpr ⟨derivatives, written, rfl⟩⟩

/-- A run succeeds on all tables and with all options, if the extra helpers are helpers. Every
backward procedure belongs to a generated signature, and every generated method has its
receiver. All trees that formulas are read into, and all that are written for them, consist
of nodes that can be written. -/
theorem generation_always_succeeds
    (areHelpers : ∀ helper ∈ options.extraHelpers, helper.isHelper = true)
    (formulas : List FormulaEntry) :
    ∃ generation, generate options declarations formulas = .ok generation ∧
      generation.registry = registryOf options declarations ∧
      (∀ procedure ∈ generation.procedures,
        procedure.forward ∈ generation.registry.generated) ∧
      (∀ signature ∈ generation.registry.generated,
        signature.invocation = .method → signature.HasReceiver) ∧
      (∀ text source, Expr.parse text = .ok source →
        Expr.Derives .ternary source ∧ ∀ node ∈ source.nodes, node.IsWritable) ∧
      (∀ entry : FormulaEntry, ∀ forward checked,
        entry.check generation.registry = .ok (forward, checked) →
          ∀ body ∈ checked, ∀ node ∈ body.tree.nodes, node.IsWritable) := by
  obtain ⟨ends, accounted, runs⟩ := exists_generate options declarations areHelpers
  obtain ⟨derivatives, _, generated⟩ := runs formulas
  refine ⟨_, generated, rfl, ?_, ?_, ?_, ?_⟩
  · intro procedure member
    obtain ⟨outcome, listed, isProcedure⟩ := List.mem_filterMap.mp member
    obtain ⟨entry, _, rfl⟩ := List.mem_map.mp listed
    exact FormulaEntry.forward_mem_generated reachable_registryOf
      ((accounted entry).backward_eq isProcedure)
  · exact fun signature member isMethod =>
      hasReceiver_of_mem_generated areHelpers member isMethod
  · intro text source reads
    have derives := (Expr.derives_of_parse reads).1
    exact ⟨derives, Expr.fault?_eq_none_iff.mp (Expr.fault?_of_derives derives)⟩
  · intro entry forward checked checks body member
    obtain ⟨_, _, _, bodies⟩ := FormulaEntry.check_eq_ok_iff.mp checks
    exact Expr.fault?_eq_none_iff.mp (Backward.fault?_of_checkBodies bodies body member)

end Run

/-! ### A small run

It has a helper that is a method without arguments, a declaration that asks for a method
without a receiver, and a formula for each of its declarations. -/

namespace Sample

def tableOptions : GenerationOptions :=
  { autogradBlocks := true, extraHelpers := [.helper "scale" "rescale" .method] }

def negation : Declaration :=
  { name := "neg"
    methodOf := ["Tensor", "namespace"]
    arguments := [⟨"self", "Tensor", none⟩]
    returns := [⟨"result", "Tensor"⟩] }

def orphan : Declaration :=
  { name := "orphan"
    methodOf := ["Tensor"]
    arguments := [⟨"other", "Tensor", none⟩]
    returns := [⟨"result", "Tensor"⟩] }

def negationEntry : FormulaEntry := ⟨"neg(Tensor self)", [⟨"self", "-grad.scale(2.)"⟩]⟩

def orphanEntry : FormulaEntry := ⟨"orphan(Tensor other)", [⟨"other", "grad"⟩]⟩

theorem isAccepted_negationEntry :
    negationEntry.isAccepted (registryOf tableOptions [orphan, negation]) = true := by
  decide +kernel

theorem isAccepted_orphanEntry :
    orphanEntry.isAccepted (registryOf tableOptions [orphan, negation]) = false := by
  decide +kernel

/-- The registry has methods without arguments, but all of them are helpers. -/
theorem generation_of_small_tables :
    (∀ helper ∈ tableOptions.extraHelpers, helper.isHelper = true) ∧
      .helper "scale" "rescale" .method ∈ (registryOf tableOptions [orphan, negation]).entries ∧
      ∃ generation,
        generate tableOptions [orphan, negation] [orphanEntry, negationEntry] = .ok generation ∧
        generation.registry = registryOf tableOptions [orphan, negation] ∧
        (∀ procedure ∈ generation.procedures,
          procedure.forward ∈ generation.registry.generated) ∧
        (∀ signature ∈ generation.registry.generated,
          signature.invocation = .method → signature.HasReceiver) ∧
        (∀ text source, Expr.parse text = .ok source →
          Expr.Derives .ternary source ∧ ∀ node ∈ source.nodes, node.IsWritable) ∧
        (∀ entry : FormulaEntry, ∀ forward checked,
          entry.check generation.registry = .ok (forward, checked) →
            ∀ body ∈ checked, ∀ node ∈ body.tree.nodes, node.IsWritable) := by
  have areHelpers : ∀ helper ∈ tableOptions.extraHelpers, helper.isHelper = true := by decide
  exact ⟨areHelpers, by decide, generation_always_succeeds tableOptions [orphan, negation]
    areHelpers [orphanEntry, negationEntry]⟩

end Sample

end TensorBindings
