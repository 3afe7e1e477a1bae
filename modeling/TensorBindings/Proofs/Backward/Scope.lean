import Mathlib.Data.List.Basic
import TensorBindings.Proofs.Backward.Acceptance
import TensorBindings.Proofs.Backward.Renaming

/-!
Contract: the names that emitted code reads.

Owns: the names of the parameters of a backward procedure, the names that stand for values in
a renamed tree, and the theorem that a procedure declares every name that its bodies read,
as far as the formula gives that name a meaning.

Does not own: called names (`Proofs.Backward.CallSites`).
-/

set_option autoImplicit false

namespace TensorBindings

open TensorBindings.Text

/-! ### Parameters -/

namespace BackwardProcedure

open Backward

def parameterNames (procedure : BackwardProcedure) : List String :=
  procedure.parameters.map Prod.fst

/-- A procedure declares the gradient, the forward result, the forward arguments, and the
mask if it has a size. -/
theorem mem_parameterNames_iff {procedure : BackwardProcedure} {ident : String} :
    ident ∈ procedure.parameterNames ↔
      ident = gradientName ∨ ident = forwardResultName ∨
        (∃ argument ∈ procedure.forward.args, parameterName argument.name = ident) ∨
        (ident = maskName ∧ procedure.maskSize.isSome = true) := by
  unfold parameterNames parameters
  cases procedure.maskSize <;> simp [eq_comm]

end BackwardProcedure

namespace Backward

/-! ### Names in renamed trees -/

namespace Renaming

/-- Every name that stands for a value is replaced by the names in what it stands for, and no
other name comes in. -/
theorem valueNames_apply (names : Renaming) (tree : Expr) :
    (names.apply tree).valueNames =
      tree.valueNames.flatMap fun ident => (names.value ident).valueNames := by
  have ofAll : ∀ items : List Expr,
      (∀ item ∈ items, (names.apply item).valueNames =
        item.valueNames.flatMap fun ident => (names.value ident).valueNames) →
      Expr.valueNamesOfAll (names.applyAll items) =
        (Expr.valueNamesOfAll items).flatMap fun ident => (names.value ident).valueNames := by
    intro items ofItems
    rw [applyAll_eq_map, Expr.valueNamesOfAll_eq_flatMap, Expr.valueNamesOfAll_eq_flatMap,
      List.flatMap_map, List.flatMap_assoc]
    exact List.flatMap_congr ofItems
  induction tree using Expr.inductionByCallee with
  | name qualifier ident =>
      cases qualifier with
      | nil => simp [apply, Expr.valueNames]
      | cons first others => rfl
  | number text => rfl
  | string text => rfl
  | hole => rfl
  | member value field ofValue => exact ofValue
  | unary op operand ofOperand => exact ofOperand
  | paren inner ofInner => exact ofInner
  | list items ofItems => exact ofAll items ofItems
  | callMethod receiver method arguments ofReceiver ofArguments =>
      simp [apply, Expr.valueNames, ofReceiver, ofAll arguments ofArguments]
  | callFunction qualifier ident arguments ofArguments =>
      simp [apply, Expr.valueNames, ofAll arguments ofArguments]
  | callValue callee arguments computed ofCallee ofArguments =>
      rw [apply_callValue names computed,
        Expr.valueNames_callValue _ (calleeName?_apply names computed),
        Expr.valueNames_callValue _ computed, ofCallee, ofAll arguments ofArguments,
        List.flatMap_append]
  | index value position ofValue ofPosition =>
      simp [apply, Expr.valueNames, ofValue, ofPosition]
  | binary op left right ofLeft ofRight =>
      simp [apply, Expr.valueNames, ofLeft, ofRight]
  | ternary condition thenValue elseValue ofCondition ofThen ofElse =>
      simp [apply, Expr.valueNames, ofCondition, ofThen, ofElse]

end Renaming

/-- What a name stands for reads one name: the forward result, a parameter for a forward
argument, or the name itself. It reads itself only if the formula gives it no other
meaning. -/
theorem StandsFor.mem_valueNames_cases {forward : Signature} {ident read : String} {tree : Expr}
    (standsFor : StandsFor forward ident tree) (member : read ∈ tree.valueNames) :
    read = forwardResultName ∨
      (∃ argument ∈ forward.args, parameterName argument.name = read) ∨
      (read = ident ∧ (∀ digits, ¬ IsPlaceholder ident digits) ∧ ¬ forward.NamesField ident ∧
        (ident = gradientName ∨ ident = maskName ∨ ¬ forward.NamesArgument ident)) := by
  cases standsFor with
  | result placeholder => exact Or.inl (List.mem_singleton.mp member)
  | element placeholder numbered => exact Or.inl (List.mem_singleton.mp member)
  | field noPlaceholder tuple fieldMember named => exact Or.inl (List.mem_singleton.mp member)
  | @argument argument _ _ _ _ argumentMember _ =>
      exact Or.inr (Or.inl ⟨argument, argumentMember, (List.mem_singleton.mp member).symm⟩)
  | itself noPlaceholder noField kept =>
      exact Or.inr (Or.inr ⟨List.mem_singleton.mp member, noPlaceholder, noField, kept⟩)

end Backward

namespace FormulaEntry

open Backward BackwardProcedure

/-- Every name that the emitted tree of an accepted body reads is a parameter of the
procedure, unless the body itself reads that name and it is no placeholder, no forward
argument and no field of the forward result. -/
theorem emitted_name_is_declared
    {registry : Registry} {entry : FormulaEntry} {procedure : BackwardProcedure}
    (accepted : entry.backward registry = .ok (some procedure))
    {body : FormulaBody} (member : body ∈ entry.bodies)
    (implemented : body.isImplemented = true) :
    ∃ source, Expr.parse (trim body.text) = .ok source ∧
      ∀ read ∈ (emittedTree registry procedure.forward source).valueNames,
        read ∈ procedure.parameterNames ∨
        (read ∈ (stripTrainingGuard source).1.valueNames ∧
          (∀ digits, ¬ IsPlaceholder read digits) ∧
          ¬ procedure.forward.NamesArgument read ∧
          ¬ procedure.forward.NamesField read) := by
  obtain ⟨source, parsed, _, hasMask⟩ := exists_source_of_backward accepted member implemented
  refine ⟨source, parsed, fun read readMember => ?_⟩
  unfold emittedTree at readMember
  rw [Renaming.valueNames_apply] at readMember
  obtain ⟨ident, identMember, fromIdent⟩ := List.mem_flatMap.mp readMember
  have standsFor := Renaming.value_standsFor procedure.forward registry.callSites ident
  rw [mem_parameterNames_iff]
  rcases standsFor.mem_valueNames_cases fromIdent with
    isResult | isArgument | ⟨rfl, noPlaceholder, noField, kept⟩
  · exact Or.inl (Or.inr (Or.inl isResult))
  · exact Or.inl (Or.inr (Or.inr (Or.inl isArgument)))
  · rcases kept with isGradient | isMask | noArgument
    · exact Or.inl (Or.inl isGradient)
    · -- A body that reads the mask mentions it, and then the procedure has a mask.
      have mentioned : (stripTrainingGuard source).1.mentions maskName = true := by
        rw [← isMask]
        exact Expr.mentions_of_mem_valueNames identMember
      exact Or.inl (Or.inr (Or.inr (Or.inr ⟨isMask, hasMask mentioned⟩)))
    · exact Or.inr ⟨identMember, noPlaceholder, noArgument, noField⟩

end FormulaEntry

namespace Sample

open Backward

theorem emitted_names_of_scalingBody :
    (emittedTree registry forward scalingSource).valueNames = ["aend", "fwd_result"] ∧
      ∃ source, Expr.parse (trim scalingBody.text) = .ok source ∧
        ∀ read ∈ (emittedTree registry procedure.forward source).valueNames,
          read ∈ procedure.parameterNames ∨
          (read ∈ (stripTrainingGuard source).1.valueNames ∧
            (∀ digits, ¬ IsPlaceholder read digits) ∧
            ¬ procedure.forward.NamesArgument read ∧
            ¬ procedure.forward.NamesField read) :=
  ⟨by decide,
    FormulaEntry.emitted_name_is_declared backward_entry
      (List.mem_cons_of_mem callingBody List.mem_cons_self) (by decide)⟩

end Sample

end TensorBindings
