import Mathlib.Data.List.Nodup
import TensorBindings.Proofs.Backward.Scope

/-!
Contract: the parameters of a backward procedure by name.

Owns: when two parameters of a procedure have one name.

An argument that is named as a parameter of every procedure is passed under a longer name, which
no such parameter has. But nothing compares the longer name with those of the other arguments:
`grad` is passed as `grad_arg`, and so is an argument `grad_arg`.

Does not own: what the bodies make of these names (`Proofs.Backward.Scope`,
`Proofs.Backward.Bindings`).
-/

set_option autoImplicit false

namespace TensorBindings

namespace Backward

private theorem suffixed_notMem_ownParameters (name : String) : name ++ "_arg" ∉ ownParameters := by
  have ends : "_arg".toList <:+ (name ++ "_arg").toList := by
    rw [String.toList_append]
    exact List.suffix_append _ _
  have noneEnds : ∀ own ∈ ownParameters, ¬ "_arg".toList <:+ own.toList := by
    decide +kernel
  exact fun isOwn => noneEnds _ isOwn ends

/-- No argument is passed under the name of a parameter of every procedure. -/
theorem parameterName_notMem_ownParameters (name : String) :
    parameterName name ∉ ownParameters := by
  unfold parameterName
  split_ifs with own
  · exact suffixed_notMem_ownParameters name
  · exact own

/-- Two arguments are passed under one name only if one of them has the name that the other has
to take. -/
theorem parameterName_eq_cases {left right : String}
    (same : parameterName left = parameterName right) :
    left = right ∨ (left ∈ ownParameters ∧ right = left ++ "_arg") ∨
      (right ∈ ownParameters ∧ left = right ++ "_arg") := by
  unfold parameterName at same
  split_ifs at same with leftOwn rightOwn rightOwn
  · exact Or.inl ((String.append_left_inj _).mp same)
  · exact Or.inr (Or.inl ⟨leftOwn, same.symm⟩)
  · exact Or.inr (Or.inr ⟨rightOwn, same⟩)
  · exact Or.inl same

/-- Distinct arguments are passed under distinct names exactly if none has the name that another
has to take. -/
theorem nodup_map_parameterName_iff {names : List String} (distinct : names.Nodup) :
    (names.map parameterName).Nodup ↔
      ∀ own ∈ ownParameters, own ∈ names → own ++ "_arg" ∉ names := by
  rw [List.nodup_map_iff_inj_on distinct]
  constructor
  · intro injective own isOwn inNames longer
    have passed : parameterName own = parameterName (own ++ "_arg") := by
      rw [parameterName, if_pos isOwn, parameterName,
        if_neg (suffixed_notMem_ownParameters own)]
    have same := injective own inNames (own ++ "_arg") longer passed
    rw [same] at isOwn
    exact suffixed_notMem_ownParameters own isOwn
  · intro apart left leftMember right rightMember same
    rcases parameterName_eq_cases same with equal | ⟨own, rfl⟩ | ⟨own, rfl⟩
    · exact equal
    · exact absurd rightMember (apart left own leftMember)
    · exact absurd leftMember (apart right own rightMember)

end Backward

namespace BackwardProcedure

open Backward

/-- The parameters are those for the arguments and some of those that every procedure may
have. -/
theorem exists_parameterNames_perm (procedure : BackwardProcedure) :
    ∃ own, own.Sublist ownParameters ∧
      procedure.parameterNames.Perm
        (own ++ (procedure.forward.args.map (·.name)).map parameterName) := by
  have split : procedure.parameterNames =
      [gradientName, forwardResultName] ++
        (procedure.forward.args.map (·.name)).map parameterName ++
        (procedure.maskSize.map fun _ => maskName).toList := by
    unfold parameterNames parameters
    cases procedure.maskSize <;> simp
  rw [split]
  cases procedure.maskSize with
  | none => exact ⟨[gradientName, forwardResultName], by decide, by simp⟩
  | some size =>
      -- The mask comes after the arguments.
      refine ⟨ownParameters, List.Sublist.refl _, ?_⟩
      exact List.Perm.cons _ (List.Perm.cons _ List.perm_append_comm)

/-- The parameters of a procedure are distinct exactly if those for the arguments are. -/
theorem nodup_parameterNames_iff (procedure : BackwardProcedure) :
    procedure.parameterNames.Nodup ↔
      ((procedure.forward.args.map (·.name)).map parameterName).Nodup := by
  obtain ⟨own, areOwn, rearranged⟩ := procedure.exists_parameterNames_perm
  have ownDistinct : ownParameters.Nodup := by decide
  rw [rearranged.nodup_iff, List.nodup_append]
  constructor
  · exact fun all => all.2.1
  · intro passed
    refine ⟨areOwn.nodup ownDistinct, passed, ?_⟩
    rintro name isOwn _ member rfl
    obtain ⟨argument, -, rfl⟩ := List.mem_map.mp member
    exact parameterName_notMem_ownParameters argument (areOwn.subset isOwn)

/-- Arguments with distinct names never take the place of another parameter, and their
parameters are distinct exactly if no argument has the name that another has to take. -/
theorem parameters_are_distinct_unless_suffix_is_taken (procedure : BackwardProcedure)
    (distinct : (procedure.forward.args.map (·.name)).Nodup) :
    (∀ argument ∈ procedure.forward.args, parameterName argument.name ∉ ownParameters) ∧
      (procedure.parameterNames.Nodup ↔
        ∀ own ∈ ownParameters, own ∈ procedure.forward.args.map (·.name) →
          own ++ "_arg" ∉ procedure.forward.args.map (·.name)) := by
  refine ⟨fun argument _ => parameterName_notMem_ownParameters argument.name, ?_⟩
  rw [nodup_parameterNames_iff, nodup_map_parameterName_iff distinct]

end BackwardProcedure

/-! ### Two procedures

Two arguments of the first have to take a longer name. In the second such a name is that of the
other argument. -/

namespace Sample

open Backward

def embed : Signature :=
  { engineName := "embed"
    name := "embed"
    invocation := .function
    args := [⟨"grad", "grad", .tensor, none⟩, ⟨"indices", "indices", .tensor, none⟩,
      ⟨"fwd_result", "fwd_result", .tensor, none⟩]
    returns := [⟨"", "result", .tensor⟩] }

def embedEntry : FormulaEntry :=
  ⟨"embed(Tensor grad, IndexTensor indices, Tensor fwd_result)",
    [⟨"indices", "grad * fwd_result + grad_input_mask"⟩]⟩

def embedProcedure : BackwardProcedure :=
  { forward := embed
    fields := [⟨"indices", "indices", .tensor, none⟩]
    bindings := [⟨"indices_result", "grad * fwd_result_arg + grad_input_mask"⟩]
    assignments := [⟨"indices", "indices_result", none⟩]
    maskSize := some 1
    autogradLines := [("indices", "grad * fwd_result_arg + grad_input_mask")] }

theorem parameters_of_embedProcedure :
    embedEntry.backward (.build [] [embed]) = .ok (some embedProcedure) ∧
      embedProcedure.parameterNames = ["grad", "fwd_result", "grad_arg", "indices",
        "fwd_result_arg", "grad_input_mask"] ∧
      embedProcedure.parameterNames.Nodup := by
  refine ⟨by decide +kernel, by decide, ?_⟩
  have distinct : (embedProcedure.forward.args.map (·.name)).Nodup := by decide
  exact (BackwardProcedure.parameters_are_distinct_unless_suffix_is_taken embedProcedure
    distinct).2.mpr (by decide)

def regroup : Signature :=
  { engineName := "regroup"
    name := "regroup"
    invocation := .function
    args := [⟨"grad", "grad", .tensor, none⟩, ⟨"grad_arg", "grad_arg", .tensor, none⟩]
    returns := [⟨"", "result", .tensor⟩] }

def regroupEntry : FormulaEntry :=
  ⟨"regroup(Tensor grad, Tensor grad_arg)", [⟨"grad_arg", "grad * grad_arg"⟩]⟩

def regroupProcedure : BackwardProcedure :=
  { forward := regroup
    fields := [⟨"grad_arg", "grad_arg", .tensor, none⟩]
    bindings := [⟨"grad_arg_result", "grad * grad_arg"⟩]
    assignments := [⟨"grad_arg", "grad_arg_result", none⟩]
    autogradLines := [("grad_arg", "grad * grad_arg")] }

/-- The procedure has two parameters `grad_arg`. -/
theorem arguments_of_regroup_share_a_parameter :
    regroupEntry.backward (.build [] [regroup]) = .ok (some regroupProcedure) ∧
      (regroup.args.map (·.name)).Nodup ∧
      regroupProcedure.parameterText =
        "grad: Tensor; fwd_result: Tensor; grad_arg: Tensor; grad_arg: Tensor" ∧
      ¬ regroupProcedure.parameterNames.Nodup :=
  ⟨by decide +kernel, by decide, by decide +kernel, by decide⟩

end Sample

end TensorBindings
