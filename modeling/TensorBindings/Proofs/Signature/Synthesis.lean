import TensorBindings.Proofs.Backward.Acceptance
import TensorBindings.Signature.Synthesis

/-!
Contract: what declarations contribute.

Owns: the parts of a contributed signature that later stages rely on, the receiver of a
contributed method, and the place that every diagnostic of a declaration names.

Does not own: the texts of calls and parameters.
-/

set_option autoImplicit false

namespace TensorBindings

theorem Argument.isReceiver_iff {argument : Argument} :
    argument.isReceiver = true ↔ argument.declaredName = "self" ∧ argument.type = .tensor := by
  unfold isReceiver
  rw [Bool.and_eq_true, beq_iff_eq]
  cases argument.type <;> simp [TargetType.isTensor]

/-- The first argument is a tensor that is declared as `self`. -/
def Signature.HasReceiver (signature : Signature) : Prop :=
  ∃ receiver others, signature.args = receiver :: others ∧
    receiver.declaredName = "self" ∧ receiver.type = .tensor

namespace Declaration

/-- A method is selected only if some argument can be its receiver. -/
theorem any_isReceiver_of_selected {declaration : Declaration} {declared : List Argument}
    (selected : Invocation.method ∈ declaration.selected declared) :
    declared.any Argument.isReceiver = true := by
  unfold Declaration.selected at selected
  dsimp only at selected
  split at selected
  · next asked => exact asked.2
  · split at selected <;> split at selected <;> simp at selected

/-- The receiver comes first in the parameters of a method. -/
theorem exists_parameters_of_receiver {declared : List Argument}
    (found : declared.any Argument.isReceiver = true) :
    ∃ receiver others, parameters .method declared = receiver :: others ∧
      receiver.isReceiver = true := by
  obtain ⟨argument, member, isReceiver⟩ := List.any_eq_true.mp found
  have isFound : (declared.find? Argument.isReceiver).isSome = true :=
    List.find?_isSome.mpr ⟨argument, member, isReceiver⟩
  obtain ⟨receiver, first⟩ := Option.isSome_iff_exists.mp isFound
  refine ⟨receiver, declared.eraseP Argument.isReceiver, ?_, List.find?_some first⟩
  rw [parameters, first]
  rfl

/-- The signature that a declaration gives for an invocation. -/
def signatureFor
    (declaration : Declaration)
    (display : String)
    (alias? : Option String)
    (declared : List Argument)
    (returns : List ReturnField)
    (invocation : Invocation) : Signature :=
  { engineName := declaration.name
    name := Identifier.escape display
    invocation
    args := parameters invocation declared
    returns
    alias?
    callExpr := engineCall invocation declaration.name declared returns }

/-- A declaration that counts gives its signatures exactly if its arguments and results have
types. -/
theorem signatures_eq_ok_iff {declaration : Declaration} {display : String}
    {alias? : Option String} (paired : declaration.pairing = some (display, alias?))
    {signatures : List Signature} {problems : List EntryError} :
    declaration.signatures = .ok (signatures, problems) ↔
      ∃ declared returns,
        declaration.resolveArguments = .ok declared ∧
        declaration.resolveReturns = .ok returns ∧
        signatures = (declaration.selected declared).map
          (declaration.signatureFor display alias? declared returns) ∧
        problems = declaration.receiverProblems declared := by
  unfold Declaration.signatures
  rw [paired]
  simp only [bind_eq_ok_iff]
  constructor
  · rintro ⟨declared, resolved, returns, shaped, returned⟩
    cases returned
    exact ⟨declared, returns, resolved, shaped, rfl, rfl⟩
  · rintro ⟨declared, returns, resolved, shaped, rfl, rfl⟩
    exact ⟨declared, resolved, returns, shaped, rfl⟩

/-- Every contributed signature is that of a selected invocation. -/
theorem exists_signatureFor_of_mem_contribution {skipInplace : Bool} {declaration : Declaration}
    {signature : Signature} (member : signature ∈ (declaration.contribution skipInplace).1) :
    ∃ display alias? declared returns, ∃ invocation ∈ declaration.selected declared,
      declaration.resolveArguments = .ok declared ∧
      signature = declaration.signatureFor display alias? declared returns invocation := by
  unfold contribution at member
  dsimp only at member
  split at member
  · cases member
  · split at member
    · next signatures problems synthesized =>
        cases pairing : declaration.pairing with
        | none =>
            rw [Declaration.signatures, pairing] at synthesized
            cases synthesized
            cases member
        | some pair =>
            obtain ⟨display, alias?⟩ := pair
            obtain ⟨declared, returns, resolved, _, rfl, _⟩ :=
              (signatures_eq_ok_iff pairing).mp synthesized
            obtain ⟨invocation, selected, rfl⟩ := List.mem_map.mp member
            exact ⟨display, alias?, declared, returns, invocation, selected, resolved, rfl⟩
    · cases member

/-- Every contributed signature is made for a selected invocation, with the parameters of that
invocation, and is no helper. -/
theorem exists_selected_of_mem_contribution {skipInplace : Bool} {declaration : Declaration}
    {signature : Signature} (member : signature ∈ (declaration.contribution skipInplace).1) :
    ∃ declared, declaration.resolveArguments = .ok declared ∧
      signature.invocation ∈ declaration.selected declared ∧
      signature.args = parameters signature.invocation declared ∧
      signature.isHelper = false := by
  obtain ⟨_, _, declared, _, invocation, selected, resolved, rfl⟩ :=
    exists_signatureFor_of_mem_contribution member
  exact ⟨declared, resolved, selected, rfl, rfl⟩

/-- Every contributed signature calls the engine by the name of its declaration. -/
theorem engineName_of_mem_contribution {skipInplace : Bool} {declaration : Declaration}
    {signature : Signature} (member : signature ∈ (declaration.contribution skipInplace).1) :
    signature.engineName = declaration.name := by
  obtain ⟨_, _, _, _, _, _, _, rfl⟩ := exists_signatureFor_of_mem_contribution member
  rfl

/-- Every contributed method has its receiver. -/
theorem hasReceiver_of_mem_contribution {skipInplace : Bool} {declaration : Declaration}
    {signature : Signature} (member : signature ∈ (declaration.contribution skipInplace).1)
    (isMethod : signature.invocation = .method) : signature.HasReceiver := by
  obtain ⟨declared, _, selected, ofParameters, _⟩ := exists_selected_of_mem_contribution member
  rw [isMethod] at selected ofParameters
  obtain ⟨receiver, others, split, isReceiver⟩ :=
    exists_parameters_of_receiver (any_isReceiver_of_selected selected)
  exact ⟨receiver, others, ofParameters.trans split, Argument.isReceiver_iff.mp isReceiver⟩

/-- Every diagnostic of a declaration carries its name and its table. -/
theorem place_of_mem_contribution {skipInplace : Bool} {declaration : Declaration}
    {diagnostic : Diagnostic} (member : diagnostic ∈ (declaration.contribution skipInplace).2) :
    diagnostic.phase = some Table.declarations.label ∧
      diagnostic.entry = some declaration.name := by
  unfold contribution at member
  dsimp only at member
  split at member
  · cases member
  · split at member
    · obtain ⟨problem, _, rfl⟩ := List.mem_map.mp member
      exact ⟨rfl, rfl⟩
    · obtain rfl := List.mem_singleton.mp member
      exact ⟨rfl, rfl⟩

end Declaration

end TensorBindings
