import Mathlib.Data.List.Nodup
import TensorBindings.Proofs.Identifier
import TensorBindings.Proofs.Signature.Shape

/-!
Contract: the names that a forward binding declares.

Owns: the parameters of a binding by name, the fields of its result, and when the names of a
declaration stay apart in them.

Names are made one at a time and compared with no other name. Parameters meet if two arguments
have one identifier, or if an argument is named as the receiver of a method of the tensor type.
Fields meet if two results have one identifier after the mark of a gradient is taken from them.

Does not own: which names have one identifier (`Proofs.Identifier`).
-/

set_option autoImplicit false

namespace TensorBindings

open TensorBindings.Text

/-! ### Parameters -/

namespace Signature

/-- The receiver of a method of the tensor type, as a parameter. -/
def typeReceiverName : String := "ty"

/-- The parameters that a binding has besides its arguments. -/
def receiverNames (signature : Signature) : List String :=
  match signature.invocation with
  | .onType => [typeReceiverName]
  | _ => []

/-- The names of the parameters of a binding. -/
def parameterNames (signature : Signature) : List String :=
  signature.receiverNames ++ signature.args.map (·.name)

/-- The text declares a parameter of this name. -/
def Declares (name text : String) : Prop := ∃ type, text = name ++ ": " ++ type

/-- A parameter list of these texts. Only the tensor type as a receiver ends with a
semicolon. -/
def parameterList : Invocation → List String → String
  | .onType, receiver :: first :: others =>
      receiver ++ "; " ++ ", ".intercalate (first :: others)
  | _, texts => ", ".intercalate texts

private theorem declares_text (argument : Argument) : Declares argument.name argument.text := by
  unfold Argument.text Argument.bareText
  cases argument.default? with
  | none => exact ⟨_, rfl⟩
  | some value => exact ⟨argument.type.spelling ++ " = " ++ value, by simp [String.append_assoc]⟩

/-- The parameter text of a binding declares its parameters in order. -/
theorem exists_parameterList (signature : Signature) :
    ∃ texts, List.Forall₂ Declares signature.parameterNames texts ∧
      signature.parameterText = parameterList signature.invocation texts := by
  have ofArgs : List.Forall₂ Declares (signature.args.map (·.name))
      (signature.args.map Argument.text) := by
    rw [List.forall₂_map_left_iff, List.forall₂_map_right_iff, List.forall₂_same]
    exact fun argument _ => declares_text argument
  unfold parameterNames receiverNames parameterText
  cases signature.invocation with
  | method => exact ⟨_, ofArgs, rfl⟩
  | function => exact ⟨_, ofArgs, rfl⟩
  | onType =>
      refine ⟨"ty: TensorType" :: signature.args.map Argument.text,
        .cons ⟨"TensorType", rfl⟩ ofArgs, ?_⟩
      cases signature.args with
      | nil => rfl
      | cons argument others =>
          have nonempty : ", ".intercalate ((argument :: others).map Argument.text) ≠ "" := by
            obtain ⟨type, text⟩ := declares_text argument
            rw [List.map_cons, text, String.append_assoc, String.intercalate_cons_append,
              String.intercalate_cons_append]
            simp
          exact if_neg nonempty

end Signature

/-! ### Names of declarations -/

namespace DeclaredReturn

/-- A result without the mark of a gradient keeps its name. -/
theorem fieldName_eq_self {name : String} (unmarked : startsWith "grad_" name = false) :
    fieldName name = name := by
  have notInput : name ≠ "grad_input" := by
    rintro rfl
    exact absurd unmarked (by decide)
  rw [fieldName, if_neg notInput, dropStart?, if_neg (Bool.not_eq_true _ ▸ unmarked)]
  rfl

private theorem name_of_resolveField {result : DeclaredReturn} {field : ReturnField}
    (resolved : result.resolveField = .ok field) :
    field.name = Identifier.escape (fieldName result.name) := by
  obtain ⟨type, -, returned⟩ := bind_eq_ok_iff.mp resolved
  obtain rfl := Except.ok.inj returned
  rfl

end DeclaredReturn

namespace Declaration

def argumentNames (declaration : Declaration) : List String :=
  declaration.arguments.map (·.name)

def returnNames (declaration : Declaration) : List String :=
  declaration.returns.map (·.name)

section Signatures

variable {declaration : Declaration} {signatures : List Signature} {problems : List EntryError}

/-- Every signature of a declaration has its arguments, perhaps in another order, and its
results. -/
theorem exists_resolved_of_mem_signatures
    (synthesized : declaration.signatures = .ok (signatures, problems))
    {signature : Signature} (member : signature ∈ signatures) :
    ∃ declared, declaration.resolveArguments = .ok declared ∧
      declaration.resolveReturns = .ok signature.returns ∧ signature.args.Perm declared := by
  cases pairing : declaration.pairing with
  | none =>
      rw [Declaration.signatures, pairing] at synthesized
      cases synthesized
      cases member
  | some pair =>
      obtain ⟨display, alias?⟩ := pair
      obtain ⟨declared, returns, resolved, shaped, rfl, -⟩ :=
        (signatures_eq_ok_iff pairing).mp synthesized
      obtain ⟨invocation, selected, rfl⟩ := List.mem_map.mp member
      exact ⟨declared, resolved, shaped, (arranges_signatureFor selected).perm⟩

/-- The arguments of a signature are the identifiers of the declared ones. -/
theorem name_args_perm (synthesized : declaration.signatures = .ok (signatures, problems))
    {signature : Signature} (member : signature ∈ signatures) :
    (signature.args.map (·.name)).Perm (declaration.argumentNames.map Identifier.escape) := by
  obtain ⟨declared, resolved, -, perm⟩ := exists_resolved_of_mem_signatures synthesized member
  have escaped : List.Forall₂ (· = ·) (declared.map (·.name))
      (declaration.argumentNames.map Identifier.escape) := by
    rw [argumentNames, List.map_map, List.forall₂_map_left_iff, List.forall₂_map_right_iff]
    exact ((isTakenAs_of_resolveArguments resolved).imp fun _ _ taken => taken.name).flip
  rw [List.forall₂_eq_eq_eq] at escaped
  rw [← escaped]
  exact perm.map _

/-- The fields of a tuple are the identifiers of the declared results, without the marks of
gradients. -/
theorem name_returns (synthesized : declaration.signatures = .ok (signatures, problems))
    {signature : Signature} (member : signature ∈ signatures)
    (tuple : signature.returnsTuple = true) :
    signature.returns.map (·.name) =
      declaration.returnNames.map fun name =>
        Identifier.escape (DeclaredReturn.fieldName name) := by
  obtain ⟨_, -, shaped, -⟩ := exists_resolved_of_mem_signatures synthesized member
  unfold resolveReturns at shaped
  split at shaped
  · cases shaped
  · obtain ⟨field, -, returned⟩ := bind_eq_ok_iff.mp shaped
    rw [Signature.returnsTuple, ← Except.ok.inj returned] at tuple
    cases tuple
  · have escaped : List.Forall₂ (· = ·) (signature.returns.map (·.name))
        (declaration.returnNames.map fun name =>
          Identifier.escape (DeclaredReturn.fieldName name)) := by
      rw [returnNames, List.map_map, List.forall₂_map_left_iff, List.forall₂_map_right_iff]
      exact ((mapM_eq_ok_iff.mp shaped).imp fun _ _ => DeclaredReturn.name_of_resolveField).flip
    rwa [List.forall₂_eq_eq_eq] at escaped

/-- No argument but one of that name takes the name of the receiver. -/
theorem typeReceiverName_mem_args_iff
    (synthesized : declaration.signatures = .ok (signatures, problems))
    {signature : Signature} (member : signature ∈ signatures) :
    Signature.typeReceiverName ∈ signature.args.map (·.name) ↔
      Signature.typeReceiverName ∈ declaration.argumentNames := by
  rw [(name_args_perm synthesized member).mem_iff, List.mem_map]
  have ownIdentifier (name : String) :
      Identifier.escape name = Signature.typeReceiverName ↔ name = Signature.typeReceiverName :=
    Identifier.escape_eq_iff (by decide) (by decide) (by decide)
  simp only [ownIdentifier, exists_eq_right]

end Signatures

/-- When the names of a declaration stay apart in one of its bindings. -/
structure StaysApart (declaration : Declaration) (signature : Signature) : Prop where
  /-- The binding declares the parameters by their names, in order. -/
  declares : ∃ texts, List.Forall₂ Signature.Declares signature.parameterNames texts ∧
    signature.parameterText = Signature.parameterList signature.invocation texts
  /-- Parameters are distinct exactly if no two arguments have one identifier and none is named
  as the receiver. -/
  parameters : signature.parameterNames.Nodup ↔
    (∀ left ∈ declaration.argumentNames, ∀ right ∈ declaration.argumentNames,
      Identifier.escape left = Identifier.escape right → left = right) ∧
    (signature.invocation = .onType → Signature.typeReceiverName ∉ declaration.argumentNames)
  /-- So they are if no argument looks escaped or is named as the receiver. -/
  plainParameters : (∀ name ∈ declaration.argumentNames, ¬ Identifier.LooksEscaped name) →
    (signature.invocation = .onType → Signature.typeReceiverName ∉ declaration.argumentNames) →
    signature.parameterNames.Nodup
  /-- Fields of a tuple are distinct exactly if no two results have one identifier without the
  mark of a gradient. -/
  fields : signature.returnsTuple = true →
    ((signature.returns.map (·.name)).Nodup ↔
      ∀ left ∈ declaration.returnNames, ∀ right ∈ declaration.returnNames,
        Identifier.escape (DeclaredReturn.fieldName left) =
          Identifier.escape (DeclaredReturn.fieldName right) → left = right)
  /-- So they are if no result is marked as a gradient or looks escaped. -/
  plainFields : signature.returnsTuple = true →
    (∀ name ∈ declaration.returnNames,
      startsWith "grad_" name = false ∧ ¬ Identifier.LooksEscaped name) →
    (signature.returns.map (·.name)).Nodup

/-- Declared names that are distinct stay distinct in every binding, unless they share an
identifier. That happens only to names that look escaped, to an argument that is named as the
receiver, and to results of which one is marked as a gradient. -/
theorem distinct_names_stay_apart_unless_spelled_alike
    {declaration : Declaration} {signatures : List Signature} {problems : List EntryError}
    (synthesized : declaration.signatures = .ok (signatures, problems))
    (distinctArguments : declaration.argumentNames.Nodup)
    (distinctReturns : declaration.returnNames.Nodup) :
    ∀ signature ∈ signatures, declaration.StaysApart signature := by
  intro signature member
  have ofArgs : (signature.args.map (·.name)).Nodup ↔
      ∀ left ∈ declaration.argumentNames, ∀ right ∈ declaration.argumentNames,
        Identifier.escape left = Identifier.escape right → left = right := by
    rw [(name_args_perm synthesized member).nodup_iff]
    exact List.nodup_map_iff_inj_on distinctArguments
  have ofReceiver := typeReceiverName_mem_args_iff synthesized member
  have parameters : signature.parameterNames.Nodup ↔
      (∀ left ∈ declaration.argumentNames, ∀ right ∈ declaration.argumentNames,
        Identifier.escape left = Identifier.escape right → left = right) ∧
      (signature.invocation = .onType →
        Signature.typeReceiverName ∉ declaration.argumentNames) := by
    rw [← ofArgs, ← ofReceiver, Signature.parameterNames, Signature.receiverNames]
    cases signature.invocation with
    | onType => simp [List.nodup_cons, and_comm]
    | method => simp
    | function => simp
  have fields (tuple : signature.returnsTuple = true) :
      (signature.returns.map (·.name)).Nodup ↔
        ∀ left ∈ declaration.returnNames, ∀ right ∈ declaration.returnNames,
          Identifier.escape (DeclaredReturn.fieldName left) =
            Identifier.escape (DeclaredReturn.fieldName right) → left = right := by
    rw [name_returns synthesized member tuple]
    exact List.nodup_map_iff_inj_on distinctReturns
  refine {
    declares := signature.exists_parameterList
    parameters
    plainParameters := fun plain unreceived => parameters.mpr ⟨?_, unreceived⟩
    fields
    plainFields := fun tuple plain => (fields tuple).mpr ?_ }
  · intro left leftMember right rightMember same
    exact Identifier.eq_of_escape_eq (plain left leftMember) (plain right rightMember) same
  · intro left leftMember right rightMember same
    obtain ⟨leftUnmarked, leftPlain⟩ := plain left leftMember
    obtain ⟨rightUnmarked, rightPlain⟩ := plain right rightMember
    rw [DeclaredReturn.fieldName_eq_self leftUnmarked,
      DeclaredReturn.fieldName_eq_self rightUnmarked] at same
    exact Identifier.eq_of_escape_eq leftPlain rightPlain same

end Declaration

/-! ### Two declarations

All names of the first have to change, and they stay apart. Of the second, one argument is named
as the identifier of the other. -/

namespace Sample

def spread : Declaration :=
  { name := "spread"
    methodOf := ["Type", "Tensor"]
    arguments := [⟨"_x", "Tensor", none⟩, ⟨"self", "Tensor", none⟩, ⟨"end", "int64_t", none⟩,
      ⟨"pad__", "IntList", none⟩]
    returns := [⟨"to", "Tensor"⟩, ⟨"__mask", "Tensor"⟩] }

def spreadOnType : Signature :=
  { engineName := "spread"
    name := "spread"
    invocation := .onType
    args := [⟨"u_x", "_x", .tensor, none⟩, ⟨"self", "self", .tensor, none⟩,
      ⟨"aend", "end", .int64, none⟩, ⟨"pad_u_uu", "pad__", .intList, none⟩]
    returns := [⟨"ato", "to", .tensor⟩, ⟨"u_u_umask", "__mask", .tensor⟩]
    callExpr := "ty.dynamicCppCall(\"spread\", u_x.tensor, self.tensor, aend, pad_u_uu)" ++
      ".to(StdTuple2[ATensor, ATensor]).toNimTuple().newTensors()" }

def spreadMethod : Signature :=
  { spreadOnType with
    invocation := .method
    args := [⟨"self", "self", .tensor, none⟩, ⟨"u_x", "_x", .tensor, none⟩,
      ⟨"aend", "end", .int64, none⟩, ⟨"pad_u_uu", "pad__", .intList, none⟩]
    callExpr := "self.tensor.dynamicCppCall(\"spread\", u_x.tensor, aend, pad_u_uu)" ++
      ".to(StdTuple2[ATensor, ATensor]).toNimTuple().newTensors()" }

theorem names_of_spread_stay_apart :
    spread.signatures = .ok ([spreadOnType, spreadMethod], []) ∧
      ∀ signature ∈ [spreadOnType, spreadMethod],
        signature.parameterNames.Nodup ∧ (signature.returns.map (·.name)).Nodup := by
  have synthesized : spread.signatures = .ok ([spreadOnType, spreadMethod], []) := by
    decide +kernel
  refine ⟨synthesized, fun signature member => ?_⟩
  have apart := Declaration.distinct_names_stay_apart_unless_spelled_alike synthesized
    (by decide) (by decide) signature member
  have tuple : ∀ signature ∈ [spreadOnType, spreadMethod], signature.returnsTuple = true := by
    decide
  exact ⟨apart.plainParameters (by decide +kernel) fun _ => by decide,
    apart.plainFields (tuple signature member) (by decide +kernel)⟩

def smear : Declaration :=
  { name := "smear"
    methodOf := ["namespace"]
    arguments := [⟨"_x", "Tensor", none⟩, ⟨"u_x", "Tensor", none⟩]
    returns := [⟨"result", "Tensor"⟩] }

def smearFunction : Signature :=
  { engineName := "smear"
    name := "smear"
    invocation := .function
    args := [⟨"u_x", "_x", .tensor, none⟩, ⟨"u_x", "u_x", .tensor, none⟩]
    returns := [⟨"", "result", .tensor⟩]
    callExpr := "dynamicCCall(\"at::smear\", u_x.tensor, u_x.tensor).to(ATensor).newTensor()" }

/-- The binding has two parameters `u_x`. -/
theorem arguments_of_smear_share_a_parameter :
    smear.argumentNames.Nodup ∧ smear.returnNames.Nodup ∧
      smear.signatures = .ok ([smearFunction], []) ∧
      smearFunction.parameterText = "u_x: Tensor, u_x: Tensor" ∧
      ¬ smearFunction.parameterNames.Nodup := by
  refine ⟨by decide, by decide, by decide +kernel, by decide +kernel, by decide⟩

end Sample

end TensorBindings
