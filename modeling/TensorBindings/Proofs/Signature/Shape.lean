import Mathlib.Data.List.Forall2
import TensorBindings.Proofs.Signature.Synthesis

/-!
Contract: the signatures of a declaration follow from the declaration.

Owns: the places that ask for an invocation, the receiver among the arguments of a
declaration, the order of the arguments of a signature, and the text of its engine call.
`Declaration.Synthesizes` says all of this without the functions that make signatures.

A declaration may have several arguments `self`. The receiver is the first of them that is a
tensor. It is the only argument that a method has at another place than the declaration, and
the only one that the call of a method leaves out.

Does not own: the conversion of results.
-/

set_option autoImplicit false

namespace TensorBindings

/-! ### Requests -/

namespace Invocation

/-- The places that ask for an invocation. -/
def places : Invocation → List String
  | .method => ["Tensor", "instance"]
  | .onType => ["Type", "static-type"]
  | .function => ["namespace"]

private theorem ofPlace?_eq_some_iff {place : String} {invocation : Invocation} :
    ofPlace? place = some invocation ↔ place ∈ invocation.places := by
  constructor
  · intro asked
    unfold ofPlace? at asked
    split at asked
    all_goals simp only [Option.some.injEq, reduceCtorEq] at asked
    all_goals
      subst asked
      decide
  · intro listed
    cases invocation with
    | function =>
        obtain rfl := List.mem_singleton.mp listed
        rfl
    | method =>
        rcases List.mem_pair.mp listed with rfl | rfl
        · rfl
        · rfl
    | onType =>
        rcases List.mem_pair.mp listed with rfl | rfl
        · rfl
        · rfl

end Invocation

namespace Declaration

/-- One of the places of the declaration asks for the invocation. -/
def Requests (declaration : Declaration) (invocation : Invocation) : Prop :=
  ∃ place ∈ declaration.methodOf, place ∈ invocation.places

private theorem mem_requested_iff {declaration : Declaration} {invocation : Invocation} :
    invocation ∈ Invocation.requested declaration.methodOf ↔ declaration.Requests invocation := by
  have known : invocation ∈ [Invocation.onType, .method, .function] := by
    cases invocation <;> decide
  unfold Invocation.requested Requests
  rw [List.mem_filter, and_iff_right known, List.any_eq_true]
  refine exists_congr fun place => and_congr_right fun _ => ?_
  rw [beq_iff_eq]
  exact Invocation.ofPlace?_eq_some_iff

end Declaration

/-! ### Receivers -/

/-- Some argument can be the receiver of a method. -/
def HoldsReceiver (declared : List Argument) : Prop :=
  ∃ argument ∈ declared, argument.declaredName = "self" ∧ argument.type = .tensor

/-- The first argument that can be the receiver of a method, with the arguments before and
after it. -/
structure IsReceiverOf
    (declared : List Argument)
    (receiver : Argument)
    (before after : List Argument) : Prop where
  split : declared = before ++ receiver :: after
  isSelf : receiver.declaredName = "self"
  isTensor : receiver.type = .tensor
  isFirst : ∀ argument ∈ before, argument.declaredName = "self" → argument.type ≠ .tensor

private theorem any_isReceiver_iff {declared : List Argument} :
    declared.any Argument.isReceiver = true ↔ HoldsReceiver declared := by
  rw [List.any_eq_true]
  exact exists_congr fun argument => and_congr_right fun _ => Argument.isReceiver_iff

theorem exists_isReceiverOf {declared : List Argument} (holds : HoldsReceiver declared) :
    ∃ receiver before after, IsReceiverOf declared receiver before after := by
  obtain ⟨argument, member, isReceiver⟩ := holds
  have found : (declared.find? Argument.isReceiver).isSome = true :=
    List.find?_isSome.mpr ⟨argument, member, Argument.isReceiver_iff.mpr isReceiver⟩
  obtain ⟨receiver, found⟩ := Option.isSome_iff_exists.mp found
  obtain ⟨isReceiver, before, after, split, none⟩ := List.find?_eq_some_iff_append.mp found
  obtain ⟨isSelf, isTensor⟩ := Argument.isReceiver_iff.mp isReceiver
  refine ⟨receiver, before, after, split, isSelf, isTensor, fun argument inside isSelf isTensor => ?_⟩
  have refused := none argument inside
  rw [Argument.isReceiver_iff.mpr ⟨isSelf, isTensor⟩] at refused
  cases refused

namespace IsReceiverOf

variable {declared before after : List Argument} {receiver : Argument}

theorem isReceiver (isReceiverOf : IsReceiverOf declared receiver before after) :
    receiver.isReceiver = true :=
  Argument.isReceiver_iff.mpr ⟨isReceiverOf.isSelf, isReceiverOf.isTensor⟩

private theorem not_isReceiver (isReceiverOf : IsReceiverOf declared receiver before after) :
    ∀ argument ∈ before, ¬ argument.isReceiver = true := by
  intro argument inside isReceiver
  obtain ⟨isSelf, isTensor⟩ := Argument.isReceiver_iff.mp isReceiver
  exact isReceiverOf.isFirst argument inside isSelf isTensor

/-- A call of a method passes all arguments but the receiver. -/
theorem passedArguments_eq (isReceiverOf : IsReceiverOf declared receiver before after) :
    passedArguments .method declared = before ++ after := by
  show declared.eraseP Argument.isReceiver = before ++ after
  rw [isReceiverOf.split, List.eraseP_append_right _ isReceiverOf.not_isReceiver,
    List.eraseP_cons_of_pos isReceiverOf.isReceiver]

/-- A method has its receiver first and all other arguments in their order. -/
theorem parameters_eq (isReceiverOf : IsReceiverOf declared receiver before after) :
    Declaration.parameters .method declared = receiver :: (before ++ after) := by
  have found : declared.find? Argument.isReceiver = some receiver :=
    List.find?_eq_some_iff_append.mpr
      ⟨isReceiverOf.isReceiver, before, after, isReceiverOf.split,
        fun argument inside => by simpa using isReceiverOf.not_isReceiver argument inside⟩
  have others : declared.eraseP Argument.isReceiver = before ++ after :=
    isReceiverOf.passedArguments_eq
  rw [Declaration.parameters, found, others]
  rfl

theorem perm (isReceiverOf : IsReceiverOf declared receiver before after) :
    (receiver :: (before ++ after)).Perm declared := by
  rw [isReceiverOf.split]
  exact List.perm_middle.symm

end IsReceiverOf

/-! ### Engine calls -/

/-- What is passed to the engine for an argument: of a tensor, the tensor of the engine. -/
def Argument.passedValue (argument : Argument) : String :=
  if argument.type = .tensor then argument.name ++ ".tensor" else argument.name

/-- The text of a call that names an entry point of the engine and passes these arguments. -/
def engineCallText
    (caller entryPoint : String)
    (passed : List Argument)
    (returns : List ReturnField) : String :=
  caller ++ "(" ++
    ", ".intercalate (("\"" ++ entryPoint ++ "\"") :: passed.map Argument.passedValue) ++ ")" ++
    conversionText returns

private theorem Argument.passedText_eq (argument : Argument) :
    argument.passedText = ", " ++ argument.passedValue := by
  unfold passedText passedValue
  cases argument.type <;> simp [TargetType.isTensor, String.append_assoc]

/-- Passed arguments follow the entry point, each after a comma. -/
theorem intercalate_passedValue (first : String) (passed : List Argument) :
    ", ".intercalate (first :: passed.map Argument.passedValue) =
      first ++ String.join (passed.map Argument.passedText) := by
  induction passed generalizing first with
  | nil => simp
  | cons argument rest inductionHypothesis =>
      rw [List.map_cons, List.map_cons, String.intercalate_cons_cons, inductionHypothesis,
        String.join_cons, Argument.passedText_eq]
      simp only [String.append_assoc]

/-! ### Arguments of signatures -/

namespace Signature

/-- The arguments of a signature, and those that its call passes to the engine, for each
invocation. -/
inductive Arranges (signature : Signature) (engineName : String) (declared : List Argument) :
    Prop where
  | onType
      (invoked : signature.invocation = .onType)
      (args : signature.args = declared)
      (calls : signature.callExpr =
        engineCallText "ty.dynamicCppCall" engineName declared signature.returns)
  | function
      (invoked : signature.invocation = .function)
      (args : signature.args = declared)
      (calls : signature.callExpr =
        engineCallText "dynamicCCall" ("at::" ++ engineName) declared signature.returns)
  | method {receiver : Argument} {before after : List Argument}
      (invoked : signature.invocation = .method)
      (isReceiverOf : IsReceiverOf declared receiver before after)
      (args : signature.args = receiver :: (before ++ after))
      (calls : signature.callExpr =
        engineCallText "self.tensor.dynamicCppCall" engineName (before ++ after)
          signature.returns)

theorem Arranges.perm {signature : Signature} {engineName : String} {declared : List Argument}
    (arranges : signature.Arranges engineName declared) : signature.args.Perm declared := by
  cases arranges with
  | onType _ args _ => rw [args]
  | function _ args _ => rw [args]
  | method _ isReceiverOf args _ =>
      rw [args]
      exact isReceiverOf.perm

end Signature

/-! ### Declarations -/

/-- The argument of signatures for a declared argument. -/
structure DeclaredArgument.IsTakenAs (declared : DeclaredArgument) (argument : Argument) :
    Prop where
  declaredName : argument.declaredName = declared.name
  name : argument.name = Identifier.escape declared.name
  type : TargetType.resolveArgument declared.typeTag = .ok argument.type
  default : argument.default? = declared.default?.bind (literal? argument.type)

private theorem DeclaredArgument.isTakenAs_of_resolve {declared : DeclaredArgument}
    {argument : Argument} (resolved : declared.resolve = .ok argument) :
    declared.IsTakenAs argument := by
  obtain ⟨type, known, returned⟩ := bind_eq_ok_iff.mp resolved
  obtain rfl := Except.ok.inj returned
  exact ⟨rfl, rfl, known, rfl⟩

namespace Declaration

theorem isTakenAs_of_resolveArguments {declaration : Declaration} {declared : List Argument}
    (resolved : declaration.resolveArguments = .ok declared) :
    List.Forall₂ DeclaredArgument.IsTakenAs declaration.arguments declared :=
  (mapM_eq_ok_iff.mp resolved).imp fun _ _ => DeclaredArgument.isTakenAs_of_resolve

section Selection

variable {declaration : Declaration} {declared : List Argument}

/-- The invocations of a declaration, by what it asks for. -/
theorem selected_cases :
    declaration.selected declared =
      (if .onType ∈ Invocation.requested declaration.methodOf then [Invocation.onType] else []) ++
        (if .method ∈ Invocation.requested declaration.methodOf ∧
            declared.any Argument.isReceiver then [.method]
        else if .function ∈ Invocation.requested declaration.methodOf then [.function] else []) := by
  unfold selected
  dsimp only
  split
  · rfl
  · split
    · rfl
    · exact (List.append_nil _).symm

private theorem selected_sublist :
    (declaration.selected declared).Sublist [.onType, .method, .function] := by
  rw [selected_cases]
  split_ifs <;> decide

private theorem onType_mem_selected_iff :
    .onType ∈ declaration.selected declared ↔ declaration.Requests .onType := by
  rw [selected_cases, ← mem_requested_iff, List.mem_append]
  by_cases asked : Invocation.onType ∈ Invocation.requested declaration.methodOf
  · simp [asked]
  · rw [if_neg asked]
    split_ifs <;> simp [asked]

theorem method_mem_selected_iff :
    .method ∈ declaration.selected declared ↔
      declaration.Requests .method ∧ HoldsReceiver declared := by
  rw [selected_cases, ← mem_requested_iff, ← any_isReceiver_iff, List.mem_append]
  split_ifs with ofType method <;> simp_all

private theorem function_mem_selected_iff :
    .function ∈ declaration.selected declared ↔
      declaration.Requests .function ∧ .method ∉ declaration.selected declared := by
  rw [method_mem_selected_iff, selected_cases, ← mem_requested_iff, ← mem_requested_iff,
    ← any_isReceiver_iff, List.mem_append]
  split_ifs with ofType method <;> simp_all

/-- The text of every engine call, and the order of the arguments beside it. -/
theorem arranges_signatureFor {display : String} {alias? : Option String}
    {returns : List ReturnField} {invocation : Invocation}
    (selected : invocation ∈ declaration.selected declared) :
    (declaration.signatureFor display alias? declared returns invocation).Arranges
      declaration.name declared := by
  cases invocation with
  | onType =>
      refine .onType rfl rfl ?_
      show engineCall .onType declaration.name declared returns = _
      unfold engineCall engineCallText passedArguments
      rw [intercalate_passedValue]
      simp only [String.append_assoc]
      rfl
  | function =>
      refine .function rfl rfl ?_
      show engineCall .function declaration.name declared returns = _
      unfold engineCall engineCallText passedArguments
      rw [intercalate_passedValue]
      simp only [String.append_assoc]
      rfl
  | method =>
      obtain ⟨receiver, before, after, isReceiverOf⟩ :=
        exists_isReceiverOf (method_mem_selected_iff.mp selected).2
      refine .method rfl isReceiverOf isReceiverOf.parameters_eq ?_
      show engineCall .method declaration.name declared returns = _
      unfold engineCall engineCallText
      rw [intercalate_passedValue, isReceiverOf.passedArguments_eq]
      simp only [String.append_assoc]
      rfl

end Selection

/-- The signatures that a declaration gives and the errors that it reports, where `declared` are
its arguments. -/
structure Synthesizes
    (declaration : Declaration)
    (declared : List Argument)
    (signatures : List Signature)
    (problems : List EntryError) : Prop where
  areTaken : List.Forall₂ DeclaredArgument.IsTakenAs declaration.arguments declared
  /-- No invocation comes twice, and the method of the type comes first. -/
  inOrder : (signatures.map (·.invocation)).Sublist [.onType, .method, .function]
  onType : .onType ∈ signatures.map (·.invocation) ↔ declaration.Requests .onType
  method : .method ∈ signatures.map (·.invocation) ↔
    declaration.Requests .method ∧ HoldsReceiver declared
  function : .function ∈ signatures.map (·.invocation) ↔
    declaration.Requests .function ∧ .method ∉ signatures.map (·.invocation)
  reported : declaration.Requests .method → ¬ HoldsReceiver declared →
    problems = [.missingReceiver declaration.name]
  unreported : ¬ (declaration.Requests .method ∧ ¬ HoldsReceiver declared) → problems = []
  reordered : ∀ signature ∈ signatures, signature.args.Perm declared
  arranged : ∀ signature ∈ signatures, signature.engineName = declaration.name ∧
    signature.Arranges declaration.name declared

/-- The signatures of a declaration have distinct invocations, those that it asks for and that
have a receiver where they need one. Their arguments are the declared ones with the receiver of
a method first, and their engine calls pass each argument once, in declared order, except that
receiver. -/
theorem signatures_follow_declaration {declaration : Declaration} {signatures : List Signature}
    {problems : List EntryError} (paired : declaration.pairing ≠ none)
    (synthesized : declaration.signatures = .ok (signatures, problems)) :
    ∃ declared, declaration.Synthesizes declared signatures problems := by
  obtain ⟨⟨display, alias?⟩, pairing⟩ := Option.ne_none_iff_exists'.mp paired
  obtain ⟨declared, returns, resolved, -, rfl, rfl⟩ := (signatures_eq_ok_iff pairing).mp synthesized
  have invocations : ((declaration.selected declared).map
      (declaration.signatureFor display alias? declared returns)).map (·.invocation) =
      declaration.selected declared := by
    rw [List.map_map]
    exact List.map_id _
  have arranged : ∀ signature ∈ (declaration.selected declared).map
      (declaration.signatureFor display alias? declared returns),
      signature.engineName = declaration.name ∧
        signature.Arranges declaration.name declared := by
    intro signature member
    obtain ⟨invocation, selected, rfl⟩ := List.mem_map.mp member
    exact ⟨rfl, arranges_signatureFor selected⟩
  have asked : .method ∈ Invocation.requested declaration.methodOf ∧
      ¬ declared.any Argument.isReceiver ↔
        declaration.Requests .method ∧ ¬ HoldsReceiver declared :=
    and_congr mem_requested_iff (not_congr any_isReceiver_iff)
  exact ⟨declared, {
    areTaken := isTakenAs_of_resolveArguments resolved
    inOrder := by rw [invocations]; exact selected_sublist
    onType := by rw [invocations]; exact onType_mem_selected_iff
    method := by rw [invocations]; exact method_mem_selected_iff
    function := by rw [invocations]; exact function_mem_selected_iff
    reported := fun requested missing => if_pos (asked.mpr ⟨requested, missing⟩)
    unreported := fun complete => if_neg (complete ∘ asked.mp)
    reordered := fun signature member => (arranged signature member).2.perm
    arranged }⟩

end Declaration

/-! ### A declaration with several arguments `self`

The first of them is no tensor, and there is a tensor before the receiver. -/

namespace Sample

def blend : Declaration :=
  { name := "blend_"
    methodOf := ["namespace", "Type", "instance", "Type"]
    arguments := [⟨"self", "int64_t", none⟩, ⟨"end", "IndexTensor", none⟩,
      ⟨"self", "Tensor", none⟩, ⟨"self", "BoolTensor", none⟩]
    returns := [⟨"result", "Tensor"⟩] }

def blendOnType : Signature :=
  { engineName := "blend_"
    name := "blend_u"
    invocation := .onType
    args := [⟨"self", "self", .int64, none⟩, ⟨"aend", "end", .tensor, none⟩,
      ⟨"self", "self", .tensor, none⟩, ⟨"self", "self", .tensor, none⟩]
    returns := [⟨"", "result", .tensor⟩]
    callExpr := "ty.dynamicCppCall(\"blend_\", self, aend.tensor, self.tensor, self.tensor)" ++
      ".to(ATensor).newTensor()" }

def blendMethod : Signature :=
  { blendOnType with
    invocation := .method
    args := [⟨"self", "self", .tensor, none⟩, ⟨"self", "self", .int64, none⟩,
      ⟨"aend", "end", .tensor, none⟩, ⟨"self", "self", .tensor, none⟩]
    callExpr := "self.tensor.dynamicCppCall(\"blend_\", self, aend.tensor, self.tensor)" ++
      ".to(ATensor).newTensor()" }

theorem signatures_of_blend :
    blend.pairing ≠ none ∧
      blend.signatures = .ok ([blendOnType, blendMethod], []) ∧
      ∃ declared, blend.Synthesizes declared [blendOnType, blendMethod] [] := by
  have paired : blend.pairing ≠ none := by decide
  have synthesized : blend.signatures = .ok ([blendOnType, blendMethod], []) := by
    decide +kernel
  exact ⟨paired, synthesized, Declaration.signatures_follow_declaration paired synthesized⟩

end Sample

end TensorBindings
