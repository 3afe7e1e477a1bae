import TensorBindings.Overload
import TensorBindings.Proofs.Registry
import TensorBindings.Proofs.Signature.Shape

/-!
Contract: which declarations a header finds.

Owns: the overloads that a table has of a name, what a header with known types resolves to, and
when a header that is written from a declaration finds a signature.

A header lists types in the order of a declaration, and a signature is compared in the order of
its own arguments. The two orders differ for a method only, and only by the place of its
receiver. So a header in declared order can miss a method whose receiver stands behind an
argument of another type, as soon as the name has several signatures.

Does not own: how headers are read (`Header.Reader`).
-/

set_option autoImplicit false

namespace TensorBindings

namespace Registry

/-- A header whose types are known, and whose name is declared, comes to one of two ends. It finds
a signature, which is the only one with the name or takes the types. Or there are several, and
none of them takes the types. -/
theorem resolve_cases {registry : Registry} {header : Header} {types : List TargetType}
    {declared : List Signature}
    (typed : header.typeTags.mapM TargetType.resolveArgument = .ok types)
    (isDeclared : registry.declared header.name = declared) (nonempty : declared ≠ []) :
    (∃ signature ∈ declared, registry.resolve header = .ok signature ∧
      (declared.length = 1 ∨ signature.args.map (·.type) = types)) ∨
    (registry.resolve header =
        .error (.noMatchingOverload declared.length header.name header.typeTags) ∧
      declared.length ≠ 1 ∧ ∀ signature ∈ declared, signature.args.map (·.type) ≠ types) := by
  subst isDeclared
  unfold resolve
  split
  · next none => exact absurd none nonempty
  · next only single =>
      rw [single]
      exact Or.inl ⟨only, List.mem_singleton_self only, rfl, Or.inl rfl⟩
  · next notNone notSingle =>
      have notOne : (registry.declared header.name).length ≠ 1 := by
        intro one
        obtain ⟨only, single⟩ := List.length_eq_one_iff.mp one
        exact notSingle only single
      rw [typed]
      cases chosen : (registry.declared header.name).find? (·.takes types) with
      | some signature =>
          have takes := List.find?_some chosen
          refine Or.inl ⟨signature, List.mem_of_find?_eq_some chosen, ?_,
            Or.inr (beq_iff_eq.mp takes)⟩
          simp only [bind, Except.bind, chosen]
          rfl
      | none =>
          refine Or.inr ⟨?_, notOne, fun signature member same => ?_⟩
          · simp only [bind, Except.bind, chosen]
          · exact List.find?_eq_none.mp chosen signature member (beq_iff_eq.mpr same)

end Registry

namespace Declaration

/-- The signatures that a table gives for an engine name. -/
def overloads (skipInplace : Bool) (declarations : List Declaration) (name : String) :
    List Signature :=
  (ingest skipInplace declarations).1.filter (·.engineName == name)

section Table

variable {skipInplace : Bool} {declarations : List Declaration} {declaration : Declaration}

private theorem mem_overloads_of_mem_contribution (listed : declaration ∈ declarations)
    {signature : Signature} (member : signature ∈ (declaration.contribution skipInplace).1) :
    signature ∈ overloads skipInplace declarations declaration.name :=
  List.mem_filter.mpr
    ⟨List.mem_flatMap.mpr ⟨declaration, listed, member⟩,
      beq_iff_eq.mpr (engineName_of_mem_contribution member)⟩

/-- A registry of helpers and of the signatures of a table declares the overloads of the table
under every name that has one. -/
theorem declared_build {helpers : List Signature}
    (areHelpers : ∀ helper ∈ helpers, helper.isHelper = true) {name : String}
    (overloaded : overloads skipInplace declarations name ≠ []) :
    (Registry.build helpers (ingest skipInplace declarations).1).declared name =
      overloads skipInplace declarations name := by
  have ofHelpers : helpers.filter (fun signature =>
      !signature.isHelper && signature.engineName == name) = [] := by
    rw [List.filter_eq_nil_iff]
    intro helper member
    simp [areHelpers helper member]
  have ofTable : (ingest skipInplace declarations).1.filter (fun signature =>
      !signature.isHelper && signature.engineName == name) =
        overloads skipInplace declarations name := by
    refine List.filter_congr fun signature member => ?_
    obtain ⟨declaration, _, contributed⟩ := List.mem_flatMap.mp member
    obtain ⟨_, _, _, _, noHelper⟩ := exists_selected_of_mem_contribution contributed
    simp [noHelper]
  rw [(Registry.reachable_build _ _).indexed.declared_eq, Registry.entries_build]
  unfold Registry.declaredAmong
  simp only [List.filter_append, ofHelpers, ofTable, List.nil_append]
  rw [if_neg (by simpa using overloaded)]

end Table

/-! ### Types in declared order -/

private theorem mapM_typeTags {declaration : Declaration} {declared : List Argument}
    (areTaken : List.Forall₂ DeclaredArgument.IsTakenAs declaration.arguments declared) :
    (declaration.arguments.map (·.typeTag)).mapM TargetType.resolveArgument =
      .ok (declared.map (·.type)) := by
  rw [mapM_eq_ok_iff, List.forall₂_map_left_iff, List.forall₂_map_right_iff]
  exact areTaken.imp fun _ _ isTaken => isTaken.type

/-- Moving the receiver past tensors changes no type. -/
theorem types_of_receiver_first {declared before after : List Argument} {receiver : Argument}
    (isReceiverOf : IsReceiverOf declared receiver before after)
    (areTensors : ∀ argument ∈ before, argument.type = .tensor) :
    (receiver :: (before ++ after)).map (·.type) = declared.map (·.type) := by
  have ofBefore : before.map (·.type) = List.replicate before.length TargetType.tensor := by
    rw [List.eq_replicate_iff, List.length_map]
    refine ⟨rfl, fun type member => ?_⟩
    obtain ⟨argument, inside, rfl⟩ := List.mem_map.mp member
    exact areTensors argument inside
  rw [isReceiverOf.split, List.map_cons, List.map_append, List.map_append, List.map_cons, ofBefore,
    isReceiverOf.isTensor, ← List.cons_append, ← List.replicate_succ, List.replicate_succ',
    List.append_assoc, List.singleton_append]

/-- All signatures of the declaration are methods, and the receiver stands behind an argument of
another type. -/
def MovesReceiver (skipInplace : Bool) (declaration : Declaration) : Prop :=
  (∀ signature ∈ (declaration.contribution skipInplace).1, signature.invocation = .method) ∧
    ∃ declared receiver before after,
      List.Forall₂ DeclaredArgument.IsTakenAs declaration.arguments declared ∧
      IsReceiverOf declared receiver before after ∧
      ∃ argument ∈ before, argument.type ≠ .tensor

/-- If the receiver is not moved past another type, some signature of the declaration takes the
types in declared order. -/
theorem exists_takes_declared {skipInplace : Bool} {declaration : Declaration}
    (contributes : (declaration.contribution skipInplace).1 ≠ [])
    (kept : ¬ declaration.MovesReceiver skipInplace) {declared : List Argument}
    (resolved : declaration.resolveArguments = .ok declared) :
    ∃ signature ∈ (declaration.contribution skipInplace).1,
      signature.args.map (·.type) = declared.map (·.type) := by
  have ofContributed {signature : Signature}
      (member : signature ∈ (declaration.contribution skipInplace).1) :
      signature.invocation ∈ declaration.selected declared ∧
        signature.args = parameters signature.invocation declared := by
    obtain ⟨others, alsoResolved, selected, args, _⟩ := exists_selected_of_mem_contribution member
    cases resolved.symm.trans alsoResolved
    exact ⟨selected, args⟩
  by_cases methodsOnly : ∀ signature ∈ (declaration.contribution skipInplace).1,
      signature.invocation = .method
  · obtain ⟨signature, member⟩ := List.exists_mem_of_ne_nil _ contributes
    obtain ⟨selected, args⟩ := ofContributed member
    rw [methodsOnly signature member] at selected args
    obtain ⟨receiver, before, after, isReceiverOf⟩ :=
      exists_isReceiverOf (method_mem_selected_iff.mp selected).2
    have areTensors : ∀ argument ∈ before, argument.type = .tensor := by
      intro argument inside
      by_contra otherType
      exact kept ⟨methodsOnly, declared, receiver, before, after,
        isTakenAs_of_resolveArguments resolved, isReceiverOf, argument, inside, otherType⟩
    refine ⟨signature, member, ?_⟩
    rw [args, isReceiverOf.parameters_eq]
    exact types_of_receiver_first isReceiverOf areTensors
  · push Not at methodsOnly
    obtain ⟨signature, member, noMethod⟩ := methodsOnly
    refine ⟨signature, member, ?_⟩
    rw [(ofContributed member).2]
    cases invocation : signature.invocation with
    | method => exact absurd invocation noMethod
    | onType => rfl
    | function => rfl

/-- A header with the name and the types of a declaration, in declared order, finds a signature
exactly if it is the only one with the name, or one with the name takes these types. It always
finds one unless the declaration gives methods only, with the receiver moved past another type,
and the only error is that no overload matches. A header in the order of one of the signatures
always finds one. -/
theorem declared_header_finds_signature
    {skipInplace : Bool} {helpers : List Signature} {declarations : List Declaration}
    {registry : Registry} {declaration : Declaration} {header : Header}
    (built : registry = .build helpers (ingest skipInplace declarations).1)
    (areHelpers : ∀ helper ∈ helpers, helper.isHelper = true)
    (listed : declaration ∈ declarations)
    (contributes : (declaration.contribution skipInplace).1 ≠ [])
    (named : header.name = declaration.name)
    (typed : header.typeTags = declaration.arguments.map (·.typeTag)) :
    ∃ declared,
      List.Forall₂ DeclaredArgument.IsTakenAs declaration.arguments declared ∧
      ((∃ signature ∈ overloads skipInplace declarations declaration.name,
          registry.resolve header = .ok signature) ↔
        (overloads skipInplace declarations declaration.name).length = 1 ∨
        ∃ signature ∈ overloads skipInplace declarations declaration.name,
          signature.args.map (·.type) = declared.map (·.type)) ∧
      (¬ declaration.MovesReceiver skipInplace →
        ∃ signature ∈ overloads skipInplace declarations declaration.name,
          registry.resolve header = .ok signature) ∧
      (∀ error, registry.resolve header = .error error →
        error = .noMatchingOverload
          (overloads skipInplace declarations declaration.name).length
          declaration.name header.typeTags) ∧
      ∀ signature ∈ (declaration.contribution skipInplace).1, ∀ other : Header,
        other.name = declaration.name →
        other.typeTags.mapM TargetType.resolveArgument = .ok (signature.args.map (·.type)) →
        ∃ found ∈ overloads skipInplace declarations declaration.name,
          registry.resolve other = .ok found := by
  obtain ⟨first, firstMember⟩ := List.exists_mem_of_ne_nil _ contributes
  obtain ⟨declared, resolved, _⟩ := exists_selected_of_mem_contribution firstMember
  have areTaken := isTakenAs_of_resolveArguments resolved
  have overloaded : overloads skipInplace declarations declaration.name ≠ [] :=
    List.ne_nil_of_mem (mem_overloads_of_mem_contribution listed firstMember)
  have isDeclared {other : Header} (sameName : other.name = declaration.name) :
      registry.declared other.name = overloads skipInplace declarations declaration.name := by
    rw [sameName, built]
    exact declared_build areHelpers overloaded
  have finds {other : Header} {types : List TargetType} (sameName : other.name = declaration.name)
      (known : other.typeTags.mapM TargetType.resolveArgument = .ok types)
      (taken : (overloads skipInplace declarations declaration.name).length = 1 ∨
        ∃ signature ∈ overloads skipInplace declarations declaration.name,
          signature.args.map (·.type) = types) :
      ∃ found ∈ overloads skipInplace declarations declaration.name,
        registry.resolve other = .ok found := by
    rcases Registry.resolve_cases known (isDeclared sameName) overloaded with
      ⟨found, member, chosen, _⟩ | ⟨_, several, noneTakes⟩
    · exact ⟨found, member, chosen⟩
    · rcases taken with one | ⟨signature, member, takes⟩
      · exact absurd one several
      · exact absurd takes (noneTakes signature member)
  have known : header.typeTags.mapM TargetType.resolveArgument = .ok (declared.map (·.type)) := by
    rw [typed]
    exact mapM_typeTags areTaken
  have ending := Registry.resolve_cases known (isDeclared named) overloaded
  rw [named] at ending
  refine ⟨declared, areTaken, ⟨?_, finds named known⟩, ?_, ?_, ?_⟩
  · rintro ⟨signature, _, chosen⟩
    rcases ending with ⟨found, member, _, one | takes⟩ | ⟨failed, _⟩
    · exact Or.inl one
    · exact Or.inr ⟨found, member, takes⟩
    · rw [chosen] at failed
      cases failed
  · intro kept
    obtain ⟨signature, member, takes⟩ := exists_takes_declared contributes kept resolved
    exact finds named known
      (Or.inr ⟨signature, mem_overloads_of_mem_contribution listed member, takes⟩)
  · intro error failed
    rcases ending with ⟨_, _, chosen, _⟩ | ⟨refused, _⟩
    · rw [failed] at chosen
      cases chosen
    · exact Except.error.inj (failed.symm.trans refused)
  · intro signature member other sameName knownTypes
    exact finds sameName knownTypes
      (Or.inr ⟨signature, mem_overloads_of_mem_contribution listed member, rfl⟩)

end Declaration

/-! ### Two overloads, of which one has its receiver last -/

namespace Sample

def scaled : Declaration :=
  { name := "addcmul"
    methodOf := ["Tensor"]
    arguments := [⟨"alpha", "Scalar", none⟩, ⟨"self", "Tensor", none⟩]
    returns := [⟨"result", "Tensor"⟩] }

def unscaled : Declaration := { scaled with arguments := [⟨"self", "Tensor", none⟩] }

def scaledHeader : Header := ⟨"addcmul", [⟨"Scalar", "alpha"⟩, ⟨"Tensor", "self"⟩]⟩

def unscaledHeader : Header := ⟨"addcmul", [⟨"Tensor", "self"⟩]⟩

def addcmulRegistry : Registry := .build [] (Declaration.ingest false [scaled, unscaled]).1

/-- The header of the first declaration, in declared order, finds none of the two. -/
theorem header_of_scaled_is_refused :
    (scaled.contribution false).1 ≠ [] ∧
      scaledHeader.name = scaled.name ∧
      scaledHeader.typeTags = scaled.arguments.map (·.typeTag) ∧
      addcmulRegistry.resolve scaledHeader =
        .error (.noMatchingOverload 2 "addcmul" ["Scalar", "Tensor"]) := by
  decide +kernel

/-- The header of the second declaration finds one of the two. -/
theorem header_of_unscaled_is_resolved :
    (Declaration.overloads false [scaled, unscaled] "addcmul").length = 2 ∧
      ¬ unscaled.MovesReceiver false ∧
      ∃ signature ∈ Declaration.overloads false [scaled, unscaled] "addcmul",
        addcmulRegistry.resolve unscaledHeader = .ok signature := by
  have kept : ¬ unscaled.MovesReceiver false := by
    rintro ⟨-, declared, receiver, before, after, areTaken, isReceiverOf, argument, inside, -⟩
    -- The receiver is the only argument, so none stands before it.
    have sameLength : 1 = declared.length := areTaken.length_eq
    rw [isReceiverOf.split, List.length_append, List.length_cons] at sameLength
    have nonempty := List.length_pos_of_mem inside
    omega
  have built : addcmulRegistry = .build [] (Declaration.ingest false [scaled, unscaled]).1 := rfl
  have listed : unscaled ∈ [scaled, unscaled] := List.mem_cons_of_mem scaled List.mem_cons_self
  have named : unscaledHeader.name = unscaled.name := rfl
  obtain ⟨_, -, -, finds, -⟩ := Declaration.declared_header_finds_signature built
    (List.forall_mem_nil _) listed (by decide +kernel) named rfl
  exact ⟨by decide +kernel, kept, finds kept⟩

end Sample

end TensorBindings
