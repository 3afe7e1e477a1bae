import TensorBindings.Proofs.Registry
import TensorBindings.Registry.Operation

/-!
Contract: a registry answers as the plain list of its signatures would.

Owns: the signatures that a sequence of operations registers, the right answer to each
operation in terms of these alone (`IsAnswer`), and the refinement: whatever is done to a
registry and in whatever order, every answer is right. `Indexed.perform`, `entries_perform`
and `frozen_perform` are the steps; `performAll_spec` is the run.

A sequence may ask for the display names of call sites before and after the freeze and any
number of times, so the refinement covers every way in which they can come to be kept.
-/

set_option autoImplicit false

namespace TensorBindings.Registry

/-! ### Answers of a plain list -/

def Operation.isFreeze : Operation → Bool
  | .freeze => true
  | _ => false

def Operation.registered? : Operation → Option Signature
  | .register signature => some signature
  | _ => none

/-- Some of these operations is a freeze. -/
def freezes (operations : List Operation) : Bool := operations.any Operation.isFreeze

/-- The signatures that operations register before the first freeze. -/
def registeredBy (operations : List Operation) : List Signature :=
  (operations.takeWhile (!·.isFreeze)).filterMap Operation.registered?

/-- The right answer, if these signatures were registered so far and the registry was frozen
or not. Display names are right if every name has that of the first signature that serves it. -/
def IsAnswer (signatures : List Signature) (frozen : Bool) : Operation → Answer → Prop
  | .register signature, answer =>
      answer = if frozen then .refused (.frozen signature.engineName) else .done
  | .freeze, answer => answer = .done
  | .isFrozen, answer => answer = .truth frozen
  | .size, answer => answer = .count signatures.length
  | .entries, answer => answer = .signatures signatures
  | .generated, answer => answer = .signatures (signatures.filter (!·.isHelper))
  | .declared name, answer => answer = .signatures (declaredAmong signatures name)
  | .isCallable name, answer =>
      ∃ callable, answer = .truth callable ∧
        (callable = true ↔ ∃ signature ∈ signatures, signature.IsCalledBy name)
  | .callSites, answer =>
      ∃ sites : CallSites, answer = .callSites sites ∧ ∀ name,
        sites.methods[name]? = (signatures.find? (·.serves .method name)).map (·.name) ∧
        sites.functions[name]? = (signatures.find? (·.serves .function name)).map (·.name)

/-! ### One operation -/

private theorem perform_register_of_open {registry : Registry} (isOpen : registry.frozen = false)
    (signature : Signature) :
    registry.perform (.register signature) = (registry.add signature, .done) := by
  simp [perform, register, isOpen]

private theorem perform_register_of_frozen {registry : Registry} (isFrozen : registry.frozen = true)
    (signature : Signature) :
    registry.perform (.register signature) =
      (registry, .refused (.frozen signature.engineName)) := by
  simp [perform, register, isFrozen]

theorem Indexed.perform {registry : Registry} (indexed : Indexed registry)
    (operation : Operation) : Indexed (registry.perform operation).1 := by
  cases operation with
  | register signature =>
      cases isFrozen : registry.frozen with
      | true => rw [perform_register_of_frozen isFrozen]; exact indexed
      | false => rw [perform_register_of_open isFrozen]; exact indexed.add isFrozen signature
  | freeze => exact indexed.freeze
  | callSites => exact indexed.keepCallSites
  | _ => exact indexed

theorem frozen_perform (registry : Registry) (operation : Operation) :
    (registry.perform operation).1.frozen = (registry.frozen || operation.isFreeze) := by
  cases operation with
  | register signature =>
      cases isFrozen : registry.frozen with
      | true => rw [perform_register_of_frozen isFrozen]; exact isFrozen
      | false => rw [perform_register_of_open isFrozen]; exact isFrozen
  | freeze => exact (Bool.or_true _).symm
  | callSites => exact (frozen_keepCallSites registry).trans (Bool.or_false _).symm
  | _ => exact (Bool.or_false _).symm

/-- Only a signature that comes in time is added. -/
theorem entries_perform (registry : Registry) (operation : Operation) :
    (registry.perform operation).1.entries =
      registry.entries ++ if registry.frozen then [] else operation.registered?.toList := by
  cases operation with
  | register signature =>
      cases isFrozen : registry.frozen with
      | true => rw [perform_register_of_frozen isFrozen]; exact (List.append_nil _).symm
      | false => rw [perform_register_of_open isFrozen]; rfl
  | callSites =>
      have unchanged := entries_keepCallSites registry
      simp [Registry.perform, Operation.registered?, unchanged]
  | _ => simp [Registry.perform, Operation.registered?, Registry.freeze]

/-- The answer of an indexed registry is the right one for its entries. -/
theorem Indexed.isAnswer_perform {registry : Registry} (indexed : Indexed registry)
    (operation : Operation) :
    IsAnswer registry.entries registry.frozen operation (registry.perform operation).2 := by
  cases operation with
  | register signature =>
      cases isFrozen : registry.frozen with
      | true => rw [perform_register_of_frozen isFrozen]; rfl
      | false => rw [perform_register_of_open isFrozen]; rfl
  | declared name => exact congrArg Answer.signatures (indexed.declared_eq name)
  | isCallable name => exact ⟨registry.isCallable name, rfl, indexed.isCallable_iff name⟩
  | callSites =>
      refine ⟨registry.callSites, rfl, fun name => ⟨?_, ?_⟩⟩
      · exact indexed.callSites .method (by decide) name
      · exact indexed.callSites .function (by decide) name
  | _ => rfl

/-! ### Sequences -/

private theorem registeredBy_cons (operation : Operation) (rest : List Operation) :
    registeredBy (operation :: rest) =
      operation.registered?.toList ++ if operation.isFreeze then [] else registeredBy rest := by
  cases operation <;> rfl

/-- The run: after any operations, a registry holds what was registered before the first
freeze, and its indexes are in order. -/
theorem performAll_spec (operations : List Operation) {registry : Registry}
    (indexed : Indexed registry) :
    Indexed (registry.performAll operations) ∧
      (registry.performAll operations).frozen = (registry.frozen || freezes operations) ∧
      (registry.performAll operations).entries =
        registry.entries ++ if registry.frozen then [] else registeredBy operations := by
  induction operations generalizing registry with
  | nil =>
      refine ⟨indexed, (Bool.or_false _).symm, ?_⟩
      show registry.entries = registry.entries ++ if registry.frozen then [] else []
      rw [ite_self, List.append_nil]
  | cons operation rest inductionHypothesis =>
      obtain ⟨stillIndexed, frozen, entries⟩ := inductionHypothesis (indexed.perform operation)
      refine ⟨stillIndexed, ?_, ?_⟩
      · show ((registry.perform operation).1.performAll rest).frozen = _
        rw [frozen, frozen_perform, Bool.or_assoc]
        rfl
      · show ((registry.perform operation).1.performAll rest).entries = _
        rw [entries, frozen_perform, entries_perform, registeredBy_cons]
        cases registry.frozen <;> cases operation.isFreeze <;> simp

private theorem answers_append (registry : Registry) (first second : List Operation) :
    registry.answers (first ++ second) =
      registry.answers first ++ (registry.performAll first).answers second := by
  induction first generalizing registry with
  | nil => rfl
  | cons operation rest inductionHypothesis =>
      exact congrArg ((registry.perform operation).2 :: ·)
        (inductionHypothesis (registry.perform operation).1)

private theorem length_answers (registry : Registry) (operations : List Operation) :
    (registry.answers operations).length = operations.length := by
  induction operations generalizing registry with
  | nil => rfl
  | cons operation rest inductionHypothesis =>
      exact congrArg (· + 1) (inductionHypothesis (registry.perform operation).1)

/-- Whatever operations come before and after, the answer to an operation is right for the
signatures that were registered before the first freeze. A signature that comes after a
freeze changes no other answer. -/
theorem every_answer_is_of_list (initial : List Signature) (before later : List Operation)
    (operation : Operation) :
    (∃ answer, ((ofList initial).answers (before ++ operation :: later))[before.length]? =
        some answer ∧
      IsAnswer (initial ++ registeredBy before) (freezes before) operation answer) ∧
    ∀ late : Signature, freezes before = true →
      ((ofList initial).answers (before ++ .register late :: later)).eraseIdx before.length =
        (ofList initial).answers (before ++ later) := by
  obtain ⟨indexed, frozen, entries⟩ :=
    performAll_spec before (reachable_ofList initial).indexed
  rw [frozen_ofList] at frozen entries
  rw [entries_ofList] at entries
  have length := length_answers (ofList initial) before
  constructor
  · refine ⟨(((ofList initial).performAll before).perform operation).2, ?_, ?_⟩
    · rw [answers_append, ← length, List.getElem?_append_right (Nat.le_refl _), Nat.sub_self]
      rfl
    · have right := indexed.isAnswer_perform operation
      rw [frozen, entries] at right
      exact right
  · intro late isFrozen
    have refused := perform_register_of_frozen (frozen.trans isFrozen) late
    rw [answers_append, answers_append, answers, refused, ← length,
      List.eraseIdx_append_of_length_le (Nat.le_refl _), Nat.sub_self]
    rfl

namespace Sample

def typeHelper : Signature := .helper "type" "getType" .method

/-- A second helper of the same name, which comes after the freeze. -/
def lateHelper : Signature := .helper "type" "typeOf" .method

/-- The display names are asked for on both sides of the freeze. -/
def beforeLate : List Operation := [.callSites, .register typeHelper, .callSites, .freeze, .callSites]

theorem lateHelper_changes_no_answer :
    freezes beforeLate = true ∧
      (∃ answer, ((ofList []).answers (beforeLate ++ [.register lateHelper, .callSites]))[5]? =
          some answer ∧
        IsAnswer [typeHelper] true (.register lateHelper) answer) ∧
      ((ofList []).answers (beforeLate ++ [.register lateHelper, .callSites])).eraseIdx 5 =
        (ofList []).answers (beforeLate ++ [.callSites]) := by
  have ofList := every_answer_is_of_list [] beforeLate [.callSites] (.register lateHelper)
  exact ⟨rfl, ofList.1, ofList.2 lateHelper rfl⟩

end Sample

end TensorBindings.Registry
