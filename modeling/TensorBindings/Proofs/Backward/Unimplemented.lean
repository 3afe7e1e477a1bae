import Mathlib.Data.List.DropRight
import TensorBindings.Proofs.Backward.Outcome
import TensorBindings.Proofs.Backward.Outputs

/-!
Contract: entries without a procedure.

Owns: the bodies that say that they are not implemented, the keys that name no output, and the
theorem which entries come to no procedure although nothing is wrong with them. These are the
entries whose bodies are all of one or the other sort.

An entry is given up for want of outputs and not for want of bodies. So an entry with a body that
is implemented is noted as not implemented as well, if no body names an output.

Does not own: the entries that fail a check (`Proofs.Backward.Acceptance`).
-/

set_option autoImplicit false

namespace TensorBindings

open TensorBindings.Text

/-! ### Keys -/

namespace Text

private theorem trim_eq_empty_iff {text : String} :
    trim text = "" ↔ ∀ c ∈ text.toList, isBlank c = true := by
  have frontIff (cs : List Char) : trimFront cs = [] ↔ ∀ c ∈ cs, isBlank c = true :=
    List.dropWhile_eq_nil_iff
  have again (cs : List Char) : trimFront (trimFront cs) = trimFront cs :=
    List.dropWhile_idempotent _ _
  calc trim text = ""
      ↔ trimFront (trimFront text.toList).reverse = [] := by simp [trim]
    _ ↔ ∀ c ∈ trimFront text.toList, isBlank c = true := by simp only [frontIff, List.mem_reverse]
    _ ↔ ∀ c ∈ text.toList, isBlank c = true := by rw [← frontIff, again, frontIff]

/-- The characters of the pieces are those of the text that are no separators. -/
theorem forall_mem_splitAt_iff {separator : Char} {allowed : Char → Prop} {cs : List Char} :
    (∀ piece ∈ splitAt separator cs, ∀ c ∈ piece, allowed c) ↔
      ∀ c ∈ cs, c = separator ∨ allowed c := by
  fun_induction splitAt separator cs with
  | case1 => simp
  | case2 rest inductionHypothesis => simpa using inductionHypothesis
  | case3 c rest other empty inductionHypothesis =>
      rw [empty] at inductionHypothesis
      have ofRest := inductionHypothesis.mp (List.forall_mem_nil _)
      simpa [other] using fun _ => ofRest
  | case4 c rest other piece pieces split inductionHypothesis =>
      rw [split, List.forall_mem_cons] at inductionHypothesis
      rw [List.forall_mem_cons, List.forall_mem_cons, List.forall_mem_cons, and_assoc,
        inductionHypothesis]
      simp [other]

end Text

namespace FormulaBody

/-- The text of the body begins with `not_implemented`, after blanks or not. -/
def SaysNotImplemented (body : FormulaBody) : Prop :=
  ∃ rest, trim body.text = "not_implemented" ++ rest

/-- There is nothing in the key but commas and blanks. -/
def NamesNothing (body : FormulaBody) : Prop :=
  ∀ c ∈ body.key.toList, c = ',' ∨ isBlank c = true

private theorem isImplemented_eq_false_iff {body : FormulaBody} :
    body.isImplemented = false ↔ body.SaysNotImplemented := by
  rw [isImplemented, Bool.not_eq_false', startsWith, List.isPrefixOf_iff_prefix]
  constructor
  · rintro ⟨rest, starts⟩
    refine ⟨String.ofList rest, String.toList_injective ?_⟩
    simp only [← starts, String.toList_append, String.toList_ofList]
    rfl
  · rintro ⟨rest, starts⟩
    rw [starts, String.toList_append]
    exact List.prefix_append _ _

private theorem outputNames_eq_nil_iff {body : FormulaBody} :
    body.outputNames = [] ↔ body.NamesNothing := by
  rw [outputNames, splitKey, List.filter_eq_nil_iff, List.forall_mem_map, NamesNothing,
    ← forall_mem_splitAt_iff]
  simp [trim_eq_empty_iff]

end FormulaBody

/-! ### Results -/

/-- The printed bodies are added one after another. What they come to is kept if it has a
field. -/
theorem BackwardProcedure.printed_of_assemble {forward : Signature}
    {bodies : List Backward.CheckedBody} {result : Option BackwardProcedure}
    (assembled : assemble forward bodies = .ok result) :
    ∃ printed, bodies.mapM printBody = .ok printed ∧
      result = Option.guard (fun procedure => procedure.fields ≠ [])
        ((start forward bodies).addBodies printed) := by
  unfold assemble at assembled
  obtain ⟨printed, prints, kept⟩ := bind_eq_ok_iff.mp assembled
  cases kept
  refine ⟨printed, prints, ?_⟩
  simp [Option.guard]

namespace FormulaEntry

open Backward BackwardProcedure

private theorem outputs_eq_nil_iff {entry : FormulaEntry} :
    entry.outputs = [] ↔
      ∀ body ∈ entry.bodies, body.SaysNotImplemented ∨ body.NamesNothing := by
  rw [← List.map_eq_nil_iff, name_outputs, List.flatMap_eq_nil_iff, implementedBodies]
  simp only [List.mem_filter, FormulaBody.outputNames_eq_nil_iff,
    ← FormulaBody.isImplemented_eq_false_iff]
  constructor
  · intro nameless body member
    cases implemented : body.isImplemented with
    | false => exact Or.inl rfl
    | true => exact Or.inr (nameless body ⟨member, implemented⟩)
  · rintro each body ⟨member, implemented⟩
    rcases each body member with skipped | nameless
    · rw [skipped] at implemented
      cases implemented
    · exact nameless

/-- An entry comes to a procedure if it has outputs, and the procedure has a field then. -/
theorem result_of_backward {registry : Registry} {entry : FormulaEntry}
    {result : Option BackwardProcedure} (succeeded : entry.backward registry = .ok result) :
    (result = none ↔ entry.outputs = []) ∧
      ∀ procedure, result = some procedure → procedure.fields ≠ [] := by
  obtain ⟨forward, checked, checks, assembled⟩ := backward_eq_ok_iff.mp succeeded
  obtain ⟨_, _, _, accepted⟩ := check_eq_ok_iff.mp checks
  obtain ⟨printed, prints, rfl⟩ := printed_of_assemble assembled
  obtain ⟨emits, -, -⟩ := emits_of_checkBodies accepted prints
  obtain ⟨rows, outputs, grows, -⟩ := addBodies_rows emits (start forward checked)
  have fields : ((start forward checked).addBodies printed).fields = rows.map (·.field) :=
    grows.fields
  constructor
  · calc Option.guard (fun procedure => procedure.fields ≠ [])
          ((start forward checked).addBodies printed) = none
        ↔ rows = [] := by simp [fields]
      _ ↔ entry.outputs = [] := by
          rw [← List.map_eq_nil_iff, outputs]
          rfl
  · intro procedure kept
    obtain ⟨rfl, hasField⟩ := Option.guard_eq_some_iff.mp kept
    exact of_decide_eq_true hasField

/-- What the result of an entry says about the bodies of that entry. -/
structure ResultTellsOf (registry : Registry) (entry : FormulaEntry)
    (result : Option BackwardProcedure) : Prop where
  /-- There is no procedure exactly if all bodies say that they are not implemented or name
  nothing. -/
  without : result = none ↔
    ∀ body ∈ entry.bodies, body.SaysNotImplemented ∨ body.NamesNothing
  /-- Every other entry has a procedure, and that has an output. -/
  yields : (∃ body ∈ entry.bodies, ¬ body.SaysNotImplemented ∧ ¬ body.NamesNothing) ↔
    ∃ procedure, result = some procedure ∧ procedure.fields ≠ []
  /-- In a table an entry without a procedure is noted as not implemented, and no other entry
  that passes its checks is. -/
  noted : entry.outcome registry.keepCallSites = .ok (.skipped entry.notImplemented) ↔
    result = none
  /-- The note is true of all bodies if those without a name say that they are not
  implemented. -/
  faithful : (∀ body ∈ entry.bodies, body.NamesNothing → body.SaysNotImplemented) →
    (result = none ↔ ∀ body ∈ entry.bodies, body.SaysNotImplemented)

theorem entry_is_given_up_exactly_without_outputs {registry : Registry} {entry : FormulaEntry}
    {result : Option BackwardProcedure} (succeeded : entry.backward registry = .ok result) :
    entry.ResultTellsOf registry result := by
  obtain ⟨without, hasField⟩ := result_of_backward succeeded
  have unnamed := without.trans outputs_eq_nil_iff
  refine ⟨unnamed, ?_, ?_, ?_⟩
  · have named : result ≠ none ↔
        ∃ body ∈ entry.bodies, ¬ body.SaysNotImplemented ∧ ¬ body.NamesNothing := by
      rw [ne_eq, unnamed]
      simp only [not_forall, not_or, exists_prop]
    rw [← named, Option.ne_none_iff_exists']
    exact exists_congr fun procedure => (and_iff_left_of_imp (hasField procedure)).symm
  · rw [outcome_eq_ok_iff, AccountedFor, succeeded]
    simp [notImplemented]
  · intro saysSo
    refine unnamed.trans (forall₂_congr fun body member => ?_)
    exact or_iff_left_of_imp (saysSo body member)

end FormulaEntry

/-! ### Keys without a name -/

namespace Sample

def negForward : Signature :=
  { engineName := "neg"
    name := "neg"
    invocation := .method
    args := [⟨"self", "self", .tensor, none⟩]
    returns := [⟨"", "result", .tensor⟩] }

def negRegistry : Registry := .build [] [negForward]

/-- Only the last body is implemented and names an output. -/
def negEntry : FormulaEntry :=
  ⟨"neg(Tensor self)",
    [⟨" , ", "grad"⟩, ⟨"self", " not_implemented(\"twice\")"⟩, ⟨",self", "-grad"⟩]⟩

def negProcedure : BackwardProcedure :=
  { forward := negForward
    fields := [⟨"self", "self", .tensor, none⟩]
    bindings := [⟨"self_result", "-grad"⟩]
    assignments := [⟨"self", "self_result", none⟩]
    autogradLines := [("self", "-grad")] }

theorem negEntry_is_not_given_up :
    negEntry.backward negRegistry = .ok (some negProcedure) ∧
      negEntry.ResultTellsOf negRegistry (some negProcedure) := by
  have succeeded : negEntry.backward negRegistry = .ok (some negProcedure) := by decide +kernel
  exact ⟨succeeded, FormulaEntry.entry_is_given_up_exactly_without_outputs succeeded⟩

def namelessBody : FormulaBody := ⟨"", "grad"⟩

def namelessEntry : FormulaEntry := ⟨"neg(Tensor self)", [namelessBody]⟩

/-- The only body of an entry is implemented, and the entry is noted as not implemented. -/
theorem namelessEntry_is_noted_as_not_implemented :
    namelessEntry.backward negRegistry = .ok none ∧
      namelessEntry.outcome negRegistry = .ok (.skipped namelessEntry.notImplemented) ∧
      namelessBody ∈ namelessEntry.bodies ∧ ¬ namelessBody.SaysNotImplemented := by
  refine ⟨by decide +kernel, by decide +kernel, List.mem_singleton_self _, ?_⟩
  rw [← FormulaBody.isImplemented_eq_false_iff]
  decide

end Sample

end TensorBindings
