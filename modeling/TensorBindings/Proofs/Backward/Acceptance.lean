import TensorBindings.Backward.Entry
import TensorBindings.Proofs.Fallible

/-!
Contract: what it takes for a formula entry to be accepted.

Owns: the facts that hold of every body of an accepted entry, read off the checks once, and
the parts of a procedure that its bodies do not change. A result about accepted entries
starts from `exists_source_of_backward` and never opens the checks again.

Does not own: what follows for the names in a body (`Proofs.Backward.CallSites`,
`Proofs.Backward.Scope`).
-/

set_option autoImplicit false

namespace TensorBindings

open TensorBindings.Text

namespace Backward

/-- The tree that is written for a body with this source: without the choice between
training and evaluation, and in the names of the backward procedure. -/
def emittedTree (registry : Registry) (forward : Signature) (source : Expr) : Expr :=
  (Renaming.ofForward forward registry.callSites).apply (stripTrainingGuard source).1

private theorem readFormula_eq_ok_iff {text : String} {tree : Expr} :
    readFormula text = .ok tree ↔ Expr.parse text = .ok tree := by
  unfold readFormula
  cases Expr.parse text <;> simp

private theorem checkCalls_eq_ok_iff {registry : Registry} {names : List String} :
    checkCalls registry names = .ok () ↔ ∀ name ∈ names, registry.isCallable name = true := by
  induction names with
  | nil => simp [checkCalls]
  | cons name rest inductionHypothesis =>
      by_cases callable : registry.isCallable name = true
      · simp [checkCalls, callable, inductionHypothesis]
      · simp [checkCalls, callable]

private theorem checkGradients_eq_ok_iff {body : FormulaBody} {tree : Expr} :
    checkGradients body tree = .ok () ↔ tree.mentions severalGradientsName = false := by
  unfold checkGradients
  cases tree.mentions severalGradientsName <;> simp

/-- A body is accepted exactly if its text is an expression with a single gradient, its
outputs are fresh arguments, and all that it calls can be called. -/
theorem checkBody_eq_ok_iff {registry : Registry} {forward : Signature} {seen : List String}
    {body : FormulaBody} {checked : CheckedBody} :
    checkBody registry forward seen body = .ok checked ↔
      ∃ source targets,
        Expr.parse (trim body.text) = .ok source ∧
        source.mentions severalGradientsName = false ∧
        checkOutputs forward seen body.outputNames = .ok targets ∧
        (∀ name ∈ source.callNames, registry.isCallable name = true) ∧
        checked =
          { targets
            tree := emittedTree registry forward source
            guarded := (stripTrainingGuard source).2
            usesMask := (stripTrainingGuard source).1.mentions maskName } := by
  unfold checkBody
  simp only [bind_eq_ok_iff, readFormula_eq_ok_iff]
  constructor
  · rintro ⟨source, parsed, ⟨⟩, single, targets, fresh, ⟨⟩, callable, returned⟩
    cases returned
    exact ⟨source, targets, parsed, checkGradients_eq_ok_iff.mp single, fresh,
      checkCalls_eq_ok_iff.mp callable, rfl⟩
  · rintro ⟨source, targets, parsed, single, fresh, callable, rfl⟩
    exact ⟨source, parsed, (), checkGradients_eq_ok_iff.mpr single, targets, fresh, (),
      checkCalls_eq_ok_iff.mpr callable, rfl⟩

/-- An implemented body is checked before the bodies after it, which may not repeat its
outputs. -/
theorem checkBodies_cons_eq_ok_iff {registry : Registry} {forward : Signature}
    {seen : List String} {body : FormulaBody} {rest : List FormulaBody}
    {checked : List CheckedBody} (implemented : body.isImplemented = true) :
    checkBodies registry forward seen (body :: rest) = .ok checked ↔
      ∃ first others,
        checkBody registry forward seen body = .ok first ∧
        checkBodies registry forward (seen ++ body.outputNames) rest = .ok others ∧
        checked = first :: others := by
  rw [checkBodies, if_pos implemented]
  simp only [bind_eq_ok_iff]
  constructor
  · rintro ⟨first, firstChecked, others, othersChecked, returned⟩
    cases returned
    exact ⟨first, others, firstChecked, othersChecked, rfl⟩
  · rintro ⟨first, others, firstChecked, othersChecked, rfl⟩
    exact ⟨first, firstChecked, others, othersChecked, rfl⟩

/-- Every implemented body of a checked list was checked by itself. -/
theorem exists_checkBody_of_mem {registry : Registry} {forward : Signature} {seen : List String}
    {bodies : List FormulaBody} {checked : List CheckedBody}
    (accepted : checkBodies registry forward seen bodies = .ok checked)
    {body : FormulaBody} (member : body ∈ bodies) (implemented : body.isImplemented = true) :
    ∃ before, ∃ result ∈ checked, checkBody registry forward before body = .ok result := by
  induction bodies generalizing seen checked with
  | nil => cases member
  | cons head tail inductionHypothesis =>
      by_cases headImplemented : head.isImplemented = true
      · obtain ⟨first, others, firstChecked, othersChecked, rfl⟩ :=
          (checkBodies_cons_eq_ok_iff headImplemented).mp accepted
        rcases List.mem_cons.mp member with rfl | later
        · exact ⟨seen, first, List.mem_cons_self, firstChecked⟩
        · obtain ⟨before, result, resultMember, resultChecked⟩ :=
            inductionHypothesis othersChecked later
          exact ⟨before, result, List.mem_cons_of_mem first resultMember, resultChecked⟩
      · rw [checkBodies, if_neg headImplemented] at accepted
        rcases List.mem_cons.mp member with rfl | later
        · exact absurd implemented headImplemented
        · exact inductionHypothesis accepted later

end Backward

namespace BackwardProcedure

open Backward

/-- Adding outputs changes neither the forward procedure nor the mask. -/
theorem addBodies_frame (procedure : BackwardProcedure)
    (bodies : List (List Argument × String)) :
    (procedure.addBodies bodies).forward = procedure.forward ∧
      (procedure.addBodies bodies).maskSize = procedure.maskSize := by
  induction bodies generalizing procedure with
  | nil => exact ⟨rfl, rfl⟩
  | cons body rest inductionHypothesis =>
      obtain ⟨targets, printed⟩ := body
      have sameForward : (procedure.addBody targets printed).forward = procedure.forward := by
        cases targets <;> rfl
      have sameMask : (procedure.addBody targets printed).maskSize = procedure.maskSize := by
        cases targets <;> rfl
      have ofRest := inductionHypothesis (procedure.addBody targets printed)
      rw [sameForward, sameMask] at ofRest
      exact ofRest

/-- A procedure is made of printed bodies, which are added one after another. -/
theorem exists_printed_of_assemble {forward : Signature} {bodies : List CheckedBody}
    {procedure : BackwardProcedure}
    (assembled : assemble forward bodies = .ok (some procedure)) :
    ∃ printed, bodies.mapM printBody = .ok printed ∧
      procedure = (start forward bodies).addBodies printed := by
  unfold assemble at assembled
  obtain ⟨printed, prints, kept⟩ := bind_eq_ok_iff.mp assembled
  refine ⟨printed, prints, ?_⟩
  by_cases empty : ((start forward bodies).addBodies printed).fields.isEmpty
  · simp [empty, pure, Except.pure] at kept
  · simp only [empty, pure, Except.pure] at kept
    cases kept
    rfl

/-- A procedure has the forward procedure that it was assembled for, and a mask exactly if
one of its bodies uses the mask. -/
theorem assemble_frame {forward : Signature} {bodies : List CheckedBody}
    {procedure : BackwardProcedure}
    (assembled : assemble forward bodies = .ok (some procedure)) :
    procedure.forward = forward ∧
      procedure.maskSize = (bodies.find? (·.usesMask)).map (·.targets.length) := by
  obtain ⟨printed, _, rfl⟩ := exists_printed_of_assemble assembled
  exact addBodies_frame (start forward bodies) printed

end BackwardProcedure

namespace FormulaEntry

open Backward BackwardProcedure

theorem check_eq_ok_iff {registry : Registry} {entry : FormulaEntry} {forward : Signature}
    {checked : List CheckedBody} :
    entry.check registry = .ok (forward, checked) ↔
      ∃ header, readHeader entry.header = .ok header ∧
        registry.resolve header = .ok forward ∧
        checkBodies registry forward [] entry.bodies = .ok checked := by
  unfold check
  simp only [bind_eq_ok_iff]
  constructor
  · rintro ⟨header, read, _, resolved, _, accepted, same⟩
    cases same
    exact ⟨header, read, resolved, accepted⟩
  · rintro ⟨header, read, resolved, accepted⟩
    exact ⟨header, read, forward, resolved, checked, accepted, rfl⟩

/-- An entry comes to a result exactly if it passes its check and its bodies are assembled to
that result. -/
theorem backward_eq_ok_iff {registry : Registry} {entry : FormulaEntry}
    {result : Option BackwardProcedure} :
    entry.backward registry = .ok result ↔
      ∃ forward checked, entry.check registry = .ok (forward, checked) ∧
        assemble forward checked = .ok result := by
  unfold backward
  cases outcome : entry.check registry with
  | error error => simp
  | ok checkedEntry =>
      obtain ⟨forward, checked⟩ := checkedEntry
      constructor
      · intro succeeded
        refine ⟨forward, checked, rfl, ?_⟩
        cases assembled : assemble forward checked with
        | error error => simp [assembled] at succeeded
        | ok procedure? => simpa [assembled] using succeeded
      · rintro ⟨_, _, same, assembled⟩
        cases same
        simp [assembled]

/-- An accepted entry has a header that resolves to its forward procedure, bodies that pass
all checks, and a procedure that is assembled from them. -/
theorem backward_eq_some_iff {registry : Registry} {entry : FormulaEntry}
    {procedure : BackwardProcedure} :
    entry.backward registry = .ok (some procedure) ↔
      ∃ header checked,
        readHeader entry.header = .ok header ∧
        registry.resolve header = .ok procedure.forward ∧
        checkBodies registry procedure.forward [] entry.bodies = .ok checked ∧
        assemble procedure.forward checked = .ok (some procedure) := by
  rw [backward_eq_ok_iff]
  constructor
  · rintro ⟨forward, checked, checks, assembled⟩
    obtain ⟨header, read, resolved, accepted⟩ := check_eq_ok_iff.mp checks
    obtain rfl := (assemble_frame assembled).1
    exact ⟨header, checked, read, resolved, accepted, assembled⟩
  · rintro ⟨header, checked, read, resolved, accepted, assembled⟩
    exact ⟨procedure.forward, checked, check_eq_ok_iff.mpr ⟨header, read, resolved, accepted⟩,
      assembled⟩

/-- Every implemented body of an accepted entry is an expression of which all calls were
checked. If the value of that expression for training mentions the mask, the procedure has
one. -/
theorem exists_source_of_backward {registry : Registry} {entry : FormulaEntry}
    {procedure : BackwardProcedure}
    (accepted : entry.backward registry = .ok (some procedure))
    {body : FormulaBody} (member : body ∈ entry.bodies)
    (implemented : body.isImplemented = true) :
    ∃ source,
      Expr.parse (trim body.text) = .ok source ∧
      (∀ name ∈ source.callNames, registry.isCallable name = true) ∧
      ((stripTrainingGuard source).1.mentions maskName = true →
        procedure.maskSize.isSome = true) := by
  obtain ⟨_, checked, _, _, bodiesChecked, assembled⟩ := backward_eq_some_iff.mp accepted
  obtain ⟨_, result, resultMember, bodyChecked⟩ :=
    exists_checkBody_of_mem bodiesChecked member implemented
  obtain ⟨source, _, parsed, _, _, callable, rfl⟩ := checkBody_eq_ok_iff.mp bodyChecked
  refine ⟨source, parsed, callable, fun usesMask => ?_⟩
  rw [(assemble_frame assembled).2, Option.isSome_map, List.find?_isSome]
  exact ⟨_, resultMember, usesMask⟩

end FormulaEntry

/-! ### A small accepted entry

It calls one name in both styles, of which one is registered only, and it has an argument
whose name Nim reserves. -/

namespace Sample

open Backward

def forward : Signature :=
  { engineName := "mul"
    name := "mul"
    invocation := .method
    args := [⟨"self", "self", .tensor, none⟩, ⟨"aend", "end", .tensor, none⟩]
    returns := [⟨"", "result", .tensor⟩] }

def registry : Registry := .build [.helper "type" "getType" .method] [forward]

def callingBody : FormulaBody := ⟨"self", "type(grad.type())"⟩

def scalingBody : FormulaBody := ⟨"end", "end * result"⟩

def entry : FormulaEntry := ⟨"mul(Tensor self, Tensor end)", [callingBody, scalingBody]⟩

def callingSource : Expr :=
  .call (.name [] "type") [.call (.member (.name [] "grad") "type") []]

def scalingSource : Expr := .binary .mul (.name [] "end") (.name [] "result")

def procedure : BackwardProcedure :=
  { forward
    fields := forward.args
    bindings := [⟨"self_result", "type(grad.getType())"⟩, ⟨"aend_result", "aend * fwd_result"⟩]
    assignments := [⟨"self", "self_result", none⟩, ⟨"aend", "aend_result", none⟩]
    autogradLines := [("self", "type(grad.getType())"), ("aend", "aend * fwd_result")] }

theorem parse_callingBody : Expr.parse (trim callingBody.text) = .ok callingSource := by
  with_unfolding_all rfl

theorem parse_scalingBody : Expr.parse (trim scalingBody.text) = .ok scalingSource := by
  with_unfolding_all rfl

private theorem readHeader_entry :
    readHeader entry.header = .ok ⟨"mul", [⟨"Tensor", "self"⟩, ⟨"Tensor", "end"⟩]⟩ := by
  decide +kernel

def callingChecked : CheckedBody :=
  { targets := [⟨"self", "self", .tensor, none⟩]
    tree := emittedTree registry forward callingSource
    guarded := false
    usesMask := false }

def scalingChecked : CheckedBody :=
  { targets := [⟨"aend", "end", .tensor, none⟩]
    tree := emittedTree registry forward scalingSource
    guarded := false
    usesMask := false }

private theorem checkBodies_entry :
    checkBodies registry forward [] entry.bodies = .ok [callingChecked, scalingChecked] := by
  have calling : checkBody registry forward [] callingBody = .ok callingChecked :=
    checkBody_eq_ok_iff.mpr
      ⟨callingSource, _, parse_callingBody, by decide, rfl, by decide, rfl⟩
  have scaling : checkBody registry forward ["self"] scalingBody = .ok scalingChecked :=
    checkBody_eq_ok_iff.mpr
      ⟨scalingSource, _, parse_scalingBody, by decide, rfl, by decide, rfl⟩
  refine (checkBodies_cons_eq_ok_iff (by decide)).mpr ⟨_, _, calling, ?_, rfl⟩
  exact (checkBodies_cons_eq_ok_iff (by decide)).mpr ⟨_, _, scaling, rfl, rfl⟩

theorem backward_entry : entry.backward registry = .ok (some procedure) :=
  FormulaEntry.backward_eq_some_iff.mpr
    ⟨_, _, readHeader_entry, rfl, checkBodies_entry, rfl⟩

end Sample

end TensorBindings
