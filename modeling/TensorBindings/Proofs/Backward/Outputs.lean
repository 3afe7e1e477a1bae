import Mathlib.Data.List.Basic
import Mathlib.Data.List.Forall2
import Mathlib.Data.List.Nodup
import TensorBindings.Proofs.Backward.Acceptance

/-!
Contract: what an accepted entry makes of the outputs of its bodies.

Owns: the outputs of an entry in the order of the table, the text that is emitted for a body,
and how the parts of a procedure answer to both. Every output has one field, one assignment and
one line of the autograd block at the same place; every text that an output needs is bound
once, and the assignment reads the binding of the text of its own body.

The assembly adds one body after another. What a body adds is stated in `addBody_rows`, and
since bindings are only ever appended, it stays true of the whole procedure.

Does not own: the checks (`Proofs.Backward.Acceptance`), and whether two bindings can have one
name.
-/

set_option autoImplicit false

namespace TensorBindings

open TensorBindings.Text

/-! ### Outputs of an entry -/

/-- An output of a body, with its place in the key. -/
structure BodyOutput where
  body : FormulaBody
  name : String
  position : Nat

def FormulaBody.outputs (body : FormulaBody) : List BodyOutput :=
  body.outputNames.zipIdx.map fun (name, position) => ⟨body, name, position⟩

/-- The element of the body's value that is the gradient of this output. The value of a body
with a single output is the gradient itself. -/
def BodyOutput.index? (output : BodyOutput) : Option Nat :=
  if 1 < output.body.outputNames.length then some output.position else none

namespace FormulaEntry

def implementedBodies (entry : FormulaEntry) : List FormulaBody :=
  entry.bodies.filter (·.isImplemented)

def outputs (entry : FormulaEntry) : List BodyOutput :=
  entry.implementedBodies.flatMap FormulaBody.outputs

theorem name_outputs (entry : FormulaEntry) :
    entry.outputs.map (·.name) = entry.implementedBodies.flatMap (·.outputNames) := by
  have ofBody (body : FormulaBody) : body.outputs.map (·.name) = body.outputNames := by
    rw [FormulaBody.outputs, List.map_map]
    exact List.zipIdx_map_fst 0 body.outputNames
  rw [outputs, List.map_flatMap]
  exact List.flatMap_congr fun body _ => ofBody body

end FormulaEntry

namespace Backward

/-- The text that is emitted for a body, if the body is an expression. -/
def emittedText? (registry : Registry) (forward : Signature) (body : FormulaBody) :
    Option String :=
  match Expr.parse (trim body.text) with
  | .ok source => (emittedTree registry forward source).toNim.toOption
  | .error _ => none

/-- What stands at one place of the fields, the assignments and the autograd block, with the
output that it is there for. -/
structure OutputRow where
  output : BodyOutput
  field : Argument
  assignment : Assignment
  line : String × String

/-- The row gives its output the element of the text of its body, and reads that text from a
binding. -/
structure OutputRow.Realized (registry : Registry) (forward : Signature)
    (bindings : List Binding) (row : OutputRow) : Prop where
  isArgument : forward.argument? row.output.name = some row.field
  assigned : row.assignment.field = row.field.name
  labelled : row.line.1 = row.field.name
  indexed : row.assignment.index? = row.output.index?
  bound : ∃ text, emittedText? registry forward row.output.body = some text ∧
    ⟨row.assignment.source, text⟩ ∈ bindings ∧
    row.line.2 = subscript text row.assignment.index?

theorem OutputRow.Realized.mono {registry : Registry} {forward : Signature}
    {bindings more : List Binding} {row : OutputRow}
    (realized : row.Realized registry forward bindings) (kept : bindings ⊆ more) :
    row.Realized registry forward more := by
  obtain ⟨text, emitted, bound, lined⟩ := realized.bound
  exact { realized with bound := ⟨text, emitted, kept bound, lined⟩ }

/-! ### Outputs that pass the check -/

private theorem declaredName_of_argument? {forward : Signature} {name : String}
    {argument : Argument} (found : forward.argument? name = some argument) :
    argument.declaredName = name := by
  have matched := List.find?_some found
  exact beq_iff_eq.mp matched

private theorem checkOutputs_cons_eq_ok_iff {forward : Signature} {seen rest : List String}
    {output : String} {targets : List Argument} :
    checkOutputs forward seen (output :: rest) = .ok targets ↔
      ∃ argument others, output ∉ seen ∧ forward.argument? output = some argument ∧
        checkOutputs forward (output :: seen) rest = .ok others ∧ targets = argument :: others := by
  rw [checkOutputs]
  by_cases repeated : output ∈ seen
  · simp [repeated]
  rw [if_neg repeated]
  cases found : forward.argument? output with
  | none => simp
  | some argument =>
      simp only [bind_eq_ok_iff]
      constructor
      · rintro ⟨others, accepted, returned⟩
        cases returned
        exact ⟨argument, others, repeated, rfl, accepted, rfl⟩
      · rintro ⟨argument', others, -, same, accepted, rfl⟩
        cases same
        exact ⟨others, accepted, rfl⟩

/-- Outputs are accepted only if none repeats, none was seen before, and all are arguments. -/
theorem targets_of_checkOutputs {forward : Signature} {seen outputs : List String}
    {targets : List Argument} (accepted : checkOutputs forward seen outputs = .ok targets) :
    outputs.Nodup ∧ (∀ output ∈ outputs, output ∉ seen) ∧
      outputs.map forward.argument? = targets.map some := by
  induction outputs generalizing seen targets with
  | nil =>
      cases accepted
      exact ⟨List.nodup_nil, List.forall_mem_nil _, rfl⟩
  | cons output rest inductionHypothesis =>
      obtain ⟨argument, others, fresh, found, acceptedRest, rfl⟩ :=
        checkOutputs_cons_eq_ok_iff.mp accepted
      obtain ⟨distinct, freshRest, areArguments⟩ := inductionHypothesis acceptedRest
      have apart : output ∉ rest := fun member =>
        freshRest output member List.mem_cons_self
      refine ⟨List.nodup_cons.mpr ⟨apart, distinct⟩, ?_, ?_⟩
      · rw [List.forall_mem_cons]
        exact ⟨fresh, fun other member inSeen =>
          freshRest other member (List.mem_cons_of_mem output inSeen)⟩
      · rw [List.map_cons, List.map_cons, found, areArguments]

/-- A body comes with the arguments that its outputs name and with its text. -/
structure Emits (registry : Registry) (forward : Signature) (body : FormulaBody)
    (printed : List Argument × String) : Prop where
  areArguments : body.outputNames.map forward.argument? = printed.1.map some
  emitted : emittedText? registry forward body = some printed.2

private theorem declaredNames_of_arguments {forward : Signature} {names : List String}
    {targets : List Argument} (areArguments : names.map forward.argument? = targets.map some) :
    targets.map (·.declaredName) = names := by
  induction names generalizing targets with
  | nil =>
      rw [List.map_eq_nil_iff.mp areArguments.symm]
      rfl
  | cons name rest inductionHypothesis =>
      cases targets with
      | nil => cases areArguments
      | cons target others =>
          rw [List.map_cons, List.map_cons, List.cons.injEq] at areArguments
          obtain ⟨found, ofRest⟩ := areArguments
          rw [List.map_cons, declaredName_of_argument? found, inductionHypothesis ofRest]

private theorem emits_of_checkBody {registry : Registry} {forward : Signature} {seen : List String}
    {body : FormulaBody} {checked : CheckedBody} {printed : List Argument × String}
    (accepted : checkBody registry forward seen body = .ok checked)
    (prints : BackwardProcedure.printBody checked = .ok printed) :
    Emits registry forward body printed ∧ body.outputNames.Nodup ∧
      ∀ output ∈ body.outputNames, output ∉ seen := by
  obtain ⟨source, targets, parsed, -, outputs, -, rfl⟩ := checkBody_eq_ok_iff.mp accepted
  obtain ⟨distinct, fresh, areArguments⟩ := targets_of_checkOutputs outputs
  obtain ⟨text, written, returned⟩ := bind_eq_ok_iff.mp prints
  cases returned
  refine ⟨⟨areArguments, ?_⟩, distinct, fresh⟩
  simp only [emittedText?, parsed, written, Except.toOption]

/-- The bodies of an accepted entry each emit what is printed for them, and no output is named
twice. -/
theorem emits_of_checkBodies {registry : Registry} {forward : Signature} {seen : List String}
    {bodies : List FormulaBody} {checked : List CheckedBody}
    {printed : List (List Argument × String)}
    (accepted : checkBodies registry forward seen bodies = .ok checked)
    (prints : checked.mapM BackwardProcedure.printBody = .ok printed) :
    List.Forall₂ (Emits registry forward) (bodies.filter (·.isImplemented)) printed ∧
      ((bodies.filter (·.isImplemented)).flatMap (·.outputNames)).Nodup ∧
      ∀ output ∈ (bodies.filter (·.isImplemented)).flatMap (·.outputNames), output ∉ seen := by
  induction bodies generalizing seen checked printed with
  | nil =>
      cases accepted
      cases prints
      exact ⟨.nil, List.nodup_nil, List.forall_mem_nil _⟩
  | cons body rest inductionHypothesis =>
      by_cases implemented : body.isImplemented = true
      · obtain ⟨first, others, firstChecked, othersChecked, rfl⟩ :=
          (checkBodies_cons_eq_ok_iff implemented).mp accepted
        rw [List.mapM_cons] at prints
        obtain ⟨firstPrinted, printsFirst, prints⟩ := bind_eq_ok_iff.mp prints
        obtain ⟨othersPrinted, printsOthers, returned⟩ := bind_eq_ok_iff.mp prints
        cases returned
        obtain ⟨emits, distinct, fresh⟩ := emits_of_checkBody firstChecked printsFirst
        obtain ⟨emitsRest, distinctRest, freshRest⟩ :=
          inductionHypothesis othersChecked printsOthers
        rw [List.filter_cons_of_pos implemented, List.flatMap_cons]
        refine ⟨.cons emits emitsRest, ?_, ?_⟩
        · rw [List.nodup_append]
          refine ⟨distinct, distinctRest, fun output inBody other inRest same => ?_⟩
          exact freshRest other inRest (List.mem_append_right seen (same ▸ inBody))
        · intro output member inSeen
          rcases List.mem_append.mp member with inBody | inRest
          · exact fresh output inBody inSeen
          · exact freshRest output inRest (List.mem_append_left _ inSeen)
      · rw [checkBodies, if_neg implemented] at accepted
        rw [List.filter_cons_of_neg implemented]
        exact inductionHypothesis accepted prints

/-! ### Bindings -/

/-- Everything that binding a text does: what is bound stays, the name that comes back is bound
to the text, and the text is added at the end if it was not bound. -/
theorem bind_spec (bindings : List Binding) (text name : String) :
    bindings ⊆ (bind bindings text name).2 ∧
      ⟨(bind bindings text name).1, text⟩ ∈ (bind bindings text name).2 ∧
      (bind bindings text name).2.map (·.expr) =
        if text ∈ bindings.map (·.expr) then bindings.map (·.expr)
        else bindings.map (·.expr) ++ [text] := by
  unfold bind
  cases found : bindings.find? (·.expr == text) with
  | some binding =>
      have bound := List.mem_of_find?_eq_some found
      have matched := List.find?_some found
      have same : binding.expr = text := beq_iff_eq.mp matched
      have listed : text ∈ bindings.map (·.expr) := by
        rw [← same]
        exact List.mem_map_of_mem bound
      rw [if_pos listed]
      refine ⟨List.Subset.refl _, ?_, rfl⟩
      rw [← same]
      exact bound
  | none =>
      have absent : text ∉ bindings.map (·.expr) := by
        rw [List.find?_eq_none] at found
        rw [List.mem_map]
        rintro ⟨binding, member, same⟩
        exact found binding member (beq_iff_eq.mpr same)
      rw [if_neg absent]
      refine ⟨List.subset_append_left _ _, ?_, ?_⟩
      · exact List.mem_append_right _ List.mem_cons_self
      · simp

/-- The texts that are bound for a list of printed bodies. A body without outputs needs none. -/
def neededTexts (printed : List (List Argument × String)) : List String :=
  (printed.filter (!·.1.isEmpty)).map (·.2)

/-- The needed texts are those of the bodies that have an output. -/
theorem forall₂_neededTexts {registry : Registry} {forward : Signature}
    {bodies : List FormulaBody} {printed : List (List Argument × String)}
    (emits : List.Forall₂ (Emits registry forward) bodies printed) :
    List.Forall₂ (fun body text => emittedText? registry forward body = some text)
      (bodies.filter (·.outputNames ≠ [])) (neededTexts printed) := by
  induction emits with
  | nil => exact .nil
  | @cons body row bodies printed emitsBody _ inductionHypothesis =>
      obtain ⟨targets, text⟩ := row
      have names := declaredNames_of_arguments emitsBody.areArguments
      cases targets with
      | nil =>
          have none : body.outputNames = [] := names.symm
          rw [List.filter_cons_of_neg (by simp [none])]
          exact inductionHypothesis
      | cons first others =>
          have some : body.outputNames ≠ [] := by simp [← names]
          rw [List.filter_cons_of_pos (by simpa using some)]
          exact .cons emitsBody.emitted inductionHypothesis

private theorem eraseDups_concat (texts : List String) (text : String) :
    (texts ++ [text]).eraseDups =
      if text ∈ texts.eraseDups then texts.eraseDups else texts.eraseDups ++ [text] := by
  rw [List.eraseDups_append]
  by_cases listed : text ∈ texts
  · simp [listed, List.removeAll]
  · simp [listed, List.removeAll, List.eraseDups_cons]

end Backward

namespace BackwardProcedure

open Backward

/-! ### Assembly -/

/-- The procedure grew by these rows. What was bound before is still bound. -/
structure Grows (before after : BackwardProcedure) (rows : List OutputRow) : Prop where
  fields : after.fields = before.fields ++ rows.map (·.field)
  assignments : after.assignments = before.assignments ++ rows.map (·.assignment)
  lines : after.autogradLines = before.autogradLines ++ rows.map (·.line)
  bindings : before.bindings ⊆ after.bindings

theorem Grows.refl (procedure : BackwardProcedure) : Grows procedure procedure [] :=
  ⟨(List.append_nil _).symm, (List.append_nil _).symm, (List.append_nil _).symm,
    List.Subset.refl _⟩

theorem Grows.trans {before between after : BackwardProcedure} {rows more : List OutputRow}
    (first : Grows before between rows) (second : Grows between after more) :
    Grows before after (rows ++ more) where
  fields := by rw [second.fields, first.fields, List.map_append, List.append_assoc]
  assignments := by
    rw [second.assignments, first.assignments, List.map_append, List.append_assoc]
  lines := by rw [second.lines, first.lines, List.map_append, List.append_assoc]
  bindings := List.Subset.trans first.bindings second.bindings

/-- The rows of a body whose text is bound to `source`. -/
def bodyRows (body : FormulaBody) (targets : List Argument) (source printed : String) :
    List OutputRow :=
  targets.zipIdx.map fun (target, position) =>
    let index? := if 1 < targets.length then some position else none
    { output := ⟨body, target.declaredName, position⟩
      field := target
      assignment := ⟨target.name, source, index?⟩
      line := (target.name, subscript printed index?) }

private theorem output_bodyRows {body : FormulaBody} {targets : List Argument}
    (names : targets.map (·.declaredName) = body.outputNames) (source printed : String) :
    (bodyRows body targets source printed).map (·.output) = body.outputs := by
  rw [FormulaBody.outputs, ← names, List.zipIdx_map]
  simp [bodyRows]

private theorem field_bodyRows (body : FormulaBody) (targets : List Argument)
    (source printed : String) :
    (bodyRows body targets source printed).map (·.field) = targets := by
  rw [bodyRows, List.map_map]
  exact List.zipIdx_map_fst 0 targets

private theorem realized_of_mem_bodyRows {registry : Registry} {forward : Signature}
    {body : FormulaBody} {targets : List Argument} {source printed : String}
    {bindings : List Binding} (emits : Emits registry forward body (targets, printed))
    (bound : ⟨source, printed⟩ ∈ bindings) {row : OutputRow}
    (member : row ∈ bodyRows body targets source printed) :
    row.Realized registry forward bindings := by
  have areArguments := emits.areArguments
  have names := declaredNames_of_arguments areArguments
  obtain ⟨⟨target, position⟩, inTargets, rfl⟩ := List.mem_map.mp member
  have isTarget : target ∈ targets := List.fst_mem_of_mem_zipIdx inTargets
  rw [← names, List.map_map, List.map_inj_left] at areArguments
  have sameLength : body.outputNames.length = targets.length := by
    rw [← names, List.length_map]
  exact {
    isArgument := areArguments target isTarget
    assigned := rfl
    labelled := rfl
    indexed := by simp only [BodyOutput.index?, sameLength]
    bound := ⟨printed, emits.emitted, bound, rfl⟩ }

/-- A body adds one row for each of its outputs. -/
theorem addBody_rows {registry : Registry} {forward : Signature} {body : FormulaBody}
    {targets : List Argument} {printed : String}
    (emits : Emits registry forward body (targets, printed)) (procedure : BackwardProcedure) :
    ∃ rows : List OutputRow, rows.map (·.output) = body.outputs ∧
      Grows procedure (procedure.addBody targets printed) rows ∧
      ∀ row ∈ rows, row.Realized registry forward (procedure.addBody targets printed).bindings := by
  have names := declaredNames_of_arguments emits.areArguments
  cases targets with
  | nil =>
      refine ⟨[], ?_, .refl procedure, List.forall_mem_nil _⟩
      rw [FormulaBody.outputs, ← names]
      rfl
  | cons first others =>
      obtain ⟨kept, bound, -⟩ := bind_spec procedure.bindings printed (first.name ++ "_result")
      let source := (bind procedure.bindings printed (first.name ++ "_result")).1
      refine ⟨bodyRows body (first :: others) source printed, output_bodyRows names _ _, ?_,
        fun row member => realized_of_mem_bodyRows emits bound member⟩
      constructor
      · rw [field_bodyRows]
        rfl
      · simp [addBody, bodyRows, indexed, source]
      · simp [addBody, bodyRows, indexed]
      · exact kept

/-- The rows of all bodies, one body after another. -/
theorem addBodies_rows {registry : Registry} {forward : Signature} {bodies : List FormulaBody}
    {printed : List (List Argument × String)}
    (emits : List.Forall₂ (Emits registry forward) bodies printed)
    (procedure : BackwardProcedure) :
    ∃ rows : List OutputRow, rows.map (·.output) = bodies.flatMap FormulaBody.outputs ∧
      Grows procedure (procedure.addBodies printed) rows ∧
      ∀ row ∈ rows, row.Realized registry forward (procedure.addBodies printed).bindings := by
  induction emits generalizing procedure with
  | nil => exact ⟨[], rfl, .refl procedure, List.forall_mem_nil _⟩
  | @cons body row bodies printed emitsBody _ inductionHypothesis =>
      obtain ⟨targets, text⟩ := row
      obtain ⟨rows, ofBody, grows, realized⟩ := addBody_rows emitsBody procedure
      obtain ⟨more, ofBodies, growsMore, realizedMore⟩ :=
        inductionHypothesis (procedure.addBody targets text)
      refine ⟨rows ++ more, ?_, grows.trans growsMore, ?_⟩
      · rw [List.map_append, ofBody, ofBodies, List.flatMap_cons]
      · exact List.forall_mem_append.mpr
          ⟨fun row member => (realized row member).mono growsMore.bindings, realizedMore⟩

/-- The bound texts are the needed ones, each at its first occurrence. -/
theorem addBodies_exprs (procedure : BackwardProcedure) (printed : List (List Argument × String))
    (texts : List String) (bound : procedure.bindings.map (·.expr) = texts.eraseDups) :
    (procedure.addBodies printed).bindings.map (·.expr) =
      (texts ++ neededTexts printed).eraseDups := by
  induction printed generalizing procedure texts with
  | nil => rw [neededTexts, List.filter_nil, List.map_nil, List.append_nil]; exact bound
  | cons row rest inductionHypothesis =>
      obtain ⟨targets, text⟩ := row
      cases targets with
      | nil => exact inductionHypothesis procedure texts bound
      | cons first others =>
          have after : (procedure.addBody (first :: others) text).bindings.map (·.expr) =
              (texts ++ [text]).eraseDups := by
            rw [eraseDups_concat, ← bound]
            exact (bind_spec procedure.bindings text (first.name ++ "_result")).2.2
          have ofRest := inductionHypothesis _ (texts ++ [text]) after
          rw [List.append_assoc] at ofRest
          exact ofRest

theorem nodup_addBodies_exprs (procedure : BackwardProcedure)
    (printed : List (List Argument × String))
    (distinct : (procedure.bindings.map (·.expr)).Nodup) :
    ((procedure.addBodies printed).bindings.map (·.expr)).Nodup := by
  induction printed generalizing procedure with
  | nil => exact distinct
  | cons row rest inductionHypothesis =>
      obtain ⟨targets, text⟩ := row
      apply inductionHypothesis
      cases targets with
      | nil => exact distinct
      | cons first others =>
          have after := (bind_spec procedure.bindings text (first.name ++ "_result")).2.2
          show ((bind procedure.bindings text (first.name ++ "_result")).2.map (·.expr)).Nodup
          rw [after]
          split_ifs with listed
          · exact distinct
          · exact List.nodup_append.mpr ⟨distinct, List.nodup_singleton text, by
              rintro other member _ isText rfl
              exact listed (List.mem_singleton.mp isText ▸ member)⟩

end BackwardProcedure

namespace FormulaEntry

open Backward BackwardProcedure

/-- The parts of a procedure answer to the outputs of an entry. -/
structure RealizedBy (registry : Registry) (entry : FormulaEntry)
    (procedure : BackwardProcedure) : Prop where
  /-- There is one row for each output, in the order of the table. -/
  rows : ∃ rows : List OutputRow,
    rows.map (·.output) = entry.outputs ∧
    rows.map (·.field) = procedure.fields ∧
    rows.map (·.assignment) = procedure.assignments ∧
    rows.map (·.line) = procedure.autogradLines ∧
    ∀ row ∈ rows, row.Realized registry procedure.forward procedure.bindings
  /-- The fields are the arguments that the keys name. -/
  fieldNames : procedure.fields.map (·.declaredName) =
    entry.implementedBodies.flatMap (·.outputNames)
  /-- No argument is named twice. -/
  distinctOutputs : (entry.implementedBodies.flatMap (·.outputNames)).Nodup
  /-- No text is bound twice. -/
  distinctTexts : (procedure.bindings.map (·.expr)).Nodup
  /-- The texts of the bodies with an output are bound, in the order in which they first
  occur. -/
  boundTexts : ∃ texts : List String,
    List.Forall₂ (fun body text => emittedText? registry procedure.forward body = some text)
      (entry.implementedBodies.filter (·.outputNames ≠ [])) texts ∧
    procedure.bindings.map (·.expr) = texts.eraseDups

/-- Every accepted procedure answers to the outputs of its entry. -/
theorem accepted_procedure_realizes_outputs
    {registry : Registry} {entry : FormulaEntry} {procedure : BackwardProcedure}
    (accepted : entry.backward registry = .ok (some procedure)) :
    RealizedBy registry entry procedure := by
  obtain ⟨_, checked, _, _, bodiesChecked, assembled⟩ := backward_eq_some_iff.mp accepted
  obtain ⟨printed, prints, made⟩ := exists_printed_of_assemble assembled
  obtain ⟨emits, distinct, -⟩ := emits_of_checkBodies bodiesChecked prints
  obtain ⟨rows, outputs, grows, realized⟩ :=
    addBodies_rows emits (start procedure.forward checked)
  have exprs := addBodies_exprs (start procedure.forward checked) printed [] rfl
  have distinctExprs := nodup_addBodies_exprs (start procedure.forward checked) printed
    List.nodup_nil
  rw [← made] at grows realized exprs distinctExprs
  refine {
    rows := ⟨rows, outputs, grows.fields.symm, grows.assignments.symm, grows.lines.symm, realized⟩
    fieldNames := ?_
    distinctOutputs := distinct
    distinctTexts := distinctExprs
    boundTexts := ⟨neededTexts printed, forall₂_neededTexts emits, exprs⟩ }
  have named : procedure.fields = rows.map (·.field) := grows.fields
  calc procedure.fields.map (·.declaredName)
      = rows.map (fun row => row.field.declaredName) := by rw [named, List.map_map]; rfl
    _ = rows.map (fun row => row.output.name) :=
        List.map_congr_left fun row member =>
          declaredName_of_argument? (realized row member).isArgument
    _ = (rows.map (·.output)).map (·.name) := by rw [List.map_map]; rfl
    _ = entry.implementedBodies.flatMap (·.outputNames) := by
        rw [outputs]
        exact name_outputs entry

end FormulaEntry

/-! ### An entry whose bodies share a text

One body has two outputs, one is passed over, and the last one is written differently but comes
to the same text as the first. -/

namespace Sample

open Backward

def layer : Signature :=
  { engineName := "layer"
    name := "layer"
    invocation := .method
    args := [⟨"self", "self", .tensor, none⟩, ⟨"weight", "weight", .tensor, none⟩,
      ⟨"bias", "bias", .tensor, none⟩, ⟨"scale", "scale", .float, none⟩]
    returns := [⟨"", "result", .tensor⟩] }

def layerRegistry : Registry := .build [] [layer]

def layerBody : FormulaBody := ⟨"weight , self", "grad * result"⟩

def scaleBody : FormulaBody := ⟨"scale", " not_implemented: scale"⟩

def biasBody : FormulaBody := ⟨"bias", "grad*output"⟩

def layerEntry : FormulaEntry :=
  ⟨"layer(Tensor self, Tensor weight, Tensor bias, Scalar scale)", [layerBody, scaleBody, biasBody]⟩

def layerProcedure : BackwardProcedure :=
  { forward := layer
    fields := [⟨"weight", "weight", .tensor, none⟩, ⟨"self", "self", .tensor, none⟩,
      ⟨"bias", "bias", .tensor, none⟩]
    bindings := [⟨"weight_result", "grad * fwd_result"⟩]
    assignments := [⟨"weight", "weight_result", some 0⟩, ⟨"self", "weight_result", some 1⟩,
      ⟨"bias", "weight_result", none⟩]
    autogradLines := [("weight", "grad * fwd_result[0]"), ("self", "grad * fwd_result[1]"),
      ("bias", "grad * fwd_result")] }

def layerSource : Expr := .binary .mul (.name [] "grad") (.name [] "result")

def biasSource : Expr := .binary .mul (.name [] "grad") (.name [] "output")

/-- A product passes the checks for whatever arguments it is the gradient of. -/
def productChecked (source : Expr) (targets : List Argument) : CheckedBody :=
  { targets, tree := emittedTree layerRegistry layer source, guarded := false, usesMask := false }

theorem parse_layerBody : Expr.parse (trim layerBody.text) = .ok layerSource := by
  with_unfolding_all rfl

private theorem parse_biasBody : Expr.parse (trim biasBody.text) = .ok biasSource := by
  with_unfolding_all rfl

private theorem checkBody_layerBody : checkBody layerRegistry layer [] layerBody =
    .ok (productChecked layerSource
      [⟨"weight", "weight", .tensor, none⟩, ⟨"self", "self", .tensor, none⟩]) :=
  checkBody_eq_ok_iff.mpr ⟨layerSource, _, parse_layerBody, by decide, rfl, by decide, rfl⟩

private theorem checkBody_biasBody : checkBody layerRegistry layer ["weight", "self"] biasBody =
    .ok (productChecked biasSource [⟨"bias", "bias", .tensor, none⟩]) :=
  checkBody_eq_ok_iff.mpr ⟨biasSource, _, parse_biasBody, by decide, rfl, by decide, rfl⟩

theorem backward_layerEntry : layerEntry.backward layerRegistry = .ok (some layerProcedure) := by
  have header : readHeader layerEntry.header =
      .ok ⟨"layer", [⟨"Tensor", "self"⟩, ⟨"Tensor", "weight"⟩, ⟨"Tensor", "bias"⟩,
        ⟨"Scalar", "scale"⟩]⟩ := by
    decide +kernel
  have others : checkBodies layerRegistry layer ["weight", "self"] [scaleBody, biasBody] =
      .ok [productChecked biasSource [⟨"bias", "bias", .tensor, none⟩]] := by
    rw [checkBodies, if_neg (by decide)]
    exact (checkBodies_cons_eq_ok_iff (by decide)).mpr ⟨_, _, checkBody_biasBody, rfl, rfl⟩
  have checked := (checkBodies_cons_eq_ok_iff (by decide)).mpr
    ⟨_, _, checkBody_layerBody, others, rfl⟩
  exact FormulaEntry.backward_eq_some_iff.mpr ⟨_, _, header, rfl, checked, rfl⟩

theorem layerEntry_outputs_are_realized :
    layerEntry.backward layerRegistry = .ok (some layerProcedure) ∧
      FormulaEntry.RealizedBy layerRegistry layerEntry layerProcedure :=
  ⟨backward_layerEntry, FormulaEntry.accepted_procedure_realizes_outputs backward_layerEntry⟩

end Sample

end TensorBindings
