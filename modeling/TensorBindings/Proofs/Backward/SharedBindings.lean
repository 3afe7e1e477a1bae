import Mathlib.Data.List.Nodup
import TensorBindings.Proofs.Backward.Bindings
import TensorBindings.Proofs.Backward.CallSites
import TensorBindings.Proofs.Expr.Grouping
import TensorBindings.Proofs.Expr.NimRecovery

/-!
Contract: which bodies of an entry share a binding.

Owns:
- that renaming keeps a formula within the grammar, as long as it brings in identifiers only;
- the binding that an output is taken from;
- that two outputs are taken from one binding exactly if what is emitted for their bodies has one
  normal form.

A binding is found by its text, and the text is that of the body without its training guard and
with its names changed. So two bodies can share a binding although their own normal forms
differ: `grad * result` and `grad * output` both come to `grad * fwd_result`.

The display name of a helper is any text at all. Where it is no identifier, the text of a call
may be that of another expression: if `f` is displayed as nothing, `f(x)` is written `(x)`.

Does not own: the normal form (`Proofs.Expr.NimRecovery`), and which texts are bound
(`Proofs.Backward.Outputs`).
-/

set_option autoImplicit false

namespace TensorBindings

open TensorBindings.Text

/-! ### Renamed trees in the grammar -/

namespace Expr

private theorem Derives.of_member {value : Expr} {field : String}
    (derives : Derives .suffixed (.member value field)) :
    Derives .suffixed value ∧ IsName field := by
  cases derives with
  | member ofValue isName => exact ⟨ofValue, isName⟩
  | tighter isNext inner =>
      cases isNext
      cases inner with
      | tighter isNext _ => cases isNext

private theorem Derives.areNames {category : Category} {tree : Expr}
    (derives : Derives category tree) {qualifier : List String} {ident : String}
    (same : tree = .name qualifier ident) : (∀ part ∈ qualifier, IsName part) ∧ IsName ident := by
  induction derives with
  | tighter isNext inner inductionHypothesis => exact inductionHypothesis same
  | name areNames isName =>
      cases same
      exact ⟨areNames, isName⟩
  | _ => cases same

private theorem derives_name {ident : String} (isName : IsName ident) :
    Derives .suffixed (.name [] ident) :=
  .tighter rfl (.name (List.forall_mem_nil _) isName)

end Expr

namespace Backward

open TensorBindings.Expr

namespace Renaming

/-- What the names of a tree become has a place in the grammar. -/
private structure KeepsGrammar (names : Renaming) (tree : Expr) : Prop where
  values : ∀ ident ∈ tree.valueNames, Derives .suffixed (names.value ident)
  calls : ∀ style name, (style, name) ∈ tree.callSites →
    IsName (names.callSites.display style name)

private theorem KeepsGrammar.of_part {names : Renaming} {tree part : Expr}
    (keeps : names.KeepsGrammar tree) (inside : part ∈ tree.nodes)
    (fewer : part.valueNames ⊆ tree.valueNames) : names.KeepsGrammar part where
  values ident member := keeps.values ident (fewer member)
  calls style name member := keeps.calls style name (callSites_subset_of_mem inside member)

private theorem KeepsGrammar.of_item {names : Renaming} {tree : Expr} (items : List Expr)
    (keeps : names.KeepsGrammar tree) (inside : nodesOfAll items ⊆ tree.nodes)
    (fewer : valueNamesOfAll items ⊆ tree.valueNames) {item : Expr} (member : item ∈ items) :
    names.KeepsGrammar item := by
  refine keeps.of_part (inside (mem_nodesOfAll member)) fun ident inItem => fewer ?_
  rw [valueNamesOfAll_eq_flatMap]
  exact List.mem_flatMap.mpr ⟨item, member, inItem⟩

/-- A callee that is no name is read. -/
private theorem KeepsGrammar.of_callee {names : Renaming} {callee : Expr} {arguments : List Expr}
    (keeps : names.KeepsGrammar (.call callee arguments))
    (isRead : (Expr.call callee arguments).valueNames =
      callee.valueNames ++ valueNamesOfAll arguments) : names.KeepsGrammar callee := by
  refine keeps.of_part (by simp [nodes]) ?_
  rw [isRead]
  exact List.subset_append_left _ _

private theorem KeepsGrammar.of_argument {names : Renaming} {callee : Expr}
    {arguments : List Expr} (keeps : names.KeepsGrammar (.call callee arguments))
    {argument : Expr} (member : argument ∈ arguments) : names.KeepsGrammar argument := by
  refine keeps.of_item arguments ?_ ?_ member
  · rw [nodes]
    exact List.subset_cons_of_subset _ (List.subset_append_right _ _)
  · cases callee with
    | name qualifier ident => exact List.Subset.refl _
    | _ =>
        simp only [valueNames]
        exact List.subset_append_right _ _

/-- A renamed tree is in the grammar if what its names become is. Elements and fields of the
forward result are no primary expressions. -/
private theorem derives_apply {names : Renaming} {category : Category} {tree : Expr}
    (derives : Derives category tree) (keeps : names.KeepsGrammar tree) :
    Derives category.spelledOut (names.apply tree) := by
  have ofAll {items : List Expr}
      (ofEach : ∀ item ∈ items, Derives .ternary (names.apply item)) :
      ∀ item ∈ names.applyAll items, Derives .ternary item := by
    rw [applyAll_eq_map]
    exact List.forall_mem_map.mpr ofEach
  have atPrimary {tree : Expr} (derives : Derives .primary tree) : Derives .suffixed tree :=
    .tighter rfl derives
  induction derives with
  | tighter isNext inner inductionHypothesis =>
      exact .tighterSpelledOut isNext (inductionHypothesis keeps)
  | @name qualifier ident areNames isName =>
      cases qualifier with
      | nil => exact keeps.values ident List.mem_cons_self
      | cons first others => exact atPrimary (.name areNames isName)
  | number isNumber => exact atPrimary (.number isNumber)
  | string isQuoted => exact atPrimary (.string isQuoted)
  | member ofValue isName inductionHypothesis =>
      have renamed := inductionHypothesis (keeps.of_part (by simp [nodes]) (List.Subset.refl _))
      exact .member renamed isName
  | @call callee arguments ofCallee ofArguments ofRenamed ofEach =>
      have renamedEach := ofAll fun argument member =>
        ofEach argument member (keeps.of_argument member)
      -- A called name is no value: it takes its display name and keeps its place.
      cases callee with
      | name qualifier ident =>
          have called : IsName (names.callSites.function ident) := by
            rw [CallSites.function_eq_display]
            exact keeps.calls .function ident (by simp [Expr.callSites, nodes, callSite?])
          exact .call (atPrimary (.name (ofCallee.areNames rfl).1 called)) renamedEach
      | member receiver method =>
          have called : IsName (names.callSites.method method) := by
            rw [CallSites.method_eq_display]
            exact keeps.calls .method method (by simp [Expr.callSites, nodes, callSite?])
          have renamed := ofRenamed (keeps.of_callee (by simp [valueNames]))
          exact .call (.member renamed.of_member.1 called) renamedEach
      | _ =>
          rw [apply_callValue names rfl]
          exact .call (ofRenamed (keeps.of_callee (by simp [valueNames]))) renamedEach
  | index ofValue ofPosition ofRenamedValue ofRenamedPosition =>
      exact .index
        (ofRenamedValue (keeps.of_part (by simp [nodes]) (List.subset_append_left _ _)))
        (ofRenamedPosition (keeps.of_part (by simp [nodes]) (List.subset_append_right _ _)))
  | unary isOperator ofOperand inductionHypothesis =>
      exact .unary isOperator
        (inductionHypothesis (keeps.of_part (by simp [nodes]) (List.Subset.refl _)))
  | binary isOperator isNext ofLeft ofRight ofRenamedLeft ofRenamedRight =>
      exact .binarySpelledOut isOperator isNext
        (ofRenamedLeft (keeps.of_part (by simp [nodes]) (List.subset_append_left _ _)))
        (ofRenamedRight (keeps.of_part (by simp [nodes]) (List.subset_append_right _ _)))
  | ternary ofCondition ofThen ofElse ofRenamedCondition ofRenamedThen ofRenamedElse =>
      exact .ternary
        (ofRenamedCondition (keeps.of_part (by simp [nodes]) (by simp [valueNames])))
        (ofRenamedThen (keeps.of_part (by simp [nodes]) (by simp [valueNames])))
        (ofRenamedElse (keeps.of_part (by simp [nodes]) (by simp [valueNames])))
  | paren ofInner inductionHypothesis =>
      exact atPrimary (.paren
        (inductionHypothesis (keeps.of_part (by simp [nodes]) (List.Subset.refl _))))
  | list ofItems ofEach =>
      exact atPrimary (.list (ofAll fun item member =>
        ofEach item member (keeps.of_item _ (by simp [nodes]) (List.Subset.refl _) member)))

end Renaming

/-- The names that come into a body in place of its own are identifiers: the display names of what
it calls, and the names of the forward arguments and of the tuple fields that it reads. -/
structure TakesIdentifiers (registry : Registry) (forward : Signature) (body : Expr) : Prop where
  calls : ∀ style name, (style, name) ∈ body.callSites →
    IsName (registry.callSites.display style name)
  arguments : ∀ argument ∈ forward.args, argument.declaredName ∈ body.valueNames →
    IsName argument.name
  fields : forward.returnsTuple = true → ∀ field ∈ forward.returns,
    field.declaredName ∈ body.valueNames → IsName field.name

private theorem isName_parameterName {name : String} (isName : IsName name) :
    IsName (parameterName name) := by
  unfold parameterName
  split_ifs
  · obtain ⟨first, rest, spelled, starts, continues⟩ := isName
    refine ⟨first, rest ++ "_arg".toList, ?_, starts, ?_⟩
    · rw [String.toList_append, spelled, List.cons_append]
    · rw [List.forall_mem_append]
      exact ⟨continues, List.all_eq_true.mp (by decide +kernel)⟩
  · exact isName

/-- What a name of the body stands for is in the grammar. -/
private theorem TakesIdentifiers.derives {registry : Registry} {forward : Signature}
    {body tree : Expr} (takes : TakesIdentifiers registry forward body) {ident : String}
    (isName : IsName ident) (isRead : ident ∈ body.valueNames)
    (standsFor : StandsFor forward ident tree) : Derives .suffixed tree := by
  have ofResult : Derives .suffixed (.name [] forwardResultName) := derives_name (by decide +kernel)
  cases standsFor with
  | result placeholder => exact ofResult
  | @element digits placeholder numbered =>
      have nonempty : digits.toList ≠ [] := by
        rw [Ne, String.toList_eq_nil_iff]
        exact numbered
      have isNumber : IsNumber digits :=
        ⟨digits.toList, [], [], by simp, .whole nonempty placeholder.2, .absent, .absent⟩
      have ofNumber : Derives .primary (.number digits) := .number isNumber
      exact .index ofResult (ofNumber.of_level_le (by decide))
  | @field field noPlaceholder tuple member named =>
      exact .member ofResult (takes.fields tuple field member (named ▸ isRead))
  | @argument argument noPlaceholder noField notGradient notMask member named =>
      exact derives_name (isName_parameterName (takes.arguments argument member (named ▸ isRead)))
  | itself noPlaceholder noField kept => exact derives_name isName

private theorem derives_stripTrainingGuard {source : Expr} (derives : Derives .ternary source) :
    Derives .ternary (stripTrainingGuard source).1 := by
  obtain ⟨category, ofPart⟩ :=
    derives.exists_of_mem_nodes _ (stripTrainingGuard_mem_nodes source)
  exact ofPart.of_level_le (Nat.zero_le _)

/-- What is emitted for a body is in the grammar. -/
private theorem derives_emittedTree {registry : Registry} {forward : Signature} {source : Expr}
    (derives : Derives .ternary source)
    (takes : TakesIdentifiers registry forward (stripTrainingGuard source).1) :
    Derives .ternary (emittedTree registry forward source) := by
  have ofBody := derives_stripTrainingGuard derives
  refine Renaming.derives_apply ofBody ⟨fun ident isRead => ?_, takes.calls⟩
  obtain ⟨_, ofName⟩ := ofBody.exists_of_mem_nodes _ (mem_nodes_of_mem_valueNames isRead)
  exact takes.derives (ofName.areNames rfl).2 isRead
    (Renaming.value_standsFor forward registry.callSites ident)

end Backward

/-! ### Bindings of outputs -/

namespace FormulaEntry

open Backward BackwardProcedure

/-- The gradient of the output is taken from the binding: it has the text that is emitted for the
body of the output, and the assignment at the place of the output reads it. -/
structure TakenFrom (registry : Registry) (entry : FormulaEntry) (procedure : BackwardProcedure)
    (output : BodyOutput) (binding : Binding) : Prop where
  bound : binding ∈ procedure.bindings
  emitted : emittedText? registry procedure.forward output.body = some binding.expr
  assigned : ∃ assignment, (output, assignment) ∈ entry.outputs.zip procedure.assignments ∧
    assignment.source = binding.name

/-- Bindings are shared along the normal forms of what is emitted. -/
structure SharesByNormalForm (registry : Registry) (entry : FormulaEntry)
    (procedure : BackwardProcedure) : Prop where
  taken : ∀ output ∈ entry.outputs, ∃! binding, TakenFrom registry entry procedure output binding
  /-- Two outputs are taken from one binding exactly if the bodies without their training guards
  have one normal form after renaming. -/
  shared : ∀ {left right : BodyOutput} {leftBinding rightBinding : Binding},
    TakenFrom registry entry procedure left leftBinding →
    TakenFrom registry entry procedure right rightBinding →
    ∀ {leftSource rightSource : Expr},
      Expr.parse (trim left.body.text) = .ok leftSource →
      Expr.parse (trim right.body.text) = .ok rightSource →
      TakesIdentifiers registry procedure.forward (stripTrainingGuard leftSource).1 →
      TakesIdentifiers registry procedure.forward (stripTrainingGuard rightSource).1 →
      (leftBinding = rightBinding ↔
        (emittedTree registry procedure.forward leftSource).normal =
          (emittedTree registry procedure.forward rightSource).normal)

section Accepted

variable {registry : Registry} {entry : FormulaEntry} {procedure : BackwardProcedure}

private theorem nodup_exprs_of_backward
    (accepted : entry.backward registry = .ok (some procedure)) :
    (procedure.bindings.map (·.expr)).Nodup := by
  obtain ⟨_, checked, _, _, _, assembled⟩ := backward_eq_some_iff.mp accepted
  obtain ⟨printed, _, made⟩ := exists_printed_of_assemble assembled
  rw [made]
  exact nodup_addBodies_exprs _ printed List.nodup_nil

private theorem TakenFrom.expr_eq_nimText {output : BodyOutput} {binding : Binding}
    (taken : TakenFrom registry entry procedure output binding) {source : Expr}
    (reads : Expr.parse (trim output.body.text) = .ok source)
    (derives : Expr.Derives .ternary (emittedTree registry procedure.forward source)) :
    binding.expr = (emittedTree registry procedure.forward source).nimText := by
  obtain ⟨other, alsoReads, written⟩ := emittedText?_eq_some_iff.mp taken.emitted
  cases reads.symm.trans alsoReads
  exact Except.ok.inj (written.symm.trans (Expr.toNim_of_derives derives))

private theorem exists_takenFrom (accepted : entry.backward registry = .ok (some procedure))
    {output : BodyOutput} (member : output ∈ entry.outputs) :
    ∃ binding, TakenFrom registry entry procedure output binding := by
  obtain ⟨rows, outputs, assignments, -, realized⟩ := exists_rows_of_backward accepted
  rw [← outputs] at member
  obtain ⟨row, inRows, rfl⟩ := List.mem_map.mp member
  obtain ⟨text, emitted, bound, -⟩ := (realized row inRows).bound
  refine ⟨⟨row.assignment.source, text⟩, bound, emitted, row.assignment, ?_, rfl⟩
  rw [← outputs, ← assignments, List.zip_map', List.mem_map]
  exact ⟨row, inRows, rfl⟩

private theorem sharesByNormalForm_of_backward
    (accepted : entry.backward registry = .ok (some procedure)) :
    SharesByNormalForm registry entry procedure := by
  have eq_of_expr {left right : Binding} (inLeft : left ∈ procedure.bindings)
      (inRight : right ∈ procedure.bindings) (same : left.expr = right.expr) : left = right :=
    List.inj_on_of_nodup_map (nodup_exprs_of_backward accepted) inLeft inRight same
  constructor
  · -- A text is bound once, so the binding of an output is known by its text.
    intro output member
    obtain ⟨binding, taken⟩ := exists_takenFrom accepted member
    refine ⟨binding, taken, fun other takenOther => eq_of_expr takenOther.bound taken.bound ?_⟩
    exact Option.some.inj (takenOther.emitted.symm.trans taken.emitted)
  · intro left right leftBinding rightBinding takenLeft takenRight leftSource rightSource
      readsLeft readsRight takesLeft takesRight
    have derivesLeft := derives_emittedTree (Expr.derives_of_parse readsLeft).1 takesLeft
    have derivesRight := derives_emittedTree (Expr.derives_of_parse readsRight).1 takesRight
    have leftText := takenLeft.expr_eq_nimText readsLeft derivesLeft
    have rightText := takenRight.expr_eq_nimText readsRight derivesRight
    rw [← Expr.nimText_eq_iff derivesLeft derivesRight, ← leftText, ← rightText]
    exact ⟨congrArg Binding.expr, eq_of_expr takenLeft.bound takenRight.bound⟩

end Accepted

/-- Two trees that were read have one text exactly if they have one normal form. The outputs of
an accepted entry are taken from one binding exactly if what is emitted for their bodies has one
normal form, as long as the names that come into the bodies are identifiers. -/
theorem texts_and_bindings_follow_normal_forms :
    (∀ {first second : String} {left right : Expr},
      Expr.parse first = .ok left → Expr.parse second = .ok right →
      ∃ leftText rightText, left.toNim = .ok leftText ∧ right.toNim = .ok rightText ∧
        (leftText = rightText ↔ left.normal = right.normal)) ∧
    ∀ {registry : Registry} {entry : FormulaEntry} {procedure : BackwardProcedure},
      entry.backward registry = .ok (some procedure) →
      SharesByNormalForm registry entry procedure :=
  ⟨Expr.texts_of_parse, sharesByNormalForm_of_backward⟩

/-- A call that is displayed without a name has the text of a group. -/
example : (Expr.call (.name [] "") [.name [] "grad"]).toNim =
    (Expr.paren (.name [] "grad")).toNim := rfl

end FormulaEntry

/-! ### Two spellings of one expression, and an entry with two words for the forward result -/

namespace Sample

open Backward

/-- Two spellings of one expression, with keywords of Nim for names. -/
def roundaboutText : String := "-(-at::not::and) == (if ? .5f : else[1.e3])"

def plainText : String := "--not.and == (if ? 0.5 : else[1.0e3])"

def roundaboutTree : Expr :=
  .binary .eq (.unary .minus (.paren (.unary .minus (.name ["at", "not"] "and"))))
    (.paren (.ternary (.name [] "if") (.number ".5f") (.index (.name [] "else") (.number "1.e3"))))

def plainTree : Expr :=
  .binary .eq (.unary .minus (.unary .minus (.member (.name [] "not") "and")))
    (.paren (.ternary (.name [] "if") (.number "0.5") (.index (.name [] "else") (.number "1.0e3"))))

private theorem parse_roundaboutText : Expr.parse roundaboutText = .ok roundaboutTree := by
  with_unfolding_all rfl

private theorem parse_plainText : Expr.parse plainText = .ok plainTree := by
  with_unfolding_all rfl

/-- The text of both. -/
def commonText : String := "-(-not.and) == ((if if: 0.5 else: else[1.0e3]))"

/-- A gradient in terms of the forward result, with either word for it, and another one. -/
def resultBody : FormulaBody := ⟨"self", "grad * result"⟩

def outputBody : FormulaBody := ⟨"weight", "grad * output"⟩

def sumBody : FormulaBody := ⟨"bias", "grad + result"⟩

def resultEntry : FormulaEntry := ⟨layerEntry.header, [resultBody, outputBody, sumBody]⟩

def productBinding : Binding := ⟨"self_result", "grad * fwd_result"⟩

def sumBinding : Binding := ⟨"bias_result", "grad + fwd_result"⟩

def resultProcedure : BackwardProcedure :=
  { forward := layer
    fields := [⟨"self", "self", .tensor, none⟩, ⟨"weight", "weight", .tensor, none⟩,
      ⟨"bias", "bias", .tensor, none⟩]
    bindings := [productBinding, sumBinding]
    assignments := [⟨"self", "self_result", none⟩, ⟨"weight", "self_result", none⟩,
      ⟨"bias", "bias_result", none⟩]
    autogradLines := [("self", "grad * fwd_result"), ("weight", "grad * fwd_result"),
      ("bias", "grad + fwd_result")] }

def sumSource : Expr := .binary .add (.name [] "grad") (.name [] "result")

private theorem backward_resultEntry :
    resultEntry.backward layerRegistry = .ok (some resultProcedure) := by
  decide +kernel

private theorem outputs_zip_assignments_of_resultEntry :
    resultEntry.outputs.zip resultProcedure.assignments =
      [(⟨resultBody, "self", 0⟩, ⟨"self", "self_result", none⟩),
        (⟨outputBody, "weight", 0⟩, ⟨"weight", "self_result", none⟩),
        (⟨sumBody, "bias", 0⟩, ⟨"bias", "bias_result", none⟩)] := rfl

private theorem takenFrom_resultBody :
    FormulaEntry.TakenFrom layerRegistry resultEntry resultProcedure ⟨resultBody, "self", 0⟩
      productBinding := by
  refine ⟨by decide, by decide +kernel, ⟨"self", "self_result", none⟩, ?_, rfl⟩
  rw [outputs_zip_assignments_of_resultEntry]
  simp

private theorem takenFrom_outputBody :
    FormulaEntry.TakenFrom layerRegistry resultEntry resultProcedure ⟨outputBody, "weight", 0⟩
      productBinding := by
  refine ⟨by decide, by decide +kernel, ⟨"weight", "self_result", none⟩, ?_, rfl⟩
  rw [outputs_zip_assignments_of_resultEntry]
  simp

private theorem takenFrom_sumBody :
    FormulaEntry.TakenFrom layerRegistry resultEntry resultProcedure ⟨sumBody, "bias", 0⟩
      sumBinding := by
  refine ⟨by decide, by decide +kernel, ⟨"bias", "bias_result", none⟩, ?_, rfl⟩
  rw [outputs_zip_assignments_of_resultEntry]
  simp

private theorem parse_resultBody : Expr.parse (trim resultBody.text) = .ok layerSource := by
  with_unfolding_all rfl

private theorem parse_outputBody : Expr.parse (trim outputBody.text) = .ok biasSource := by
  with_unfolding_all rfl

private theorem parse_sumBody : Expr.parse (trim sumBody.text) = .ok sumSource := by
  with_unfolding_all rfl

/-- All arguments of the layer are identifiers, and it returns no tuple. -/
private theorem takesIdentifiers_layer {body : Expr} (callsNothing : body.callSites = []) :
    TakesIdentifiers layerRegistry layer body where
  calls style name member := by
    rw [callsNothing] at member
    cases member
  arguments argument member _ := by
    have areNames : ∀ argument ∈ layer.args, Expr.IsName argument.name := by decide +kernel
    exact areNames argument member
  fields isTuple := by cases isTuple

/-- The two words for the forward result are one name after renaming, so the first two outputs
share a binding. The third has its own. -/
theorem bindings_of_resultEntry_follow_normal_forms :
    Expr.parse roundaboutText = .ok roundaboutTree ∧ Expr.parse plainText = .ok plainTree ∧
      roundaboutTree.normal = plainTree.normal ∧
      resultEntry.backward layerRegistry = .ok (some resultProcedure) ∧
      (emittedTree layerRegistry layer layerSource).normal =
        (emittedTree layerRegistry layer biasSource).normal ∧
      (emittedTree layerRegistry layer layerSource).normal ≠
        (emittedTree layerRegistry layer sumSource).normal := by
  obtain ⟨ofTexts, ofBindings⟩ := FormulaEntry.texts_and_bindings_follow_normal_forms
  obtain ⟨leftText, rightText, ofLeft, ofRight, sameIff⟩ :=
    ofTexts parse_roundaboutText parse_plainText
  have sameText : leftText = rightText := by
    have ofRoundabout : roundaboutTree.toNim = .ok commonText := rfl
    have ofPlain : plainTree.toNim = .ok commonText := rfl
    rw [ofRoundabout] at ofLeft
    rw [ofPlain] at ofRight
    rw [← Except.ok.inj ofLeft, ← Except.ok.inj ofRight]
  have shares := ofBindings backward_resultEntry
  have different : productBinding ≠ sumBinding := by decide
  refine ⟨parse_roundaboutText, parse_plainText, sameIff.mp sameText, backward_resultEntry, ?_, ?_⟩
  · exact (shares.shared takenFrom_resultBody takenFrom_outputBody parse_resultBody
      parse_outputBody (takesIdentifiers_layer rfl) (takesIdentifiers_layer rfl)).mp rfl
  · exact fun same => different ((shares.shared takenFrom_resultBody takenFrom_sumBody
      parse_resultBody parse_sumBody (takesIdentifiers_layer rfl)
      (takesIdentifiers_layer rfl)).mpr same)

/-- Bodies that share a binding although they differ by more than their spelling. -/
theorem result_and_output_share_a_binding :
    resultEntry.backward layerRegistry = .ok (some resultProcedure) ∧
      Expr.parse (trim resultBody.text) = .ok layerSource ∧
      Expr.parse (trim outputBody.text) = .ok biasSource ∧
      layerSource.normal ≠ biasSource.normal ∧
      FormulaEntry.TakenFrom layerRegistry resultEntry resultProcedure
        ⟨resultBody, "self", 0⟩ productBinding ∧
      FormulaEntry.TakenFrom layerRegistry resultEntry resultProcedure
        ⟨outputBody, "weight", 0⟩ productBinding := by
  have different : layerSource.normal ≠ biasSource.normal := by
    intro same
    have sameName : Expr.name [] "result" = .name [] "output" := (Expr.binary.inj same).2.2
    simp at sameName
  exact ⟨backward_resultEntry, parse_resultBody, parse_outputBody, different,
    takenFrom_resultBody, takenFrom_outputBody⟩

end Sample

end TensorBindings
