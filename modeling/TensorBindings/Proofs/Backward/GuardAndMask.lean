import TensorBindings.Emission
import TensorBindings.Proofs.Backward.Outputs

/-!
Contract: which bodies decide the training guard and the mask of a procedure.

Owns: the bodies that are a choice between training and evaluation, the value that such a body has
in training, the bodies that use the mask, and what an accepted entry makes of them. The guard is
there as soon as one body asks for it. The mask has as many places as the first body that uses it
has outputs. The lines of the procedure state the guard once, before any binding.

A branch for evaluation is dropped before the mask is looked for, so that a mask which occurs there
only is no parameter.

Does not own: the names of the parameters (`Proofs.Backward.Parameters`).
-/

set_option autoImplicit false

namespace TensorBindings

open TensorBindings.Text

private theorem Expr.mentions_iff_mem_nodes {tree : Expr} {ident : String} :
    tree.mentions ident = true ↔ Expr.name [] ident ∈ tree.nodes := by
  unfold mentions
  rw [List.any_eq_true]
  constructor
  · rintro ⟨node, member, isName⟩
    unfold isBareName at isName
    split at isName
    · rw [beq_iff_eq] at isName
      rw [← isName]
      exact member
    · cases isName
  · intro member
    exact ⟨.name [] ident, member, beq_self_eq_true ident⟩

namespace Backward

/-! ### Bodies -/

/-- The tree is a choice between training and evaluation, with this value for training. -/
def IsTrainingChoice (tree value : Expr) : Prop :=
  ∃ other, tree = .ternary (.name [] trainingName) value other

/-- The value of a tree in training: that of the choice, if the tree is one, or the tree itself. -/
def IsTrainingValue (tree value : Expr) : Prop :=
  IsTrainingChoice tree value ∨ (value = tree ∧ ∀ branch, ¬ IsTrainingChoice tree branch)

private theorem stripTrainingGuard_of_choice {tree value : Expr}
    (isChoice : IsTrainingChoice tree value) :
    stripTrainingGuard tree = (value, true) := by
  obtain ⟨other, rfl⟩ := isChoice
  rw [stripTrainingGuard, if_pos rfl]

private theorem stripTrainingGuard_of_no_choice {tree : Expr}
    (noChoice : ∀ value, ¬ IsTrainingChoice tree value) :
    stripTrainingGuard tree = (tree, false) := by
  unfold stripTrainingGuard
  split
  · next flag value other =>
      refine if_neg fun isTraining => noChoice value ⟨other, ?_⟩
      rw [isTraining]
  · rfl

private theorem stripTrainingGuard_snd_iff {tree : Expr} :
    (stripTrainingGuard tree).2 = true ↔ ∃ value, IsTrainingChoice tree value := by
  constructor
  · intro guarded
    by_contra noChoice
    rw [not_exists] at noChoice
    rw [stripTrainingGuard_of_no_choice noChoice] at guarded
    cases guarded
  · rintro ⟨value, isChoice⟩
    rw [stripTrainingGuard_of_choice isChoice]

private theorem isTrainingValue_iff {tree value : Expr} :
    IsTrainingValue tree value ↔ (stripTrainingGuard tree).1 = value := by
  by_cases isGuarded : ∃ branch, IsTrainingChoice tree branch
  · obtain ⟨branch, isChoice⟩ := isGuarded
    rw [stripTrainingGuard_of_choice isChoice]
    constructor
    · rintro (sameChoice | ⟨-, noChoice⟩)
      · have same := stripTrainingGuard_of_choice sameChoice
        rw [stripTrainingGuard_of_choice isChoice] at same
        exact congrArg Prod.fst same
      · exact absurd isChoice (noChoice branch)
    · rintro rfl
      exact Or.inl isChoice
  · rw [not_exists] at isGuarded
    rw [stripTrainingGuard_of_no_choice isGuarded]
    constructor
    · rintro (isChoice | ⟨same, -⟩)
      · exact absurd isChoice (isGuarded value)
      · exact same.symm
    · rintro rfl
      exact Or.inr ⟨rfl, isGuarded⟩

end Backward

open Backward

/-- The body reads as a choice between training and evaluation. -/
def FormulaBody.IsGuarded (body : FormulaBody) : Prop :=
  ∃ tree value, Expr.parse (trim body.text) = .ok tree ∧ IsTrainingChoice tree value

/-- The mask occurs, as an unqualified name, in the value of the body for training. -/
def FormulaBody.UsesMask (body : FormulaBody) : Prop :=
  ∃ tree value, Expr.parse (trim body.text) = .ok tree ∧ IsTrainingValue tree value ∧
    Expr.name [] maskName ∈ value.nodes

namespace Backward

/-- What was checked says about guard, mask and outputs what the body says. -/
structure Reports (body : FormulaBody) (checked : CheckedBody) : Prop where
  guarded : checked.guarded = true ↔ body.IsGuarded
  usesMask : checked.usesMask = true ↔ body.UsesMask
  outputs : checked.targets.length = body.outputNames.length

private theorem reports_of_checkBody {registry : Registry} {forward : Signature}
    {seen : List String} {body : FormulaBody} {checked : CheckedBody}
    (accepted : checkBody registry forward seen body = .ok checked) : Reports body checked := by
  obtain ⟨source, targets, parsed, -, outputs, -, rfl⟩ := checkBody_eq_ok_iff.mp accepted
  obtain ⟨-, -, areArguments⟩ := targets_of_checkOutputs outputs
  have isSource {tree : Expr} (reads : Expr.parse (trim body.text) = .ok tree) : tree = source :=
    Except.ok.inj (reads.symm.trans parsed)
  refine { guarded := ?_, usesMask := ?_, outputs := ?_ }
  · rw [stripTrainingGuard_snd_iff]
    constructor
    · rintro ⟨value, isChoice⟩
      exact ⟨source, value, parsed, isChoice⟩
    · rintro ⟨tree, value, reads, isChoice⟩
      rw [isSource reads] at isChoice
      exact ⟨value, isChoice⟩
  · rw [Expr.mentions_iff_mem_nodes]
    constructor
    · intro member
      exact ⟨source, _, parsed, isTrainingValue_iff.mpr rfl, member⟩
    · rintro ⟨tree, value, reads, isValue, member⟩
      rw [isSource reads, isTrainingValue_iff] at isValue
      rw [isValue]
      exact member
  · have sameLength := congrArg List.length areArguments
    rw [List.length_map, List.length_map] at sameLength
    exact sameLength.symm

private theorem reports_of_checkBodies {registry : Registry} {forward : Signature}
    {seen : List String} {bodies : List FormulaBody} {checked : List CheckedBody}
    (accepted : checkBodies registry forward seen bodies = .ok checked) :
    List.Forall₂ Reports (bodies.filter (·.isImplemented)) checked := by
  induction bodies generalizing seen checked with
  | nil =>
      cases accepted
      exact .nil
  | cons body rest inductionHypothesis =>
      by_cases implemented : body.isImplemented = true
      · obtain ⟨first, others, firstChecked, othersChecked, rfl⟩ :=
          (checkBodies_cons_eq_ok_iff implemented).mp accepted
        rw [List.filter_cons_of_pos implemented]
        exact .cons (reports_of_checkBody firstChecked) (inductionHypothesis othersChecked)
      · rw [checkBodies, if_neg implemented] at accepted
        rw [List.filter_cons_of_neg implemented]
        exact inductionHypothesis accepted

section Bodies

variable {bodies : List FormulaBody} {checked : List CheckedBody}

private theorem any_guarded_iff (reports : List.Forall₂ Reports bodies checked) :
    checked.any (·.guarded) = true ↔ ∃ body ∈ bodies, body.IsGuarded := by
  induction reports with
  | nil => simp
  | cons ofBody _ inductionHypothesis =>
      rw [List.any_cons, Bool.or_eq_true, ofBody.guarded, inductionHypothesis,
        List.exists_mem_cons_iff]

private theorem find?_usesMask_eq_none_iff (reports : List.Forall₂ Reports bodies checked) :
    checked.find? (·.usesMask) = none ↔ ∀ body ∈ bodies, ¬ body.UsesMask := by
  induction reports with
  | nil => simp
  | cons ofBody _ inductionHypothesis =>
      rw [List.forall_mem_cons, ← inductionHypothesis, ← ofBody.usesMask, List.find?_eq_none,
        List.find?_eq_none, List.forall_mem_cons]

/-- Of the bodies that use the mask, the first one is found. -/
theorem find?_usesMask_of_first (reports : List.Forall₂ Reports bodies checked)
    {before after : List FormulaBody} {body : FormulaBody}
    (split : bodies = before ++ body :: after) (noneBefore : ∀ earlier ∈ before, ¬ earlier.UsesMask)
    (usesMask : body.UsesMask) :
    ∃ first, checked.find? (·.usesMask) = some first ∧ Reports body first := by
  induction reports generalizing before with
  | nil => cases before <;> cases split
  | @cons head result bodies checked ofHead _ inductionHypothesis =>
      cases before with
      | nil =>
          obtain ⟨rfl, -⟩ := List.cons.inj split
          exact ⟨result, List.find?_cons_of_pos (ofHead.usesMask.mpr usesMask), ofHead⟩
      | cons earlier others =>
          obtain ⟨rfl, splitRest⟩ := List.cons.inj split
          obtain ⟨notEarlier, noneOthers⟩ := List.forall_mem_cons.mp noneBefore
          rw [List.find?_cons_of_neg (fun used => notEarlier (ofHead.usesMask.mp used))]
          exact inductionHypothesis splitRest noneOthers

end Bodies

end Backward

/-- Adding outputs does not change the guard. -/
theorem BackwardProcedure.trainingGuard_addBodies (procedure : BackwardProcedure)
    (bodies : List (List Argument × String)) :
    (procedure.addBodies bodies).trainingGuard = procedure.trainingGuard := by
  induction bodies generalizing procedure with
  | nil => rfl
  | cons body rest inductionHypothesis =>
      obtain ⟨targets, printed⟩ := body
      rw [addBodies, inductionHypothesis]
      cases targets <;> rfl

/-! ### Lines -/

namespace Emission

/-- The statement that refuses to go on outside of training. -/
def guardStatement : List String :=
  ["  if not training:", "    raiseAssert(\"" ++ guardMessage ++ "\")"]

def isLet (line : String) : Bool := startsWith "  let " line

/-- The statement stands among the lines once and as a whole, and no line before it is a let. -/
def StandsOnceBeforeLets (statement lines : List String) : Prop :=
  ∃ before after, lines = before ++ (statement ++ after) ∧
    (∀ line ∈ statement, line ∉ before ∧ line ∉ after) ∧ ∀ line ∈ before, isLet line = false

/-- How the lines of a procedure begin that do not belong to its guard. -/
def otherBeginnings : List String := ["proc ", "  let ", "  result."]

private theorem startsWith_append (start rest : String) :
    startsWith start (start ++ rest) = true := by
  rw [startsWith, String.toList_append, List.isPrefixOf_iff_prefix]
  exact List.prefix_append _ _

private theorem notMem_guardStatement {start : String} (isOther : start ∈ otherBeginnings)
    (rest : String) : start ++ rest ∉ guardStatement := by
  have apart : otherBeginnings.all (fun start =>
      guardStatement.all fun line => !startsWith start line) = true := by decide
  intro member
  have noBeginning := List.all_eq_true.mp (List.all_eq_true.mp apart start isOther) _ member
  rw [startsWith_append] at noBeginning
  cases noBeginning

/-- The lines behind the guard are none of its lines. -/
theorem notMem_guardStatement_of_mem {procedure : BackwardProcedure} {line : String}
    (member : line ∈ procedure.bindings.map bindingLine ++
      procedure.assignments.map assignmentLine) : line ∉ guardStatement := by
  rcases List.mem_append.mp member with isBinding | isAssignment
  · obtain ⟨binding, -, rfl⟩ := List.mem_map.mp isBinding
    rw [bindingLine, String.append_assoc, String.append_assoc]
    exact notMem_guardStatement (by decide) _
  · obtain ⟨assignment, -, rfl⟩ := List.mem_map.mp isAssignment
    rw [assignmentLine, String.append_assoc, String.append_assoc]
    exact notMem_guardStatement (by decide) _

private theorem procedureLines_eq (procedure : BackwardProcedure) :
    ∃ declared, procedureLines procedure = ["proc " ++ declared] ++ (guardLines procedure ++
      (procedure.bindings.map bindingLine ++ procedure.assignments.map assignmentLine)) := by
  refine ⟨procedure.name ++ ("*(" ++ (procedure.parameterText ++ ("): " ++
    (procedure.returnType ++ (" " ++ (pragma ++ " =")))))), ?_⟩
  simp only [procedureLines, String.append_assoc, List.append_assoc]

/-- A procedure with a guard states it once and before its bindings. -/
theorem standsOnceBeforeLets_of_guard {procedure : BackwardProcedure}
    (guarded : procedure.trainingGuard = true) :
    StandsOnceBeforeLets guardStatement (procedureLines procedure) := by
  obtain ⟨declared, split⟩ := procedureLines_eq procedure
  have isGuard : guardLines procedure = guardStatement := if_pos guarded
  rw [isGuard] at split
  refine ⟨_, _, split, fun line ofGuard => ⟨?_, ?_⟩, ?_⟩
  · intro isDeclaration
    rw [List.mem_singleton.mp isDeclaration] at ofGuard
    exact notMem_guardStatement (by decide) _ ofGuard
  · intro isBehind
    exact notMem_guardStatement_of_mem isBehind ofGuard
  · intro line isDeclaration
    rw [List.mem_singleton.mp isDeclaration, isLet, startsWith, String.toList_append]
    rfl

/-- A procedure without a guard has none of its lines. -/
theorem notMem_procedureLines_of_no_guard {procedure : BackwardProcedure}
    (unguarded : procedure.trainingGuard = false) :
    ∀ line ∈ guardStatement, line ∉ procedureLines procedure := by
  intro line ofGuard member
  obtain ⟨declared, split⟩ := procedureLines_eq procedure
  have noGuard : guardLines procedure = [] := if_neg (by rw [unguarded]; exact Bool.false_ne_true)
  rw [split, noGuard, List.nil_append, List.mem_append] at member
  rcases member with isDeclaration | isBehind
  · rw [List.mem_singleton.mp isDeclaration] at ofGuard
    exact notMem_guardStatement (by decide) _ ofGuard
  · exact notMem_guardStatement_of_mem isBehind ofGuard

/-- The guard is stated once and before every let exactly if the procedure has one. -/
theorem standsOnceBeforeLets_iff (procedure : BackwardProcedure) :
    StandsOnceBeforeLets guardStatement (procedureLines procedure) ↔
      procedure.trainingGuard = true := by
  constructor
  · rintro ⟨before, after, split, -⟩
    by_contra unguarded
    rw [Bool.not_eq_true] at unguarded
    have absent := notMem_procedureLines_of_no_guard unguarded _ List.mem_cons_self
    rw [split] at absent
    exact absent (List.mem_append_right _ (List.mem_append_left _ List.mem_cons_self))
  · exact standsOnceBeforeLets_of_guard

end Emission

/-! ### Entries -/

namespace FormulaEntry

open BackwardProcedure

/-- Guard and mask of a procedure are those that the implemented bodies of an entry ask for. -/
structure DecidesGuardAndMask (entry : FormulaEntry) (procedure : BackwardProcedure) : Prop where
  /-- Any body can ask for the guard. -/
  guarded : procedure.trainingGuard = true ↔ ∃ body ∈ entry.implementedBodies, body.IsGuarded
  /-- Without a body that uses the mask in training there is none. -/
  unmasked : procedure.maskSize = none ↔ ∀ body ∈ entry.implementedBodies, ¬ body.UsesMask
  /-- The first body that uses the mask in training decides its size. -/
  maskSize : ∀ before body after, entry.implementedBodies = before ++ body :: after →
    (∀ earlier ∈ before, ¬ earlier.UsesMask) → body.UsesMask →
    procedure.maskSize = some body.outputNames.length
  /-- The lines state the guard once and before every let exactly if there is one. -/
  stated : Emission.StandsOnceBeforeLets Emission.guardStatement
    (Emission.procedureLines procedure) ↔ procedure.trainingGuard = true
  /-- Otherwise no line of it is there. -/
  unstated : procedure.trainingGuard = false →
    ∀ line ∈ Emission.guardStatement, line ∉ Emission.procedureLines procedure

theorem accepted_bodies_decide_guard_and_mask
    {registry : Registry} {entry : FormulaEntry} {procedure : BackwardProcedure}
    (accepted : entry.backward registry = .ok (some procedure)) :
    entry.DecidesGuardAndMask procedure := by
  obtain ⟨_, checked, _, _, bodiesChecked, assembled⟩ := backward_eq_some_iff.mp accepted
  have reports := reports_of_checkBodies bodiesChecked
  have guarded : procedure.trainingGuard = checked.any (·.guarded) := by
    obtain ⟨printed, -, made⟩ := exists_printed_of_assemble assembled
    rw [made]
    exact trainingGuard_addBodies (start procedure.forward checked) printed
  have masked := (assemble_frame assembled).2
  refine {
    guarded := ?_
    unmasked := ?_
    maskSize := ?_
    stated := Emission.standsOnceBeforeLets_iff procedure
    unstated := Emission.notMem_procedureLines_of_no_guard }
  · rw [guarded]
    exact any_guarded_iff reports
  · rw [masked, Option.map_eq_none_iff]
    exact find?_usesMask_eq_none_iff reports
  · intro before body after split noneBefore usesMask
    obtain ⟨first, found, ofBody⟩ := find?_usesMask_of_first reports split noneBefore usesMask
    rw [masked, found, Option.map_some, ofBody.outputs]

end FormulaEntry

/-! ### A mask in a dropped branch

The first body has the mask for evaluation only. The second has two outputs and uses it, and so does
the third, which has one. -/

namespace Sample

def maskedEntry : FormulaEntry :=
  ⟨"layer(Tensor self, Tensor weight, Tensor bias, Scalar scale)",
    [⟨"scale", "training ? grad : grad_input_mask"⟩, ⟨"weight, self", "grad * grad_input_mask"⟩,
      ⟨"bias", "grad_input_mask"⟩]⟩

def maskedProcedure : BackwardProcedure :=
  { forward := layer
    fields := [⟨"scale", "scale", .float, none⟩, ⟨"weight", "weight", .tensor, none⟩,
      ⟨"self", "self", .tensor, none⟩, ⟨"bias", "bias", .tensor, none⟩]
    bindings := [⟨"scale_result", "grad"⟩, ⟨"weight_result", "grad * grad_input_mask"⟩,
      ⟨"bias_result", "grad_input_mask"⟩]
    assignments := [⟨"scale", "scale_result", none⟩, ⟨"weight", "weight_result", some 0⟩,
      ⟨"self", "weight_result", some 1⟩, ⟨"bias", "bias_result", none⟩]
    trainingGuard := true
    maskSize := some 2
    autogradLines := [("scale", "grad"), ("weight", "grad * grad_input_mask[0]"),
      ("self", "grad * grad_input_mask[1]"), ("bias", "grad_input_mask")] }

private theorem backward_maskedEntry :
    maskedEntry.backward layerRegistry = .ok (some maskedProcedure) := by
  decide +kernel

theorem maskedEntry_decides_guard_and_mask :
    maskedEntry.backward layerRegistry = .ok (some maskedProcedure) ∧
      maskedEntry.DecidesGuardAndMask maskedProcedure :=
  ⟨backward_maskedEntry,
    FormulaEntry.accepted_bodies_decide_guard_and_mask backward_maskedEntry⟩

end Sample

end TensorBindings
