import TensorBindings.Proofs.Backward.Bindings
import TensorBindings.Proofs.Expr.NimRecovery

/-!
Contract: the elements of bodies with several outputs.

Owns: the tree that a text stands for once a subscript is put behind it, and when this is an
element of the whole body.

A backward procedure binds a body before it takes an element of it. The autograd block has the
text of the body in place, with the subscript behind it. Nothing puts parentheses around the body,
and a subscript binds tighter than every operator, so the two agree exactly on the bodies whose
outermost node is no operator.

Does not own: which text belongs to an output (`Proofs.Backward.Outputs`).
-/

set_option autoImplicit false

namespace TensorBindings

open TensorBindings.Text

namespace Expr

/-! ### Subscripts behind a text -/

/-- A subscript behind the text of such a tree belongs to the whole of it. A ternary is written
with parentheses around it. -/
def takesSubscript : Expr → Bool
  | .unary _ _ => false
  | .binary _ _ _ => false
  | .hole => false
  | _ => true

/-- The element of a tree at a position. -/
def elementAt (tree : Expr) (position : Nat) : Expr :=
  .index tree (.number (toString position))

/-- The tree with the subscript at the operand that its text ends with. -/
def subscriptLast (position : Nat) : Expr → Expr
  | .binary op left right => .binary op left (subscriptLast position right)
  | .unary op operand =>
      if op.isSign ∧ operand.isUnary then .unary op (.elementAt (.paren operand) position)
      else .unary op (subscriptLast position operand)
  | tree => tree.elementAt position

/-- The text is an element of the whole tree. If an operator is outermost, the tree stands in
parentheses. -/
def IndexesWhole (tree : Expr) (position : Nat) (text : String) : Prop :=
  ((Expr.paren tree).elementAt position).toNim = .ok text ∨
    (tree.takesSubscript = true ∧ (tree.elementAt position).toNim = .ok text)

private theorem toNim_eq_ok_iff {tree : Expr} {text : String} :
    tree.toNim = .ok text ↔ tree.fault? = none ∧ tree.nimText = text := by
  unfold toNim
  cases tree.fault? <;> simp

private theorem isNimNumber_toString (position : Nat) : IsNimNumber (toString position) := by
  refine ⟨Nat.toDigits 10 position, [], [], ?_, Nat.toDigits_ne_nil, ?_, .absent, .absent⟩
  · simp
  · intro digit member
    exact isDecimalDigit_of_isDigit
      (Nat.isDigit_of_mem_toDigits (by decide) (by decide) member)

private theorem fault?_elementAt (tree : Expr) (position : Nat) :
    (tree.elementAt position).fault? = tree.fault? := by
  have ofNumber : (Expr.number (toString position)).fault? = none :=
    fault?_of_derives (.number (isNimNumber_toString position).isNumber)
  rw [elementAt, fault?, ofNumber, Option.or_none]

/-- The element of a tree is its text with a subscript behind it. -/
theorem toNim_elementAt {tree : Expr} {text : String} (written : tree.toNim = .ok text)
    (position : Nat) :
    (tree.elementAt position).toNim = .ok (Backward.subscript text (some position)) := by
  obtain ⟨noFault, rfl⟩ := toNim_eq_ok_iff.mp written
  rw [toNim_eq_ok_iff, fault?_elementAt, elementAt, nimText, nimText,
    toNim_eq_self (isNimNumber_toString position)]
  exact ⟨noFault, rfl⟩

private theorem isUnary_subscriptLast (position : Nat) (tree : Expr) :
    (tree.subscriptLast position).isUnary = tree.isUnary := by
  cases tree with
  | unary op operand => rw [subscriptLast]; split <;> rfl
  | _ => rfl

/-- The subscript at the last operand stands behind the text of the tree. -/
theorem nimText_subscriptLast (position : Nat) (tree : Expr) :
    (tree.subscriptLast position).nimText = (tree.elementAt position).nimText := by
  fun_induction subscriptLast position tree with
  | case1 op left right ofRight =>
      rw [nimText, ofRight]
      simp only [elementAt, nimText, String.append_assoc]
  | case2 op operand merges =>
      have apart : ¬ (op.isSign = true ∧
          ((Expr.paren operand).elementAt position).isUnary = true) := by
        rintro ⟨-, isUnary⟩
        cases isUnary
      rw [nimText, if_neg apart]
      simp only [elementAt, nimText, if_pos merges, String.append_assoc]
  | case3 op operand apart ofOperand =>
      rw [nimText, isUnary_subscriptLast, if_neg apart, ofOperand]
      simp only [elementAt, nimText, if_neg apart, String.append_assoc]
  | case4 tree => rfl

private theorem fault?_subscriptLast (position : Nat) (tree : Expr) :
    (tree.subscriptLast position).fault? = tree.fault? := by
  fun_induction subscriptLast position tree with
  | case1 op left right ofRight => rw [fault?, fault?, ofRight]
  | case2 op operand merges => exact fault?_elementAt (.paren operand) position
  | case3 op operand apart ofOperand => exact ofOperand
  | case4 tree => exact fault?_elementAt tree position

private theorem toNim_subscriptLast (position : Nat) (tree : Expr) :
    (tree.subscriptLast position).toNim = (tree.elementAt position).toNim := by
  rw [toNim, toNim, fault?_subscriptLast, fault?_elementAt, nimText_subscriptLast]

/-- A subscript behind a text is never one behind parentheses around it. -/
theorem indexesWhole_subscript_iff {tree : Expr} {text : String} (written : tree.toNim = .ok text)
    (position : Nat) :
    tree.IndexesWhole position (Backward.subscript text (some position)) ↔
      tree.takesSubscript = true := by
  have ofParen : (Expr.paren tree).toNim = .ok ("(" ++ text ++ ")") := by
    obtain ⟨noFault, rfl⟩ := toNim_eq_ok_iff.mp written
    exact toNim_eq_ok_iff.mpr ⟨noFault, rfl⟩
  rw [IndexesWhole, toNim_elementAt ofParen, toNim_elementAt written]
  constructor
  · rintro (grouped | ⟨takes, -⟩)
    · have same : "(" ++ text ++ ")" = text := by
        simpa only [Backward.subscript, String.append_left_inj] using Except.ok.inj grouped
      have longer := congrArg String.length same
      simp only [String.length_append] at longer
      have one : "(".length = 1 := rfl
      omega
    · exact takes
  · exact fun takes => Or.inr ⟨takes, rfl⟩

/-! ### What the text is read as -/

private theorem subscriptLast_eq_elementAt {tree : Expr} (takes : tree.takesSubscript = true)
    (position : Nat) : tree.subscriptLast position = tree.elementAt position := by
  cases tree with
  | unary op operand => cases takes
  | binary op left right => cases takes
  | _ => rfl

private theorem Category.ne_ternary_of_tighter {category next : Category}
    (isNext : category.tighter? = some next) : next ≠ .ternary := by
  rintro rfl
  cases category <;> cases isNext

/-- No tighter category has ternaries. -/
theorem Derives.isTernary_eq_false {category : Category} {tree : Expr}
    (derives : Derives category tree) (tight : category ≠ .ternary) : tree.isTernary = false := by
  induction derives with
  | tighter isNext inner inductionHypothesis =>
      exact inductionHypothesis (Category.ne_ternary_of_tighter isNext)
  | ternary ofCondition ofThen ofElse => exact absurd rfl tight
  | _ => rfl

/-- The category itself, unless it has no elements. -/
def Category.orSuffixed : Category → Category
  | primary => suffixed
  | category => category

private theorem Derives.elementAt {tree : Expr} (derives : Derives .suffixed tree)
    (position : Nat) :
    Derives .suffixed (tree.elementAt position) := by
  have ofNumber : Derives .primary (.number (toString position)) :=
    .number (isNimNumber_toString position).isNumber
  exact .index derives (ofNumber.of_level_le (by decide))

/-- The grammar has the subscript at the last operand. -/
theorem Derives.subscriptLast {category : Category} {tree : Expr} (derives : Derives category tree)
    (noTernary : tree.isTernary = false) (position : Nat) :
    Derives category.orSuffixed (tree.subscriptLast position) := by
  induction derives with
  | @tighter category next tree isNext inner inductionHypothesis =>
      have ofTree := inductionHypothesis noTernary
      cases category with
      | suffixed =>
          cases isNext
          exact ofTree
      | primary => cases isNext
      | _ =>
          cases isNext
          exact .tighter rfl ofTree
  | ternary ofCondition ofThen ofElse => cases noTernary
  | @binary category next op left right isOperator isNext ofLeft ofRight _ inductionHypothesis =>
      have tight := Category.ne_ternary_of_tighter isNext
      have ofLast := inductionHypothesis (ofRight.isTernary_eq_false tight)
      cases category with
      | ternary | unary | suffixed | primary => cases isOperator
      | _ =>
          cases isNext
          exact .binary isOperator rfl ofLeft ofLast
  | @unary op operand isOperator ofOperand inductionHypothesis =>
      rw [Expr.subscriptLast]
      split
      · -- A sign before another operator is written with parentheses.
        have ofParen : Derives .primary (.paren operand) :=
          .paren (ofOperand.of_level_le (by decide))
        have ofElement := (ofParen.of_level_le (by decide)).elementAt position
        exact .unary isOperator (ofElement.of_level_le (by decide))
      · exact .unary isOperator (inductionHypothesis (ofOperand.isTernary_eq_false (by decide)))
  | member ofValue isName => exact (Derives.member ofValue isName).elementAt position
  | call ofCallee ofArguments => exact (Derives.call ofCallee ofArguments).elementAt position
  | index ofValue ofPosition => exact (Derives.index ofValue ofPosition).elementAt position
  | name areNames isName => exact (Derives.tighter rfl (.name areNames isName)).elementAt position
  | number isNumber => exact (Derives.tighter rfl (.number isNumber)).elementAt position
  | string isQuoted => exact (Derives.tighter rfl (.string isQuoted)).elementAt position
  | paren ofInner => exact (Derives.tighter rfl (.paren ofInner)).elementAt position
  | list ofItems => exact (Derives.tighter rfl (.list ofItems)).elementAt position

/-- What is recovered from the text is the subscript at the last operand. -/
theorem recover_elementAt {tree : Expr} (derives : Derives .ternary tree)
    (noTernary : tree.isTernary = false) (position : Nat) :
    recover (tree.elementAt position).nimText = .ok (tree.subscriptLast position).normal := by
  rw [← nimText_subscriptLast]
  exact recover_nimText (derives.subscriptLast noTernary position)

end Expr

/-! ### Values -/

namespace Interpretation

/-- Tells elements from all other values. -/
def marksElements : Interpretation Bool where
  number _ := false
  string _ := false
  qualified _ _ := false
  member _ _ := false
  index _ _ := true
  unary _ _ := false
  binary _ _ _ := false
  choice _ _ _ := false
  list _ := false
  paren _ := false
  method _ _ _ := false
  function _ _ _ := false
  application _ _ := false
  hole := false

/-- The subscript at the last operand always gives the element of the whole value exactly if no
operator is outermost. -/
theorem eval_subscriptLast_iff {tree : Expr} (written : tree ≠ .hole) (position : Nat) :
    (∀ (Value : Type) (meaning : Interpretation Value) (names : String → Value),
      meaning.eval names (tree.subscriptLast position) =
        meaning.element (meaning.eval names tree) (some position)) ↔
      tree.takesSubscript = true := by
  constructor
  · intro agree
    have marked := agree Bool marksElements fun _ => false
    cases tree with
    | unary op operand =>
        rw [Expr.subscriptLast] at marked
        split at marked <;> cases marked
    | binary op left right => cases marked
    | hole => exact absurd rfl written
    | _ => rfl
  · intro takes Value meaning names
    rw [Expr.subscriptLast_eq_elementAt takes]
    rfl

end Interpretation

namespace FormulaEntry

open Backward

/-- How the gradient of one of several outputs is written, given the tree of its body. -/
structure WritesElement (procedure : BackwardProcedure) (tree : Expr) (position : Nat)
    (line : String × String) : Prop where
  /-- The procedure takes the element of what the text of the body is bound to. -/
  assigned : ∃ text, tree.toNim = .ok text ∧
    ∃ assignment ∈ procedure.assignments, assignment.field = line.1 ∧
      ⟨assignment.source, text⟩ ∈ procedure.bindings ∧
      assignment.value = subscript assignment.source (some position)
  /-- The autograd block has the subscript at the last operand of the body. -/
  attached : (tree.subscriptLast position).toNim = .ok line.2
  /-- So it is read. A ternary has parentheses in its text that are no node of it. -/
  recovered : Expr.Derives .ternary tree → tree.isTernary = false →
    Expr.recover line.2 = .ok (tree.subscriptLast position).normal
  /-- It is an element of the whole body exactly if no operator is outermost. -/
  whole : tree.IndexesWhole position line.2 ↔ tree.takesSubscript = true
  /-- Only then the autograd block always has the value that the procedure assigns. -/
  agree : (∀ (Value : Type) (meaning : Interpretation Value) (names : String → Value),
      meaning.eval names (tree.subscriptLast position) =
        meaning.element (meaning.eval names tree) (some position)) ↔
    tree.takesSubscript = true

/-- In every accepted entry, the autograd block takes the elements of a body with several outputs
as the procedure does, exactly if the outermost node of the body is no operator. -/
theorem line_takes_element_of_body_unless_operator
    {registry : Registry} {entry : FormulaEntry} {procedure : BackwardProcedure}
    (accepted : entry.backward registry = .ok (some procedure)) :
    List.Forall₂ (fun output line => 1 < output.body.outputNames.length →
        ∃ source, Expr.parse (trim output.body.text) = .ok source ∧
          WritesElement procedure (emittedTree registry procedure.forward source) output.position
            line)
      entry.outputs procedure.autogradLines := by
  obtain ⟨rows, outputs, assignments, lines, realized⟩ := exists_rows_of_backward accepted
  rw [← outputs, ← lines, List.forall₂_map_left_iff, List.forall₂_map_right_iff,
    List.forall₂_same]
  intro row member several
  have ofRow := realized row member
  obtain ⟨text, emitted, bound, lined⟩ := ofRow.bound
  obtain ⟨source, parsed, written⟩ := emittedText?_eq_some_iff.mp emitted
  have indexed : row.assignment.index? = some row.output.position := by
    rw [ofRow.indexed, BodyOutput.index?, if_pos several]
  rw [indexed] at lined
  have ofElement := Expr.toNim_elementAt written row.output.position
  rw [← lined] at ofElement
  refine ⟨source, parsed, ?_⟩
  exact {
    assigned := by
      refine ⟨text, written, row.assignment, ?_, ?_, bound, ?_⟩
      · rw [← assignments]
        exact List.mem_map_of_mem member
      · rw [ofRow.assigned, ofRow.labelled]
      · rw [Assignment.value, indexed]
    attached := by rw [Expr.toNim_subscriptLast, ofElement]
    recovered := by
      intro derives noTernary
      rw [← (Expr.toNim_eq_ok_iff.mp ofElement).2]
      exact Expr.recover_elementAt derives noTernary _
    whole := by
      rw [lined]
      exact Expr.indexesWhole_subscript_iff written _
    agree := by
      refine Interpretation.eval_subscriptLast_iff ?_ _
      intro isHole
      rw [isHole] at written
      cases written }

end FormulaEntry

/-! ### A product with and without parentheses -/

namespace Sample

open Backward

def groupedBody : FormulaBody := ⟨"weight, self", "(grad * result)"⟩

def groupedEntry : FormulaEntry := ⟨layerEntry.header, [groupedBody]⟩

def groupedProcedure : BackwardProcedure :=
  { forward := layer
    fields := [⟨"weight", "weight", .tensor, none⟩, ⟨"self", "self", .tensor, none⟩]
    bindings := [⟨"weight_result", "(grad * fwd_result)"⟩]
    assignments := [⟨"weight", "weight_result", some 0⟩, ⟨"self", "weight_result", some 1⟩]
    autogradLines := [("weight", "(grad * fwd_result)[0]"), ("self", "(grad * fwd_result)[1]")] }

theorem self_of_groupedEntry_is_element :
    groupedEntry.backward layerRegistry = .ok (some groupedProcedure) ∧
      (emittedTree layerRegistry layer (.paren layerSource)).IndexesWhole 1
        "(grad * fwd_result)[1]" := by
  have accepted : groupedEntry.backward layerRegistry = .ok (some groupedProcedure) := by
    decide +kernel
  have outputs : groupedEntry.outputs = [⟨groupedBody, "weight", 0⟩, ⟨groupedBody, "self", 1⟩] := by
    with_unfolding_all rfl
  have parsed : Expr.parse (trim groupedBody.text) = .ok (.paren layerSource) := by
    with_unfolding_all rfl
  have ofLines := FormulaEntry.line_takes_element_of_body_unless_operator accepted
  rw [outputs] at ofLines
  obtain ⟨-, ofRest⟩ := List.forall₂_cons.mp ofLines
  obtain ⟨ofSelf, -⟩ := List.forall₂_cons.mp ofRest
  obtain ⟨source, ofText, writes⟩ := ofSelf (by decide)
  cases parsed.symm.trans ofText
  exact ⟨accepted, writes.whole.mpr rfl⟩

/-- The second output of a product is the product with the second element of its last factor. -/
theorem self_of_layerEntry_is_no_element :
    layerEntry.backward layerRegistry = .ok (some layerProcedure) ∧
      layerBody.outputNames = ["weight", "self"] ∧
      ("self", "grad * fwd_result[1]") ∈ layerProcedure.autogradLines ∧
      Expr.parse (trim layerBody.text) = .ok layerSource ∧
      ¬ (emittedTree layerRegistry layer layerSource).IndexesWhole 1 "grad * fwd_result[1]" := by
  refine ⟨backward_layerEntry, by decide, by decide, parse_layerBody, ?_⟩
  have written : (emittedTree layerRegistry layer layerSource).toNim = .ok "grad * fwd_result" := by
    decide +kernel
  intro whole
  cases (Expr.indexesWhole_subscript_iff written 1).mp whole

end Sample

end TensorBindings
