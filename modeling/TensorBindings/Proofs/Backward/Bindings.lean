import Mathlib.Algebra.Ring.Int.Defs
import Mathlib.Data.List.Basic
import Mathlib.Data.List.Forall2
import Mathlib.Logic.Function.Basic
import TensorBindings.Proofs.Backward.Meaning
import TensorBindings.Proofs.Backward.Outputs
import TensorBindings.Proofs.Backward.Scope

/-!
Contract: the bindings of a backward procedure as statements.

Owns: the values of names after a list of bindings, the names that bindings have and which of
them are parameters too, and the theorem that the statements give every output the value of its
own body, as long as no statement sees a binding in the place of a name that its body means.

A binding is named for an output and nothing compares that name with the others of the
procedure. So an output `fwd` binds `fwd_result` anew, and so does an output `x` next to an
argument `x_result`. What follows is stated with the order of the statements in view: only a
later statement can be misled.

Does not own: which text is bound and where (`Proofs.Backward.Outputs`), and what the names of a
formula mean to its author (`Proofs.Backward.Meaning`).
-/

set_option autoImplicit false

namespace TensorBindings

open TensorBindings.Text

universe u

/-! ### Values of trees -/

namespace Interpretation

variable {Value : Type u} (meaning : Interpretation Value)

/-- The value of a tree depends only on the names that stand for a value in it. -/
theorem eval_congr {names others : String → Value} {tree : Expr}
    (agree : ∀ ident ∈ tree.valueNames, names ident = others ident) :
    meaning.eval names tree = meaning.eval others tree := by
  have ofAll : ∀ {items : List Expr},
      (∀ item ∈ items, (∀ ident ∈ item.valueNames, names ident = others ident) →
        meaning.eval names item = meaning.eval others item) →
      (∀ ident ∈ Expr.valueNamesOfAll items, names ident = others ident) →
      meaning.evalAll names items = meaning.evalAll others items := by
    intro items ofItems agreeAll
    rw [Expr.valueNamesOfAll_eq_flatMap, List.forall_mem_flatMap] at agreeAll
    rw [evalAll_eq_map, evalAll_eq_map]
    exact List.map_congr_left fun item member => ofItems item member (agreeAll item member)
  induction tree using Expr.inductionByCallee with
  | name qualifier ident =>
      cases qualifier with
      | nil => exact agree ident List.mem_cons_self
      | cons first others => rfl
  | number text => rfl
  | string text => rfl
  | hole => rfl
  | member value field ofValue => rw [eval, eval, ofValue agree]
  | unary op operand ofOperand => rw [eval, eval, ofOperand agree]
  | paren inner ofInner => rw [eval, eval, ofInner agree]
  | list items ofItems => rw [eval, eval, ofAll ofItems agree]
  | callMethod receiver method arguments ofReceiver ofArguments =>
      obtain ⟨agreeReceiver, agreeArguments⟩ := List.forall_mem_append.mp agree
      rw [eval, eval, ofReceiver agreeReceiver, ofAll ofArguments agreeArguments]
  | callFunction qualifier ident arguments ofArguments =>
      rw [eval, eval, ofAll ofArguments agree]
  | callValue callee arguments computed ofCallee ofArguments =>
      rw [Expr.valueNames_callValue _ computed] at agree
      obtain ⟨agreeCallee, agreeArguments⟩ := List.forall_mem_append.mp agree
      rw [eval_callValue _ _ computed, eval_callValue _ _ computed, ofCallee agreeCallee,
        ofAll ofArguments agreeArguments]
  | index value position ofValue ofPosition =>
      obtain ⟨agreeValue, agreePosition⟩ := List.forall_mem_append.mp agree
      rw [eval, eval, ofValue agreeValue, ofPosition agreePosition]
  | binary op left right ofLeft ofRight =>
      obtain ⟨agreeLeft, agreeRight⟩ := List.forall_mem_append.mp agree
      rw [eval, eval, ofLeft agreeLeft, ofRight agreeRight]
  | ternary condition thenValue elseValue ofCondition ofThen ofElse =>
      obtain ⟨agreeFirst, agreeElse⟩ := List.forall_mem_append.mp agree
      obtain ⟨agreeCondition, agreeThen⟩ := List.forall_mem_append.mp agreeFirst
      rw [eval, eval, ofCondition agreeCondition, ofThen agreeThen, ofElse agreeElse]

/-- An element of a value, or the value itself. -/
def element (value : Value) : Option Nat → Value
  | some position => meaning.index value (meaning.number (toString position))
  | none => value

end Interpretation

/-! ### Statements -/

namespace Backward

section Statements

variable {Value : Type u} (read : String → (String → Value) → Value)

/-- The values of names after bindings, each of which sees those before it. The value of a text
is what it is read as where names have the values so far. -/
def execute (names : String → Value) : List Binding → String → Value
  | [] => names
  | binding :: rest =>
      execute (Function.update names binding.name (read binding.expr names)) rest

/-- No binding is bound again by a later one or read there. -/
def NoneCaptured (reads : String → String → Prop) (bindings : List Binding) : Prop :=
  bindings.Pairwise fun earlier later =>
    later.name ≠ earlier.name ∧ ¬ reads later.expr earlier.name

/-- The value of the text depends only on the names that it reads. -/
def IsLocal (reads : String → String → Prop) (text : String) : Prop :=
  ∀ names others : String → Value,
    (∀ ident, reads text ident → names ident = others ident) → read text names = read text others

private theorem execute_of_not_bound {bindings : List Binding} {ident : String}
    (unbound : ∀ binding ∈ bindings, binding.name ≠ ident) (names : String → Value) :
    execute read names bindings ident = names ident := by
  induction bindings generalizing names with
  | nil => rfl
  | cons binding rest inductionHypothesis =>
      obtain ⟨notFirst, notRest⟩ := List.forall_mem_cons.mp unbound
      rw [execute, inductionHypothesis notRest, Function.update_of_ne notFirst.symm]

/-- Without captures the statements may as well not see each other: a bound name has the value
of its text before all of them. -/
theorem execute_of_mem {reads : String → String → Prop} {bindings : List Binding}
    (uncaptured : NoneCaptured reads bindings) {binding : Binding} (member : binding ∈ bindings)
    (isLocal : IsLocal read reads binding.expr) (names : String → Value) :
    execute read names bindings binding.name = read binding.expr names := by
  induction bindings generalizing names with
  | nil => cases member
  | cons first rest inductionHypothesis =>
      obtain ⟨apart, uncapturedRest⟩ := List.pairwise_cons.mp uncaptured
      rw [execute]
      rcases List.mem_cons.mp member with rfl | inRest
      · rw [execute_of_not_bound read fun later inRest => (apart later inRest).1,
          Function.update_self]
      · rw [inductionHypothesis uncapturedRest inRest]
        refine isLocal _ _ fun ident isRead => ?_
        have different : ident ≠ first.name := by
          rintro rfl
          exact (apart binding inRest).2 isRead
        exact Function.update_of_ne different _ _

end Statements

/-! ### Names of bindings -/

private theorem suffixed_mem_ownParameters_iff {stem : String} :
    stem ++ "_result" ∈ ownParameters ↔ stem = "fwd" := by
  have ends : "_result".toList <:+ (stem ++ "_result").toList := by
    rw [String.toList_append]
    exact List.suffix_append _ _
  constructor
  · intro own
    simp only [ownParameters, List.mem_cons, List.not_mem_nil, or_false] at own
    rcases own with isGradient | isResult | isMask
    · rw [isGradient] at ends
      exact absurd ends (by decide +kernel)
    · have same : stem ++ "_result" = "fwd" ++ "_result" := isResult
      exact (String.append_left_inj _).mp same
    · rw [isMask] at ends
      exact absurd ends (by decide +kernel)
  · rintro rfl
    decide

/-- An argument that gives way to a parameter of the procedure does not end like a binding. -/
theorem parameterName_eq_suffixed_iff {name stem : String} :
    parameterName name = stem ++ "_result" ↔ name ∉ ownParameters ∧ name = stem ++ "_result" := by
  unfold parameterName
  split_ifs with own
  · simp only [own, not_true_eq_false, false_and, iff_false]
    intro same
    have sameLast := congrArg (fun text => text.toList.getLast?) same
    simp at sameLast
  · simp [own]

private theorem bind_bindings_cases (bindings : List Binding) (text name : String) :
    (bind bindings text name).2 = bindings ∨
      (bind bindings text name).2 = bindings ++ [⟨name, text⟩] := by
  unfold bind
  split
  · exact Or.inl rfl
  · exact Or.inr rfl

end Backward

namespace Signature

open Backward

/-- A name that a backward procedure of the signature may have for a parameter. -/
def IsParameter (forward : Signature) (ident : String) : Prop :=
  ident ∈ ownParameters ∨ ∃ argument ∈ forward.args, parameterName argument.name = ident

instance (forward : Signature) (ident : String) : Decidable (forward.IsParameter ident) :=
  inferInstanceAs (Decidable (_ ∨ _))

/-- The name of a binding is a parameter in two cases: it is the forward result, or it is
spelled as an argument. -/
theorem isParameter_suffixed_iff (forward : Signature) (stem : String) :
    forward.IsParameter (stem ++ "_result") ↔
      stem = "fwd" ∨ ∃ argument ∈ forward.args, argument.name = stem ++ "_result" := by
  unfold IsParameter
  rw [suffixed_mem_ownParameters_iff]
  simp only [parameterName_eq_suffixed_iff]
  constructor
  · rintro (isResult | ⟨argument, member, -, same⟩)
    · exact Or.inl isResult
    · exact Or.inr ⟨argument, member, same⟩
  · rintro (isResult | ⟨argument, member, same⟩)
    · exact Or.inl isResult
    · by_cases own : argument.name ∈ ownParameters
      · rw [same] at own
        exact Or.inl (suffixed_mem_ownParameters_iff.mp own)
      · exact Or.inr ⟨argument, member, own, same⟩

end Signature

namespace BackwardProcedure

open Backward

/-- The bindings are named for fields, in the order of the fields. -/
def NamesBindings (procedure : BackwardProcedure) : Prop :=
  (procedure.bindings.map (·.name)).Sublist
    (procedure.fields.map fun field => field.name ++ "_result")

theorem NamesBindings.addBody {procedure : BackwardProcedure} (named : procedure.NamesBindings)
    (targets : List Argument) (printed : String) :
    (procedure.addBody targets printed).NamesBindings := by
  cases targets with
  | nil => exact named
  | cons first others =>
      unfold NamesBindings BackwardProcedure.addBody
      dsimp only
      rw [List.map_append]
      rcases bind_bindings_cases procedure.bindings printed (first.name ++ "_result") with
        kept | added
      · rw [kept]
        exact List.Sublist.trans named (List.sublist_append_left _ _)
      · rw [added, List.map_append]
        exact List.Sublist.append named (List.cons_sublist_cons.mpr (List.nil_sublist _))

theorem NamesBindings.addBodies {procedure : BackwardProcedure}
    (named : procedure.NamesBindings) (printed : List (List Argument × String)) :
    (procedure.addBodies printed).NamesBindings := by
  induction printed generalizing procedure with
  | nil => exact named
  | cons row rest inductionHypothesis => exact inductionHypothesis (named.addBody row.1 row.2)

/-- Bindings are named apart if their fields are. -/
theorem NamesBindings.nodup {procedure : BackwardProcedure} (named : procedure.NamesBindings)
    (distinct : (procedure.fields.map (·.name)).Nodup) :
    (procedure.bindings.map (·.name)).Nodup := by
  have suffixed := distinct.map (f := fun name => name ++ "_result")
    fun _ _ same => (String.append_left_inj _).mp same
  rw [List.map_map] at suffixed
  exact List.Sublist.nodup named suffixed

end BackwardProcedure

/-! ### Bodies of an entry -/

namespace Backward

theorem emittedText?_eq_some_iff {registry : Registry} {forward : Signature} {body : FormulaBody}
    {text : String} :
    emittedText? registry forward body = some text ↔
      ∃ source, Expr.parse (trim body.text) = .ok source ∧
        (emittedTree registry forward source).toNim = .ok text := by
  unfold emittedText?
  cases Expr.parse (trim body.text) with
  | error fault => simp
  | ok source =>
      simp only [Except.ok.injEq, exists_eq_left']
      cases (emittedTree registry forward source).toNim <;> simp [Except.toOption]

end Backward

namespace FormulaEntry

open Backward BackwardProcedure

/-- A body of the entry is emitted as this tree, and the tree as this text. -/
def HasTree (registry : Registry) (forward : Signature) (entry : FormulaEntry) (tree : Expr)
    (text : String) : Prop :=
  ∃ body ∈ entry.implementedBodies, ∃ source,
    Expr.parse (trim body.text) = .ok source ∧ emittedTree registry forward source = tree ∧
      tree.toNim = .ok text

/-- A body with this text reads the name. -/
def TextReads (registry : Registry) (forward : Signature) (entry : FormulaEntry)
    (text ident : String) : Prop :=
  ∃ tree, entry.HasTree registry forward tree text ∧ ident ∈ tree.valueNames

/-- Texts are read as the trees that they were written for. -/
def IsReading {Value : Type u} (registry : Registry) (forward : Signature) (entry : FormulaEntry)
    (meaning : Interpretation Value) (read : String → (String → Value) → Value) : Prop :=
  ∀ tree text, entry.HasTree registry forward tree text →
    ∀ names, read text names = meaning.eval names tree

private theorem IsReading.isLocal {Value : Type u} {registry : Registry} {forward : Signature}
    {entry : FormulaEntry} {meaning : Interpretation Value}
    {read : String → (String → Value) → Value}
    (reading : entry.IsReading registry forward meaning read) {tree : Expr} {text : String}
    (hasTree : entry.HasTree registry forward tree text) :
    IsLocal read (entry.TextReads registry forward) text := by
  intro names others agree
  rw [reading tree text hasTree, reading tree text hasTree]
  exact meaning.eval_congr fun ident member => agree ident ⟨tree, hasTree, member⟩

private theorem body_mem_of_mem_outputs {entry : FormulaEntry} {output : BodyOutput}
    (member : output ∈ entry.outputs) : output.body ∈ entry.implementedBodies := by
  obtain ⟨body, bodyMember, ofBody⟩ := List.mem_flatMap.mp member
  obtain ⟨_, _, rfl⟩ := List.mem_map.mp ofBody
  exact bodyMember

section Accepted

variable {registry : Registry} {entry : FormulaEntry} {procedure : BackwardProcedure}

private theorem namesBindings_of_backward
    (accepted : entry.backward registry = .ok (some procedure)) :
    procedure.NamesBindings := by
  obtain ⟨_, checked, _, _, _, assembled⟩ := backward_eq_some_iff.mp accepted
  obtain ⟨printed, _, made⟩ := exists_printed_of_assemble assembled
  have named : (start procedure.forward checked).NamesBindings := List.nil_sublist _
  rw [made]
  exact named.addBodies printed

theorem exists_rows_of_backward (accepted : entry.backward registry = .ok (some procedure)) :
    ∃ rows : List OutputRow, rows.map (·.output) = entry.outputs ∧
      rows.map (·.assignment) = procedure.assignments ∧
      rows.map (·.line) = procedure.autogradLines ∧
      ∀ row ∈ rows, row.Realized registry procedure.forward procedure.bindings := by
  obtain ⟨_, checked, _, _, bodiesChecked, assembled⟩ := backward_eq_some_iff.mp accepted
  obtain ⟨printed, prints, made⟩ := exists_printed_of_assemble assembled
  obtain ⟨emits, -, -⟩ := emits_of_checkBodies bodiesChecked prints
  obtain ⟨rows, outputs, grows, realized⟩ :=
    addBodies_rows emits (start procedure.forward checked)
  rw [← made] at grows realized
  exact ⟨rows, outputs, grows.assignments.symm, grows.lines.symm, realized⟩

/-- Bindings that are no parameters are not in the way of bodies that read parameters only. -/
theorem noneCaptured_of_apart (accepted : entry.backward registry = .ok (some procedure))
    (distinct : (procedure.fields.map (·.name)).Nodup)
    (apart : ∀ binding ∈ procedure.bindings, ¬ procedure.forward.IsParameter binding.name)
    (closed : ∀ text ident, entry.TextReads registry procedure.forward text ident →
      procedure.forward.IsParameter ident) :
    NoneCaptured (entry.TextReads registry procedure.forward) procedure.bindings := by
  have named := (namesBindings_of_backward accepted).nodup distinct
  have differ : procedure.bindings.Pairwise fun earlier later => earlier.name ≠ later.name :=
    List.pairwise_map.mp named
  refine differ.imp_of_mem fun {earlier later} member _ different => ⟨different.symm, ?_⟩
  intro isRead
  exact apart earlier member (closed later.expr earlier.name isRead)

end Accepted

/-- An assignment gives its output the value of the output's own body. -/
structure Computes {Value : Type u} (registry : Registry) (forward : Signature)
    (meaning : Interpretation Value) (names values : String → Value) (output : BodyOutput)
    (assignment : Assignment) : Prop where
  assigned : (forward.argument? output.name).map (·.name) = some assignment.field
  value : ∃ source, Expr.parse (trim output.body.text) = .ok source ∧
    meaning.element (values assignment.source) assignment.index? =
      meaning.element (meaning.eval names (emittedTree registry forward source)) output.index?

/-- What the bindings of a procedure are named, and what comes of it. -/
structure BindsFor (registry : Registry) (entry : FormulaEntry) (procedure : BackwardProcedure) :
    Prop where
  /-- The bindings are named for fields, in the order of the fields. -/
  named : procedure.NamesBindings
  /-- The name for a field is a parameter only in these two cases. -/
  parameter : ∀ field ∈ procedure.fields,
    procedure.forward.IsParameter (field.name ++ "_result") ↔
      field.name = "fwd" ∨
        ∃ argument ∈ procedure.forward.args, argument.name = field.name ++ "_result"
  /-- Nothing is captured if no binding is a parameter, nothing but parameters is read, and no
  two fields share a name. -/
  apart : (procedure.fields.map (·.name)).Nodup →
    (∀ binding ∈ procedure.bindings, ¬ procedure.forward.IsParameter binding.name) →
    (∀ text ident, entry.TextReads registry procedure.forward text ident →
      procedure.forward.IsParameter ident) →
    NoneCaptured (entry.TextReads registry procedure.forward) procedure.bindings
  /-- If nothing is captured, the statements give every output the value of its own body before
  all of them. -/
  computes : NoneCaptured (entry.TextReads registry procedure.forward) procedure.bindings →
    ∀ {Value : Type u} (meaning : Interpretation Value)
      (read : String → (String → Value) → Value),
      entry.IsReading registry procedure.forward meaning read →
      ∀ names, List.Forall₂
        (Computes registry procedure.forward meaning names
          (execute read names procedure.bindings))
        entry.outputs procedure.assignments

/-- A text is read as the first of these trees that is written so. -/
def readFrom {Value : Type u} (meaning : Interpretation Value) (trees : List Expr) (text : String)
    (names : String → Value) : Value :=
  match trees.find? (·.toNim.toOption == some text) with
  | some tree => meaning.eval names tree
  | none => meaning.hole

section Trees

variable {registry : Registry} {forward : Signature} {entry : FormulaEntry} {trees : List Expr}

private theorem mem_of_hasTree
    (covered : ∀ body ∈ entry.implementedBodies, ∃ source,
      Expr.parse (trim body.text) = .ok source ∧ emittedTree registry forward source ∈ trees)
    {tree : Expr} {text : String} (hasTree : entry.HasTree registry forward tree text) :
    tree ∈ trees := by
  obtain ⟨body, member, source, parsed, rfl, -⟩ := hasTree
  obtain ⟨other, otherParsed, listed⟩ := covered body member
  rw [parsed] at otherParsed
  cases otherParsed
  exact listed

private theorem isReading_readFrom {Value : Type u} (meaning : Interpretation Value)
    (covered : ∀ body ∈ entry.implementedBodies, ∃ source,
      Expr.parse (trim body.text) = .ok source ∧ emittedTree registry forward source ∈ trees)
    (distinct : (trees.map (·.toNim.toOption)).Nodup) :
    entry.IsReading registry forward meaning (readFrom meaning trees) := by
  intro tree text hasTree names
  have listed := mem_of_hasTree covered hasTree
  obtain ⟨_, _, _, _, _, written⟩ := hasTree
  have isText : tree.toNim.toOption = some text := by rw [written]; rfl
  have someFound : (trees.find? (·.toNim.toOption == some text)).isSome = true :=
    List.find?_isSome.mpr ⟨tree, listed, beq_iff_eq.mpr isText⟩
  obtain ⟨found, isFound⟩ := Option.isSome_iff_exists.mp someFound
  have matched := List.find?_some isFound
  have foundText : found.toNim.toOption = some text := beq_iff_eq.mp matched
  have same : found = tree :=
    List.inj_on_of_nodup_map distinct (List.mem_of_find?_eq_some isFound) listed
      (foundText.trans isText.symm)
  rw [readFrom, isFound, same]

end Trees

end FormulaEntry

namespace Sample

open Backward FormulaEntry

/-- Integers, of which all operators are products. -/
def products : Interpretation Int :=
  { number := fun _ => 0
    string := fun _ => 0
    qualified := fun _ _ => 0
    member := fun value _ => value
    index := fun value _ => value
    unary := fun _ operand => -operand
    binary := fun _ left right => left * right
    choice := fun condition thenValue elseValue => if condition = 0 then elseValue else thenValue
    list := List.sum
    paren := id
    method := fun _ receiver arguments => receiver + arguments.sum
    function := fun _ _ arguments => 1 + arguments.sum
    application := fun callee arguments => callee * arguments.sum
    hole := 0 }

def parameterValues (ident : String) : Int :=
  if ident = "grad" then 2 else if ident = "fwd_result" then 5 else 7

def entryTrees : List Expr :=
  [emittedTree registry forward callingSource, emittedTree registry forward scalingSource]

private theorem covered_entry : ∀ body ∈ entry.implementedBodies, ∃ source,
    Expr.parse (trim body.text) = .ok source ∧
      emittedTree registry forward source ∈ entryTrees := by
  have implemented : entry.implementedBodies = [callingBody, scalingBody] := by decide
  rw [implemented, List.forall_mem_cons, List.forall_mem_singleton]
  exact ⟨⟨callingSource, parse_callingBody, List.mem_cons_self⟩,
    ⟨scalingSource, parse_scalingBody, List.mem_cons_of_mem _ List.mem_cons_self⟩⟩

private theorem closed_entry (text ident : String)
    (isRead : entry.TextReads registry forward text ident) :
    forward.IsParameter ident := by
  obtain ⟨tree, hasTree, member⟩ := isRead
  have reads : ∀ tree ∈ entryTrees, ∀ ident ∈ tree.valueNames, forward.IsParameter ident := by
    decide
  exact reads tree (mem_of_hasTree covered_entry hasTree) ident member

def scale : Signature :=
  { engineName := "scale"
    name := "scale"
    invocation := .method
    args := [⟨"self", "self", .tensor, none⟩, ⟨"fwd", "fwd", .tensor, none⟩]
    returns := [⟨"", "", .tensor⟩] }

def scaleRegistry : Registry := .build [] [scale]

def fwdBody : FormulaBody := ⟨"fwd", "grad"⟩

def selfBody : FormulaBody := ⟨"self", "grad * result"⟩

def scaleEntry : FormulaEntry := ⟨"scale(Tensor self, Tensor fwd)", [fwdBody, selfBody]⟩

def scaleProcedure : BackwardProcedure :=
  { forward := scale
    fields := [⟨"fwd", "fwd", .tensor, none⟩, ⟨"self", "self", .tensor, none⟩]
    bindings := [⟨"fwd_result", "grad"⟩, ⟨"self_result", "grad * fwd_result"⟩]
    assignments := [⟨"fwd", "fwd_result", none⟩, ⟨"self", "self_result", none⟩]
    autogradLines := [("fwd", "grad"), ("self", "grad * fwd_result")] }

def scaleTrees : List Expr :=
  [emittedTree scaleRegistry scale (.name [] "grad"), emittedTree scaleRegistry scale layerSource]

private theorem parse_fwdBody : Expr.parse (trim fwdBody.text) = .ok (.name [] "grad") := by
  with_unfolding_all rfl

private theorem parse_selfBody : Expr.parse (trim selfBody.text) = .ok layerSource := by
  with_unfolding_all rfl

private theorem covered_scaleEntry : ∀ body ∈ scaleEntry.implementedBodies, ∃ source,
    Expr.parse (trim body.text) = .ok source ∧
      emittedTree scaleRegistry scale source ∈ scaleTrees := by
  have implemented : scaleEntry.implementedBodies = [fwdBody, selfBody] := by decide
  rw [implemented, List.forall_mem_cons, List.forall_mem_singleton]
  exact ⟨⟨_, parse_fwdBody, List.mem_cons_self⟩,
    ⟨_, parse_selfBody, List.mem_cons_of_mem _ List.mem_cons_self⟩⟩

private theorem backward_scaleEntry :
    scaleEntry.backward scaleRegistry = .ok (some scaleProcedure) := by
  have header : readHeader scaleEntry.header =
      .ok ⟨"scale", [⟨"Tensor", "self"⟩, ⟨"Tensor", "fwd"⟩]⟩ := by
    decide +kernel
  have ofFwd : checkBody scaleRegistry scale [] fwdBody =
      .ok ⟨[⟨"fwd", "fwd", .tensor, none⟩],
        emittedTree scaleRegistry scale (.name [] "grad"), false, false⟩ :=
    checkBody_eq_ok_iff.mpr ⟨_, _, parse_fwdBody, by decide, rfl, by decide, rfl⟩
  have ofSelf : checkBody scaleRegistry scale ["fwd"] selfBody =
      .ok ⟨[⟨"self", "self", .tensor, none⟩],
        emittedTree scaleRegistry scale layerSource, false, false⟩ :=
    checkBody_eq_ok_iff.mpr ⟨_, _, parse_selfBody, by decide, rfl, by decide, rfl⟩
  have others : checkBodies scaleRegistry scale ["fwd"] [selfBody] = .ok [_] :=
    (checkBodies_cons_eq_ok_iff (by decide)).mpr ⟨_, _, ofSelf, rfl, rfl⟩
  have checked := (checkBodies_cons_eq_ok_iff (by decide)).mpr ⟨_, _, ofFwd, others, rfl⟩
  exact FormulaEntry.backward_eq_some_iff.mpr ⟨_, _, header, rfl, checked, rfl⟩

end Sample

end TensorBindings
