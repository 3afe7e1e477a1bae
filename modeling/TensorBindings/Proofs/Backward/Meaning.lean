import TensorBindings.Proofs.Backward.Renaming
import TensorBindings.Proofs.Registry

/-!
Contract: renaming keeps the meaning of formulas.

Owns: interpretations of expression trees, the values of names in a formula as opposed to
those in a backward procedure, and the theorem that a renamed formula means in the procedure
what the formula means to its author.

An interpretation fixes nothing: values are of any type, and so are operators, methods and
functions on them. A value may itself be a computation, so the theorem is about the order and
the choice of evaluation as well.

Does not own: whether all names of a procedure have a value (`Proofs.Backward.Scope`).
-/

set_option autoImplicit false

namespace TensorBindings

open TensorBindings.Text

universe u

/-- What the parts of an expression mean. -/
structure Interpretation (Value : Type u) where
  number : String → Value
  string : String → Value
  /-- A name with a qualifier. -/
  qualified : List String → String → Value
  /-- Projection on a member. -/
  member : Value → String → Value
  index : Value → Value → Value
  unary : UnaryOp → Value → Value
  binary : BinaryOp → Value → Value → Value
  choice : Value → Value → Value → Value
  list : List Value → Value
  paren : Value → Value
  /-- A method, its receiver and its arguments. -/
  method : String → Value → List Value → Value
  /-- A function, by its qualifier and its name, and its arguments. -/
  function : List String → String → List Value → Value
  /-- The call of a value. -/
  application : Value → List Value → Value
  hole : Value

namespace Interpretation

variable {Value : Type u}

mutual

/-- The value of a tree where unqualified names have these values. -/
def eval (meaning : Interpretation Value) (names : String → Value) : Expr → Value
  | .name [] ident => names ident
  | .name (first :: others) ident => meaning.qualified (first :: others) ident
  | .number text => meaning.number text
  | .string text => meaning.string text
  | .member value field => meaning.member (eval meaning names value) field
  | .call (.member receiver method) arguments =>
      meaning.method method (eval meaning names receiver) (evalAll meaning names arguments)
  | .call (.name qualifier ident) arguments =>
      meaning.function qualifier ident (evalAll meaning names arguments)
  | .call callee arguments =>
      meaning.application (eval meaning names callee) (evalAll meaning names arguments)
  | .index value position =>
      meaning.index (eval meaning names value) (eval meaning names position)
  | .unary op operand => meaning.unary op (eval meaning names operand)
  | .binary op left right =>
      meaning.binary op (eval meaning names left) (eval meaning names right)
  | .ternary condition thenValue elseValue =>
      meaning.choice (eval meaning names condition) (eval meaning names thenValue)
        (eval meaning names elseValue)
  | .list items => meaning.list (evalAll meaning names items)
  | .paren inner => meaning.paren (eval meaning names inner)
  | .hole => meaning.hole

def evalAll (meaning : Interpretation Value) (names : String → Value) : List Expr → List Value
  | [] => []
  | tree :: rest => eval meaning names tree :: evalAll meaning names rest

end

theorem evalAll_eq_map (meaning : Interpretation Value) (names : String → Value)
    (items : List Expr) : meaning.evalAll names items = items.map (meaning.eval names) := by
  induction items with
  | nil => rfl
  | cons item rest inductionHypothesis =>
      rw [evalAll, inductionHypothesis, List.map_cons]

theorem eval_callValue (meaning : Interpretation Value) (names : String → Value) {callee : Expr}
    (computed : callee.calleeName? = none) (arguments : List Expr) :
    meaning.eval names (.call callee arguments) =
      meaning.application (meaning.eval names callee) (meaning.evalAll names arguments) := by
  cases callee with
  | name qualifier ident => cases computed
  | member receiver method => cases computed
  | _ => simp [eval]

/-- The interpretation of formulas over an interpretation of emitted code: a method and a
function are what their display names mean there. -/
def ofFormulas (meaning : Interpretation Value) (sites : CallSites) : Interpretation Value :=
  { meaning with
    method := fun name => meaning.method (sites.method name)
    function := fun qualifier name => meaning.function qualifier (sites.function name) }

end Interpretation

namespace Backward

/-- What an unqualified name of a formula denotes, given the values of the names in the
backward procedure. The rules are tried in this order:

- `result` and `output` denote the forward result, and with a number after them an element
  of it;
- the name of a field of a forward result that is a tuple denotes the projection on it;
- the name of a forward argument denotes the parameter for it, except that `grad` and the
  mask denote themselves;
- every other name denotes itself. -/
inductive Denotes {Value : Type u} (meaning : Interpretation Value) (forward : Signature)
    (parameters : String → Value) (ident : String) : Value → Prop where
  | result
      (placeholder : IsPlaceholder ident "") :
      Denotes meaning forward parameters ident (parameters forwardResultName)
  | element {digits : String}
      (placeholder : IsPlaceholder ident digits)
      (numbered : digits ≠ "") :
      Denotes meaning forward parameters ident
        (meaning.index (parameters forwardResultName) (meaning.number digits))
  | field {field : ReturnField}
      (noPlaceholder : ∀ digits, ¬ IsPlaceholder ident digits)
      (tuple : forward.returnsTuple = true)
      (member : field ∈ forward.returns)
      (named : field.declaredName = ident) :
      Denotes meaning forward parameters ident
        (meaning.member (parameters forwardResultName) field.name)
  | argument {argument : Argument}
      (noPlaceholder : ∀ digits, ¬ IsPlaceholder ident digits)
      (noField : ¬ forward.NamesField ident)
      (notGradient : ident ≠ gradientName)
      (notMask : ident ≠ maskName)
      (member : argument ∈ forward.args)
      (named : argument.declaredName = ident) :
      Denotes meaning forward parameters ident (parameters (parameterName argument.name))
  | itself
      (noPlaceholder : ∀ digits, ¬ IsPlaceholder ident digits)
      (noField : ¬ forward.NamesField ident)
      (kept : ident = gradientName ∨ ident = maskName ∨ ¬ forward.NamesArgument ident) :
      Denotes meaning forward parameters ident (parameters ident)

/-- Values for the names of a formula: each name has a value that it denotes. -/
def IsFormulaEnvironment {Value : Type u} (meaning : Interpretation Value) (forward : Signature)
    (parameters names : String → Value) : Prop :=
  ∀ ident, Denotes meaning forward parameters ident (names ident)

end Backward

/-- Arguments of one name, and fields of one name, are displayed alike. So it is wherever
display names are made from names. -/
structure Signature.Unambiguous (signature : Signature) : Prop where
  args : ∀ left ∈ signature.args, ∀ right ∈ signature.args,
    left.declaredName = right.declaredName → left.name = right.name
  returns : ∀ left ∈ signature.returns, ∀ right ∈ signature.returns,
    left.declaredName = right.declaredName → left.name = right.name

namespace Backward

section Names

variable {Value : Type u} {meaning : Interpretation Value} {forward : Signature}
  {parameters : String → Value} {ident : String}

/-- A name denotes the value of what it stands for. -/
theorem StandsFor.denotes {tree : Expr} (standsFor : StandsFor forward ident tree) :
    Denotes meaning forward parameters ident (meaning.eval parameters tree) := by
  cases standsFor with
  | result placeholder => exact .result placeholder
  | element placeholder numbered => exact .element placeholder numbered
  | field noPlaceholder tuple member named => exact .field noPlaceholder tuple member named
  | argument noPlaceholder noField notGradient notMask member named =>
      exact .argument noPlaceholder noField notGradient notMask member named
  | itself noPlaceholder noField kept => exact .itself noPlaceholder noField kept

/-- A name denotes one value at most, unless the forward procedure is ambiguous about it. -/
theorem Denotes.unique (unambiguous : forward.Unambiguous) {left right : Value}
    (leftDenoted : Denotes meaning forward parameters ident left)
    (rightDenoted : Denotes meaning forward parameters ident right) : left = right := by
  cases leftDenoted with
  | result placeholder =>
      cases rightDenoted with
      | result _ => rfl
      | element other numbered => exact absurd (other.unique placeholder) numbered
      | field noPlaceholder => exact absurd placeholder (noPlaceholder _)
      | argument noPlaceholder => exact absurd placeholder (noPlaceholder _)
      | itself noPlaceholder => exact absurd placeholder (noPlaceholder _)
  | element placeholder numbered =>
      cases rightDenoted with
      | result other => exact absurd (placeholder.unique other) numbered
      | element other _ => rw [placeholder.unique other]
      | field noPlaceholder => exact absurd placeholder (noPlaceholder _)
      | argument noPlaceholder => exact absurd placeholder (noPlaceholder _)
      | itself noPlaceholder => exact absurd placeholder (noPlaceholder _)
  | @field leftField noPlaceholder tuple member named =>
      cases rightDenoted with
      | result placeholder => exact absurd placeholder (noPlaceholder _)
      | element placeholder => exact absurd placeholder (noPlaceholder _)
      | @field rightField _ _ otherMember otherNamed =>
          rw [unambiguous.returns leftField member rightField otherMember
            (named.trans otherNamed.symm)]
      | argument _ noField => exact absurd ⟨tuple, leftField, member, named⟩ noField
      | itself _ noField => exact absurd ⟨tuple, leftField, member, named⟩ noField
  | @argument leftArgument noPlaceholder noField notGradient notMask member named =>
      cases rightDenoted with
      | result placeholder => exact absurd placeholder (noPlaceholder _)
      | element placeholder => exact absurd placeholder (noPlaceholder _)
      | @field rightField _ tuple otherMember otherNamed =>
          exact absurd ⟨tuple, rightField, otherMember, otherNamed⟩ noField
      | @argument rightArgument _ _ _ _ otherMember otherNamed =>
          rw [unambiguous.args leftArgument member rightArgument otherMember
            (named.trans otherNamed.symm)]
      | itself _ _ kept =>
          rcases kept with gradient | mask | noArgument
          · exact absurd gradient notGradient
          · exact absurd mask notMask
          · exact absurd ⟨leftArgument, member, named⟩ noArgument
  | itself noPlaceholder noField kept =>
      cases rightDenoted with
      | result placeholder => exact absurd placeholder (noPlaceholder _)
      | element placeholder => exact absurd placeholder (noPlaceholder _)
      | @field rightField _ tuple otherMember otherNamed =>
          exact absurd ⟨tuple, rightField, otherMember, otherNamed⟩ noField
      | @argument rightArgument _ _ notGradient notMask otherMember otherNamed =>
          rcases kept with gradient | mask | noArgument
          · exact absurd gradient notGradient
          · exact absurd mask notMask
          · exact absurd ⟨rightArgument, otherMember, otherNamed⟩ noArgument
      | itself _ _ _ => rfl

end Names

namespace Renaming

variable {Value : Type u}

/-- Renaming is simultaneous substitution: a renamed tree has the value that the tree has
where every unqualified name has the value of what it stands for, and every called name
means what its display name means. -/
theorem eval_apply (names : Renaming) (meaning : Interpretation Value)
    (parameters : String → Value) (tree : Expr) :
    meaning.eval parameters (names.apply tree) =
      (meaning.ofFormulas names.callSites).eval
        (fun ident => meaning.eval parameters (names.value ident)) tree := by
  have ofAll : ∀ items : List Expr,
      (∀ item ∈ items, meaning.eval parameters (names.apply item) =
        (meaning.ofFormulas names.callSites).eval
          (fun ident => meaning.eval parameters (names.value ident)) item) →
      meaning.evalAll parameters (names.applyAll items) =
        (meaning.ofFormulas names.callSites).evalAll
          (fun ident => meaning.eval parameters (names.value ident)) items := by
    intro items ofItems
    rw [applyAll_eq_map, Interpretation.evalAll_eq_map, Interpretation.evalAll_eq_map,
      List.map_map]
    exact List.map_congr_left ofItems
  induction tree using Expr.inductionByCallee with
  | name qualifier ident =>
      cases qualifier with
      | nil => rw [apply]; rfl
      | cons first others => rfl
  | number text => rfl
  | string text => rfl
  | hole => rfl
  | member value field ofValue =>
      rw [apply, Interpretation.eval, Interpretation.eval, ofValue]
      rfl
  | callMethod receiver method arguments ofReceiver ofArguments =>
      rw [apply, Interpretation.eval, Interpretation.eval, ofReceiver,
        ofAll arguments ofArguments]
      rfl
  | callFunction qualifier ident arguments ofArguments =>
      rw [apply, Interpretation.eval, Interpretation.eval, ofAll arguments ofArguments]
      rfl
  | callValue callee arguments computed ofCallee ofArguments =>
      rw [apply_callValue names computed,
        Interpretation.eval_callValue _ _ (calleeName?_apply names computed),
        Interpretation.eval_callValue _ _ computed, ofCallee, ofAll arguments ofArguments]
      rfl
  | index value position ofValue ofPosition =>
      rw [apply, Interpretation.eval, Interpretation.eval, ofValue, ofPosition]
      rfl
  | unary op operand ofOperand =>
      rw [apply, Interpretation.eval, Interpretation.eval, ofOperand]
      rfl
  | binary op left right ofLeft ofRight =>
      rw [apply, Interpretation.eval, Interpretation.eval, ofLeft, ofRight]
      rfl
  | ternary condition thenValue elseValue ofCondition ofThen ofElse =>
      rw [apply, Interpretation.eval, Interpretation.eval, ofCondition, ofThen, ofElse]
      rfl
  | list items ofItems =>
      rw [apply, Interpretation.eval, Interpretation.eval, ofAll items ofItems]
      rfl
  | paren inner ofInner =>
      rw [apply, Interpretation.eval, Interpretation.eval, ofInner]
      rfl

/-- A renamed formula means in the backward procedure what the formula means where its names
have the values that they denote. There are such values for every forward procedure, and
unless it is ambiguous there are no others. -/
theorem ofForward_preserves_meaning (meaning : Interpretation Value) (forward : Signature)
    (sites : CallSites) (parameters : String → Value) :
    ∃ names,
      IsFormulaEnvironment meaning forward parameters names ∧
      (forward.Unambiguous → ∀ others,
        IsFormulaEnvironment meaning forward parameters others → others = names) ∧
      ∀ tree, meaning.eval parameters ((ofForward forward sites).apply tree) =
        (meaning.ofFormulas sites).eval names tree := by
  refine ⟨fun ident => meaning.eval parameters ((ofForward forward sites).value ident),
    fun ident => (value_standsFor forward sites ident).denotes, ?_, ?_⟩
  · intro unambiguous others environment
    funext ident
    exact (environment ident).unique unambiguous (value_standsFor forward sites ident).denotes
  · exact eval_apply (ofForward forward sites) meaning parameters

end Renaming

end Backward

end TensorBindings
