import Mathlib.Data.List.Nodup
import TensorBindings.Proofs.Backward.Renaming
import TensorBindings.Proofs.Fallible

/-!
Contract: fields of the forward result in formulas.

Owns: the places of values in an expression tree, the fact that a renaming keeps them, and what
stands in the place of a field of the forward result.

A field is projected off the forward result wherever its name stands for a value. Only the words
for the result itself come first: a field that is declared as `output` is out of reach under its
name, which is the whole result.

Does not own: what the names of arguments become (`Proofs.Backward.Renaming`).
-/

set_option autoImplicit false

namespace TensorBindings

namespace Expr

/-! ### Places of values -/

/-- The parts of a tree that are values. The callee of a call is none if it is a name; if it is
a member, its receiver is one. -/
def valueParts : Expr → List Expr
  | .name _ _ => []
  | .number _ => []
  | .string _ => []
  | .member value _ => [value]
  | .call (.name _ _) arguments => arguments
  | .call (.member receiver _) arguments => receiver :: arguments
  | .call callee arguments => callee :: arguments
  | .index value position => [value, position]
  | .unary _ operand => [operand]
  | .binary _ left right => [left, right]
  | .ternary condition thenValue elseValue => [condition, thenValue, elseValue]
  | .list items => items
  | .paren inner => [inner]
  | .hole => []

/-- The value in a place. A place gives the number of a part on each level. -/
def valueAt? (tree : Expr) : List Nat → Option Expr
  | [] => some tree
  | part :: place => tree.valueParts[part]?.bind (·.valueAt? place)

private theorem valueParts_callValue {callee : Expr} (computed : callee.calleeName? = none)
    (arguments : List Expr) : (Expr.call callee arguments).valueParts = callee :: arguments := by
  cases callee with
  | name qualifier ident => cases computed
  | member receiver method => cases computed
  | _ => rfl

/-- Induction over the values in a tree. -/
@[elab_as_elim] theorem inductionByValue {motive : Expr → Prop}
    (ofParts : ∀ tree, (∀ part ∈ tree.valueParts, motive part) → motive tree) (tree : Expr) :
    motive tree := by
  have ofOne {part : Expr} (ofPart : motive part) : ∀ other ∈ [part], motive other :=
    List.forall_mem_singleton.mpr ofPart
  have ofMore {part : Expr} {others : List Expr} (ofPart : motive part)
      (ofOthers : ∀ other ∈ others, motive other) : ∀ other ∈ part :: others, motive other :=
    List.forall_mem_cons.mpr ⟨ofPart, ofOthers⟩
  induction tree using inductionByCallee with
  | name qualifier ident => exact ofParts _ (List.forall_mem_nil _)
  | number text => exact ofParts _ (List.forall_mem_nil _)
  | string text => exact ofParts _ (List.forall_mem_nil _)
  | hole => exact ofParts _ (List.forall_mem_nil _)
  | member value field ofValue => exact ofParts _ (ofOne ofValue)
  | unary op operand ofOperand => exact ofParts _ (ofOne ofOperand)
  | paren inner ofInner => exact ofParts _ (ofOne ofInner)
  | list items ofItems => exact ofParts _ ofItems
  | callMethod receiver method arguments ofReceiver ofArguments =>
      exact ofParts _ (ofMore ofReceiver ofArguments)
  | callFunction qualifier ident arguments ofArguments => exact ofParts _ ofArguments
  | callValue callee arguments computed ofCallee ofArguments =>
      refine ofParts _ ?_
      rw [valueParts_callValue computed]
      exact ofMore ofCallee ofArguments
  | index value position ofValue ofPosition =>
      exact ofParts _ (ofMore ofValue (ofOne ofPosition))
  | binary op left right ofLeft ofRight => exact ofParts _ (ofMore ofLeft (ofOne ofRight))
  | ternary condition thenValue elseValue ofCondition ofThen ofElse =>
      exact ofParts _ (ofMore ofCondition (ofMore ofThen (ofOne ofElse)))

/-- A tree that is no unqualified name reads the names that its parts read. -/
theorem valueNames_eq_flatMap_valueParts {tree : Expr}
    (compound : ∀ ident, tree ≠ .name [] ident) :
    tree.valueNames = tree.valueParts.flatMap valueNames := by
  cases tree with
  | name qualifier ident =>
      cases qualifier with
      | nil => exact absurd rfl (compound ident)
      | cons first others => rfl
  | call callee arguments =>
      cases called : callee.calleeName? with
      | none =>
          rw [valueNames_callValue arguments called, valueParts_callValue called,
            List.flatMap_cons, valueNamesOfAll_eq_flatMap]
      | some ident =>
          cases callee with
          | name qualifier ident => exact valueNamesOfAll_eq_flatMap arguments
          | member receiver method =>
              exact congrArg (receiver.valueNames ++ ·) (valueNamesOfAll_eq_flatMap arguments)
          | _ => cases called
  | list items => exact valueNamesOfAll_eq_flatMap items
  | _ => simp only [valueNames, valueParts, List.flatMap_cons, List.flatMap_nil,
      List.append_nil, List.append_assoc]

/-- The names that stand for values are the unqualified names in the places of the tree. -/
theorem mem_valueNames_iff_exists_valueAt? {tree : Expr} {ident : String} :
    ident ∈ tree.valueNames ↔ ∃ place, tree.valueAt? place = some (.name [] ident) := by
  induction tree using inductionByValue with
  | ofParts tree ofParts =>
      by_cases bare : ∃ other, tree = .name [] other
      · obtain ⟨other, rfl⟩ := bare
        simp only [valueNames, List.mem_singleton]
        constructor
        · rintro rfl
          exact ⟨[], rfl⟩
        · rintro ⟨_ | ⟨part, place⟩, found⟩
          · cases found
            rfl
          · cases found
      · rw [not_exists] at bare
        rw [valueNames_eq_flatMap_valueParts bare, List.mem_flatMap]
        constructor
        · rintro ⟨part, member, inPart⟩
          obtain ⟨place, found⟩ := (ofParts part member).mp inPart
          obtain ⟨position, isPart⟩ := List.mem_iff_getElem?.mp member
          refine ⟨position :: place, ?_⟩
          rw [valueAt?, isPart]
          exact found
        · rintro ⟨_ | ⟨position, place⟩, found⟩
          · exact absurd (Option.some.inj found) (bare ident)
          · obtain ⟨part, isPart, inPart⟩ := Option.bind_eq_some_iff.mp found
            have member := List.mem_of_getElem? isPart
            exact ⟨part, member, (ofParts part member).mpr ⟨place, inPart⟩⟩

end Expr

namespace Backward

namespace Renaming

variable (names : Renaming)

/-- The parts of a renamed tree are its parts renamed, unless a name is replaced. -/
theorem valueParts_apply {tree : Expr} (compound : ∀ ident, tree ≠ .name [] ident) :
    (names.apply tree).valueParts = tree.valueParts.map names.apply := by
  cases tree with
  | name qualifier ident =>
      cases qualifier with
      | nil => exact absurd rfl (compound ident)
      | cons first others => rfl
  | call callee arguments =>
      cases called : callee.calleeName? with
      | none =>
          rw [apply_callValue names called,
            Expr.valueParts_callValue (calleeName?_apply names called),
            Expr.valueParts_callValue called, applyAll_eq_map, List.map_cons]
      | some ident =>
          cases callee with
          | name qualifier ident => exact applyAll_eq_map names arguments
          | member receiver method =>
              exact congrArg (names.apply receiver :: ·) (applyAll_eq_map names arguments)
          | _ => cases called
  | list items => exact applyAll_eq_map names items
  | _ => rfl

/-- Every place of a tree is one of the renamed tree, and its value there is renamed. -/
theorem valueAt?_apply {tree value : Expr} {place : List Nat}
    (found : tree.valueAt? place = some value) :
    (names.apply tree).valueAt? place = some (names.apply value) := by
  induction place generalizing tree with
  | nil =>
      cases found
      rfl
  | cons position place inductionHypothesis =>
      obtain ⟨part, isPart, inPart⟩ := Option.bind_eq_some_iff.mp found
      -- A name has no parts, so the tree is none.
      have compound : ∀ ident, tree ≠ .name [] ident := by
        rintro ident rfl
        cases isPart
      rw [Expr.valueAt?, valueParts_apply names compound, List.getElem?_map, isPart]
      exact inductionHypothesis inPart

end Renaming

/-- A name that is a placeholder stands for the forward result, or for the element of it with
that number. -/
theorem StandsFor.eq_of_isPlaceholder {forward : Signature} {ident digits : String} {value : Expr}
    (standsFor : StandsFor forward ident value) (placeholder : IsPlaceholder ident digits) :
    value = if digits = "" then .name [] forwardResultName
      else .index (.name [] forwardResultName) (.number digits) := by
  cases standsFor with
  | result unnumbered => rw [if_pos (placeholder.unique unnumbered)]
  | element other numbered =>
      obtain rfl := other.unique placeholder
      rw [if_neg numbered]
  | field noPlaceholder => exact absurd placeholder (noPlaceholder digits)
  | argument noPlaceholder => exact absurd placeholder (noPlaceholder digits)
  | itself noPlaceholder => exact absurd placeholder (noPlaceholder digits)

/-- The name of a field that is no placeholder stands for the projection on the field. -/
theorem StandsFor.eq_projection {forward : Signature} {field : ReturnField} {value : Expr}
    (standsFor : StandsFor forward field.declaredName value)
    (tuple : forward.returnsTuple = true)
    (distinct : (forward.returns.map (·.declaredName)).Nodup)
    (member : field ∈ forward.returns)
    (noPlaceholder : ∀ digits, ¬ IsPlaceholder field.declaredName digits) :
    value = .member (.name [] forwardResultName) field.name := by
  have isField : forward.NamesField field.declaredName := ⟨tuple, field, member, rfl⟩
  cases standsFor with
  | result placeholder => exact absurd placeholder (noPlaceholder _)
  | element placeholder => exact absurd placeholder (noPlaceholder _)
  | field _ _ otherMember named =>
      rw [List.inj_on_of_nodup_map distinct otherMember member named]
  | argument _ noField => exact absurd isField noField
  | itself _ noField => exact absurd isField noField

/-- Wherever the name of a field of the forward result stands for a value, the renamed formula
has the projection on that field, exactly if the name is no placeholder. The name of a
placeholder becomes the forward result, or an element of it. -/
theorem tuple_field_is_projected_unless_placeholder
    {forward : Signature} (several : 1 < forward.returns.length)
    (distinct : (forward.returns.map (·.declaredName)).Nodup)
    {field : ReturnField} (member : field ∈ forward.returns)
    (sites : CallSites) (tree : Expr) :
    (field.declaredName ∈ tree.valueNames ↔
      ∃ place, tree.valueAt? place = some (.name [] field.declaredName)) ∧
    ∀ place, tree.valueAt? place = some (.name [] field.declaredName) →
      ∃ value, ((Renaming.ofForward forward sites).apply tree).valueAt? place = some value ∧
        (value = .member (.name [] forwardResultName) field.name ↔
          ∀ digits, ¬ IsPlaceholder field.declaredName digits) ∧
        ∀ digits, IsPlaceholder field.declaredName digits →
          value = if digits = "" then .name [] forwardResultName
            else .index (.name [] forwardResultName) (.number digits) := by
  refine ⟨Expr.mem_valueNames_iff_exists_valueAt?, fun place occurs => ?_⟩
  have standsFor := Renaming.value_standsFor forward sites field.declaredName
  have tuple : forward.returnsTuple = true := decide_eq_true several
  refine ⟨_, Renaming.valueAt?_apply _ occurs, ⟨fun projected digits placeholder => ?_, ?_⟩, ?_⟩
  · have whole := standsFor.eq_of_isPlaceholder placeholder
    rw [Renaming.apply] at projected
    rw [projected] at whole
    split at whole <;> cases whole
  · exact standsFor.eq_projection tuple distinct member
  · exact fun digits placeholder => standsFor.eq_of_isPlaceholder placeholder

end Backward

/-! ### A forward result with a field `output` -/

namespace Sample

open Backward

/-- It returns what it pools and where it found it. -/
def pool : Signature :=
  { engineName := "pool_forward"
    name := "pool"
    invocation := .function
    args := [⟨"self", "self", .tensor, none⟩, ⟨"indices", "indices", .tensor, none⟩]
    returns := [⟨"output", "output", .tensor⟩, ⟨"indices", "indices", .tensor⟩] }

/-- `spread(output, -indices)` -/
def poolFormula : Expr :=
  .call (.name [] "spread") [.name [] "output", .unary .minus (.name [] "indices")]

theorem indices_of_pool_are_projected :
    1 < pool.returns.length ∧ (pool.returns.map (·.declaredName)).Nodup ∧
      poolFormula.valueAt? [1, 0] = some (.name [] "indices") ∧
      ((Renaming.ofForward pool {}).apply poolFormula).valueAt? [1, 0] =
        some (.member (.name [] "fwd_result") "indices") := by
  have distinct : (pool.returns.map (·.declaredName)).Nodup := by decide
  have member : (⟨"indices", "indices", .tensor⟩ : ReturnField) ∈ pool.returns :=
    List.mem_cons_of_mem _ List.mem_cons_self
  obtain ⟨value, found, projected, _⟩ :=
    (tuple_field_is_projected_unless_placeholder (by decide) distinct member {} poolFormula).2
      [1, 0] rfl
  refine ⟨by decide, distinct, rfl, ?_⟩
  rw [found, projected.mpr (placeholder?_eq_none_iff.mp (by decide +kernel))]
  rfl

/-- Under the name of its first field a formula gets both fields. -/
theorem output_of_pool_is_the_whole_result :
    poolFormula.valueAt? [0] = some (.name [] "output") ∧
      ((Renaming.ofForward pool {}).apply poolFormula).valueAt? [0] =
        some (.name [] "fwd_result") ∧
      ((Renaming.ofForward pool {}).apply poolFormula).valueAt? [0] ≠
        some (.member (.name [] "fwd_result") "output") := by
  have whole : ((Renaming.ofForward pool {}).apply poolFormula).valueAt? [0] =
      some (.name [] "fwd_result") := by
    rfl
  refine ⟨rfl, whole, ?_⟩
  rw [whole]
  exact fun same => nomatch Option.some.inj same

end Sample

end TensorBindings
