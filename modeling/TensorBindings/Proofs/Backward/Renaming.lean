import TensorBindings.Backward.Renaming
import TensorBindings.Proofs.Expr.Structure

/-!
Contract: what a renaming does to a name, and where it does it.

Owns: placeholders as a relation between a name and its digits, the names that a forward
procedure gives a meaning to, what an unqualified name stands for (`StandsFor`), the
equations of the renaming for lists and for calls of computed callees, and the place of the
value for training in a formula.

`value_standsFor` is the only result about the tables of a renaming. All that is proved about
renamed formulas goes through it.
-/

set_option autoImplicit false

namespace TensorBindings

open TensorBindings.Text

namespace Text

private theorem dropStart?_eq_some_iff {start text rest : String} :
    dropStart? start text = some rest ↔ text = start ++ rest := by
  unfold dropStart?
  constructor
  · intro dropped
    split at dropped
    · next begins =>
        cases dropped
        obtain ⟨tail, split⟩ := List.isPrefixOf_iff_prefix.mp begins
        apply String.toList_injective
        rw [String.toList_append, String.toList_ofList, ← split, List.drop_left]
    · cases dropped
  · intro split
    subst split
    simp

end Text

namespace Signature

/-- A name of a field of the forward result. Only a tuple has fields. -/
def NamesField (signature : Signature) (ident : String) : Prop :=
  signature.returnsTuple = true ∧ ∃ field ∈ signature.returns, field.declaredName = ident

/-- A name of a forward argument. -/
def NamesArgument (signature : Signature) (ident : String) : Prop :=
  ∃ argument ∈ signature.args, argument.declaredName = ident

end Signature

namespace Backward

/-! ### Placeholders -/

/-- The words for the result of the forward procedure. -/
def resultWords : List String := ["result", "output"]

/-- The name is a word for the forward result with these digits, and nothing else, after
it. -/
def IsPlaceholder (ident digits : String) : Prop :=
  (∃ word ∈ resultWords, ident = word ++ digits) ∧
    ∀ digit ∈ digits.toList, isDecimalDigit digit = true

private theorem placeholder?_eq_some_iff {ident digits : String} :
    placeholder? ident = some digits ↔ IsPlaceholder ident digits := by
  unfold placeholder? IsPlaceholder
  rw [Option.filter_eq_some_iff, List.all_eq_true]
  refine and_congr_left fun _ => ?_
  rw [Option.or_eq_some_iff, dropStart?_eq_some_iff, dropStart?_eq_some_iff]
  simp only [resultWords, List.mem_cons, List.not_mem_nil, or_false, exists_eq_or_imp,
    exists_eq_left]
  constructor
  · rintro (isResult | ⟨_, isOutput⟩)
    · exact Or.inl isResult
    · exact Or.inr isOutput
  · rintro (isResult | isOutput)
    · exact Or.inl isResult
    · -- No name begins with both words.
      refine Or.inr ⟨?_, isOutput⟩
      rw [Option.eq_none_iff_forall_ne_some]
      intro rest alsoResult
      rw [dropStart?_eq_some_iff, isOutput] at alsoResult
      have sameChars := congrArg String.toList alsoResult
      simp at sameChars

theorem placeholder?_eq_none_iff {ident : String} :
    placeholder? ident = none ↔ ∀ digits, ¬ IsPlaceholder ident digits := by
  rw [Option.eq_none_iff_forall_ne_some]
  exact forall_congr' fun digits => not_congr placeholder?_eq_some_iff

/-- A placeholder has its digits only. -/
theorem IsPlaceholder.unique {ident first second : String} (isFirst : IsPlaceholder ident first)
    (isSecond : IsPlaceholder ident second) : first = second := by
  rw [← placeholder?_eq_some_iff] at isFirst isSecond
  exact Option.some.inj (isFirst.symm.trans isSecond)

/-! ### Tables in which the last pair counts -/

private theorem mem_of_lastValue?_eq_some {key value : String} {pairs : List (String × String)}
    (found : lastValue? key pairs = some value) : (key, value) ∈ pairs := by
  unfold lastValue? at found
  obtain ⟨pair, pairFound, rfl⟩ := Option.map_eq_some_iff.mp found
  have pairMember := List.mem_reverse.mp (List.mem_of_find?_eq_some pairFound)
  have pairKey : pair.1 = key := by simpa using List.find?_some pairFound
  rw [← pairKey]
  exact pairMember

private theorem not_mem_of_lastValue?_eq_none {key : String} {pairs : List (String × String)}
    (missing : lastValue? key pairs = none) (value : String) : (key, value) ∉ pairs := by
  unfold lastValue? at missing
  rw [Option.map_eq_none_iff, List.find?_eq_none] at missing
  intro member
  exact missing (key, value) (List.mem_reverse.mpr member) (beq_self_eq_true key)

/-! ### Names -/

/-- What an unqualified name of a formula stands for in the backward procedure. The rules
are tried in this order. -/
inductive StandsFor (forward : Signature) (ident : String) : Expr → Prop where
  | result
      (placeholder : IsPlaceholder ident "") :
      StandsFor forward ident (.name [] forwardResultName)
  | element {digits : String}
      (placeholder : IsPlaceholder ident digits)
      (numbered : digits ≠ "") :
      StandsFor forward ident (.index (.name [] forwardResultName) (.number digits))
  | field {field : ReturnField}
      (noPlaceholder : ∀ digits, ¬ IsPlaceholder ident digits)
      (tuple : forward.returnsTuple = true)
      (member : field ∈ forward.returns)
      (named : field.declaredName = ident) :
      StandsFor forward ident (.member (.name [] forwardResultName) field.name)
  | argument {argument : Argument}
      (noPlaceholder : ∀ digits, ¬ IsPlaceholder ident digits)
      (noField : ¬ forward.NamesField ident)
      (notGradient : ident ≠ gradientName)
      (notMask : ident ≠ maskName)
      (member : argument ∈ forward.args)
      (named : argument.declaredName = ident) :
      StandsFor forward ident (.name [] (parameterName argument.name))
  | itself
      (noPlaceholder : ∀ digits, ¬ IsPlaceholder ident digits)
      (noField : ¬ forward.NamesField ident)
      (kept : ident = gradientName ∨ ident = maskName ∨ ¬ forward.NamesArgument ident) :
      StandsFor forward ident (.name [] ident)

namespace Renaming

section OfForward

variable (forward : Signature) (callSites : CallSites) {ident : String}

private theorem mem_fields_ofForward_iff {field : String} :
    (ident, field) ∈ (ofForward forward callSites).fields ↔
      forward.returnsTuple = true ∧
        ∃ result ∈ forward.returns, result.declaredName = ident ∧ result.name = field := by
  unfold ofForward
  by_cases tuple : forward.returnsTuple = true <;> simp [tuple]

private theorem mem_parameters_ofForward_iff {parameter : String} :
    (ident, parameter) ∈ (ofForward forward callSites).parameters ↔
      ident ≠ gradientName ∧ ident ≠ maskName ∧ parameter ≠ ident ∧
        ∃ argument ∈ forward.args, argument.declaredName = ident ∧
          parameterName argument.name = parameter := by
  unfold ofForward
  simp only [List.mem_map, List.mem_filter, decide_eq_true_eq, Prod.mk.injEq]
  constructor
  · rintro ⟨argument, ⟨member, notGradient, notMask, renamed⟩, rfl, rfl⟩
    exact ⟨notGradient, notMask, renamed, argument, member, rfl, rfl⟩
  · rintro ⟨notGradient, notMask, renamed, argument, member, rfl, rfl⟩
    exact ⟨argument, ⟨member, notGradient, notMask, renamed⟩, rfl, rfl⟩

/-- An argument without a pair in the table is spelled as its parameter. -/
theorem parameterName_eq_of_missing {argument : Argument} (member : argument ∈ forward.args)
    (missing : lastValue? argument.declaredName (ofForward forward callSites).parameters = none)
    (notGradient : argument.declaredName ≠ gradientName)
    (notMask : argument.declaredName ≠ maskName) :
    parameterName argument.name = argument.declaredName := by
  refine Decidable.byContradiction fun different => ?_
  have pair := (mem_parameters_ofForward_iff forward callSites).mpr
    ⟨notGradient, notMask, different, argument, member, rfl, rfl⟩
  exact not_mem_of_lastValue?_eq_none missing (parameterName argument.name) pair

/-- The renaming for a forward procedure gives every unqualified name what it stands for. -/
theorem value_standsFor (ident : String) :
    StandsFor forward ident ((ofForward forward callSites).value ident) := by
  unfold value
  cases placed : placeholder? ident with
  | some digits =>
      have placeholder := placeholder?_eq_some_iff.mp placed
      by_cases numbered : digits = ""
      · subst numbered
        simpa using StandsFor.result placeholder
      · simpa [numbered] using StandsFor.element placeholder numbered
  | none =>
      have noPlaceholder := placeholder?_eq_none_iff.mp placed
      cases shown : lastValue? ident (ofForward forward callSites).fields with
      | some field =>
          obtain ⟨tuple, result, member, named, rfl⟩ :=
            (mem_fields_ofForward_iff forward callSites).mp (mem_of_lastValue?_eq_some shown)
          exact .field noPlaceholder tuple member named
      | none =>
          have noField : ¬ forward.NamesField ident := by
            rintro ⟨tuple, result, member, named⟩
            exact not_mem_of_lastValue?_eq_none shown result.name
              ((mem_fields_ofForward_iff forward callSites).mpr
                ⟨tuple, result, member, named, rfl⟩)
          cases renamed : lastValue? ident (ofForward forward callSites).parameters with
          | some parameter =>
              obtain ⟨notGradient, notMask, _, argument, member, named, rfl⟩ :=
                (mem_parameters_ofForward_iff forward callSites).mp
                  (mem_of_lastValue?_eq_some renamed)
              exact .argument noPlaceholder noField notGradient notMask member named
          | none =>
              by_cases own : ident = gradientName ∨ ident = maskName
              · exact .itself noPlaceholder noField (or_assoc.mp (Or.inl own))
              · rw [not_or] at own
                by_cases isArgument : forward.NamesArgument ident
                · obtain ⟨argument, member, rfl⟩ := isArgument
                  have sameName :=
                    parameterName_eq_of_missing forward callSites member renamed own.1 own.2
                  have standsFor := StandsFor.argument noPlaceholder noField own.1 own.2
                    member rfl
                  rw [sameName] at standsFor
                  exact standsFor
                · exact .itself noPlaceholder noField (Or.inr (Or.inr isArgument))

end OfForward

/-! ### Trees -/

variable (names : Renaming)

theorem applyAll_eq_map (items : List Expr) :
    names.applyAll items = items.map names.apply := by
  induction items with
  | nil => rfl
  | cons item rest inductionHypothesis =>
      rw [applyAll, inductionHypothesis, List.map_cons]

theorem apply_callValue {callee : Expr} (computed : callee.calleeName? = none)
    (arguments : List Expr) :
    names.apply (.call callee arguments) =
      .call (names.apply callee) (names.applyAll arguments) := by
  cases callee with
  | name qualifier ident => cases computed
  | member receiver method => cases computed
  | _ => simp [apply]

/-- A computed callee stays computed, so no call changes its form. -/
theorem calleeName?_apply {callee : Expr} (computed : callee.calleeName? = none) :
    (names.apply callee).calleeName? = none := by
  cases callee with
  | name qualifier ident => cases computed
  | member receiver method => cases computed
  | call inner arguments => cases inner <;> rfl
  | _ => rfl

end Renaming

/-- The value for training is a part of the formula. -/
theorem stripTrainingGuard_mem_nodes (source : Expr) :
    (stripTrainingGuard source).1 ∈ source.nodes := by
  unfold stripTrainingGuard
  split
  · split
    · simp [Expr.nodes]
    · exact Expr.self_mem_nodes _
  · exact Expr.self_mem_nodes _

end Backward

end TensorBindings
