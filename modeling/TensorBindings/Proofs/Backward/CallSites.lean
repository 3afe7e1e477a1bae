import TensorBindings.Proofs.Backward.Acceptance
import TensorBindings.Proofs.Backward.Renaming
import TensorBindings.Proofs.Registry

/-!
Contract: the calls in emitted code.

Owns: the call sites of a renamed tree, which are those of its source in the same order and
the same style, and the names that the calls of an accepted entry may have.

A call is renamed in its own style only: the tables for methods and for functions are
separate. A name that can be called, but not in the style in which a body calls it, passes
the checks and is written as the body has it.
-/

set_option autoImplicit false

namespace TensorBindings

open TensorBindings.Text

/-- A call site after renaming: the same style, and the display name. -/
def CallSites.rename (sites : CallSites) (site : Invocation × String) : Invocation × String :=
  (site.1, sites.display site.1 site.2)

namespace Backward

namespace Renaming

private theorem callSites_value (names : Renaming) (ident : String) :
    (names.value ident).callSites = [] := by
  unfold value
  dsimp only
  split
  · split <;> rfl
  · split <;> rfl

/-- Renaming keeps the call sites of a tree, their order and their styles, and gives each
its display name. -/
theorem callSites_apply (names : Renaming) (tree : Expr) :
    (names.apply tree).callSites = tree.callSites.map names.callSites.rename := by
  have ofAll : ∀ items : List Expr,
      (∀ item ∈ items, (names.apply item).callSites = item.callSites.map names.callSites.rename) →
      (Expr.nodesOfAll (names.applyAll items)).filterMap Expr.callSite? =
        ((Expr.nodesOfAll items).filterMap Expr.callSite?).map names.callSites.rename := by
    intro items
    induction items with
    | nil => intro _; rfl
    | cons item rest inductionHypothesis =>
        intro ofItems
        have ofRest := inductionHypothesis fun other member =>
          ofItems other (List.mem_cons_of_mem item member)
        have ofFirst := ofItems item List.mem_cons_self
        unfold Expr.callSites at ofFirst
        simp [applyAll, Expr.nodesOfAll, ofFirst, ofRest]
  induction tree using Expr.inductionByCallee with
  | name qualifier ident =>
      cases qualifier with
      | nil => rw [apply, callSites_value]; rfl
      | cons first others => rfl
  | number text => rfl
  | string text => rfl
  | hole => rfl
  | member value field inductionHypothesis => exact inductionHypothesis
  | unary op operand inductionHypothesis => exact inductionHypothesis
  | paren inner inductionHypothesis => exact inductionHypothesis
  | callMethod receiver method arguments ofReceiver ofArguments =>
      have named : names.callSites.method method = names.callSites.display .method method :=
        names.callSites.method_eq_display method
      unfold Expr.callSites at ofReceiver ⊢
      simp [apply, Expr.nodes, Expr.callSite?, List.filterMap_cons, ofReceiver,
        ofAll arguments ofArguments, CallSites.rename, named]
  | callFunction qualifier ident arguments ofArguments =>
      have named : names.callSites.function ident = names.callSites.display .function ident :=
        names.callSites.function_eq_display ident
      unfold Expr.callSites
      simp [apply, Expr.nodes, Expr.callSite?, List.filterMap_cons,
        ofAll arguments ofArguments, CallSites.rename, named]
  | callValue callee arguments computed ofCallee ofArguments =>
      have noSite : ∀ callee : Expr, callee.calleeName? = none → ∀ arguments,
          (Expr.call callee arguments).callSite? = none := by
        intro callee computed arguments
        cases callee with
        | name qualifier ident => cases computed
        | member receiver method => cases computed
        | _ => rfl
      rw [apply_callValue names computed]
      unfold Expr.callSites at ofCallee ⊢
      simp [Expr.nodes, noSite _ computed,
        noSite _ (calleeName?_apply names computed), ofCallee, ofAll arguments ofArguments]
  | index value position ofValue ofPosition =>
      unfold Expr.callSites at ofValue ofPosition ⊢
      simp [apply, Expr.nodes, Expr.callSite?, List.filterMap_cons, ofValue, ofPosition]
  | binary op left right ofLeft ofRight =>
      unfold Expr.callSites at ofLeft ofRight ⊢
      simp [apply, Expr.nodes, Expr.callSite?, List.filterMap_cons, ofLeft, ofRight]
  | ternary condition thenValue elseValue ofCondition ofThen ofElse =>
      unfold Expr.callSites at ofCondition ofThen ofElse ⊢
      simp [apply, Expr.nodes, Expr.callSite?, List.filterMap_cons, ofCondition, ofThen, ofElse]
  | list items ofItems =>
      unfold Expr.callSites
      simp [apply, Expr.nodes, Expr.callSite?, List.filterMap_cons, ofAll items ofItems]

end Renaming

/-- The calls of the value for training are calls of the whole formula. -/
theorem callSites_stripTrainingGuard_subset (source : Expr) :
    (stripTrainingGuard source).1.callSites ⊆ source.callSites :=
  Expr.callSites_subset_of_mem (stripTrainingGuard_mem_nodes source)

theorem style_ne_onType_of_mem_callSites {tree : Expr} {style : Invocation} {name : String}
    (member : (style, name) ∈ tree.callSites) : style ≠ .onType := by
  obtain ⟨node, _, site⟩ := List.mem_filterMap.mp member
  unfold Expr.callSite? at site
  split at site <;> cases site <;> decide

/-- The name of a renamed call, in terms of the entries of the registry. -/
theorem rename_cases {registry : Registry} (indexed : registry.Indexed)
    {style : Invocation} (callable : style ≠ .onType) {called name : String}
    (renamed : registry.callSites.rename (style, called) = (style, name))
    (known : registry.isCallable called = true) :
    (∃ signature ∈ registry.entries, signature.invocation ≠ .onType ∧
      signature.serves style called = true ∧ name = signature.name) ∨
    ((∀ signature ∈ registry.entries, ¬ signature.serves style called = true) ∧
      name = called ∧ ∃ signature ∈ registry.entries, signature.IsCalledBy called) := by
  have shown : registry.callSites.display style called = name := congrArg Prod.snd renamed
  rcases indexed.display_cases callable called with
    ⟨signature, member, served, display⟩ | ⟨unserved, display⟩
  · refine Or.inl ⟨signature, member, ?_, served, shown.symm.trans display⟩
    have ofStyle : signature.invocation = style := by
      unfold Signature.serves at served
      rw [Bool.and_eq_true, beq_iff_eq] at served
      exact served.1
    rw [ofStyle]
    exact callable
  · exact Or.inr ⟨unserved, shown.symm.trans display, (indexed.isCallable_iff called).mp known⟩

end Backward

namespace FormulaEntry

open Backward

/-- Every call in the emitted tree of an accepted body comes from a call of the same style in
the body. If the called name is the engine name of a signature of that style, the call has
the display name of one. Otherwise it keeps its name, by which some signature that formulas
may call is known: as its engine name in the other style, or as its alias. -/
theorem emitted_call_is_known
    {registry : Registry} (reachable : registry.Reachable)
    {entry : FormulaEntry} {procedure : BackwardProcedure}
    (accepted : entry.backward registry = .ok (some procedure))
    {body : FormulaBody} (member : body ∈ entry.bodies)
    (implemented : body.isImplemented = true) :
    ∃ source, Expr.parse (trim body.text) = .ok source ∧
      ∀ style name,
        (style, name) ∈ (emittedTree registry procedure.forward source).callSites →
        ∃ called, (style, called) ∈ (stripTrainingGuard source).1.callSites ∧
          ((∃ signature ∈ registry.entries, signature.invocation ≠ .onType ∧
              signature.serves style called = true ∧ name = signature.name) ∨
            ((∀ signature ∈ registry.entries, ¬ signature.serves style called = true) ∧
              name = called ∧ ∃ signature ∈ registry.entries, signature.IsCalledBy called)) := by
  obtain ⟨source, parsed, callable, _⟩ := exists_source_of_backward accepted member implemented
  refine ⟨source, parsed, fun style name emitted => ?_⟩
  unfold emittedTree at emitted
  rw [Renaming.callSites_apply] at emitted
  obtain ⟨⟨sourceStyle, called⟩, sourceMember, renamed⟩ := List.mem_map.mp emitted
  have sameStyle : sourceStyle = style := congrArg Prod.fst renamed
  subst sameStyle
  have known : registry.isCallable called = true := by
    apply callable
    rw [Expr.callNames_eq_map_callSites]
    exact List.mem_map_of_mem (callSites_stripTrainingGuard_subset source sourceMember)
  exact ⟨called, sourceMember, rename_cases reachable.indexed
    (style_ne_onType_of_mem_callSites sourceMember) renamed known⟩

end FormulaEntry

namespace Sample

open Backward

theorem registry_reachable : registry.Reachable :=
  .freeze (.register (.register .empty rfl) rfl)

/-- The two calls of `type` in the sample: the method takes its display name, the function
keeps its name. -/
theorem emitted_calls_of_callingBody :
    (emittedTree registry forward callingSource).callSites =
        [(.function, "type"), (.method, "getType")] ∧
      ∃ source, Expr.parse (trim callingBody.text) = .ok source ∧
        ∀ style name,
          (style, name) ∈ (emittedTree registry procedure.forward source).callSites →
          ∃ called, (style, called) ∈ (stripTrainingGuard source).1.callSites ∧
            ((∃ signature ∈ registry.entries, signature.invocation ≠ .onType ∧
                signature.serves style called = true ∧ name = signature.name) ∨
              ((∀ signature ∈ registry.entries, ¬ signature.serves style called = true) ∧
                name = called ∧ ∃ signature ∈ registry.entries, signature.IsCalledBy called)) :=
  ⟨by decide,
    FormulaEntry.emitted_call_is_known registry_reachable backward_entry
      (List.mem_cons_self) (by decide)⟩

/-- A method that a body calls as a function is accepted, and the emitted call has a name
that no signature is displayed under. -/
theorem function_call_of_method_has_no_display_name :
    entry.backward registry = .ok (some procedure) ∧
      callingBody ∈ entry.bodies ∧ callingBody.isImplemented = true ∧
      Expr.parse (trim callingBody.text) = .ok callingSource ∧
      (.function, "type") ∈ (emittedTree registry procedure.forward callingSource).callSites ∧
      ∀ signature ∈ registry.entries, signature.name ≠ "type" :=
  ⟨backward_entry, List.mem_cons_self, by decide, parse_callingBody, by decide, by decide⟩

end Sample

end TensorBindings
