import TensorBindings.Proofs.Backward.CallSites

/-!
Contract: unrelated signatures leave accepted entries alone.

Owns: when one registry extends another (`Registry.ExtendedBy`), that every check and the
renaming of an accepted entry come out the same in an extension, and that a registry with one
more signature, of which no name was known before, is an extension.

The display names of an extension differ from those before only for names that could not be
called. Renaming looks up called names and nothing else, and all of these passed the check of
calls, also those in a branch that is given up later.
-/

set_option autoImplicit false

namespace TensorBindings

/-! ### Renamings that differ in display names only -/

namespace Backward.Renaming

/-- The two renamings give the calls of a tree the same display names. -/
def SameCalls (names others : Renaming) (tree : Expr) : Prop :=
  ∀ site ∈ tree.callSites, names.callSites.rename site = others.callSites.rename site

theorem SameCalls.part {names others : Renaming} {tree part : Expr}
    (same : SameCalls names others tree) (inside : part ∈ tree.nodes) :
    SameCalls names others part :=
  fun site member => same site (Expr.callSites_subset_of_mem inside member)

/-- Renaming looks at display names for the calls of a tree only. -/
theorem apply_congr (names others : Renaming) (fields : names.fields = others.fields)
    (parameters : names.parameters = others.parameters) {tree : Expr}
    (same : SameCalls names others tree) : names.apply tree = others.apply tree := by
  have ofAll {tree : Expr} {items : List Expr} (same : SameCalls names others tree)
      (inside : ∀ item ∈ items, item ∈ tree.nodes)
      (ofItems : ∀ item ∈ items, SameCalls names others item → names.apply item = others.apply item) :
      names.applyAll items = others.applyAll items := by
    rw [applyAll_eq_map, applyAll_eq_map]
    exact List.map_congr_left fun item member =>
      ofItems item member (same.part (inside item member))
  induction tree using Expr.inductionByCallee with
  | name qualifier ident =>
      cases qualifier with
      | nil =>
          show names.value ident = others.value ident
          unfold value
          rw [fields, parameters]
      | cons first rest => rfl
  | number text => rfl
  | string text => rfl
  | hole => rfl
  | member value field ofValue =>
      rw [apply, apply, ofValue (same.part (by simp [Expr.nodes]))]
  | unary op operand ofOperand =>
      rw [apply, apply, ofOperand (same.part (by simp [Expr.nodes]))]
  | paren inner ofInner =>
      rw [apply, apply, ofInner (same.part (by simp [Expr.nodes]))]
  | callMethod receiver method arguments ofReceiver ofArguments =>
      have renamed : names.callSites.method method = others.callSites.method method := by
        rw [CallSites.method_eq_display, CallSites.method_eq_display]
        exact congrArg Prod.snd (same (.method, method)
          (List.mem_filterMap.mpr ⟨_, Expr.self_mem_nodes _, rfl⟩))
      rw [apply, apply, renamed,
        ofReceiver (same.part (by simp [Expr.nodes])),
        ofAll same (fun item member => by simp [Expr.nodes, Expr.mem_nodesOfAll member]) ofArguments]
  | callFunction qualifier ident arguments ofArguments =>
      have renamed : names.callSites.function ident = others.callSites.function ident := by
        rw [CallSites.function_eq_display, CallSites.function_eq_display]
        exact congrArg Prod.snd (same (.function, ident)
          (List.mem_filterMap.mpr ⟨_, Expr.self_mem_nodes _, rfl⟩))
      rw [apply, apply, renamed,
        ofAll same (fun item member => by simp [Expr.nodes, Expr.mem_nodesOfAll member]) ofArguments]
  | callValue callee arguments computed ofCallee ofArguments =>
      rw [apply_callValue names computed, apply_callValue others computed,
        ofCallee (same.part (by simp [Expr.nodes])),
        ofAll same (fun item member => by simp [Expr.nodes, Expr.mem_nodesOfAll member]) ofArguments]
  | index value position ofValue ofPosition =>
      rw [apply, apply, ofValue (same.part (by simp [Expr.nodes])),
        ofPosition (same.part (by simp [Expr.nodes]))]
  | binary op left right ofLeft ofRight =>
      rw [apply, apply, ofLeft (same.part (by simp [Expr.nodes])),
        ofRight (same.part (by simp [Expr.nodes]))]
  | ternary condition thenValue elseValue ofCondition ofThen ofElse =>
      rw [apply, apply, ofCondition (same.part (by simp [Expr.nodes])),
        ofThen (same.part (by simp [Expr.nodes])),
        ofElse (same.part (by simp [Expr.nodes]))]
  | list items ofItems =>
      rw [apply, apply,
        ofAll same (fun item member => by simp [Expr.nodes, Expr.mem_nodesOfAll member]) ofItems]

end Backward.Renaming

/-! ### Extensions of a registry -/

namespace Registry

/-- The larger registry says about every name that the registry knows what the registry says. -/
structure ExtendedBy (registry larger : Registry) : Prop where
  declared : ∀ name, registry.declared name ≠ [] →
    larger.declared name = registry.declared name
  isCallable : ∀ name, registry.isCallable name = true → larger.isCallable name = true
  display : ∀ name, registry.isCallable name = true → ∀ style, style ≠ .onType →
    larger.callSites.display style name = registry.callSites.display style name

section Insertion

variable {before later : List Signature} {added : Signature} {name : String}

private theorem declaredAmong_insert (unknown : name ∉ added.names) :
    declaredAmong (before ++ added :: later) name = declaredAmong (before ++ later) name := by
  have notNamed : added.engineName ≠ name := fun same => unknown (same ▸ List.mem_cons_self)
  have noAlias : added.hasAlias name = false :=
    Bool.eq_false_iff.mpr fun named => unknown (Signature.mem_names_of_hasAlias named)
  simp [declaredAmong, List.filter_append, notNamed, noAlias]

private theorem find?_serves_insert (unknown : name ∉ added.names) (style : Invocation) :
    (before ++ added :: later).find? (·.serves style name) =
      (before ++ later).find? (·.serves style name) := by
  have notNamed : added.engineName ≠ name := fun same => unknown (same ▸ List.mem_cons_self)
  simp [Signature.serves, List.find?_append, notNamed]

variable {registry larger : Registry}

/-- One more signature extends a registry, if none of its names was known. -/
theorem extendedBy_of_insert (indexed : registry.Indexed) (largerIndexed : larger.Indexed)
    (entries : registry.entries = before ++ later)
    (largerEntries : larger.entries = before ++ added :: later)
    (unrelated : ∀ known ∈ before ++ later, ∀ name ∈ added.names, name ∉ known.names) :
    registry.ExtendedBy larger where
  declared name declared := by
    rw [indexed.declared_eq, entries] at declared ⊢
    obtain ⟨signature, member⟩ := List.exists_mem_of_ne_nil _ declared
    obtain ⟨known, -, named⟩ := mem_declaredAmong member
    rw [largerIndexed.declared_eq, largerEntries]
    exact declaredAmong_insert fun added => unrelated signature known name added named
  isCallable name callable := by
    obtain ⟨signature, known, called⟩ := (indexed.isCallable_iff name).mp callable
    refine (largerIndexed.isCallable_iff name).mpr ⟨signature, ?_, called⟩
    rw [entries] at known
    rw [largerEntries]
    rcases List.mem_append.mp known with inBefore | inLater
    · exact List.mem_append_left _ inBefore
    · exact List.mem_append_right _ (List.mem_cons_of_mem _ inLater)
  display name callable style onTensor := by
    obtain ⟨signature, known, called⟩ := (indexed.isCallable_iff name).mp callable
    rw [entries] at known
    unfold CallSites.display
    rw [indexed.callSites style onTensor, largerIndexed.callSites style onTensor, entries,
      largerEntries, find?_serves_insert fun added =>
        unrelated signature known name added called.mem_names]

end Insertion

theorem ExtendedBy.resolve {registry larger : Registry} (extended : registry.ExtendedBy larger)
    {header : Header} {forward : Signature} (resolved : registry.resolve header = .ok forward) :
    larger.resolve header = .ok forward := by
  have declared : registry.declared header.name ≠ [] := by
    intro none
    unfold Registry.resolve at resolved
    rw [none] at resolved
    cases resolved
  unfold Registry.resolve at resolved ⊢
  rw [extended.declared header.name declared]
  exact resolved

end Registry

/-! ### Entries in an extension -/

section Extended

open Backward Text

variable {registry larger : Registry}

/-- If all calls of a body passed the check, its emitted tree is the same in an extension. -/
theorem Registry.ExtendedBy.emittedTree_eq (extended : registry.ExtendedBy larger)
    (forward : Signature) {source : Expr}
    (callable : ∀ name ∈ source.callNames, registry.isCallable name = true) :
    emittedTree larger forward source = emittedTree registry forward source := by
  unfold emittedTree
  refine Renaming.apply_congr (.ofForward forward larger.callSites)
    (.ofForward forward registry.callSites) rfl rfl fun site member => ?_
  obtain ⟨style, name⟩ := site
  have called : name ∈ source.callNames := by
    rw [Expr.callNames_eq_map_callSites]
    exact List.mem_map_of_mem (callSites_stripTrainingGuard_subset source member)
  exact congrArg (Prod.mk style) (extended.display name (callable name called) style
    (style_ne_onType_of_mem_callSites member))

theorem Registry.ExtendedBy.checkBody (extended : registry.ExtendedBy larger)
    {forward : Signature} {seen : List String} {body : FormulaBody} {checked : CheckedBody}
    (accepted : Backward.checkBody registry forward seen body = .ok checked) :
    Backward.checkBody larger forward seen body = .ok checked := by
  obtain ⟨source, targets, parsed, single, fresh, callable, rfl⟩ :=
    checkBody_eq_ok_iff.mp accepted
  refine checkBody_eq_ok_iff.mpr ⟨source, targets, parsed, single, fresh, ?_, ?_⟩
  · exact fun name called => extended.isCallable name (callable name called)
  · rw [extended.emittedTree_eq forward callable]

theorem Registry.ExtendedBy.checkBodies (extended : registry.ExtendedBy larger)
    {forward : Signature} {seen : List String} {bodies : List FormulaBody}
    {checked : List CheckedBody}
    (accepted : Backward.checkBodies registry forward seen bodies = .ok checked) :
    Backward.checkBodies larger forward seen bodies = .ok checked := by
  induction bodies generalizing seen checked with
  | nil => exact accepted
  | cons body rest inductionHypothesis =>
      by_cases implemented : body.isImplemented = true
      · obtain ⟨first, others, firstChecked, othersChecked, rfl⟩ :=
          (checkBodies_cons_eq_ok_iff implemented).mp accepted
        exact (checkBodies_cons_eq_ok_iff implemented).mpr
          ⟨first, others, extended.checkBody firstChecked, inductionHypothesis othersChecked, rfl⟩
      · rw [Backward.checkBodies, if_neg implemented] at accepted ⊢
        exact inductionHypothesis accepted

end Extended

namespace FormulaEntry

open Backward BackwardProcedure

/-- A signature of which no name was known changes no result: every entry that comes to a
procedure, or to none, comes to the same with that signature anywhere in the registry. -/
theorem unrelated_signature_keeps_result
    {registry larger : Registry} (reachable : registry.Reachable)
    (largerReachable : larger.Reachable)
    {before later : List Signature} {added : Signature}
    (entries : registry.entries = before ++ later)
    (largerEntries : larger.entries = before ++ added :: later)
    (unrelated : ∀ known ∈ before ++ later, ∀ name ∈ added.names, name ∉ known.names)
    {entry : FormulaEntry} {result : Option BackwardProcedure}
    (accepted : entry.backward registry = .ok result) :
    entry.backward larger = .ok result := by
  have extended := Registry.extendedBy_of_insert reachable.indexed largerReachable.indexed
    entries largerEntries unrelated
  obtain ⟨forward, checked, checks, assembled⟩ := backward_eq_ok_iff.mp accepted
  obtain ⟨header, read, resolved, bodies⟩ := check_eq_ok_iff.mp checks
  refine backward_eq_ok_iff.mpr ⟨forward, checked, ?_, assembled⟩
  exact check_eq_ok_iff.mpr ⟨header, read, extended.resolve resolved, extended.checkBodies bodies⟩

end FormulaEntry

namespace Sample

/-- Its names are words that the sample reads or is written with, but does not call. -/
def unrelatedSignature : Signature :=
  { engineName := "grad", name := "type", invocation := .function, alias? := some "end" }

def largerRegistry : Registry :=
  .build [.helper "type" "getType" .method, unrelatedSignature] [forward]

theorem unrelatedSignature_keeps_procedure :
    (∀ known ∈ registry.entries, ∀ name ∈ unrelatedSignature.names, name ∉ known.names) ∧
      entry.backward registry = .ok (some procedure) ∧
      entry.backward largerRegistry = .ok (some procedure) := by
  have entries : registry.entries = [.helper "type" "getType" .method] ++ [forward] := rfl
  have largerEntries : largerRegistry.entries =
      [.helper "type" "getType" .method] ++ unrelatedSignature :: [forward] := rfl
  have unrelated : ∀ known ∈ [.helper "type" "getType" .method] ++ [forward],
      ∀ name ∈ unrelatedSignature.names, name ∉ known.names := by
    decide
  exact ⟨unrelated, backward_entry,
    FormulaEntry.unrelated_signature_keeps_result registry_reachable
      (Registry.reachable_build _ _) entries largerEntries unrelated backward_entry⟩

end Sample

end TensorBindings
