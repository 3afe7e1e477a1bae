import Std.Data.TreeMap.Lemmas
import TensorBindings.Registry

/-!
Contract: the indexes of a registry are views of its ordered entries.

Owns: the registries that can come about, the invariant that ties each index and the kept
display names to the entries, and what a look-up gives in terms of the entries alone.
`Indexed.add`, `Indexed.freeze` and `Indexed.keepCallSites` are the steps and
`Reachable.indexed` the run: whatever is registered, and whenever the registry is frozen or
asked for its display names, it never says anything that the entries do not say.

Does not own: the choice between overloads (`Overload`).
-/

set_option autoImplicit false

namespace TensorBindings

/-- The signature has this alias. An empty alias is no alias. -/
def Signature.hasAlias (signature : Signature) (name : String) : Bool :=
  signature.alias? == some name && name != ""

/-- All names of a signature: its engine name, and its alias if it has one. -/
def Signature.names (signature : Signature) : List String :=
  signature.engineName :: signature.alias?.toList.filter (· ≠ "")

theorem Signature.mem_names_of_hasAlias {signature : Signature} {name : String}
    (named : signature.hasAlias name = true) : name ∈ signature.names := by
  unfold hasAlias at named
  rw [Bool.and_eq_true, beq_iff_eq, bne_iff_ne] at named
  refine List.mem_cons_of_mem _ (List.mem_filter.mpr ⟨?_, decide_eq_true named.2⟩)
  rw [named.1]
  exact List.mem_cons_self

/-- Formulas can call the signature by this name. -/
def Signature.IsCalledBy (signature : Signature) (name : String) : Prop :=
  signature.invocation ≠ .onType ∧ (signature.engineName = name ∨ signature.hasAlias name)

theorem Signature.IsCalledBy.mem_names {signature : Signature} {name : String}
    (called : signature.IsCalledBy name) : name ∈ signature.names := by
  rcases called.2 with rfl | named
  · exact List.mem_cons_self
  · exact mem_names_of_hasAlias named

/-- The signature is invoked in this style, under this engine name. -/
def Signature.serves (signature : Signature) (style : Invocation) (name : String) : Bool :=
  signature.invocation == style && signature.engineName == name

namespace CallSites

/-- The display name that a table has for a name, by the style of the call. -/
def display? (sites : CallSites) : Invocation → String → Option String
  | .method, name => sites.methods[name]?
  | .function, name => sites.functions[name]?
  | .onType, _ => none

/-- What a called name becomes, by the style of the call. -/
def display (sites : CallSites) (style : Invocation) (name : String) : String :=
  (sites.display? style name).getD name

theorem method_eq_display (sites : CallSites) (name : String) :
    sites.method name = sites.display .method name := by
  rw [method, Std.TreeMap.getD_eq_getD_getElem?]
  rfl

theorem function_eq_display (sites : CallSites) (name : String) :
    sites.function name = sites.display .function name := by
  rw [function, Std.TreeMap.getD_eq_getD_getElem?]
  rfl

/-- An entry that is already there stays. -/
private theorem getElem?_insertIfNew_or (table : Std.TreeMap String String)
    (key shown name : String) :
    (table.insertIfNew key shown)[name]? =
      (table[name]?).or (if key = name then some shown else none) := by
  rw [Std.TreeMap.getElem?_insertIfNew]
  simp only [Std.LawfulEqCmp.compare_eq_iff_eq]
  by_cases same : key = name
  · subst same
    simp only [Std.TreeMap.mem_iff_isSome_getElem?]
    cases table[key]? <;> simp
  · simp [same]

/-- One more signature adds its display name for its own style and its engine name, unless
there is one already. -/
theorem display?_add (sites : CallSites) (signature : Signature) {style : Invocation}
    (callable : style ≠ .onType) (name : String) :
    (sites.add signature).display? style name =
      (sites.display? style name).or
        (if signature.serves style name then some signature.name else none) := by
  unfold add Signature.serves
  cases style with
  | onType => exact absurd rfl callable
  | method =>
      cases signature.invocation <;> simp [display?, getElem?_insertIfNew_or]
  | function =>
      cases signature.invocation <;> simp [display?, getElem?_insertIfNew_or]

private theorem display?_foldl_add (signatures : List Signature) (sites : CallSites)
    {style : Invocation} (callable : style ≠ .onType) (name : String) :
    (signatures.foldl add sites).display? style name =
      (sites.display? style name).or
        ((signatures.find? (·.serves style name)).map (·.name)) := by
  induction signatures generalizing sites with
  | nil => exact Option.or_none.symm
  | cons signature rest inductionHypothesis =>
      rw [List.foldl_cons, inductionHypothesis, display?_add _ _ callable, List.find?_cons,
        Option.or_assoc]
      cases signature.serves style name <;> rfl

/-- Of several signatures that serve a name, the first gives its display name. -/
theorem display?_ofList (signatures : List Signature) {style : Invocation}
    (callable : style ≠ .onType) (name : String) :
    (ofList signatures).display? style name =
      (signatures.find? (·.serves style name)).map (·.name) := by
  have unknown : display? {} style name = none := by
    cases style with
    | onType => exact absurd rfl callable
    | method => exact Std.TreeMap.getElem?_emptyc
    | function => exact Std.TreeMap.getElem?_emptyc
  rw [ofList, display?_foldl_add signatures {} callable, unknown, Option.none_or]

end CallSites

namespace NameIndex

private theorem named_empty (name : String) : named {} name = [] := Std.TreeMap.getD_emptyc

private theorem named_add (index : NameIndex) (key : String) (signature : Signature)
    (name : String) :
    (index.add key signature).named name =
      index.named name ++ (if key = name then [signature] else []) := by
  unfold add named
  rw [Std.TreeMap.getD_insert]
  simp only [Std.LawfulEqCmp.compare_eq_iff_eq]
  by_cases same : key = name
  · subst same
    simp
  · simp [same]

end NameIndex

namespace Registry

/-! ### Kept display names -/

private theorem callSites_of_open {registry : Registry} (isOpen : registry.frozen = false) :
    registry.callSites = .ofList registry.entries := by
  unfold callSites
  rw [isOpen]
  cases registry.keptSites? <;> rfl

private theorem callSites_of_noneKept {registry : Registry}
    (noneKept : registry.keptSites? = none) :
    registry.callSites = .ofList registry.entries := by
  unfold callSites
  rw [noneKept]

/-- The same question again has the same answer. -/
theorem callSites_keepCallSites (registry : Registry) :
    registry.keepCallSites.callSites = registry.callSites := by
  unfold keepCallSites
  split
  · next isFrozen =>
      -- The registry on the right stays closed: its display names are what was kept.
      rw [callSites.eq_def { registry with keptSites? := some registry.callSites }]
      simp only [isFrozen]
  · rfl

theorem entries_keepCallSites (registry : Registry) :
    registry.keepCallSites.entries = registry.entries := by
  unfold keepCallSites
  split <;> rfl

theorem frozen_keepCallSites (registry : Registry) :
    registry.keepCallSites.frozen = registry.frozen := by
  unfold keepCallSites
  split <;> rfl

/-! ### Registries that can come about -/

/-- The registries that can come about: signatures are registered one after another, and
the registry may be frozen, or asked for the display names of call sites, at any time. -/
inductive Reachable : Registry → Prop where
  | empty : Reachable {}
  | register {registry next : Registry} {signature : Signature}
      (reachable : Reachable registry)
      (registered : registry.register signature = .ok next) : Reachable next
  | freeze {registry : Registry} (reachable : Reachable registry) : Reachable registry.freeze
  | keepCallSites {registry : Registry} (reachable : Reachable registry) :
      Reachable registry.keepCallSites

theorem Reachable.add {registry : Registry} (reachable : Reachable registry)
    (isOpen : registry.frozen = false) (signature : Signature) :
    Reachable (registry.add signature) :=
  .register reachable (if_neg (by rw [isOpen]; exact Bool.false_ne_true))

/-- Every index is a view of the entries, and so are the display names. Nothing is kept
before the registry is frozen. -/
structure Indexed (registry : Registry) : Prop where
  byName : ∀ name, registry.byName.named name =
    registry.entries.filter (·.engineName == name)
  byAlias : ∀ name, registry.byAlias.named name =
    registry.entries.filter (·.hasAlias name)
  callSites : ∀ style, style ≠ .onType → ∀ name,
    registry.callSites.display? style name =
      (registry.entries.find? (·.serves style name)).map (·.name)
  noneKept : registry.frozen = false → registry.keptSites? = none

private theorem indexed_empty : Indexed {} where
  byName := NameIndex.named_empty
  byAlias := NameIndex.named_empty
  callSites _ callable name := CallSites.display?_ofList [] callable name
  noneKept _ := rfl

private theorem named_indexAlias (index : NameIndex) (signature : Signature) (name : String) :
    (indexAlias index signature).named name =
      index.named name ++ [signature].filter (·.hasAlias name) := by
  unfold indexAlias
  cases known : signature.alias? with
  | none => simp [Signature.hasAlias, known]
  | some other =>
      by_cases empty : other = ""
      · subst empty
        by_cases same : "" = name
        · subst same
          simp [Signature.hasAlias]
        · simp [Signature.hasAlias, known, same]
      · simp only [if_neg empty, NameIndex.named_add]
        by_cases same : other = name
        · subst same
          simp [Signature.hasAlias, known, empty]
        · simp [Signature.hasAlias, known, same]

/-- The step: one more signature in an open registry keeps every index a view of the
entries. -/
theorem Indexed.add {registry : Registry} (indexed : Indexed registry)
    (isOpen : registry.frozen = false) (signature : Signature) :
    Indexed (registry.add signature) where
  byName name := by
    show (registry.byName.add signature.engineName signature).named name =
      (registry.entries ++ [signature]).filter (·.engineName == name)
    rw [NameIndex.named_add, indexed.byName, List.filter_append]
    by_cases same : signature.engineName = name <;> simp [same]
  byAlias name := by
    show (indexAlias registry.byAlias signature).named name =
      (registry.entries ++ [signature]).filter (·.hasAlias name)
    rw [named_indexAlias, indexed.byAlias, List.filter_append]
  callSites _ callable name := by
    have stillOpen : (registry.add signature).frozen = false := isOpen
    rw [callSites_of_open stillOpen]
    exact CallSites.display?_ofList _ callable name
  noneKept _ := indexed.noneKept isOpen

/-- The step: freezing an open registry finds nothing kept, so that nothing outdated counts
from then on. -/
theorem Indexed.freeze {registry : Registry} (indexed : Indexed registry) :
    Indexed registry.freeze where
  byName := indexed.byName
  byAlias := indexed.byAlias
  callSites style callable name := by
    cases isFrozen : registry.frozen with
    | true =>
        have unchanged : registry.freeze.callSites = registry.callSites := by
          unfold Registry.callSites
          rw [isFrozen]
          rfl
        rw [unchanged]
        exact indexed.callSites style callable name
    | false =>
        have noneKept : registry.freeze.keptSites? = none := indexed.noneKept isFrozen
        rw [callSites_of_noneKept noneKept]
        exact CallSites.display?_ofList _ callable name
  noneKept isOpen := Bool.noConfusion isOpen

/-- The step: what a frozen registry keeps is what it has just answered. -/
theorem Indexed.keepCallSites {registry : Registry} (indexed : Indexed registry) :
    Indexed registry.keepCallSites where
  byName := by
    unfold Registry.keepCallSites
    split <;> exact indexed.byName
  byAlias := by
    unfold Registry.keepCallSites
    split <;> exact indexed.byAlias
  callSites style callable name := by
    rw [callSites_keepCallSites, entries_keepCallSites]
    exact indexed.callSites style callable name
  noneKept isOpen := by
    rw [frozen_keepCallSites] at isOpen
    unfold Registry.keepCallSites
    rw [isOpen]
    exact indexed.noneKept isOpen

/-- The run: every registry that can come about has its indexes in order. -/
theorem Reachable.indexed {registry : Registry} (reachable : Reachable registry) :
    Indexed registry := by
  induction reachable with
  | empty => exact indexed_empty
  | @register registry next signature _ registered inductionHypothesis =>
      unfold Registry.register at registered
      split at registered
      · cases registered
      · next notFrozen =>
          cases registered
          exact inductionHypothesis.add (Bool.eq_false_iff.mpr notFrozen) signature
  | freeze _ inductionHypothesis => exact inductionHypothesis.freeze
  | keepCallSites _ inductionHypothesis => exact inductionHypothesis.keepCallSites

/-! ### Registries of lists -/

private theorem foldl_add_spec (signatures : List Signature) {registry : Registry}
    (reachable : Reachable registry) (isOpen : registry.frozen = false) :
    Reachable (signatures.foldl Registry.add registry) ∧
      (signatures.foldl Registry.add registry).entries = registry.entries ++ signatures ∧
      (signatures.foldl Registry.add registry).frozen = false := by
  induction signatures generalizing registry with
  | nil => exact ⟨reachable, (List.append_nil _).symm, isOpen⟩
  | cons signature rest inductionHypothesis =>
      obtain ⟨reached, listed, stillOpen⟩ :=
        inductionHypothesis (reachable.add isOpen signature) isOpen
      refine ⟨reached, ?_, stillOpen⟩
      rw [List.foldl_cons, listed]
      show registry.entries ++ [signature] ++ rest = registry.entries ++ signature :: rest
      rw [List.append_assoc, List.singleton_append]

theorem reachable_ofList (signatures : List Signature) : Reachable (ofList signatures) :=
  (foldl_add_spec signatures .empty rfl).1

theorem entries_ofList (signatures : List Signature) : (ofList signatures).entries = signatures :=
  (foldl_add_spec signatures .empty rfl).2.1

theorem frozen_ofList (signatures : List Signature) : (ofList signatures).frozen = false :=
  (foldl_add_spec signatures .empty rfl).2.2

theorem reachable_build (helpers generated : List Signature) :
    Reachable (build helpers generated) :=
  .freeze (reachable_ofList (helpers ++ generated))

theorem entries_build (helpers generated : List Signature) :
    (build helpers generated).entries = helpers ++ generated :=
  entries_ofList (helpers ++ generated)

/-! ### What look-ups give -/

/-- The declarations of a list with an engine name, or else those with it as their alias. -/
def declaredAmong (signatures : List Signature) (name : String) : List Signature :=
  let direct := signatures.filter fun signature =>
    !signature.isHelper && signature.engineName == name
  if direct.isEmpty then
    signatures.filter fun signature => !signature.isHelper && signature.hasAlias name
  else direct

/-- What is declared under a name is a declaration of the list that has this name. -/
theorem mem_declaredAmong {signatures : List Signature} {name : String} {signature : Signature}
    (member : signature ∈ declaredAmong signatures name) :
    signature ∈ signatures ∧ signature.isHelper = false ∧ name ∈ signature.names := by
  unfold declaredAmong at member
  dsimp only at member
  split at member
  · obtain ⟨listed, kept⟩ := List.mem_filter.mp member
    rw [Bool.and_eq_true, Bool.not_eq_true'] at kept
    exact ⟨listed, kept.1, Signature.mem_names_of_hasAlias kept.2⟩
  · obtain ⟨listed, kept⟩ := List.mem_filter.mp member
    rw [Bool.and_eq_true, Bool.not_eq_true', beq_iff_eq] at kept
    exact ⟨listed, kept.1, kept.2 ▸ List.mem_cons_self⟩

theorem Indexed.declared_eq {registry : Registry} (indexed : Indexed registry) (name : String) :
    registry.declared name = declaredAmong registry.entries name := by
  unfold declared declaredAmong
  rw [indexed.byName, indexed.byAlias, List.filter_filter, List.filter_filter]

/-- A formula may call exactly the engine names and the aliases of signatures that are not
methods of a tensor type. -/
theorem Indexed.isCallable_iff {registry : Registry} (indexed : Indexed registry) (name : String) :
    registry.isCallable name = true ↔ ∃ signature ∈ registry.entries, signature.IsCalledBy name := by
  unfold isCallable
  rw [indexed.byName, indexed.byAlias, List.any_append, Bool.or_eq_true]
  simp only [List.any_eq_true, List.mem_filter, Signature.IsCalledBy, bne_iff_ne, beq_iff_eq]
  constructor
  · rintro (⟨signature, ⟨member, named⟩, callable⟩ | ⟨signature, ⟨member, named⟩, callable⟩)
    · exact ⟨signature, member, callable, Or.inl named⟩
    · exact ⟨signature, member, callable, Or.inr named⟩
  · rintro ⟨signature, member, callable, named | named⟩
    · exact Or.inl ⟨signature, ⟨member, named⟩, callable⟩
    · exact Or.inr ⟨signature, ⟨member, named⟩, callable⟩

/-- A called name becomes the display name of the first signature that serves it in the
style of the call; without one it stays as it is. -/
theorem Indexed.display_cases {registry : Registry} (indexed : Indexed registry)
    {style : Invocation} (callable : style ≠ .onType) (name : String) :
    (∃ signature ∈ registry.entries, signature.serves style name ∧
      registry.callSites.display style name = signature.name) ∨
    ((∀ signature ∈ registry.entries, ¬ signature.serves style name) ∧
      registry.callSites.display style name = name) := by
  unfold CallSites.display
  rw [indexed.callSites style callable]
  cases found : registry.entries.find? (·.serves style name) with
  | some signature =>
      have served : signature.serves style name = true := by
        simpa using List.find?_some found
      exact Or.inl ⟨signature, List.mem_of_find?_eq_some found, served, rfl⟩
  | none =>
      refine Or.inr ⟨fun signature member => ?_, rfl⟩
      exact List.find?_eq_none.mp found signature member

end Registry

end TensorBindings
