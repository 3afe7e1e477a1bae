import TensorBindings.Proofs.Overload
import TensorBindings.Proofs.Registry.Refinement

/-!
Contract: what a header means exactly is settled by the first signature that fits it.

Owns: when a signature fits a header exactly, the first such signature of a list, and the theorem
that a registry resolves the header to it. The signatures behind the first one have no part in
this, so whatever is registered later changes nothing.

A header with one candidate is resolved without a look at its types, and a header with several is
compared type by type. Later registrations can move a header from the first rule to the second.
`Indexed.resolve_eq_first` covers both, and the run of a registry only appends to its entries.

Does not own: headers that no signature fits exactly (`Proofs.Overload`).
-/

set_option autoImplicit false

namespace TensorBindings

/-- The signature fits the header exactly: it is a declaration with the name of the header, and it
takes as many arguments as the header lists, each of the type that the header has in its place. -/
structure Signature.Fits (signature : Signature) (header : Header) : Prop where
  isDeclaration : signature.isHelper = false
  named : signature.engineName = header.name
  typed : List.Forall₂ (fun tag argument => TargetType.resolveArgument tag = .ok argument.type)
    header.typeTags signature.args

namespace Header

/-- The types of a header are those of any signature that fits it. -/
theorem mapM_typeTags_of_fits {header : Header} {signature : Signature}
    (fits : signature.Fits header) :
    header.typeTags.mapM TargetType.resolveArgument = .ok (signature.args.map (·.type)) := by
  rw [mapM_eq_ok_iff, List.forall₂_map_right_iff]
  exact fits.typed

/-- What a header with known types asks of a signature. -/
def asks (header : Header) (types : List TargetType) (signature : Signature) : Bool :=
  (!signature.isHelper && signature.engineName == header.name) && signature.takes types

private theorem asks_iff_fits {header : Header} {types : List TargetType}
    (typed : header.typeTags.mapM TargetType.resolveArgument = .ok types) (signature : Signature) :
    header.asks types signature = true ↔ signature.Fits header := by
  simp only [asks, Signature.takes, Bool.and_eq_true, Bool.not_eq_true', beq_iff_eq]
  constructor
  · rintro ⟨⟨isDeclaration, named⟩, rfl⟩
    rw [mapM_eq_ok_iff, List.forall₂_map_right_iff] at typed
    exact ⟨isDeclaration, named, typed⟩
  · intro fits
    have same := (mapM_typeTags_of_fits fits).symm.trans typed
    exact ⟨⟨fits.isDeclaration, fits.named⟩, Except.ok.inj same⟩

/-- The first signature of the list that fits the header. -/
structure IsFirstFit (header : Header) (signatures : List Signature) (first : Signature) :
    Prop where
  fits : first.Fits header
  split : ∃ before after, signatures = before ++ first :: after ∧
    ∀ other ∈ before, ¬ other.Fits header

private theorem exists_isFirstFit {header : Header} {signatures : List Signature}
    {signature : Signature} (member : signature ∈ signatures) (fits : signature.Fits header) :
    ∃ first, header.IsFirstFit signatures first := by
  have typed := mapM_typeTags_of_fits fits
  have found : (signatures.find? (header.asks (signature.args.map (·.type)))).isSome = true := by
    rw [List.find?_isSome]
    exact ⟨signature, member, (asks_iff_fits typed signature).mpr fits⟩
  obtain ⟨first, isFirst⟩ := Option.isSome_iff_exists.mp found
  obtain ⟨asked, before, after, split, noneBefore⟩ := List.find?_eq_some_iff_append.mp isFirst
  refine ⟨first, (asks_iff_fits typed first).mp asked, before, after, split, ?_⟩
  intro other inBefore otherFits
  have notAsked := noneBefore other inBefore
  rw [(asks_iff_fits typed other).mpr otherFits] at notAsked
  cases notAsked

/-- What stands behind the first fit has no part in it. -/
theorem IsFirstFit.append {header : Header} {signatures : List Signature} {first : Signature}
    (isFirst : header.IsFirstFit signatures first) (later : List Signature) :
    header.IsFirstFit (signatures ++ later) first := by
  obtain ⟨before, after, rfl, noneBefore⟩ := isFirst.split
  refine ⟨isFirst.fits, before, after ++ later, ?_, noneBefore⟩
  rw [List.append_assoc, List.cons_append]

end Header

namespace Registry

/-- Among the declarations of the name, the first one that takes the types is the first fit. -/
theorem find?_declared_of_isFirstFit {header : Header} {signatures : List Signature}
    {first : Signature} (isFirst : header.IsFirstFit signatures first) {types : List TargetType}
    (typed : header.typeTags.mapM TargetType.resolveArgument = .ok types) :
    (declaredAmong signatures header.name).find? (·.takes types) = some first := by
  obtain ⟨before, after, split, noneBefore⟩ := isFirst.split
  have asked := (Header.asks_iff_fits typed first).mpr isFirst.fits
  have chosen : signatures.find? (header.asks types) = some first := by
    rw [List.find?_eq_some_iff_append]
    refine ⟨asked, before, after, split, fun other inBefore => ?_⟩
    rw [Bool.not_eq_true', Bool.eq_false_iff, ne_eq, Header.asks_iff_fits typed other]
    exact noneBefore other inBefore
  have isDirect : first ∈ signatures.filter fun signature =>
      !signature.isHelper && signature.engineName == header.name := by
    refine List.mem_filter.mpr ⟨List.mem_of_find?_eq_some chosen, ?_⟩
    exact (Bool.and_eq_true_iff.mp asked).1
  have sameTest : (fun signature => decide
      ((!signature.isHelper && signature.engineName == header.name) = true ∧
        signature.takes types = true)) = header.asks types := by
    funext signature
    rw [Header.asks, Bool.decide_and, Bool.decide_eq_true, Bool.decide_eq_true]
  unfold declaredAmong
  rw [if_neg (by simpa using List.ne_nil_of_mem isDirect), List.find?_filter, sameTest]
  exact chosen

/-- A header is resolved to the first signature that fits it, however many candidates there are. -/
theorem Indexed.resolve_eq_first {registry : Registry} (indexed : Indexed registry)
    {header : Header} {first : Signature}
    (isFirst : header.IsFirstFit registry.entries first) :
    registry.resolve header = .ok first := by
  have typed := Header.mapM_typeTags_of_fits isFirst.fits
  have chosen := find?_declared_of_isFirstFit isFirst typed
  rw [← indexed.declared_eq header.name] at chosen
  unfold resolve
  split
  · next none => rw [none] at chosen; cases chosen
  · next only single =>
      -- The types are not compared here, but the only candidate is the one that fits.
      rw [single] at chosen
      rw [List.mem_singleton.mp (List.mem_of_find?_eq_some chosen)]
  · rw [typed]
    simp only [bind, Except.bind, chosen]
    rfl

/-- If a signature of the list fits a header exactly, the header is resolved to the first one that
does. It is so for the list alone, with any signatures registered behind it, and after any
operations on a registry that holds the list. -/
theorem first_fit_is_never_displaced {earlier : List Signature} {header : Header}
    {signature : Signature} (member : signature ∈ earlier) (fits : signature.Fits header) :
    ∃ before first after,
      earlier = before ++ first :: after ∧
      first.Fits header ∧
      (∀ other ∈ before, ¬ other.Fits header) ∧
      (ofList earlier).resolve header = .ok first ∧
      (∀ later, (ofList (earlier ++ later)).resolve header = .ok first) ∧
      ∀ registry : Registry, Reachable registry → registry.entries = earlier →
        ∀ operations, (registry.performAll operations).resolve header = .ok first := by
  obtain ⟨first, isFirst⟩ := Header.exists_isFirstFit member fits
  obtain ⟨before, after, split, noneBefore⟩ := isFirst.split
  have ofEntries {registry : Registry} (indexed : Indexed registry) (later : List Signature)
      (entries : registry.entries = earlier ++ later) : registry.resolve header = .ok first := by
    apply indexed.resolve_eq_first
    rw [entries]
    exact isFirst.append later
  refine ⟨before, first, after, split, isFirst.fits, noneBefore, ?_, ?_, ?_⟩
  · refine ofEntries (reachable_ofList earlier).indexed [] ?_
    rw [entries_ofList, List.append_nil]
  · intro later
    exact ofEntries (reachable_ofList _).indexed later (entries_ofList _)
  · intro registry reachable holds operations
    obtain ⟨indexed, -, entries⟩ := performAll_spec operations reachable.indexed
    rw [holds] at entries
    exact ofEntries indexed _ entries

/-! ### One candidate that becomes one of many -/

namespace Sample

def meanHelper : Signature := .helper "mean" "meanOf" .function

def meanOverDimension : Signature :=
  { engineName := "mean"
    name := "mean"
    invocation := .method
    args := [⟨"self", "self", .tensor, none⟩, ⟨"dim", "dim", .int64, none⟩]
    returns := [⟨"", "result", .tensor⟩] }

/-- The same types once more, and a declaration that has the name as its alias. -/
def laterMeans : List Signature :=
  [{ meanOverDimension with name := "meanAgain", invocation := .function },
    { meanOverDimension with engineName := "mean_forward", alias? := some "mean" }, meanHelper]

def meanHeader : Header := ⟨"mean", [⟨"IndexTensor", "self"⟩, ⟨"int64_t", "dim"⟩]⟩

private theorem fits_meanOverDimension : meanOverDimension.Fits meanHeader :=
  ⟨rfl, rfl, .cons rfl (.cons rfl .nil)⟩

theorem meanOverDimension_is_never_displaced :
    meanOverDimension.Fits meanHeader ∧
    ∃ before first after,
      [meanHelper, meanOverDimension] = before ++ first :: after ∧
      first.Fits meanHeader ∧
      (∀ other ∈ before, ¬ other.Fits meanHeader) ∧
      (ofList [meanHelper, meanOverDimension]).resolve meanHeader = .ok first ∧
      (∀ later, (ofList ([meanHelper, meanOverDimension] ++ later)).resolve meanHeader =
        .ok first) ∧
      ∀ registry : Registry, Reachable registry →
        registry.entries = [meanHelper, meanOverDimension] →
        ∀ operations, (registry.performAll operations).resolve meanHeader = .ok first :=
  ⟨fits_meanOverDimension,
    first_fit_is_never_displaced (List.mem_cons_of_mem meanHelper List.mem_cons_self)
      fits_meanOverDimension⟩

example : (ofList ([meanHelper, meanOverDimension] ++ laterMeans)).resolve meanHeader =
    .ok meanOverDimension := by
  decide +kernel

end Sample

end Registry

end TensorBindings
