import Mathlib.Data.List.Basic
import TensorBindings.Proofs.Header.Grammar

/-!
Contract: the lexemes of a form lead the reader to the header of the form.

Owns:
- runs of the reader, one lemma for each part of a form, and `readTokens_lexemes` for the whole;
- that the lexemes of a form have the texts of their kinds;
- in which states of the reader a default value may stand.

Does not own: the texts that spell a form (`Proofs.Header.RoundTrip`).
-/

set_option autoImplicit false

namespace TensorBindings.Header

/-! ### Runs of the reader -/

section Run

variable {state middle next : ReaderState} {token : Token} {first second : List Token}

theorem readTokens_of_step (steps : state.step token = some next) (rest : List Token) :
    readTokens state (token :: rest) = readTokens next rest := by
  rw [readTokens, steps]

theorem exists_step_of_readTokens {rest : List Token} {header : Header}
    (accepts : readTokens state (token :: rest) = .ok header) :
    ∃ next, state.step token = some next ∧ readTokens next rest = .ok header := by
  rw [readTokens] at accepts
  split at accepts
  next next steps => exact ⟨next, steps, accepts⟩
  next => cases accepts

/-- The tokens lead the reader from the one state to the other. -/
def Reaches (state : ReaderState) (written : List Token) (next : ReaderState) : Prop :=
  ∀ rest, readTokens state (written ++ rest) = readTokens next rest

theorem Reaches.refl (state : ReaderState) : Reaches state [] state :=
  fun _ => rfl

theorem Reaches.cons (steps : state.step token = some middle)
    (others : Reaches middle second next) : Reaches state (token :: second) next := by
  intro rest
  rw [List.cons_append, readTokens_of_step steps, others]

theorem Reaches.single (steps : state.step token = some next) : Reaches state [token] next :=
  .cons steps (.refl next)

theorem Reaches.append (toMiddle : Reaches state first middle)
    (fromMiddle : Reaches middle second next) : Reaches state (first ++ second) next := by
  intro rest
  rw [List.append_assoc, toMiddle, fromMiddle]

end Run

/-! ### Types -/

section Types

variable {part middle last : TypePart} {token : Token} {first second : List Token}
  {text more : String}

/-- The tokens continue a type, and add the text to it. -/
def Adds (part : TypePart) (written : List Token) (text : String) (last : TypePart) : Prop :=
  ∀ header typeTag,
    Reaches (.typing header typeTag part) written (.typing header (typeTag ++ text) last)

theorem Adds.nil (part : TypePart) : Adds part [] "" part := by
  intro header typeTag
  rw [String.append_empty]
  exact .refl _

theorem Adds.cons (steps : part.step token = some (text, middle))
    (others : Adds middle second more last) : Adds part (token :: second) (text ++ more) last := by
  intro header typeTag
  have taken : (ReaderState.typing header typeTag part).step token =
      some (.typing header (typeTag ++ text) middle) := by
    simp [ReaderState.step, ReaderState.stepType, steps]
  rw [← String.append_assoc]
  exact .cons taken (others header (typeTag ++ text))

theorem Adds.single (steps : part.step token = some (text, last)) :
    Adds part [token] text last := by
  have added := Adds.cons steps (.nil last)
  rwa [String.append_empty] at added

theorem Adds.append (toMiddle : Adds part first text middle)
    (fromMiddle : Adds middle second more last) :
    Adds part (first ++ second) (text ++ more) last := by
  intro header typeTag
  rw [← String.append_assoc]
  exact (toMiddle header typeTag).append (fromMiddle header (typeTag ++ text))

/-- Items with separators between them, each of which is waited for in one state and read in
another. -/
theorem adds_separated {Item : Type} {waits read : TypePart} {separator : Token}
    {separatorText : String} {tokenOf : Item → Token} {textOf : Item → String}
    (separates : read.step separator = some (separatorText, waits))
    (takes : ∀ item, waits.step (tokenOf item) = some (textOf item, read))
    (item : Item) (rest : List Item) :
    Adds waits (tokenOf item :: rest.flatMap fun other => [separator, tokenOf other])
      (separatorText.intercalate ((item :: rest).map textOf)) read := by
  induction rest generalizing item with
  | nil =>
      rw [List.map_singleton, String.intercalate_singleton]
      exact .single (takes item)
  | cons next others inductionHypothesis =>
      rw [List.map_cons, List.map_cons, String.intercalate_cons_cons, String.append_assoc,
        List.flatMap_cons]
      exact .cons (takes item) (.cons separates (inductionHypothesis next))

-- The suffixes of a type come in a fixed order, and all of them may be missing. So each lemma
-- below is about every part of a type that its suffix can follow.

private theorem exists_adds_arguments (arguments : List TypeArgument) :
    ∃ part ∈ [TypePart.path, .arguments],
      Adds .path (argumentLexemes arguments) (argumentsText arguments) part := by
  cases arguments with
  | nil => exact ⟨.path, by decide, .nil _⟩
  | cons first rest =>
      have takes (argument : TypeArgument) :
          TypePart.argument.step argument.token = some (argument.text, .argumentRead) := by
        cases argument <;> rfl
      have separates : TypePart.argumentRead.step .comma = some (",", .argument) := rfl
      refine ⟨.arguments, by decide, ?_⟩
      rw [argumentsText, String.append_assoc]
      exact .cons rfl ((adds_separated separates takes first rest).append (.single rfl))

private theorem exists_adds_star (isPointer : Bool) (isPart : part ∈ [TypePart.path, .arguments]) :
    ∃ next ∈ [TypePart.path, .arguments, .star],
      Adds part (if isPointer then [.star] else []) (if isPointer then "*" else "") next := by
  cases isPointer with
  | false => exact ⟨part, List.mem_append_left [TypePart.star] isPart, .nil part⟩
  | true =>
      have steps : part.step .star = some ("*", .star) := by
        simp only [List.mem_cons, List.not_mem_nil, or_false] at isPart
        rcases isPart with rfl | rfl <;> rfl
      exact ⟨.star, by decide, .single steps⟩

private theorem exists_adds_array (array? : Option (Option IntegerText))
    (isPart : part ∈ [TypePart.path, .arguments, .star]) :
    ∃ next ∈ [TypePart.path, .arguments, .star, .array],
      Adds part (arrayLexemes array?) (arrayText array?) next := by
  have opens : part.step .openBracket = some ("[", .bracket) := by
    simp only [List.mem_cons, List.not_mem_nil, or_false] at isPart
    rcases isPart with rfl | rfl | rfl <;> rfl
  match array? with
  | none => exact ⟨part, List.mem_append_left [TypePart.array] isPart, .nil part⟩
  | some none =>
      have closes : TypePart.bracket.step .closeBracket = some ("]", .array) := rfl
      exact ⟨.array, by decide, .cons opens (.single closes)⟩
  | some (some size) =>
      refine ⟨.array, by decide, ?_⟩
      rw [arrayText, String.append_assoc]
      exact .cons opens (.cons rfl (.single rfl))

private theorem exists_adds_question (isOptional : Bool)
    (isPart : part ∈ [TypePart.path, .arguments, .star, .array]) :
    ∃ next, next.isWhole = true ∧
      Adds part (if isOptional then [.question] else []) (if isOptional then "?" else "") next := by
  simp only [List.mem_cons, List.not_mem_nil, or_false] at isPart
  cases isOptional with
  | false =>
      refine ⟨part, ?_, .nil part⟩
      rcases isPart with rfl | rfl | rfl | rfl <;> rfl
  | true =>
      have steps : part.step .question = some ("?", .optional) := by
        rcases isPart with rfl | rfl | rfl | rfl <;> rfl
      exact ⟨.optional, rfl, .single steps⟩

/-- A type adds its canonical text. It begins as if a path had to be continued. -/
theorem exists_adds_type (type : TypeForm) :
    ∃ part, part.isWhole = true ∧ Adds .pathScope type.lexemes type.text part := by
  have separates : TypePart.path.step .scope = some ("::", .pathScope) := rfl
  have takes (text : NameText) :
      TypePart.pathScope.step (.name text.val) = some (text.val, .path) := rfl
  have path := adds_separated separates takes type.first type.rest
  obtain ⟨behindArguments, isPart, arguments⟩ := exists_adds_arguments type.arguments
  obtain ⟨behindStar, isPart, star⟩ := exists_adds_star type.isPointer isPart
  obtain ⟨behindArray, isPart, array⟩ := exists_adds_array type.array? isPart
  obtain ⟨part, isWhole, question⟩ := exists_adds_question type.isOptional isPart
  refine ⟨part, isWhole, ?_⟩
  simp only [TypeForm.lexemes, TypeForm.text, String.append_assoc]
  exact path.append (arguments.append (star.append (array.append question)))

end Types

/-! ### Parameter lists -/

section Parameters

variable {header : Header} {state : ReaderState}

/-- The header with more parameters at its end. -/
def addTyped (header : Header) (typed : List (TypeForm × NameText)) : Header :=
  { header with parameters := header.parameters ++ typed.map TypeForm.parameter }

private theorem addTyped_nil (header : Header) : header.addTyped [] = header := by
  simp [addTyped]

private theorem addTyped_append (header : Header) (first second : List (TypeForm × NameText)) :
    header.addTyped (first ++ second) = (header.addTyped first).addTyped second := by
  simp [addTyped]

def AwaitsItem (header : Header) (state : ReaderState) : Prop :=
  state = .opened header ∨ state = .parameterNeeded header

def ItemRead (header : Header) (state : ReaderState) : Prop :=
  state = .parameterRead header ∨ state = .parameterClosed header

/-- A parameter begins like the continuation of an empty path, for which the reader has a state. -/
theorem reaches_of_typing {text : String} {rest : List Token} {next : ReaderState}
    (awaits : AwaitsItem header state)
    (reaches : Reaches (.typing header "" .pathScope) (.name text :: rest) next) :
    Reaches state (.name text :: rest) next := by
  have begins : (ReaderState.typing header "" .pathScope).step (.name text) =
      some (.typing header text .path) := by
    simp [ReaderState.step, ReaderState.stepType, TypePart.step]
  have same : state.step (.name text) = some (.typing header text .path) := by
    rcases awaits with rfl | rfl <;> rfl
  intro tail
  rw [← reaches tail, List.cons_append, readTokens_of_step begins, readTokens_of_step same]

private theorem step_name_of_isWhole {part : TypePart} (isWhole : part.isWhole = true)
    (header : Header) (typeTag name : String) :
    (ReaderState.typing header typeTag part).step (.name name) =
      some (.parameterRead (header.add ⟨typeTag, name⟩)) := by
  have ends : part.step (.name name) = none := by
    cases part <;> first | rfl | cases isWhole
  simp [ReaderState.step, ReaderState.stepType, ends, isWhole]

private theorem exists_itemRead (awaits : AwaitsItem header state) (item : ItemForm) :
    ∃ read, ItemRead (header.addTyped item.typed?.toList) read ∧
      Reaches state item.lexemes read := by
  cases item with
  | marker =>
      have steps : state.step .star = some (.parameterClosed header) := by
        rcases awaits with rfl | rfl <;> rfl
      exact ⟨_, .inr (congrArg _ (addTyped_nil header).symm), .single steps⟩
  | typed type name default? =>
      obtain ⟨part, isWhole, adds⟩ := exists_adds_type type
      have typeRead := reaches_of_typing awaits (adds header "")
      rw [String.empty_append] at typeRead
      have named := step_name_of_isWhole isWhole header type.text name.val
      cases default? with
      | none => exact ⟨_, .inl rfl, typeRead.append (.single named)⟩
      | some text =>
          exact ⟨_, .inr rfl, typeRead.append (.cons named (.cons rfl (.single rfl)))⟩

private theorem filterMap_typed?_cons (item : ItemForm) (rest : List ItemForm) :
    (item :: rest).filterMap ItemForm.typed? =
      item.typed?.toList ++ rest.filterMap ItemForm.typed? := by
  cases item <;> rfl

private theorem reaches_items (awaits : AwaitsItem header state) (item : ItemForm)
    (rest : List ItemForm) :
    Reaches state (itemLexemes (item :: rest) ++ [.closeParen])
      (.closed (header.addTyped ((item :: rest).filterMap ItemForm.typed?))) := by
  induction rest generalizing header state item with
  | nil =>
      obtain ⟨read, itemRead, reaches⟩ := exists_itemRead awaits item
      have steps : read.step .closeParen =
          some (.closed (header.addTyped item.typed?.toList)) := by
        rcases itemRead with rfl | rfl <;> rfl
      rw [filterMap_typed?_cons, List.filterMap_nil, List.append_nil]
      exact reaches.append (.single steps)
  | cons next others inductionHypothesis =>
      obtain ⟨read, itemRead, reaches⟩ := exists_itemRead awaits item
      have steps : read.step .comma =
          some (.parameterNeeded (header.addTyped item.typed?.toList)) := by
        rcases itemRead with rfl | rfl <;> rfl
      rw [filterMap_typed?_cons, addTyped_append, itemLexemes, List.append_assoc]
      exact reaches.append (.cons steps (inductionHypothesis (.inr rfl) next))

private theorem reaches_parameterList (header : Header) (items : List ItemForm) :
    Reaches (.opened header) (itemLexemes items ++ [.closeParen])
      (.closed (header.addTyped (items.filterMap ItemForm.typed?))) := by
  cases items with
  | nil =>
      rw [List.filterMap_nil, addTyped_nil]
      exact .single rfl
  | cons item rest => exact reaches_items (.inl rfl) item rest

private theorem reaches_of_nameRead (awaits : state = .start ∨ state = .nameNeeded)
    (qualifier : List NameText) {name : NameText} {rest : List Token} {next : ReaderState}
    (others : Reaches (.nameRead name.val) rest next) :
    Reaches state ((qualifier.flatMap fun part => [.name part.val, .dot]) ++
      (.name name.val :: rest)) next := by
  have takes (text : String) : state.step (.name text) = some (.nameRead text) := by
    rcases awaits with rfl | rfl <;> rfl
  induction qualifier generalizing state with
  | nil => exact .cons (takes name.val) others
  | cons part parts inductionHypothesis =>
      exact .cons (takes part.val) (.cons rfl (inductionHypothesis (.inr rfl) fun _ => rfl))

end Parameters

/-- The lexemes of a form are read as the header of the form. -/
theorem readTokens_lexemes (form : HeaderForm) :
    readTokens .start (form.lexemes ++ [.endOfText]) = .ok form.header := by
  have list : Reaches (.nameRead form.name.val)
      (.openParen :: (itemLexemes form.items ++ [.closeParen])) (.closed form.header) :=
    .cons rfl (reaches_parameterList _ form.items)
  have closes : Reaches .start form.lexemes (.closed form.header) := by
    rw [HeaderForm.lexemes]
    cases form.hasLeadingDot with
    | false => exact reaches_of_nameRead (.inl rfl) form.qualifier list
    | true => exact .cons rfl (reaches_of_nameRead (.inr rfl) form.qualifier list)
  rw [closes, readTokens_of_step rfl]
  rfl

/-! ### The lexemes of a form have the texts of their kinds -/

private theorem isLexeme_of_mem_argumentLexemes (arguments : List TypeArgument) :
    ∀ token ∈ argumentLexemes arguments, token.IsLexeme := by
  have ofArgument (argument : TypeArgument) : argument.token.IsLexeme := by
    cases argument with
    | name text => exact text.property
    | integer text => exact text.property
  cases arguments with
  | nil => exact List.forall_mem_nil _
  | cons first rest =>
      simp only [argumentLexemes, List.cons_append, List.forall_mem_cons, List.forall_mem_append,
        List.forall_mem_flatMap]
      exact ⟨rfl, ofArgument first, fun argument _ => ⟨rfl, ofArgument argument, by simp⟩, rfl,
        by simp⟩

private theorem isLexeme_of_mem_arrayLexemes (array? : Option (Option IntegerText)) :
    ∀ token ∈ arrayLexemes array?, token.IsLexeme := by
  match array? with
  | none => exact List.forall_mem_nil _
  | some none => simp [arrayLexemes, Token.IsLexeme, Token.isMark]
  | some (some size) => simp [arrayLexemes, Token.IsLexeme, Token.isMark, size.property]

theorem TypeForm.isLexeme_of_mem_lexemes (type : TypeForm) :
    ∀ token ∈ type.lexemes, token.IsLexeme := by
  simp only [TypeForm.lexemes, List.cons_append, List.forall_mem_cons, List.forall_mem_append,
    List.forall_mem_flatMap]
  refine ⟨type.first.property, fun part _ => ⟨rfl, part.property, by simp⟩,
    isLexeme_of_mem_argumentLexemes type.arguments, ?_,
    isLexeme_of_mem_arrayLexemes type.array?, ?_⟩
  · cases type.isPointer <;> simp [Token.IsLexeme, Token.isMark]
  · cases type.isOptional <;> simp [Token.IsLexeme, Token.isMark]

private theorem isLexeme_of_mem_itemLexemes (items : List ItemForm) :
    ∀ token ∈ itemLexemes items, token.IsLexeme := by
  have ofItem (item : ItemForm) : ∀ token ∈ item.lexemes, token.IsLexeme := by
    cases item with
    | marker => simp [ItemForm.lexemes, Token.IsLexeme, Token.isMark]
    | typed type name default? =>
        simp only [ItemForm.lexemes, List.forall_mem_append, List.forall_mem_cons]
        refine ⟨type.isLexeme_of_mem_lexemes, name.property, ?_⟩
        cases default? with
        | none => exact List.forall_mem_nil _
        | some text => simp [defaultLexemes, Token.IsLexeme, Token.isMark, text.property]
  fun_induction itemLexemes items with
  | case1 => exact List.forall_mem_nil _
  | case2 item => exact ofItem item
  | case3 item next rest inductionHypothesis =>
      simp only [List.forall_mem_append, List.forall_mem_cons]
      exact ⟨ofItem item, rfl, inductionHypothesis⟩

theorem HeaderForm.isLexeme_of_mem_lexemes (form : HeaderForm) :
    ∀ token ∈ form.lexemes, token.IsLexeme := by
  simp only [HeaderForm.lexemes, List.forall_mem_append, List.forall_mem_cons,
    List.forall_mem_flatMap]
  refine ⟨?_, fun part _ => ⟨part.property, rfl, by simp⟩, form.name.property, rfl,
    isLexeme_of_mem_itemLexemes form.items, rfl, by simp⟩
  cases form.hasLeadingDot <;> simp [Token.IsLexeme, Token.isMark]

/-! ### Default values and the states of the reader -/

section Default

variable {state next : ReaderState} {token : Token} {header : Header}

def ReaderState.needsDefault : ReaderState → Bool
  | defaultNeeded _ => true
  | _ => false

theorem step_default {text : String} (steps : state.step (.defaultValue text) = some next) :
    ∃ header, state = .defaultNeeded header ∧ next = .parameterClosed header := by
  cases state with
  | defaultNeeded header =>
      cases steps
      exact ⟨header, rfl, rfl⟩
  | typing header typeTag part => cases part <;> cases steps
  | _ => cases steps

private theorem stepType_spec {typeTag : String} {part : TypePart}
    (steps : ReaderState.stepType header typeTag part token = some next) :
    token ≠ .equals ∧ next.needsDefault = false := by
  constructor
  · rintro rfl
    cases part <;> cases steps
  · unfold ReaderState.stepType at steps
    split at steps
    · cases steps
      rfl
    · split at steps
      · split_ifs at steps
        cases steps
        rfl
      · cases steps

/-- Other tokens stand where no default value may, and only an equals sign calls for one. -/
theorem needsDefault_of_step (notDefault : ∀ text, token ≠ .defaultValue text)
    (steps : state.step token = some next) :
    state.needsDefault = false ∧ next.needsDefault = decide (token = .equals) := by
  cases state with
  | typing header typeTag part =>
      obtain ⟨notEquals, calm⟩ := stepType_spec steps
      rw [calm, decide_eq_false notEquals]
      exact ⟨rfl, rfl⟩
  | defaultNeeded header =>
      cases token with
      | defaultValue text => exact absurd rfl (notDefault text)
      | _ => cases steps
  | _ => cases token <;> cases steps <;> exact ⟨rfl, rfl⟩

end Default

end TensorBindings.Header
