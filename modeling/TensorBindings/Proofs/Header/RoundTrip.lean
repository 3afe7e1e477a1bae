import TensorBindings.Proofs.Expr.Lexing
import TensorBindings.Proofs.Header.Reading

/-!
Contract: every spelling of a form is read as the header of the form.

Owns: the division of a spelled text, and `readTokens_of_writes`: a text leads the reader to the
same header as the lexemes that it writes.

A plain default value takes the spacing behind it along, so a text is not divided into the lexemes
of its form. But the reader never looks into a default value. Whether one may stand at a place is
a question of the reader's state as well as of the token before, and the two always agree.

Does not own: the run of the reader over lexemes (`Proofs.Header.Reading`).
-/

set_option autoImplicit false

namespace TensorBindings.Header

open TensorBindings.Text
open TensorBindings.Expr (IsName Spacing Stops spacingChars mem_spacingChars eq_false_of_any
  isSpacing_eq_false forall_head_cons stops_of_head_mem length_takeWhile_append dropWhile_lead
  isDecimalDigit_of_isDigit nameStart_eq_false_of_digit)

/-! ### Division -/

section Division

variable {lead gap rest follow : List Char} {first : Char} {token : Token} {text : String}

theorem tokens_of_found {afterEquals : Bool} (spaced : Spacing lead)
    (notSpace : isSpacing first = false)
    (found : lexeme? afterEquals first (rest ++ follow) = some (token, rest.length)) :
    tokens afterEquals (lead ++ first :: (rest ++ follow)) =
      token :: tokens (token = .equals) follow := by
  have start := dropWhile_lead spaced notSpace (rest ++ follow)
  rw [tokens.eq_def]
  split
  next nothing =>
    rw [start] at nothing
    cases nothing
  next same =>
    rw [start] at same
    cases same
    simp only [found, List.drop_left]

theorem tokens_of_spacing {cs : List Char} (spaced : Spacing cs) (afterEquals : Bool) :
    tokens afterEquals cs = [.endOfText] := by
  have nothing : cs.dropWhile isSpacing = [] := List.dropWhile_eq_nil_iff.mpr spaced
  rw [tokens.eq_def]
  split
  next => rfl
  next something =>
    rw [nothing] at something
    cases something

/-- The characters that marks begin with. -/
def markChars : List Char := ['.', ':', ',', '*', '?', '=', '(', ')', '[', ']', '<', '>']

/-- What follows a lexeme that is no mark: nothing, or spacing or a mark first. -/
def EndsWord (follow : List Char) : Prop :=
  ∀ c ∈ follow.head?, c ∈ spacingChars ++ markChars

/-- The lexeme of a token is found where the token is written, outside default values. -/
def IsFound (token : Token) (follow : List Char) : Prop :=
  ∃ first rest, token.spelling.toList = first :: rest ∧ isSpacing first = false ∧
    plainLexeme? first (rest ++ follow) = some (token, rest.length)

private theorem isFound_name (isName : IsName text) (ends : EndsWord follow) :
    IsFound (.name text) follow := by
  obtain ⟨first, rest, spelled, starts, parts⟩ := isName
  have extent : ((rest ++ follow).takeWhile isNamePart).length = rest.length :=
    length_takeWhile_append parts (stops_of_head_mem ends (by decide))
  refine ⟨first, rest, spelled, isSpacing_eq_false (by decide) starts, ?_⟩
  simp only [plainLexeme?, if_pos starts, extent, List.take_left, ← spelled, String.ofList_toList]

private theorem isFound_integer (isInteger : IsInteger text) (ends : EndsWord follow) :
    IsFound (.integer text) follow := by
  obtain ⟨nonempty, areDigits⟩ := isInteger
  obtain ⟨first, rest, spelled⟩ := List.exists_cons_of_ne_nil nonempty
  rw [spelled, List.forall_mem_cons] at areDigits
  obtain ⟨isDigit, areDigits⟩ := areDigits
  have extent : ((rest ++ follow).takeWhile Char.isDigit).length = rest.length :=
    length_takeWhile_append areDigits (stops_of_head_mem ends (by decide))
  have noName := nameStart_eq_false_of_digit (isDecimalDigit_of_isDigit isDigit)
  refine ⟨first, rest, spelled, isSpacing_eq_false (by decide) isDigit, ?_⟩
  simp only [plainLexeme?, noName, Bool.false_eq_true, if_false, if_pos isDigit, extent,
    List.take_left, ← spelled, String.ofList_toList]

private theorem isFound_mark (isMark : token.isMark = true) (follow : List Char) :
    IsFound token follow := by
  cases token with
  | name | integer | defaultValue | endOfText | stray | unreadable => cases isMark
  | _ => exact ⟨_, _, rfl, by decide, rfl⟩

private theorem exists_head_of_isMark (isMark : token.isMark = true) :
    ∃ first rest, token.spelling.toList = first :: rest ∧ first ∈ markChars := by
  cases token with
  | name | integer | defaultValue | endOfText | stray | unreadable => cases isMark
  | _ => exact ⟨_, _, rfl, by decide⟩

private theorem isFound_of_isLexeme (isLexeme : token.IsLexeme)
    (notDefault : ∀ text, token ≠ .defaultValue text)
    (ends : token.isMark = true ∨ EndsWord follow) : IsFound token follow := by
  rcases ends with isMark | ends
  · exact isFound_mark isMark follow
  · cases token with
    | name text => exact isFound_name isLexeme ends
    | integer text => exact isFound_integer isLexeme ends
    | defaultValue text => exact absurd rfl (notDefault text)
    | _ => exact isFound_mark isLexeme follow

private theorem tokens_of_isFound (found : IsFound token follow) (spaced : Spacing lead) :
    tokens false (lead ++ (token.spelling.toList ++ follow)) =
      token :: tokens (token = .equals) follow := by
  obtain ⟨first, rest, spelled, notSpace, found⟩ := found
  rw [spelled]
  exact tokens_of_found spaced notSpace found

private theorem braceListLength?_append {inner : List Char}
    (within : ∀ c ∈ inner, (!isBrace c) = true) (follow : List Char) :
    braceListLength? (inner ++ '}' :: follow) = some (inner.length + 1) := by
  have extent : ((inner ++ '}' :: follow).takeWhile (!isBrace ·)).length = inner.length :=
    length_takeWhile_append within (forall_head_cons (by decide) follow)
  simp only [braceListLength?, extent, List.drop_left]

/-- A default value before a separator. A plain one takes the spacing behind it along. -/
theorem exists_tokens_default (isDefault : IsDefault text.toList) (spaced : Spacing lead)
    (gapSpaced : Spacing gap) {separator : Char} (separates : isSeparator separator = true)
    (cs : List Char) :
    ∃ taken kept, Spacing kept ∧
      tokens true (lead ++ (text.toList ++ (gap ++ separator :: cs))) =
        .defaultValue taken :: tokens false (kept ++ separator :: cs) := by
  generalize text.toList = written at isDefault
  cases isDefault with
  | @plain first rest starts within =>
      have inside : ∀ c ∈ rest ++ gap, (!isSeparator c) = true := by
        rw [List.forall_mem_append]
        refine ⟨within, fun c isGap => ?_⟩
        have outside : isSeparator c = false :=
          eq_false_of_any (by decide) (mem_spacingChars (gapSpaced c isGap))
        rw [outside, Bool.not_false]
      have stops : Stops (!isSeparator ·) (separator :: cs) :=
        forall_head_cons (by simp [separates]) cs
      have extent := length_takeWhile_append inside stops
      have found : lexeme? true first ((rest ++ gap) ++ separator :: cs) =
          some (.defaultValue (String.ofList (first :: (rest ++ gap))), (rest ++ gap).length) := by
        simp only [lexeme?, defaultLength?, if_pos starts, if_true, extent, List.take_left]
      refine ⟨String.ofList (first :: (rest ++ gap)), [], List.forall_mem_nil _, ?_⟩
      rw [List.cons_append, ← List.append_assoc rest]
      exact tokens_of_found spaced (isSpacing_eq_false (by decide) starts) found
  | @braces inner within =>
      have found : lexeme? true '{' ((inner ++ ['}']) ++ (gap ++ separator :: cs)) =
          some (.defaultValue (String.ofList ('{' :: (inner ++ ['}']))),
            (inner ++ ['}']).length) := by
        have extent : braceListLength? ((inner ++ ['}']) ++ (gap ++ separator :: cs)) =
            some (inner ++ ['}']).length := by
          rw [List.append_assoc, List.length_append]
          exact braceListLength?_append within _
        have noStart : ¬ startsDefault '{' = true := by decide
        simp only [lexeme?, defaultLength?, if_neg noStart, if_true, extent, List.take_left]
      refine ⟨String.ofList ('{' :: (inner ++ ['}'])), gap, gapSpaced, ?_⟩
      rw [List.cons_append]
      exact tokens_of_found spaced (by decide) found

end Division

section Text

private theorem Writes.exists_tail {token : Token} {rest : List Token} {cs : List Char}
    (writes : Writes (token :: rest) cs) : ∃ tail, cs = token.spelling.toList ++ tail := by
  cases writes with
  | last => exact ⟨_, rfl⟩
  | more => exact ⟨_, rfl⟩

private theorem endsWord_of_spacing {cs : List Char} (spaced : Spacing cs) : EndsWord cs := by
  intro c isHead
  have isSpace := spaced c (List.mem_of_mem_head? isHead)
  exact List.mem_append_left _ (mem_spacingChars isSpace)

/-- Spacing that is not missing, or a mark on one of its sides, ends a lexeme. -/
theorem isMark_or_endsWord {token next : Token} {rest : List Token} {gap cs : List Char}
    (apart : Apart token next gap) (others : Writes (next :: rest) cs) :
    token.isMark = true ∨ EndsWord (gap ++ cs) := by
  cases gap with
  | nil =>
      rcases apart.2 rfl with isMark | isMark
      · exact .inl isMark
      · obtain ⟨tail, rfl⟩ := others.exists_tail
        obtain ⟨first, more, spelled, isMarkChar⟩ := exists_head_of_isMark isMark
        right
        rw [spelled]
        exact forall_head_cons (List.mem_append_right _ isMarkChar) _
  | cons space spaces =>
      right
      have isSpace := mem_spacingChars (apart.1 space List.mem_cons_self)
      exact forall_head_cons (List.mem_append_left _ isSpace) _

/-- A text leads the reader to the same header as the lexemes that it writes. -/
theorem readTokens_of_writes {written : List Token} {cs : List Char} (writes : Writes written cs)
    (areLexemes : ∀ token ∈ written, token.IsLexeme) :
    ∀ {lead : List Char} {state : ReaderState} {header : Header}, Spacing lead →
      readTokens state (written ++ [.endOfText]) = .ok header →
      readTokens state (tokens state.needsDefault (lead ++ cs)) = .ok header := by
  induction writes with
  | @last token trail trailSpaced =>
      intro lead state header spaced accepts
      obtain ⟨next, steps, finished⟩ := exists_step_of_readTokens accepts
      have notDefault : ∀ text, token ≠ .defaultValue text := by
        rintro text rfl
        obtain ⟨_, rfl, rfl⟩ := step_default steps
        cases finished
      obtain ⟨calm, -⟩ := needsDefault_of_step notDefault steps
      have found := isFound_of_isLexeme (areLexemes token List.mem_cons_self) notDefault
        (.inr (endsWord_of_spacing trailSpaced))
      rw [calm, tokens_of_isFound found spaced, tokens_of_spacing trailSpaced,
        readTokens_of_step steps]
      exact finished
  | @more token next rest gap cs apart others inductionHypothesis =>
      intro lead state header spaced accepts
      obtain ⟨isLexeme, areOthers⟩ := List.forall_mem_cons.mp areLexemes
      obtain ⟨behind, steps, continues⟩ := exists_step_of_readTokens accepts
      by_cases isDefault : ∃ text, token = .defaultValue text
      · obtain ⟨text, rfl⟩ := isDefault
        obtain ⟨inside, rfl, rfl⟩ := step_default steps
        -- Only a separator is accepted behind a default value.
        obtain ⟨separator, tail, rfl, separates⟩ :
            ∃ separator tail, cs = separator :: tail ∧ isSeparator separator = true := by
          obtain ⟨tail, rfl⟩ := others.exists_tail
          obtain ⟨_, ends, -⟩ := exists_step_of_readTokens continues
          cases next with
          | comma => exact ⟨',', tail, rfl, rfl⟩
          | closeParen => exact ⟨')', tail, rfl, rfl⟩
          | _ => cases ends
        obtain ⟨taken, kept, keptSpaced, divided⟩ :=
          exists_tokens_default isLexeme spaced apart.1 separates tail
        have taking : (ReaderState.defaultNeeded inside).step (.defaultValue taken) =
            some (.parameterClosed inside) := rfl
        rw [ReaderState.needsDefault, Token.spelling, divided, readTokens_of_step taking]
        exact inductionHypothesis areOthers keptSpaced continues
      · have notDefault : ∀ text, token ≠ .defaultValue text :=
          fun text same => isDefault ⟨text, same⟩
        obtain ⟨calm, calls⟩ := needsDefault_of_step notDefault steps
        have found := isFound_of_isLexeme isLexeme notDefault (isMark_or_endsWord apart others)
        rw [calm, tokens_of_isFound found spaced, readTokens_of_step steps, ← calls]
        exact inductionHypothesis areOthers apart.1 continues

theorem parse_of_spells {text : String} {form : HeaderForm} (spells : form.Spells text) :
    parse text = .ok form.header := by
  obtain ⟨lead, cs, written, spaced, writes⟩ := spells
  rw [parse, written]
  exact readTokens_of_writes writes form.isLexeme_of_mem_lexemes spaced (readTokens_lexemes form)

end Text

/-- Every spelling of a form is read as the header of the form. Forms with one name and the same
typed parameters have one header, wherever they have markers and whatever their default values
are. -/
theorem spelled_header_is_read {text : String} {form : HeaderForm} (spells : form.Spells text) :
    parse text = .ok form.header ∧
      ∀ (other : HeaderForm) (otherText : String), other.Spells otherText →
        other.name = form.name → other.typed = form.typed → parse otherText = parse text := by
  refine ⟨parse_of_spells spells, ?_⟩
  intro other otherText otherSpells sameName sameTyped
  have sameHeader : other.header = form.header := by
    rw [HeaderForm.header, HeaderForm.header, sameName, sameTyped]
  rw [parse_of_spells spells, parse_of_spells otherSpells, sameHeader]

namespace Sample

def maskType : TypeForm where
  first := ⟨"std", by decide⟩
  rest := [⟨"array", by decide⟩]
  arguments := [.name ⟨"bool", by decide⟩, .integer ⟨"2", by decide⟩]
  isPointer := true
  array? := some (some ⟨"3", by decide⟩)
  isOptional := true

def tensorType : TypeForm where
  first := ⟨"Tensor", by decide⟩
  rest := []
  arguments := []
  isPointer := false
  array? := none
  isOptional := false

/-- A default value with a comma and parentheses in it. -/
def padding : DefaultText where
  val := "\x7b1, (2)\x7d"
  property := by
    have isList : IsDefault ('{' :: (['1', ',', ' ', '(', '2', ')'] ++ ['}'])) :=
      .braces (List.all_eq_true.mp (by decide))
    exact isList

def assignment : DefaultText where
  val := "a = b"
  property := .plain (by decide) (List.all_eq_true.mp (by decide))

def convolution : HeaderForm where
  hasLeadingDot := true
  qualifier := [⟨"nn", by decide⟩]
  name := ⟨"conv", by decide⟩
  items :=
    [.marker,
      .typed maskType ⟨"mask", by decide⟩ (some padding),
      .typed tensorType ⟨"self", by decide⟩ (some assignment)]

def convolutionText : String :=
  ".nn . conv(*, std::array<bool,2 >*[3]? mask = \x7b1, (2)\x7d , Tensor\tself=a = b )"

private theorem spells_convolutionText : convolution.Spells convolutionText := by
  have tight {token next : Token} (beside : token.isMark = true ∨ next.isMark = true) :
      Apart token next [] := ⟨by decide, fun _ => beside⟩
  have space {token next : Token} : Apart token next [' '] := ⟨by decide, by simp⟩
  have tab {token next : Token} : Apart token next ['\t'] := ⟨by decide, by simp⟩
  have before {token next : Token} (isMark : next.isMark = true) : Apart token next [] :=
    tight (.inr isMark)
  have behind {token next : Token} (isMark : token.isMark = true) : Apart token next [] :=
    tight (.inl isMark)
  have trail : Spacing [] := by decide
  refine ⟨[], _, ?_, by decide, .more (behind rfl) <| .more space <| .more space <|
    .more (before rfl) <| .more (behind rfl) <| .more (behind rfl) <| .more space <|
    .more (before rfl) <| .more (behind rfl) <| .more (before rfl) <| .more (behind rfl) <|
    .more (before rfl) <| .more (behind rfl) <| .more space <| .more (behind rfl) <|
    .more (behind rfl) <| .more (behind rfl) <| .more (before rfl) <| .more (behind rfl) <|
    .more space <| .more space <| .more space <| .more space <| .more space <| .more tab <|
    .more (before rfl) <| .more (behind rfl) <| .more space <| .last trail⟩
  decide +kernel

theorem convolutionText_is_read :
    convolution.Spells convolutionText ∧
      parse convolutionText =
        .ok ⟨"conv", [⟨"std::array<bool,2>*[3]?", "mask"⟩, ⟨"Tensor", "self"⟩]⟩ := by
  have header : convolution.header =
      ⟨"conv", [⟨"std::array<bool,2>*[3]?", "mask"⟩, ⟨"Tensor", "self"⟩]⟩ := by
    decide +kernel
  refine ⟨spells_convolutionText, ?_⟩
  rw [(spelled_header_is_read spells_convolutionText).1, header]

end Sample

end TensorBindings.Header
