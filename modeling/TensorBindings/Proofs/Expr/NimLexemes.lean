import TensorBindings.Expr.Printer
import TensorBindings.Proofs.Expr.Completeness

/-!
Contract: the lexemes of the Nim text of a tree.

Owns:
- the shape of numbers in Nim, which have digits on both sides of a point and no width mark;
- the lexemes of Nim texts, and the division of a text into them;
- the lexemes of a tree, and `dividesAs_nimText`: the text of a tree is divided into them.

Two things differ from the lexemes of formulas. Spaces are lexemes: without them `not -a` and
`not - a` could not be told apart. And a point belongs to a number only if a digit follows,
since `1.e5` is the member `e5` of a number.

Does not own: which tree the lexemes came from (`Proofs.Expr.NimRecovery`).
-/

set_option autoImplicit false

namespace TensorBindings

open TensorBindings.Text

namespace Expr

private theorem ne_of_inClass {inClass : Char → Bool} {c other : Char} (inside : inClass c = true)
    (outside : inClass other = false) : c ≠ other := by
  rintro rfl
  rw [outside] at inside
  cases inside

/-! ### Numbers -/

private theorem eq_of_isExponentMark {mark : Char} (marked : isExponentMark mark = true) :
    mark = 'e' ∨ mark = 'E' := by
  simpa [isExponentMark] using marked

inductive Fraction : List Char → Prop where
  | absent : Fraction []
  | present {decimals : List Char} (nonempty : decimals ≠ []) (areDecimals : AllDigits decimals) :
      Fraction ('.' :: decimals)

def IsNimNumber (text : String) : Prop :=
  ∃ whole fraction exponent, text.toList = whole ++ (fraction ++ exponent) ∧
    whole ≠ [] ∧ AllDigits whole ∧ Fraction fraction ∧ Exponent exponent

theorem IsNimNumber.isNumber {text : String} (isNumber : IsNimNumber text) : IsNumber text := by
  obtain ⟨whole, fraction, exponent, spelled, nonempty, areDigits, isFraction, isExponent⟩ :=
    isNumber
  cases isFraction with
  | absent =>
      exact ⟨whole, exponent, [], by simpa using spelled, .whole nonempty areDigits, isExponent,
        .absent⟩
  | @present decimals _ areDecimals =>
      exact ⟨whole ++ '.' :: decimals, exponent, [], by simpa using spelled,
        .pointed nonempty areDigits areDecimals, isExponent, .absent⟩

/-- The characters of a number other than its point and its width mark. -/
def IsNumeral (c : Char) : Prop := isDecimalDigit c = true ∨ c ∈ ['e', 'E', '+', '-']

theorem IsNumeral.ne_point {c : Char} (isNumeral : IsNumeral c) : c ≠ '.' := by
  rintro rfl
  exact absurd isNumeral (by simp [IsNumeral]; decide)

private theorem IsNumeral.not_mem_widthMarks {c : Char} (isNumeral : IsNumeral c) :
    c ∉ Number.widthMarks := by
  intro marked
  have notDigit : isDecimalDigit c = false := eq_false_of_any (by decide) marked
  rcases isNumeral with isDigit | listed
  · rw [notDigit] at isDigit
    cases isDigit
  · simp only [List.mem_cons, List.not_mem_nil, or_false] at listed
    rcases listed with rfl | rfl | rfl | rfl <;> exact absurd marked (by decide)

theorem AllDigits.isNumeral {digits : List Char} (areDigits : AllDigits digits) :
    ∀ c ∈ digits, IsNumeral c :=
  fun c member => Or.inl (areDigits c member)

theorem Exponent.isNumeral {exponent : List Char} (isExponent : Exponent exponent) :
    ∀ c ∈ exponent, IsNumeral c := by
  have ofMark {mark : Char} (marked : isExponentMark mark = true) : IsNumeral mark := by
    rcases eq_of_isExponentMark marked with rfl | rfl <;> simp [IsNumeral]
  cases isExponent with
  | absent => exact List.forall_mem_nil _
  | unsigned marked nonempty areDigits =>
      exact List.forall_mem_cons.mpr ⟨ofMark marked, areDigits.isNumeral⟩
  | @signed mark sign digits marked isSigned nonempty areDigits =>
      have ofSign : IsNumeral sign := by
        simp only [isSign, Bool.or_eq_true, beq_iff_eq] at isSigned
        rcases isSigned with rfl | rfl <;> simp [IsNumeral]
      exact List.forall_mem_cons.mpr
        ⟨ofMark marked, List.forall_mem_cons.mpr ⟨ofSign, areDigits.isNumeral⟩⟩

/-- Only a width mark is dropped. -/
theorem dropWidthMark_append {body width : List Char} (isWidth : WidthMark width)
    (noMark : ∀ c ∈ body, c ∉ Number.widthMarks) :
    Number.dropWidthMark (body ++ width) = body := by
  cases isWidth with
  | @present mark marked =>
      have listed : mark ∈ Number.widthMarks := by
        simpa [isWidthMark, Number.widthMarks, or_assoc] using marked
      simp [Number.dropWidthMark, listed]
  | absent =>
      rw [List.append_nil]
      unfold Number.dropWidthMark
      split
      · rename_i last isLast
        exact if_neg (noMark last (List.mem_of_getLast? isLast))
      · rfl

private theorem fillPoints_append {numerals : List Char} (areNumerals : ∀ c ∈ numerals, IsNumeral c)
    (rest : List Char) :
    Number.fillPoints (numerals ++ rest) = numerals ++ Number.fillPoints rest := by
  induction numerals with
  | nil => rfl
  | cons c others inductionHypothesis =>
      obtain ⟨isNumeral, areOthers⟩ := List.forall_mem_cons.mp areNumerals
      have keeps (tail : List Char) :
          Number.fillPoints (c :: tail) = c :: Number.fillPoints tail := by
        have notPoint := isNumeral.ne_point
        cases tail <;> simp [Number.fillPoints, notPoint]
      rw [List.cons_append, keeps, inductionHypothesis areOthers, List.cons_append]

private theorem fillPoints_eq_self {numerals : List Char}
    (areNumerals : ∀ c ∈ numerals, IsNumeral c) :
    Number.fillPoints numerals = numerals := by
  have filled := fillPoints_append areNumerals []
  rwa [List.append_nil, Number.fillPoints, List.append_nil] at filled

private theorem fillPoints_decimals {decimals exponent : List Char} (nonempty : decimals ≠ [])
    (areDecimals : AllDigits decimals) (isExponent : Exponent exponent) :
    Number.fillPoints ('.' :: (decimals ++ exponent)) = '.' :: (decimals ++ exponent) := by
  obtain ⟨digit, others, rfl⟩ := List.exists_cons_of_ne_nil nonempty
  have isDigit := areDecimals digit List.mem_cons_self
  have ofTail : Number.fillPoints (digit :: others ++ exponent) = digit :: others ++ exponent :=
    fillPoints_eq_self (List.forall_mem_append.mpr ⟨areDecimals.isNumeral, isExponent.isNumeral⟩)
  rw [List.cons_append] at ofTail ⊢
  simp only [Number.fillPoints, isDigit, if_true, ofTail]

private theorem fillPoints_bare {exponent : List Char} (isExponent : Exponent exponent) :
    Number.fillPoints ('.' :: exponent) = '.' :: '0' :: exponent := by
  have ofTail := fillPoints_eq_self isExponent.isNumeral
  have notDigit {mark : Char} (marked : isExponentMark mark = true) :
      isDecimalDigit mark = false := by
    rcases eq_of_isExponentMark marked with rfl | rfl <;> decide
  cases isExponent with
  | absent => rfl
  | unsigned marked nonempty areDigits =>
      simp only [Number.fillPoints, notDigit marked, Bool.false_eq_true, if_false, ofTail]
  | signed marked isSigned nonempty areDigits =>
      simp only [Number.fillPoints, notDigit marked, Bool.false_eq_true, if_false, ofTail]

private theorem leadWithDigit_of_digits {whole : List Char} (nonempty : whole ≠ [])
    (areDigits : AllDigits whole) (rest : List Char) :
    Number.leadWithDigit (whole ++ rest) = whole ++ rest := by
  obtain ⟨digit, others, rfl⟩ := List.exists_cons_of_ne_nil nonempty
  have notPoint := (areDigits.isNumeral digit List.mem_cons_self).ne_point
  simp [Number.leadWithDigit, notPoint]

/-- The first is a mantissa, and the second is the same with digits on both sides of a point. -/
inductive Completes : List Char → List Char → Prop where
  | whole {digits : List Char} (nonempty : digits ≠ []) (areDigits : AllDigits digits) :
      Completes digits digits
  | pointed {digits decimals : List Char} (nonempty : digits ≠ []) (areDigits : AllDigits digits)
      (some : decimals ≠ []) (areDecimals : AllDigits decimals) :
      Completes (digits ++ '.' :: decimals) (digits ++ '.' :: decimals)
  | barePoint {digits : List Char} (nonempty : digits ≠ []) (areDigits : AllDigits digits) :
      Completes (digits ++ ['.']) (digits ++ ['.', '0'])
  | leadingPoint {decimals : List Char} (nonempty : decimals ≠ [])
      (areDecimals : AllDigits decimals) : Completes ('.' :: decimals) ('0' :: '.' :: decimals)

/-- In Nim the mantissa of a number is completed, the exponent stays and the width mark goes. -/
theorem toNim_completes {text : String} {mantissa exponent width : List Char}
    (spelled : text.toList = mantissa ++ (exponent ++ width)) (isMantissa : Mantissa mantissa)
    (isExponent : Exponent exponent) (isWidth : WidthMark width) :
    ∃ completed, Completes mantissa completed ∧
      (Number.toNim text).toList = completed ++ exponent := by
  have noMark {cs : List Char} (areNumerals : ∀ c ∈ cs, IsNumeral c) :
      ∀ c ∈ cs, c ∉ Number.widthMarks := fun c member => (areNumerals c member).not_mem_widthMarks
  have pointNoMark : '.' ∉ Number.widthMarks := by decide
  have dropped (ofMantissa : ∀ c ∈ mantissa, c ∉ Number.widthMarks) :
      Number.dropWidthMark text.toList = mantissa ++ exponent := by
    rw [spelled, ← List.append_assoc]
    exact dropWidthMark_append isWidth
      (List.forall_mem_append.mpr ⟨ofMantissa, noMark isExponent.isNumeral⟩)
  rw [Number.toNim, String.toList_ofList]
  cases isMantissa with
  | whole nonempty areDigits =>
      rw [dropped (noMark areDigits.isNumeral), leadWithDigit_of_digits nonempty areDigits,
        fillPoints_append areDigits.isNumeral, fillPoints_eq_self isExponent.isNumeral]
      exact ⟨mantissa, .whole nonempty areDigits, rfl⟩
  | @pointed digits decimals nonempty areDigits areDecimals =>
      rw [dropped (List.forall_mem_append.mpr ⟨noMark areDigits.isNumeral,
          List.forall_mem_cons.mpr ⟨pointNoMark, noMark areDecimals.isNumeral⟩⟩),
        List.append_assoc, leadWithDigit_of_digits nonempty areDigits,
        fillPoints_append areDigits.isNumeral, List.cons_append]
      by_cases none : decimals = []
      · rw [none, List.nil_append, fillPoints_bare isExponent]
        exact ⟨digits ++ ['.', '0'], .barePoint nonempty areDigits, by simp⟩
      · rw [fillPoints_decimals none areDecimals isExponent]
        exact ⟨digits ++ '.' :: decimals, .pointed nonempty areDigits none areDecimals, by simp⟩
  | @leadingPoint decimals nonempty areDecimals =>
      have areDigits : AllDigits ['0'] := by decide
      refine ⟨'0' :: '.' :: decimals, .leadingPoint nonempty areDecimals, ?_⟩
      rw [dropped (List.forall_mem_cons.mpr ⟨pointNoMark, noMark areDecimals.isNumeral⟩),
        List.cons_append, Number.leadWithDigit, ← List.singleton_append,
        fillPoints_append areDigits.isNumeral, fillPoints_decimals nonempty areDecimals isExponent]
      rfl

theorem Completes.isNimNumber {text : String} {mantissa completed exponent : List Char}
    (completes : Completes mantissa completed) (isExponent : Exponent exponent)
    (spelled : text.toList = completed ++ exponent) : IsNimNumber text := by
  cases completes with
  | whole nonempty areDigits =>
      exact ⟨mantissa, [], exponent, spelled, nonempty, areDigits, .absent, isExponent⟩
  | @pointed digits decimals nonempty areDigits some areDecimals =>
      exact ⟨digits, '.' :: decimals, exponent, by simpa using spelled, nonempty, areDigits,
        .present some areDecimals, isExponent⟩
  | @barePoint digits nonempty areDigits =>
      exact ⟨digits, ['.', '0'], exponent, by simpa using spelled, nonempty, areDigits,
        .present (by simp) (by decide), isExponent⟩
  | @leadingPoint decimals nonempty areDecimals =>
      exact ⟨['0'], '.' :: decimals, exponent, spelled, by simp, by decide,
        .present nonempty areDecimals, isExponent⟩

/-- Every number becomes one of Nim. -/
theorem isNimNumber_toNim {text : String} (isNumber : IsNumber text) :
    IsNimNumber (Number.toNim text) := by
  obtain ⟨mantissa, exponent, width, spelled, isMantissa, isExponent, isWidth⟩ := isNumber
  obtain ⟨completed, completes, written⟩ := toNim_completes spelled isMantissa isExponent isWidth
  exact completes.isNimNumber isExponent written

/-- Numbers of Nim stay as they are. -/
theorem toNim_eq_self {text : String} (isNumber : IsNimNumber text) :
    Number.toNim text = text := by
  obtain ⟨whole, fraction, exponent, spelled, nonempty, areDigits, isFraction, isExponent⟩ :=
    isNumber
  have noMark : ∀ c ∈ whole ++ (fraction ++ exponent), c ∉ Number.widthMarks := by
    have ofFraction : ∀ c ∈ fraction, c ∉ Number.widthMarks := by
      cases isFraction with
      | absent => exact List.forall_mem_nil _
      | present _ areDecimals =>
          exact List.forall_mem_cons.mpr
            ⟨by decide, fun c member => (areDecimals.isNumeral c member).not_mem_widthMarks⟩
    exact List.forall_mem_append.mpr
      ⟨fun c member => (areDigits.isNumeral c member).not_mem_widthMarks,
        List.forall_mem_append.mpr
          ⟨ofFraction, fun c member => (isExponent.isNumeral c member).not_mem_widthMarks⟩⟩
  have dropped : Number.dropWidthMark text.toList = whole ++ (fraction ++ exponent) := by
    have unmarked := dropWidthMark_append .absent noMark
    rw [List.append_nil] at unmarked
    rw [spelled, unmarked]
  have filled : Number.fillPoints (fraction ++ exponent) = fraction ++ exponent := by
    cases isFraction with
    | absent => exact fillPoints_eq_self isExponent.isNumeral
    | present nonempty areDecimals => exact fillPoints_decimals nonempty areDecimals isExponent
  rw [Number.toNim, dropped, leadWithDigit_of_digits nonempty areDigits,
    fillPoints_append areDigits.isNumeral, filled, ← spelled, String.ofList_toList]

/-! ### Lexemes of a text -/

inductive NimLexeme where
  | token (token : Token)
  | space
  /-- The mark `@[` that opens a list. -/
  | openList
deriving DecidableEq, Repr

/-- The decimals of a number, with the point before them. -/
def decimalsLength : List Char → Nat
  | '.' :: digit :: rest =>
      if isDecimalDigit digit then 1 + digitsLength (digit :: rest) else 0
  | _ => 0

/-- What follows the first digit of a number. -/
def nimNumberLength (cs : List Char) : Nat :=
  let whole := digitsLength cs
  let decimals := decimalsLength (cs.drop whole)
  whole + decimals + exponentLength (cs.drop (whole + decimals))

/-- The lexeme that starts with `first`, and how many characters of `rest` belong to it as
well. -/
def nimLexeme? (first : Char) (rest : List Char) : Option (NimLexeme × Nat) :=
  if first = ' ' then some (.space, 0)
  else if first = '@' then some (.openList, 1)
  else if isDecimalDigit first then
    let length := nimNumberLength rest
    some (.token (.number (String.ofList (first :: rest.take length))), length)
  else (lexeme? true first rest).map fun (token, length) => (.token token, length)

/-- The lexemes of a text, up to the first place where there is none. -/
def nimLexemes : List Char → List NimLexeme
  | [] => []
  | first :: rest =>
      match nimLexeme? first rest with
      | none => []
      | some (lexeme, length) => lexeme :: nimLexemes (rest.drop length)
termination_by cs => cs.length
decreasing_by
  simp only [List.length_cons, List.length_drop]
  omega

private theorem nimLexemes_of_lexeme {first : Char} {tail rest : List Char} {lexeme : NimLexeme}
    (found : nimLexeme? first (tail ++ rest) = some (lexeme, tail.length)) :
    nimLexemes (first :: (tail ++ rest)) = lexeme :: nimLexemes rest := by
  rw [nimLexemes, found]
  simp only [List.drop_left]

/-- Apart from spaces, lists and numbers the lexemes are those of formulas after an operand. -/
theorem nimLexemes_of_token {first : Char} {tail rest : List Char} {token : Token}
    (found : lexeme? true first (tail ++ rest) = some (token, tail.length))
    (notSpace : first ≠ ' ') (notAt : first ≠ '@') (notDigit : isDecimalDigit first = false) :
    nimLexemes (first :: (tail ++ rest)) = .token token :: nimLexemes rest := by
  apply nimLexemes_of_lexeme
  simp [nimLexeme?, notSpace, notAt, notDigit, found]

@[simp] theorem nimLexemes_space (rest : List Char) :
    nimLexemes (' ' :: rest) = .space :: nimLexemes rest := by
  have found : nimLexeme? ' ' ([] ++ rest) = some (.space, ([] : List Char).length) := rfl
  exact nimLexemes_of_lexeme found

@[simp] theorem nimLexemes_openList (rest : List Char) :
    nimLexemes ('@' :: '[' :: rest) = .openList :: nimLexemes rest := by
  have found : nimLexeme? '@' (['['] ++ rest) = some (.openList, ['['].length) := rfl
  exact nimLexemes_of_lexeme found

/-! ### Marks -/

/-- The characters that begin no lexeme of two characters. -/
def loneMarks : List Char := ['.', ',', '(', ')', '[', ']', '+', '-', '*', '/']

theorem pair?_of_loneMark {first : Char} (isLone : first ∈ loneMarks) (afterOperand : Bool)
    (rest : List Char) : rest.head?.bind (pair? afterOperand first) = none := by
  cases rest with
  | nil => rfl
  | cons second others =>
      rw [List.head?_cons, Option.bind_some]
      unfold pair?
      split <;> first | rfl | exact absurd isLone (by decide)

theorem mem_symbolChars_of_loneMark {mark : Char} (isLone : mark ∈ loneMarks) :
    mark ∈ symbolChars := by
  have within : loneMarks ⊆ symbolChars := by decide
  exact within isLone

private theorem nimLexemes_of_symbol {first : Char} {tail rest : List Char} {token : Token}
    (isSymbol : first ∈ symbolChars)
    (found : symbol? true first (tail ++ rest) = some (token, tail.length)) :
    nimLexemes (first :: (tail ++ rest)) = .token token :: nimLexemes rest := by
  have notDigit : isDecimalDigit first = false := eq_false_of_any (by decide) isSymbol
  have notName : isNameStart first = false := eq_false_of_any (by decide) isSymbol
  have notQuote : ¬ (first = '"' ∨ first = '\'') := by
    rintro (rfl | rfl) <;> exact absurd isSymbol (by decide)
  refine nimLexemes_of_token ?_ ?_ ?_ notDigit
  · simp only [lexeme?, notName, notDigit, notQuote, found, not_true_eq_false, false_and,
      and_false, Bool.false_eq_true, ↓reduceIte]
  · rintro rfl
    exact absurd isSymbol (by decide)
  · rintro rfl
    exact absurd isSymbol (by decide)

private theorem nimLexemes_loneMark {mark : Char} {token : Token} (isLone : mark ∈ loneMarks)
    (isToken : single? mark = some token) (rest : List Char) :
    nimLexemes (mark :: rest) = .token token :: nimLexemes rest := by
  have found : symbol? true mark ([] ++ rest) = some (token, ([] : List Char).length) := by
    simp [symbol?, pair?_of_loneMark isLone, isToken]
  exact nimLexemes_of_symbol (mem_symbolChars_of_loneMark isLone) found

/-- A mark that could begin a longer one stands alone before a space. -/
theorem nimLexemes_spacedMark {mark : Char} {token : Token} (isSymbol : mark ∈ symbolChars)
    (isToken : single? mark = some token) (rest : List Char) :
    nimLexemes (mark :: ' ' :: rest) = .token token :: .space :: nimLexemes rest := by
  have noPair : pair? true mark ' ' = none := pair?_eq_none_of_spacing (by decide) true mark
  have found : symbol? true mark ([] ++ ' ' :: rest) = some (token, ([] : List Char).length) := by
    simp [symbol?, noPair, isToken]
  have divided : nimLexemes (mark :: ([] ++ ' ' :: rest)) =
      .token token :: nimLexemes (' ' :: rest) := nimLexemes_of_symbol isSymbol found
  rwa [nimLexemes_space] at divided

private theorem nimLexemes_pair {first second : Char} {token : Token}
    (isSymbol : first ∈ symbolChars) (isToken : pair? true first second = some token)
    (rest : List Char) :
    nimLexemes (first :: second :: rest) = .token token :: nimLexemes rest := by
  have found : symbol? true first ([second] ++ rest) = some (token, [second].length) := by
    simp [symbol?, isToken]
  exact nimLexemes_of_symbol isSymbol found

/-! ### Names, numbers and quoted texts -/

def operandFollowers : List Char := [' ', ',', ':', '(', ')', '[', ']']

/-- What can stand behind an operand. -/
inductive FollowsOperand : List Char → Prop where
  | nothing : FollowsOperand []
  | mark {c : Char} {rest : List Char} (isMark : c ∈ operandFollowers) : FollowsOperand (c :: rest)
  | field {c : Char} {rest : List Char} (starts : isNameStart c = true) :
      FollowsOperand ('.' :: c :: rest)

theorem FollowsOperand.stops {follow : List Char} (follows : FollowsOperand follow)
    {inClass : Char → Bool} (outside : ('.' :: operandFollowers).any inClass = false) :
    Stops inClass follow := by
  apply stops_of_head_mem _ outside
  cases follows with
  | nothing => simp
  | mark isMark => simpa using Or.inr isMark
  | field starts => simp

theorem isDecimalDigit_eq_false_of_nameStart {c : Char} (starts : isNameStart c = true) :
    isDecimalDigit c = false := by
  apply Bool.eq_false_iff.mpr
  intro isDigit
  rw [nameStart_eq_false_of_digit isDigit] at starts
  cases starts

private theorem nimLexemes_name {text : String} (isName : IsName text) {follow : List Char}
    (follows : FollowsOperand follow) :
    nimLexemes (text.toList ++ follow) = .token (.name text) :: nimLexemes follow := by
  obtain ⟨first, rest, spelled, starts, parts⟩ := isName
  rw [spelled, List.cons_append]
  have found := lexeme?_of_name true spelled starts parts (follows.stops (by decide))
  exact nimLexemes_of_token found (ne_of_inClass starts (by decide))
    (ne_of_inClass starts (by decide)) (isDecimalDigit_eq_false_of_nameStart starts)

private theorem nimLexemes_string {text : String} (isQuoted : IsQuoted text) (follow : List Char) :
    nimLexemes (text.toList ++ follow) = .token (.string text) :: nimLexemes follow := by
  obtain ⟨quote, rest, isQuote, spelled, closes⟩ := isQuoted
  rw [spelled, List.cons_append]
  have found := lexeme?_of_quote true follow isQuote spelled closes
  rcases isQuote with rfl | rfl <;>
    exact nimLexemes_of_token found (by decide) (by decide) (by decide)

section Number

variable {fraction exponent follow : List Char}

private theorem decimalsLength_of_follows (follows : FollowsOperand follow) :
    decimalsLength follow = 0 := by
  cases follows with
  | nothing => rfl
  | @mark c rest isMark =>
      have notPoint : c ≠ '.' := by
        rintro rfl
        exact absurd isMark (by decide)
      unfold decimalsLength
      split
      · rename_i same
        exact absurd (List.cons.inj same).1 notPoint
      · rfl
  | field starts =>
      simp only [decimalsLength, isDecimalDigit_eq_false_of_nameStart starts, Bool.false_eq_true,
        if_false]

/-- The characters of an exponent or what follows are none of the fraction. -/
theorem stops_of_exponent (isExponent : Exponent exponent) (follows : FollowsOperand follow) :
    Stops isDecimalDigit (exponent ++ follow) ∧ decimalsLength (exponent ++ follow) = 0 := by
  have atMark {mark : Char} (marked : isExponentMark mark = true) (rest : List Char) :
      Stops isDecimalDigit (mark :: rest) ∧ decimalsLength (mark :: rest) = 0 := by
    rcases eq_of_isExponentMark marked with rfl | rfl
    · exact ⟨stops_of_head_mem (by simp) (by decide : ['e'].any isDecimalDigit = false), rfl⟩
    · exact ⟨stops_of_head_mem (by simp) (by decide : ['E'].any isDecimalDigit = false), rfl⟩
  cases isExponent with
  | absent => exact ⟨follows.stops (by decide), decimalsLength_of_follows follows⟩
  | unsigned marked nonempty areDigits => exact atMark marked _
  | signed marked isSigned nonempty areDigits => exact atMark marked _

private theorem decimalsLength_append (isFraction : Fraction fraction)
    (isExponent : Exponent exponent) (follows : FollowsOperand follow) :
    decimalsLength (fraction ++ (exponent ++ follow)) = fraction.length := by
  obtain ⟨noDigit, noDecimals⟩ := stops_of_exponent isExponent follows
  cases isFraction with
  | absent => exact noDecimals
  | @present decimals nonempty areDecimals =>
      obtain ⟨digit, others, rfl⟩ := List.exists_cons_of_ne_nil nonempty
      have isDigit := areDecimals digit List.mem_cons_self
      have extent := digitsLength_append areDecimals noDigit
      simp only [List.cons_append] at extent ⊢
      rw [decimalsLength, if_pos isDigit, extent]
      simp only [List.length_cons]
      omega

theorem stops_of_fraction (isFraction : Fraction fraction) (isExponent : Exponent exponent)
    (follows : FollowsOperand follow) :
    Stops isDecimalDigit (fraction ++ (exponent ++ follow)) := by
  cases isFraction with
  | absent => exact (stops_of_exponent isExponent follows).1
  | present _ _ =>
      exact stops_of_head_mem (by simp) (by decide : ['.'].any isDecimalDigit = false)

theorem exponentLength_of_follows (isExponent : Exponent exponent)
    (follows : FollowsOperand follow) :
    exponentLength (exponent ++ follow) = exponent.length :=
  exponentLength_append isExponent (follows.stops (by decide)) (follows.stops (by decide))

private theorem nimNumberLength_append {digits : List Char} (areDigits : AllDigits digits)
    (isFraction : Fraction fraction) (isExponent : Exponent exponent)
    (follows : FollowsOperand follow) :
    nimNumberLength (digits ++ (fraction ++ (exponent ++ follow))) =
      digits.length + fraction.length + exponent.length := by
  have ofDigits := digitsLength_append areDigits (stops_of_fraction isFraction isExponent follows)
  have ofDecimals := decimalsLength_append isFraction isExponent follows
  have ofExponent := exponentLength_of_follows isExponent follows
  have behind : (digits ++ (fraction ++ (exponent ++ follow))).drop
      (digits.length + fraction.length) = exponent ++ follow := by
    rw [← List.append_assoc, ← List.length_append, List.drop_left]
  simp only [nimNumberLength, ofDigits, List.drop_left, ofDecimals, behind, ofExponent]

private theorem nimLexemes_number {text : String} (isNumber : IsNimNumber text)
    (follows : FollowsOperand follow) :
    nimLexemes (text.toList ++ follow) = .token (.number text) :: nimLexemes follow := by
  obtain ⟨whole, fraction, exponent, spelled, nonempty, areDigits, isFraction, isExponent⟩ :=
    isNumber
  obtain ⟨digit, others, rfl⟩ := List.exists_cons_of_ne_nil nonempty
  obtain ⟨isDigit, areOthers⟩ := List.forall_mem_cons.mp areDigits
  have extent : nimNumberLength ((others ++ (fraction ++ exponent)) ++ follow) =
      (others ++ (fraction ++ exponent)).length := by
    have lengths := nimNumberLength_append areOthers isFraction isExponent follows
    simp only [List.append_assoc, List.length_append] at lengths ⊢
    omega
  have notSpace : digit ≠ ' ' := ne_of_inClass isDigit (by decide)
  have notAt : digit ≠ '@' := ne_of_inClass isDigit (by decide)
  rw [List.cons_append] at spelled
  have found : nimLexeme? digit ((others ++ (fraction ++ exponent)) ++ follow) =
      some (.token (.number text), (others ++ (fraction ++ exponent)).length) := by
    simp only [nimLexeme?, notSpace, notAt, isDigit, extent, List.take_left, ← spelled,
      String.ofList_toList, ↓reduceIte]
  rw [spelled, List.cons_append]
  exact nimLexemes_of_lexeme found

end Number

/-! ### Lexemes of a tree -/

/-- Three operators are words in Nim. -/
def binaryNimToken : BinaryOp → Token
  | .or => .name "or"
  | .and => .name "and"
  | .mod => .name "mod"
  | op => .operator op

def unaryNimForm : UnaryOp → List NimLexeme
  | .not => [.token (.name "not"), .space]
  | op => [.token (unaryToken op)]

/-- The lexemes of names with points between them. -/
def pathForm (qualifier : List String) (ident : String) : List NimLexeme :=
  qualifier.flatMap (fun part => [.token (.name part), .token .dot]) ++ [.token (.name ident)]

mutual

/-- The lexemes of the Nim text of a tree. -/
def nimForm : Expr → List NimLexeme
  | .name qualifier ident => pathForm (qualifier.filter (· ∉ droppedQualifiers)) ident
  | .number text => [.token (.number (Number.toNim text))]
  | .string text => [.token (.string text)]
  | .member value field => nimForm value ++ [.token .dot, .token (.name field)]
  | .call callee arguments =>
      nimForm callee ++ (.token .openParen :: (nimFormOfAll arguments ++ [.token .closeParen]))
  | .index value position =>
      nimForm value ++ (.token .openBracket :: (nimForm position ++ [.token .closeBracket]))
  | .unary op operand =>
      if op.isSign ∧ operand.isUnary then
        unaryNimForm op ++ (.token .openParen :: (nimForm operand ++ [.token .closeParen]))
      else unaryNimForm op ++ nimForm operand
  | .binary op left right =>
      nimForm left ++ (.space :: .token (binaryNimToken op) :: .space :: nimForm right)
  | .ternary condition thenValue elseValue =>
      .token .openParen :: .token (.name "if") :: .space ::
        (nimForm condition ++ (.token .colon :: .space ::
          (nimForm thenValue ++ (.space :: .token (.name "else") :: .token .colon :: .space ::
            (nimForm elseValue ++ [.token .closeParen])))))
  | .list items => .openList :: (nimFormOfAll items ++ [.token .closeBracket])
  | .paren inner => .token .openParen :: (nimForm inner ++ [.token .closeParen])
  | .hole => []

def nimFormOfAll : List Expr → List NimLexeme
  | [] => []
  | [tree] => nimForm tree
  | tree :: next :: rest => nimForm tree ++ (.token .comma :: .space :: nimFormOfAll (next :: rest))

end

/-- The text is divided into these lexemes before anything that can stand behind an operand. -/
def DividesAs (text : String) (form : List NimLexeme) : Prop :=
  ∀ follow, FollowsOperand follow →
    nimLexemes (text.toList ++ follow) = form ++ nimLexemes follow

@[simp] theorem nimLexemes_dot (rest : List Char) :
    nimLexemes ('.' :: rest) = .token .dot :: nimLexemes rest :=
  nimLexemes_loneMark (by decide) rfl rest

@[simp] theorem nimLexemes_openParen (rest : List Char) :
    nimLexemes ('(' :: rest) = .token .openParen :: nimLexemes rest :=
  nimLexemes_loneMark (by decide) rfl rest

@[simp] theorem nimLexemes_closeParen (rest : List Char) :
    nimLexemes (')' :: rest) = .token .closeParen :: nimLexemes rest :=
  nimLexemes_loneMark (by decide) rfl rest

@[simp] theorem nimLexemes_openBracket (rest : List Char) :
    nimLexemes ('[' :: rest) = .token .openBracket :: nimLexemes rest :=
  nimLexemes_loneMark (by decide) rfl rest

@[simp] theorem nimLexemes_closeBracket (rest : List Char) :
    nimLexemes (']' :: rest) = .token .closeBracket :: nimLexemes rest :=
  nimLexemes_loneMark (by decide) rfl rest

@[simp] theorem nimLexemes_comma (rest : List Char) :
    nimLexemes (',' :: rest) = .token .comma :: nimLexemes rest :=
  nimLexemes_loneMark (by decide) rfl rest

@[simp] theorem nimLexemes_colon (rest : List Char) :
    nimLexemes (':' :: ' ' :: rest) = .token .colon :: .space :: nimLexemes rest :=
  nimLexemes_spacedMark (by decide) rfl rest

/-- The words of Nim that texts of trees have besides names. -/
def keywords : List String := ["or", "and", "mod", "not", "if", "else"]

private theorem isName_keyword {word : String} (isKeyword : word ∈ keywords) : IsName word := by
  simp only [keywords, List.mem_cons, List.not_mem_nil, or_false] at isKeyword
  rcases isKeyword with rfl | rfl | rfl | rfl | rfl | rfl <;>
    exact ⟨_, _, rfl, by decide, List.all_eq_true.mp (by decide)⟩

private theorem nimLexemes_binaryOp {category : Category} {op : BinaryOp}
    (isOperator : op ∈ category.operators) (rest : List Char) :
    nimLexemes (op.nimText.toList ++ ' ' :: rest) =
      .token (binaryNimToken op) :: .space :: nimLexemes rest := by
  have spaced : FollowsOperand (' ' :: rest) := .mark (by decide)
  have word {text : String} (isKeyword : text ∈ keywords) :
      nimLexemes (text.toList ++ ' ' :: rest) =
        .token (.name text) :: .space :: nimLexemes rest := by
    rw [nimLexemes_name (isName_keyword isKeyword) spaced, nimLexemes_space]
  have pair {first second : Char} (isSymbol : first ∈ symbolChars)
      (isToken : pair? true first second = some (.operator op)) :
      nimLexemes (first :: second :: ' ' :: rest) =
        .token (.operator op) :: .space :: nimLexemes rest := by
    rw [nimLexemes_pair isSymbol isToken, nimLexemes_space]
  cases op with
  | or | and | mod => exact word (by decide)
  | eq | ne | le | ge => exact pair (by decide) rfl
  | lt | gt | add | sub | mul | div => exact nimLexemes_spacedMark (by decide) rfl rest
  | custom symbol => cases category <;> simp [Category.operators] at isOperator

private theorem nimLexemes_unaryOp {op : UnaryOp} (isOperator : op ∈ [UnaryOp.plus, .minus, .not])
    (rest : List Char) :
    nimLexemes (op.nimText.toList ++ rest) = unaryNimForm op ++ nimLexemes rest := by
  cases op with
  | plus | minus => exact nimLexemes_loneMark (by decide) rfl rest
  | not =>
      have spaced : FollowsOperand (' ' :: rest) := .mark (by decide)
      have divided := nimLexemes_name (isName_keyword (by decide : "not" ∈ keywords)) spaced
      rw [nimLexemes_space] at divided
      exact divided
  | custom symbol => simp at isOperator

theorem followsOperand_field {field : String} (isName : IsName field) (rest : List Char) :
    FollowsOperand ('.' :: (field.toList ++ rest)) := by
  obtain ⟨first, others, spelled, starts, -⟩ := isName
  rw [spelled, List.cons_append]
  exact .field starts

private theorem dividesAs_path {qualifier : List String} {ident : String}
    (areNames : ∀ part ∈ qualifier, IsName part) (isName : IsName ident) :
    DividesAs (".".intercalate (qualifier ++ [ident])) (pathForm qualifier ident) := by
  intro follow follows
  induction qualifier with
  | nil =>
      rw [List.nil_append, String.intercalate_singleton]
      exact nimLexemes_name isName follows
  | cons part parts inductionHypothesis =>
      obtain ⟨isPart, areParts⟩ := List.forall_mem_cons.mp areNames
      have nonempty : parts ++ [ident] ≠ [] := by simp
      have selects : FollowsOperand
          ('.' :: ((".".intercalate (parts ++ [ident])).toList ++ follow)) := by
        cases parts with
        | nil =>
            rw [List.nil_append, String.intercalate_singleton]
            exact followsOperand_field isName follow
        | cons next others =>
            rw [List.cons_append, String.intercalate_cons_of_ne_nil (by simp),
              String.append_assoc, String.toList_append, List.append_assoc]
            exact followsOperand_field (areParts next List.mem_cons_self) _
      rw [List.cons_append, String.intercalate_cons_of_ne_nil nonempty, String.toList_append,
        String.toList_append, List.append_assoc, List.append_assoc]
      calc nimLexemes (part.toList ++
            ('.' :: ((".".intercalate (parts ++ [ident])).toList ++ follow)))
          = .token (.name part) :: .token .dot ::
              nimLexemes ((".".intercalate (parts ++ [ident])).toList ++ follow) := by
            rw [nimLexemes_name isPart selects, nimLexemes_dot]
        _ = pathForm (part :: parts) ident ++ nimLexemes follow := by
            rw [inductionHypothesis areParts]
            rfl

private theorem dividesAs_all {trees : List Expr}
    (dividesEach : ∀ tree ∈ trees, DividesAs tree.nimText tree.nimForm) :
    DividesAs (", ".intercalate (nimTexts trees)) (nimFormOfAll trees) := by
  intro follow follows
  match trees, dividesEach with
  | [], _ => rfl
  | [tree], dividesEach => exact dividesEach tree List.mem_cons_self follow follows
  | tree :: next :: rest, dividesEach =>
      obtain ⟨divides, dividesOthers⟩ := List.forall_mem_cons.mp dividesEach
      rw [nimTexts, nimTexts, String.intercalate_cons_cons, String.toList_append,
        String.toList_append, List.append_assoc, List.append_assoc]
      calc nimLexemes (tree.nimText.toList ++
            (',' :: ' ' :: ((", ".intercalate (nimTexts (next :: rest))).toList ++ follow)))
          = tree.nimForm ++ (.token .comma :: .space ::
              nimLexemes ((", ".intercalate (nimTexts (next :: rest))).toList ++ follow)) := by
            rw [divides _ (.mark (by decide)), nimLexemes_comma, nimLexemes_space]
        _ = nimFormOfAll (tree :: next :: rest) ++ nimLexemes follow := by
            rw [dividesAs_all dividesOthers follow follows, nimFormOfAll]
            simp only [List.append_assoc, List.cons_append]
termination_by trees.length

/-- The text of a tree of the grammar is divided into the lexemes of the tree. -/
theorem dividesAs_nimText {category : Category} {tree : Expr} (derives : Derives category tree) :
    DividesAs tree.nimText tree.nimForm := by
  induction derives with
  | tighter isNext inner inductionHypothesis => exact inductionHypothesis
  | name areNames isName =>
      have areKept : ∀ part ∈ List.filter (· ∉ droppedQualifiers) _, IsName part :=
        fun part member => areNames part (List.mem_filter.mp member).1
      exact dividesAs_path areKept isName
  | number isNumber =>
      intro follow follows
      exact nimLexemes_number (isNimNumber_toNim isNumber) follows
  | string isQuoted =>
      intro follow follows
      exact nimLexemes_string isQuoted follow
  | @member value field ofValue isName divides =>
      intro follow follows
      simp only [nimText, nimForm, String.toList_append, List.append_assoc]
      calc nimLexemes (value.nimText.toList ++ ('.' :: (field.toList ++ follow)))
          = value.nimForm ++ (.token .dot :: .token (.name field) :: nimLexemes follow) := by
            rw [divides _ (followsOperand_field isName follow), nimLexemes_dot,
              nimLexemes_name isName follows]
        _ = _ := rfl
  | @call callee arguments ofCallee ofArguments divides dividesEach =>
      intro follow follows
      simp only [nimText, nimForm, String.toList_append, List.append_assoc]
      calc nimLexemes (callee.nimText.toList ++
            ('(' :: ((", ".intercalate (nimTexts arguments)).toList ++ (')' :: follow))))
          = callee.nimForm ++ (.token .openParen ::
              (nimFormOfAll arguments ++ (.token .closeParen :: nimLexemes follow))) := by
            rw [divides _ (.mark (by decide)), nimLexemes_openParen,
              dividesAs_all dividesEach _ (.mark (by decide)), nimLexemes_closeParen]
        _ = _ := by simp
  | @index value position ofValue ofPosition dividesValue dividesPosition =>
      intro follow follows
      simp only [nimText, nimForm, String.toList_append, List.append_assoc]
      calc nimLexemes (value.nimText.toList ++
            ('[' :: (position.nimText.toList ++ (']' :: follow))))
          = value.nimForm ++ (.token .openBracket ::
              (position.nimForm ++ (.token .closeBracket :: nimLexemes follow))) := by
            rw [dividesValue _ (.mark (by decide)), nimLexemes_openBracket,
              dividesPosition _ (.mark (by decide)), nimLexemes_closeBracket]
        _ = _ := by simp
  | @unary op operand isOperator ofOperand divides =>
      intro follow follows
      simp only [nimText, nimForm]
      split_ifs
      · simp only [String.toList_append, List.append_assoc]
        calc nimLexemes (op.nimText.toList ++ ('(' :: (operand.nimText.toList ++ (')' :: follow))))
            = unaryNimForm op ++ (.token .openParen ::
                (operand.nimForm ++ (.token .closeParen :: nimLexemes follow))) := by
              rw [nimLexemes_unaryOp isOperator, nimLexemes_openParen,
                divides _ (.mark (by decide)), nimLexemes_closeParen]
          _ = _ := by simp
      · rw [String.toList_append, List.append_assoc, nimLexemes_unaryOp isOperator,
          divides follow follows, List.append_assoc]
  | @binary category next op left right isOperator isNext ofLeft ofRight dividesLeft dividesRight =>
      intro follow follows
      simp only [nimText, nimForm, String.toList_append, List.append_assoc]
      calc nimLexemes (left.nimText.toList ++
            (' ' :: (op.nimText.toList ++ (' ' :: (right.nimText.toList ++ follow)))))
          = left.nimForm ++ (.space :: .token (binaryNimToken op) :: .space ::
              (right.nimForm ++ nimLexemes follow)) := by
            rw [dividesLeft _ (.mark (by decide)), nimLexemes_space,
              nimLexemes_binaryOp isOperator, dividesRight follow follows]
        _ = _ := by simp
  | @ternary condition thenValue elseValue ofCondition ofThen ofElse dividesCondition dividesThen
      dividesElse =>
      intro follow follows
      have ifWord (rest : List Char) : nimLexemes ('i' :: 'f' :: ' ' :: rest) =
          .token (.name "if") :: .space :: nimLexemes rest := by
        have divided := nimLexemes_name (isName_keyword (by decide : "if" ∈ keywords))
          (.mark (by decide) : FollowsOperand (' ' :: rest))
        rwa [nimLexemes_space] at divided
      have elseWord (rest : List Char) :
          nimLexemes ('e' :: 'l' :: 's' :: 'e' :: ':' :: ' ' :: rest) =
            .token (.name "else") :: .token .colon :: .space :: nimLexemes rest := by
        have divided := nimLexemes_name (isName_keyword (by decide : "else" ∈ keywords))
          (.mark (by decide) : FollowsOperand (':' :: ' ' :: rest))
        rwa [nimLexemes_colon] at divided
      simp only [nimText, nimForm, String.toList_append, List.append_assoc]
      calc nimLexemes ('(' :: 'i' :: 'f' :: ' ' :: (condition.nimText.toList ++
            (':' :: ' ' :: (thenValue.nimText.toList ++
              (' ' :: 'e' :: 'l' :: 's' :: 'e' :: ':' :: ' ' ::
                (elseValue.nimText.toList ++ (')' :: follow)))))))
          = .token .openParen :: .token (.name "if") :: .space :: (condition.nimForm ++
              (.token .colon :: .space :: (thenValue.nimForm ++
                (.space :: .token (.name "else") :: .token .colon :: .space ::
                  (elseValue.nimForm ++ (.token .closeParen :: nimLexemes follow)))))) := by
            rw [nimLexemes_openParen, ifWord, dividesCondition _ (.mark (by decide)),
              nimLexemes_colon, dividesThen _ (.mark (by decide)), nimLexemes_space, elseWord,
              dividesElse _ (.mark (by decide)), nimLexemes_closeParen]
        _ = _ := by simp
  | @paren inner ofInner divides =>
      intro follow follows
      simp only [nimText, nimForm, String.toList_append, List.append_assoc]
      calc nimLexemes ('(' :: (inner.nimText.toList ++ (')' :: follow)))
          = .token .openParen :: (inner.nimForm ++ (.token .closeParen :: nimLexemes follow)) := by
            rw [nimLexemes_openParen, divides _ (.mark (by decide)), nimLexemes_closeParen]
        _ = _ := by simp
  | @list items ofItems dividesEach =>
      intro follow follows
      simp only [nimText, nimForm, String.toList_append, List.append_assoc]
      calc nimLexemes ('@' :: '[' :: ((", ".intercalate (nimTexts items)).toList ++
            (']' :: follow)))
          = .openList :: (nimFormOfAll items ++ (.token .closeBracket :: nimLexemes follow)) := by
            rw [nimLexemes_openList, dividesAs_all dividesEach _ (.mark (by decide)),
              nimLexemes_closeBracket]
        _ = _ := by simp

end Expr

end TensorBindings
