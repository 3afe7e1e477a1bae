import Mathlib.Data.List.TakeWhile
import TensorBindings.Proofs.Expr.Grammar

/-!
Contract: the division of a written list of tokens gives the list back.

Owns: where lexemes end, the tokens that can be written after an operand or elsewhere, and
`tokens_of_writes`: if the tokens of a text are separated by spacing, and each may stand
after the one before it, then the division of the text is these tokens and the end marker.

Most lexemes do not depend on what stands before them. The two that do are `!=`, which is one
lexeme only after an operand, and a number that begins with its point, which is one only
elsewhere.
-/

set_option autoImplicit false

namespace TensorBindings.Expr

open TensorBindings.Text

/-! ### Classes of characters -/

def spacingChars : List Char := [' ', '\t', '\n', '\r', '\x0c']

theorem mem_spacingChars {c : Char} (isSpace : isSpacing c = true) : c ∈ spacingChars := by
  simpa [isSpacing, spacingChars, or_assoc] using isSpace

/-- Digits other than the ten of ASCII lie behind the letters of ASCII. -/
theorem digit_bounds {c : Char} (isDigit : isDecimalDigit c = true) :
    (48 ≤ c.toNat ∧ c.toNat ≤ 57) ∨ 123 ≤ c.toNat := by
  unfold isDecimalDigit digitValue? at isDigit
  rw [Option.isSome_map, List.find?_isSome] at isDigit
  obtain ⟨first, member, inRange⟩ := isDigit
  rw [Bool.and_eq_true, decide_eq_true_eq, decide_eq_true_eq] at inRange
  have zeros : ∀ first ∈ digitZeros, first = 48 ∨ 123 ≤ first := by decide
  rcases zeros first member with ascii | behind <;> omega

theorem isDecimalDigit_of_isDigit {c : Char} (isDigit : c.isDigit = true) :
    isDecimalDigit c = true := by
  have bounds : 48 ≤ c.toNat ∧ c.toNat ≤ 57 := by
    simpa [Char.isDigit, UInt32.le_iff_toNat_le] using isDigit
  unfold isDecimalDigit digitValue? digitZeros
  rw [List.find?_cons_of_pos (by simpa using bounds)]
  rfl

private theorem letter_bounds {c : Char} (isLetter : c.isAlpha = true) :
    (65 ≤ c.toNat ∧ c.toNat ≤ 90) ∨ (97 ≤ c.toNat ∧ c.toNat ≤ 122) := by
  rcases Bool.or_eq_true_iff.mp isLetter with isUpper | isLower
  · have bounds : 65 ≤ c.val ∧ c.val ≤ 90 := of_decide_eq_true isUpper
    exact Or.inl bounds
  · obtain ⟨atLeast, atMost⟩ := Bool.and_eq_true_iff.mp isLower
    have bounds : 97 ≤ c.val ∧ c.val ≤ 122 := ⟨of_decide_eq_true atLeast, of_decide_eq_true atMost⟩
    exact Or.inr bounds

theorem nameStart_eq_false_of_digit {c : Char} (isDigit : isDecimalDigit c = true) :
    isNameStart c = false := by
  have bounds := digit_bounds isDigit
  apply Bool.eq_false_iff.mpr
  intro starts
  rcases Bool.or_eq_true_iff.mp starts with isLetter | isUnderscore
  · have letters := letter_bounds isLetter
    omega
  · obtain rfl : c = '_' := beq_iff_eq.mp isUnderscore
    simp at bounds

/-- The list is searched once and for all; to decide a statement about all characters is out
of reach. -/
theorem eq_false_of_any {inClass : Char → Bool} {listed : List Char}
    (outside : listed.any inClass = false) {c : Char} (member : c ∈ listed) :
    inClass c = false :=
  Bool.eq_false_iff.mpr (List.any_eq_false.mp outside c member)

theorem isSpacing_eq_false {inClass : Char → Bool} (outside : spacingChars.any inClass = false)
    {c : Char} (inside : inClass c = true) : isSpacing c = false := by
  apply Bool.eq_false_iff.mpr
  intro isSpace
  rw [eq_false_of_any outside (mem_spacingChars isSpace)] at inside
  cases inside

theorem isSpacing_eq_false_of_digit {c : Char} (isDigit : isDecimalDigit c = true) :
    isSpacing c = false :=
  isSpacing_eq_false (by decide) isDigit

theorem forall_head_cons {holds : Char → Prop} {first : Char} (ofFirst : holds first)
    (rest : List Char) : ∀ c ∈ (first :: rest).head?, holds c := by
  intro c isHead
  obtain rfl : first = c := by simpa using isHead
  exact ofFirst

/-- The characters, if there are any, begin with one outside of the class. -/
def Stops (inClass : Char → Bool) (cs : List Char) : Prop :=
  ∀ c ∈ cs.head?, inClass c = false

theorem stops_of_head_mem {inClass : Char → Bool} {cs allowed : List Char}
    (heads : ∀ c ∈ cs.head?, c ∈ allowed) (outside : allowed.any inClass = false) :
    Stops inClass cs :=
  fun c isHead => eq_false_of_any outside (heads c isHead)

/-- What follows a lexeme: nothing, or spacing first. -/
def Ends (follow : List Char) : Prop := ∀ c ∈ follow.head?, c ∈ spacingChars

theorem Ends.stops {follow : List Char} (ends : Ends follow) {inClass : Char → Bool}
    (outside : spacingChars.any inClass = false) : Stops inClass follow :=
  stops_of_head_mem ends outside

/-- The lexeme of a token is found wherever the token is written with an end after it. -/
def Token.IsReadAfter (afterOperand : Bool) (token : Token) : Prop :=
  ∀ follow, Ends follow →
    ∃ first rest, token.spelling.toList = first :: rest ∧ isSpacing first = false ∧
      lexeme? afterOperand first (rest ++ follow) = some (token, rest.length)

/-! ### Names -/

theorem length_takeWhile_append {inClass : Char → Bool} {run follow : List Char}
    (within : ∀ c ∈ run, inClass c = true) (stops : Stops inClass follow) :
    ((run ++ follow).takeWhile inClass).length = run.length := by
  have nothing : follow.takeWhile inClass = [] := by
    cases follow with
    | nil => rfl
    | cons c rest =>
        have outside : inClass c = false := stops c rfl
        simp [outside]
  rw [List.takeWhile_append_of_pos within, nothing, List.append_nil]

theorem lexeme?_of_name {text : String} {first : Char} {rest follow : List Char}
    (afterOperand : Bool) (spelled : text.toList = first :: rest)
    (starts : isNameStart first = true) (parts : ∀ c ∈ rest, isNamePart c = true)
    (stops : Stops isNamePart follow) :
    lexeme? afterOperand first (rest ++ follow) = some (.name text, rest.length) := by
  have extent : ((rest ++ follow).takeWhile isNamePart).length = rest.length :=
    length_takeWhile_append parts stops
  simp only [lexeme?, if_pos starts, extent, List.take_left, ← spelled, String.ofList_toList]

private theorem name_isReadAfter {text : String} (isName : IsName text) (afterOperand : Bool) :
    (Token.name text).IsReadAfter afterOperand := by
  obtain ⟨first, rest, spelled, starts, parts⟩ := isName
  intro follow ends
  refine ⟨first, rest, spelled, isSpacing_eq_false (by decide) starts, ?_⟩
  exact lexeme?_of_name afterOperand spelled starts parts (ends.stops (by decide))

/-! ### Numbers -/

theorem digitsLength_append {digits follow : List Char} (areDigits : AllDigits digits)
    (stops : Stops isDecimalDigit follow) : digitsLength (digits ++ follow) = digits.length :=
  length_takeWhile_append areDigits stops

private theorem exponentLength_of_stops {cs : List Char} (stops : Stops isExponentMark cs) :
    exponentLength cs = 0 := by
  match cs with
  | [] => rfl
  | [c] => rfl
  | mark :: sign :: rest =>
      have unmarked : isExponentMark mark = false := stops mark rfl
      simp [exponentLength, unmarked]

theorem exponentLength_append {exponent follow : List Char} (isExponent : Exponent exponent)
    (noMark : Stops isExponentMark follow) (noDigit : Stops isDecimalDigit follow) :
    exponentLength (exponent ++ follow) = exponent.length := by
  cases isExponent with
  | absent => exact exponentLength_of_stops noMark
  | @signed mark sign digits marked isSigned nonempty areDigits =>
      have extent := digitsLength_append areDigits noDigit
      have some : digits.length ≠ 0 := fun none => nonempty (List.length_eq_zero_iff.mp none)
      simp only [List.cons_append, exponentLength, marked, isSigned, extent, some, ↓reduceIte,
        List.length_cons]
      omega
  | @unsigned mark digits marked nonempty areDigits =>
      match digits, nonempty, areDigits with
      | digit :: others, _, areDigits =>
          have extent : digitsLength (digit :: (others ++ follow)) = others.length + 1 :=
            digitsLength_append areDigits noDigit
          have unsigned : isSign digit = false := by
            have bounds := digit_bounds (areDigits digit List.mem_cons_self)
            unfold isSign
            rw [Bool.or_eq_false_iff, beq_eq_false_iff_ne, beq_eq_false_iff_ne]
            constructor <;> rintro rfl <;> simp at bounds
          simp only [List.cons_append, exponentLength, marked, unsigned, extent, ↓reduceIte,
            List.length_cons, Bool.false_eq_true, Nat.add_one_ne_zero]
          omega

theorem widthMarkLength_append {width follow : List Char} (isWidth : WidthMark width)
    (stops : Stops isWidthMark follow) : widthMarkLength (width ++ follow) = width.length := by
  cases isWidth with
  | present marked => simp [widthMarkLength, marked]
  | absent =>
      cases follow with
      | nil => rfl
      | cons c rest =>
          have unmarked : isWidthMark c = false := stops c rfl
          simp [widthMarkLength, unmarked]

/-- The characters that can stand right behind the exponent of a number. -/
def widthHeads : List Char := ['f', 'F', 'l', 'L'] ++ spacingChars

/-- The characters that can stand right behind the digits of a number. -/
def numberTailHeads : List Char := ['e', 'E'] ++ widthHeads

section Number

variable {exponent width follow : List Char}

private theorem head_width_mem (isWidth : WidthMark width) (ends : Ends follow) :
    ∀ c ∈ (width ++ follow).head?, c ∈ widthHeads := by
  intro c isHead
  cases isWidth with
  | absent => exact List.mem_append_right _ (ends c isHead)
  | present marked =>
      obtain rfl : _ = c := by simpa using isHead
      apply List.mem_append_left
      simpa [isWidthMark, or_assoc] using marked

private theorem head_numberTail_mem (isExponent : Exponent exponent) (isWidth : WidthMark width)
    (ends : Ends follow) :
    ∀ c ∈ (exponent ++ (width ++ follow)).head?, c ∈ numberTailHeads := by
  intro c isHead
  have ofMark {mark : Char} (marked : isExponentMark mark = true) : mark ∈ numberTailHeads := by
    simp only [isExponentMark, Bool.or_eq_true, beq_iff_eq] at marked
    rcases marked with rfl | rfl <;> decide
  cases isExponent with
  | absent => exact List.mem_append_right _ (head_width_mem isWidth ends c isHead)
  | unsigned marked nonempty areDigits =>
      obtain rfl : _ = c := by simpa using isHead
      exact ofMark marked
  | signed marked isSigned nonempty areDigits =>
      obtain rfl : _ = c := by simpa using isHead
      exact ofMark marked

private theorem numberTailLength_append (isExponent : Exponent exponent) (isWidth : WidthMark width)
    (ends : Ends follow) :
    numberTailLength (exponent ++ (width ++ follow)) = exponent.length + width.length := by
  have heads := head_width_mem isWidth ends
  have ofExponent : exponentLength (exponent ++ (width ++ follow)) = exponent.length :=
    exponentLength_append isExponent (stops_of_head_mem heads (by decide))
      (stops_of_head_mem heads (by decide))
  have ofWidth : widthMarkLength (width ++ follow) = width.length :=
    widthMarkLength_append isWidth (ends.stops (by decide))
  rw [numberTailLength, ofExponent, List.drop_left, ofWidth]

theorem fractionLength_of_stops {cs : List Char} (stops : Stops (· == '.') cs) :
    fractionLength cs = 0 := by
  unfold fractionLength
  split
  · exact absurd (stops '.' rfl) (by decide)
  · rfl

private theorem afterDigitLength_whole {digits tail : List Char} (areDigits : AllDigits digits)
    (heads : ∀ c ∈ tail.head?, c ∈ numberTailHeads) :
    afterDigitLength (digits ++ tail) = digits.length + numberTailLength tail := by
  have ofDigits : digitsLength (digits ++ tail) = digits.length :=
    digitsLength_append areDigits (stops_of_head_mem heads (by decide))
  have noFraction : fractionLength tail = 0 :=
    fractionLength_of_stops (stops_of_head_mem heads (by decide))
  simp only [afterDigitLength, ofDigits, List.drop_left, noFraction, Nat.add_zero]

private theorem afterPointLength_append {decimals tail : List Char}
    (areDecimals : AllDigits decimals) (heads : ∀ c ∈ tail.head?, c ∈ numberTailHeads) :
    afterPointLength (decimals ++ tail) = decimals.length + numberTailLength tail := by
  have ofDecimals : digitsLength (decimals ++ tail) = decimals.length :=
    digitsLength_append areDecimals (stops_of_head_mem heads (by decide))
  rw [afterPointLength, ofDecimals, List.drop_left]

private theorem afterDigitLength_pointed {digits decimals tail : List Char}
    (areDigits : AllDigits digits) (areDecimals : AllDigits decimals)
    (heads : ∀ c ∈ tail.head?, c ∈ numberTailHeads) :
    afterDigitLength (digits ++ '.' :: (decimals ++ tail)) =
      digits.length + (1 + decimals.length) + numberTailLength tail := by
  have pointStops : Stops isDecimalDigit ('.' :: (decimals ++ tail)) :=
    forall_head_cons (by decide) _
  have ofDigits : digitsLength (digits ++ '.' :: (decimals ++ tail)) = digits.length :=
    digitsLength_append areDigits pointStops
  have ofDecimals : digitsLength (decimals ++ tail) = decimals.length :=
    digitsLength_append areDecimals (stops_of_head_mem heads (by decide))
  have ofFraction : fractionLength ('.' :: (decimals ++ tail)) = 1 + decimals.length := by
    rw [fractionLength, ofDecimals]
  have behind : (digits ++ '.' :: (decimals ++ tail)).drop (digits.length + (1 + decimals.length))
      = tail := by
    rw [List.drop_append, List.drop_eq_nil_of_le (by omega), List.nil_append,
      Nat.add_sub_cancel_left, Nat.add_comm 1, List.drop_succ_cons, List.drop_left]
  simp only [afterDigitLength, ofDigits, List.drop_left, ofFraction, behind]

theorem lexeme?_of_digit {text : String} {digit : Char} {rest : List Char} (afterOperand : Bool)
    (isDigit : isDecimalDigit digit = true) (spelled : text.toList = digit :: rest)
    (extent : afterDigitLength (rest ++ follow) = rest.length) :
    lexeme? afterOperand digit (rest ++ follow) = some (.number text, rest.length) := by
  simp only [lexeme?, nameStart_eq_false_of_digit isDigit, isDigit, extent, List.take_left,
    ← spelled, String.ofList_toList, ↓reduceIte, Bool.false_eq_true]

private theorem lexeme?_of_point {text : String} {digit : Char} {rest : List Char}
    (isDigit : isDecimalDigit digit = true) (spelled : text.toList = '.' :: digit :: rest)
    (extent : afterPointLength (digit :: rest ++ follow) = (digit :: rest).length) :
    lexeme? false '.' (digit :: rest ++ follow) = some (.number text, (digit :: rest).length) := by
  have notName : isNameStart '.' = false := by decide
  have notDigit : isDecimalDigit '.' = false := by decide
  have starts : startsWithDigit (digit :: rest ++ follow) = true := isDigit
  simp only [lexeme?, notName, notDigit, starts, extent, List.take_left, ← spelled,
    String.ofList_toList, ↓reduceIte, Bool.false_eq_true, not_false_eq_true, and_self]

/-- A number is one lexeme, but one that begins with its point is none after an operand. -/
theorem number_isReadAfter {text : String} {afterOperand : Bool} (isNumber : IsNumber text)
    (noPoint : afterOperand = true → text.toList.head? ≠ some '.') :
    (Token.number text).IsReadAfter afterOperand := by
  obtain ⟨mantissa, exponent, width, spelled, isMantissa, isExponent, isWidth⟩ := isNumber
  intro follow ends
  have heads := head_numberTail_mem isExponent isWidth ends
  have ofTail := numberTailLength_append isExponent isWidth ends
  cases isMantissa with
  | whole nonempty areDigits =>
      obtain ⟨digit, others, rfl⟩ := List.exists_cons_of_ne_nil nonempty
      obtain ⟨isDigit, areOthers⟩ := List.forall_mem_cons.mp areDigits
      rw [List.cons_append] at spelled
      refine ⟨digit, _, spelled, isSpacing_eq_false_of_digit isDigit, ?_⟩
      apply lexeme?_of_digit afterOperand isDigit spelled
      rw [List.append_assoc, List.append_assoc, afterDigitLength_whole areOthers heads, ofTail]
      simp
  | @pointed digits decimals nonempty areDigits areDecimals =>
      obtain ⟨digit, others, rfl⟩ := List.exists_cons_of_ne_nil nonempty
      obtain ⟨isDigit, areOthers⟩ := List.forall_mem_cons.mp areDigits
      rw [List.append_assoc, List.cons_append, List.cons_append] at spelled
      refine ⟨digit, _, spelled, isSpacing_eq_false_of_digit isDigit, ?_⟩
      apply lexeme?_of_digit afterOperand isDigit spelled
      simp only [List.append_assoc, List.cons_append]
      rw [afterDigitLength_pointed areOthers areDecimals heads, ofTail]
      simp
      omega
  | @leadingPoint decimals nonempty areDecimals =>
      obtain ⟨digit, others, rfl⟩ := List.exists_cons_of_ne_nil nonempty
      have elsewhere : afterOperand = false := by
        cases afterOperand with
        | false => rfl
        | true => exact absurd (by rw [spelled]; rfl) (noPoint rfl)
      subst elsewhere
      rw [List.cons_append, List.cons_append] at spelled
      refine ⟨'.', _, spelled, by decide, ?_⟩
      apply lexeme?_of_point (areDecimals digit List.mem_cons_self) spelled
      have extent := afterPointLength_append areDecimals heads
      rw [ofTail] at extent
      simp only [List.cons_append, List.append_assoc, List.length_cons, List.length_append]
        at extent ⊢
      omega

end Number

/-! ### Quoted texts -/

private theorem quotedLength?_append {quote : Char} {rest : List Char} (follow : List Char)
    (closes : QuotedRest quote rest) (noEscape : quote ≠ '\\') :
    quotedLength? quote (rest ++ follow) = some rest.length := by
  induction closes with
  | close =>
      simp [quotedLength?, noEscape]
  | escaped sameLine inner inductionHypothesis =>
      simp [quotedLength?, sameLine, inductionHypothesis]
      omega
  | plain noQuote noBackslash inner inductionHypothesis =>
      simp [quotedLength?, noQuote, noBackslash, inductionHypothesis]
      omega

theorem lexeme?_of_quote {text : String} {quote : Char} {rest : List Char}
    (afterOperand : Bool) (follow : List Char) (isQuote : quote = '"' ∨ quote = '\'')
    (spelled : text.toList = quote :: rest) (closes : QuotedRest quote rest) :
    lexeme? afterOperand quote (rest ++ follow) = some (.string text, rest.length) := by
  have extent : quotedLength? quote (rest ++ follow) = some rest.length := by
    apply quotedLength?_append follow closes
    rcases isQuote with rfl | rfl <;> decide
  have notName : isNameStart quote = false := by rcases isQuote with rfl | rfl <;> decide
  have notDigit : isDecimalDigit quote = false := by rcases isQuote with rfl | rfl <;> decide
  have notPoint : quote ≠ '.' := by rcases isQuote with rfl | rfl <;> decide
  simp only [lexeme?, notName, notDigit, notPoint, isQuote, extent, Option.map_some,
    List.take_left, ← spelled, String.ofList_toList, ↓reduceIte, Bool.false_eq_true, false_and]

private theorem string_isReadAfter {text : String} (isQuoted : IsQuoted text)
    (afterOperand : Bool) :
    (Token.string text).IsReadAfter afterOperand := by
  obtain ⟨quote, rest, isQuote, spelled, closes⟩ := isQuoted
  intro follow ends
  refine ⟨quote, rest, spelled, ?_, lexeme?_of_quote afterOperand follow isQuote spelled closes⟩
  rcases isQuote with rfl | rfl <;> decide

/-! ### Punctuation and operators -/

/-- The characters that begin punctuation and operators. -/
def symbolChars : List Char :=
  ['|', '&', '=', '<', '>', '+', '-', '*', '/', '%', '!', '.', ',', '?', ':', '(', ')', '[', ']',
    '{', '}']

theorem lexeme?_eq_symbol? {afterOperand : Bool} {first : Char} {rest : List Char}
    (isSymbol : first ∈ symbolChars) (noNumber : first = '.' → startsWithDigit rest = false) :
    lexeme? afterOperand first rest = symbol? afterOperand first rest := by
  have notName : isNameStart first = false := eq_false_of_any (by decide) isSymbol
  have notDigit : isDecimalDigit first = false := eq_false_of_any (by decide) isSymbol
  have notQuote : ¬ (first = '"' ∨ first = '\'') := by
    rintro (rfl | rfl) <;> exact absurd isSymbol (by decide)
  have notNumber : ¬ (first = '.' ∧ ¬ afterOperand = true ∧ startsWithDigit rest = true) := by
    rintro ⟨isPoint, -, starts⟩
    rw [noNumber isPoint] at starts
    cases starts
  simp only [lexeme?, notName, notDigit, notQuote, notNumber, ↓reduceIte, Bool.false_eq_true]

theorem pair?_eq_none_of_spacing {second : Char} (isSpace : second ∈ spacingChars)
    (afterOperand : Bool) (first : Char) : pair? afterOperand first second = none := by
  unfold pair?
  split <;> first | rfl | exact absurd isSpace (by decide)

private theorem single_isReadAfter {token : Token} {c : Char}
    (spelled : token.spelling.toList = [c]) (isSymbol : c ∈ symbolChars)
    (single : single? c = some token) (afterOperand : Bool) :
    token.IsReadAfter afterOperand := by
  intro follow ends
  refine ⟨c, [], spelled, eq_false_of_any (by decide) isSymbol, ?_⟩
  rw [List.nil_append]
  cases follow with
  | nil =>
      rw [lexeme?_eq_symbol? isSymbol (fun _ => rfl)]
      simp [symbol?, single]
  | cons next rest =>
      have isSpace : next ∈ spacingChars := ends next rfl
      have notDigit : isDecimalDigit next = false := eq_false_of_any (by decide) isSpace
      have noNumber : startsWithDigit (next :: rest) = false := notDigit
      rw [lexeme?_eq_symbol? isSymbol (fun _ => noNumber)]
      simp [symbol?, pair?_eq_none_of_spacing isSpace, single]

private theorem pair_isReadAfter {token : Token} {first second : Char} {afterOperand : Bool}
    (spelled : token.spelling.toList = [first, second]) (isSymbol : first ∈ symbolChars)
    (notPoint : first ≠ '.') (pair : pair? afterOperand first second = some token) :
    token.IsReadAfter afterOperand := by
  intro follow ends
  refine ⟨first, [second], spelled, eq_false_of_any (by decide) isSymbol, ?_⟩
  rw [lexeme?_eq_symbol? isSymbol (fun isPoint => absurd isPoint notPoint)]
  simp [symbol?, pair]

/-! ### Tokens in their place -/

/-- The token is written as one lexeme in this place, and is no marker. -/
def Token.MayStandAfter (afterOperand : Bool) : Token → Prop
  | .name text => IsName text
  | .number text => IsNumber text ∧ (afterOperand = true → text.toList.head? ≠ some '.')
  | .string text => IsQuoted text
  | .operator .ne => afterOperand = true
  | .operator (.custom _) => False
  | .endOfText => False
  | .unreadable => False
  | _ => True

theorem Token.MayStandAfter.isReadAfter {afterOperand : Bool} {token : Token}
    (mayStand : token.MayStandAfter afterOperand) : token.IsReadAfter afterOperand := by
  cases token with
  | name text => exact name_isReadAfter mayStand afterOperand
  | number text => exact number_isReadAfter mayStand.1 mayStand.2
  | string text => exact string_isReadAfter mayStand afterOperand
  | operator op =>
      cases op with
      | custom symbol => exact mayStand.elim
      | or => exact pair_isReadAfter rfl (by decide) (by decide) rfl
      | and => exact pair_isReadAfter rfl (by decide) (by decide) rfl
      | eq => exact pair_isReadAfter rfl (by decide) (by decide) rfl
      | ne => exact pair_isReadAfter rfl (by decide) (by decide) (if_pos mayStand)
      | le => exact pair_isReadAfter rfl (by decide) (by decide) rfl
      | ge => exact pair_isReadAfter rfl (by decide) (by decide) rfl
      | lt | gt | add | sub | mul | div | mod =>
          exact single_isReadAfter rfl (by decide) rfl afterOperand
  | scope => exact pair_isReadAfter rfl (by decide) (by decide) rfl
  | endOfText => exact mayStand.elim
  | unreadable => exact mayStand.elim
  | not | dot | comma | question | colon | openParen | closeParen | openBracket | closeBracket
    | openBrace | closeBrace => exact single_isReadAfter rfl (by decide) rfl afterOperand

/-- Each token may stand after the one before it. -/
def Placed : Bool → List Token → Prop
  | _, [] => True
  | afterOperand, token :: rest =>
      token.MayStandAfter afterOperand ∧ Placed token.endsOperand rest

/-! ### Division -/

theorem tokens_of_spacing {cs : List Char} (spaced : Spacing cs) (afterOperand : Bool) :
    tokens afterOperand cs = [.endOfText] := by
  have nothing : cs.dropWhile isSpacing = [] := List.dropWhile_eq_nil_iff.mpr spaced
  unfold tokens
  split
  · rfl
  · rename_i something
    rw [nothing] at something
    cases something

theorem dropWhile_lead {lead : List Char} {first : Char} (spaced : Spacing lead)
    (notSpace : isSpacing first = false) (rest : List Char) :
    (lead ++ first :: rest).dropWhile isSpacing = first :: rest := by
  rw [Bool.eq_false_iff] at notSpace
  rw [List.dropWhile_append_of_pos spaced, List.dropWhile_cons_of_neg notSpace]

theorem tokens_of_found {lead rest follow : List Char} {first : Char} {token : Token}
    {afterOperand : Bool} (spaced : Spacing lead) (notSpace : isSpacing first = false)
    (found : lexeme? afterOperand first (rest ++ follow) = some (token, rest.length)) :
    tokens afterOperand (lead ++ first :: (rest ++ follow)) =
      token :: tokens token.endsOperand follow := by
  have start := dropWhile_lead spaced notSpace (rest ++ follow)
  conv => lhs; unfold tokens
  split
  · rename_i nothing
    rw [start] at nothing
    cases nothing
  · rename_i same
    rw [start] at same
    cases same
    simp [found]

theorem tokens_of_lexeme {lead cs : List Char} {token : Token} {afterOperand : Bool}
    (spaced : Spacing lead) (isRead : token.IsReadAfter afterOperand) (ends : Ends cs) :
    tokens afterOperand (lead ++ (token.spelling.toList ++ cs)) =
      token :: tokens token.endsOperand cs := by
  obtain ⟨first, rest, spelled, notSpace, found⟩ := isRead cs ends
  rw [spelled, List.cons_append]
  exact tokens_of_found spaced notSpace found

/-- A text is divided into the tokens that it writes. -/
theorem tokens_of_writes {written : List Token} {cs : List Char}
    (writes : Writes Separation written cs) :
    ∀ {lead : List Char} {afterOperand : Bool}, Spacing lead → Placed afterOperand written →
      tokens afterOperand (lead ++ cs) = written ++ [.endOfText] := by
  induction writes with
  | last trailSpaced =>
      intro lead afterOperand spaced placed
      have ends : Ends _ := fun c isHead =>
        mem_spacingChars (trailSpaced c (List.mem_of_mem_head? isHead))
      rw [tokens_of_lexeme spaced placed.1.isReadAfter ends, tokens_of_spacing trailSpaced]
      rfl
  | @more token next rest gap cs isGap others inductionHypothesis =>
      intro lead afterOperand spaced placed
      obtain ⟨nonempty, gapSpaced⟩ := isGap
      have ends : Ends (gap ++ cs) := by
        obtain ⟨space, spaces, rfl⟩ := List.exists_cons_of_ne_nil nonempty
        exact forall_head_cons (mem_spacingChars (gapSpaced space List.mem_cons_self)) _
      rw [tokens_of_lexeme spaced placed.1.isReadAfter ends, inductionHypothesis gapSpaced placed.2]
      rfl

end TensorBindings.Expr
