import TensorBindings.Proofs.Expr.Lexing

/-!
Contract: a text that divides into tokens up to its end is written by these tokens.

Owns: the form of every lexeme that is found, whatever follows it, and `writes_of_tokens`: the
characters of the text are those of its tokens with nothing but spacing around them, and each
token may stand after the one before it.

This is the other direction of `Proofs.Expr.Lexing`. It needs no spacing between lexemes, since
it asks what was read and not what will be.
-/

set_option autoImplicit false

namespace TensorBindings.Expr

open TensorBindings.Text

/-! ### Parts of numbers -/

private theorem take_length_takeWhile (inClass : Char → Bool) (cs : List Char) :
    cs.take (cs.takeWhile inClass).length = cs.takeWhile inClass :=
  (List.prefix_iff_eq_take.mp (List.takeWhile_prefix inClass)).symm

private theorem allDigits_take (cs : List Char) : AllDigits (cs.take (digitsLength cs)) := by
  intro c member
  rw [digitsLength, take_length_takeWhile] at member
  exact List.mem_takeWhile_imp member

private theorem take_digitsLength_ne_nil {cs : List Char} (some : digitsLength cs ≠ 0) :
    cs.take (digitsLength cs) ≠ [] := by
  intro nothing
  have none := congrArg List.length nothing
  rw [digitsLength, take_length_takeWhile] at none
  exact some none

private theorem exponent_take (cs : List Char) : Exponent (cs.take (exponentLength cs)) := by
  match cs with
  | [] => exact .absent
  | [c] => exact .absent
  | mark :: sign :: rest =>
      simp only [exponentLength]
      split_ifs with marked signed noDigits noDigits
      · exact .absent
      · rw [Nat.add_comm, List.take_succ_cons, List.take_succ_cons]
        exact .signed marked signed (take_digitsLength_ne_nil noDigits) (allDigits_take rest)
      · exact .absent
      · rw [Nat.add_comm, List.take_succ_cons]
        exact .unsigned marked (take_digitsLength_ne_nil noDigits) (allDigits_take _)
      · exact .absent

private theorem widthMark_take (cs : List Char) : WidthMark (cs.take (widthMarkLength cs)) := by
  cases cs with
  | nil => exact .absent
  | cons c rest =>
      simp only [widthMarkLength]
      split_ifs with marked
      · exact .present marked
      · exact .absent

/-- A number is its mantissa and whatever exponent and width mark follow. -/
theorem isNumber_of_mantissa {text : String} {mantissa : List Char} (cs : List Char)
    (isMantissa : Mantissa mantissa)
    (spelled : text.toList = mantissa ++ cs.take (numberTailLength cs)) : IsNumber text := by
  refine ⟨mantissa, _, _, ?_, isMantissa, exponent_take cs,
    widthMark_take (cs.drop (exponentLength cs))⟩
  rw [spelled, numberTailLength, List.take_add]

private theorem mantissa_take {digit : Char} (isDigit : isDecimalDigit digit = true)
    (cs : List Char) :
    Mantissa (digit :: (cs.take (digitsLength cs) ++
      (cs.drop (digitsLength cs)).take (fractionLength (cs.drop (digitsLength cs))))) := by
  have areDigits : AllDigits (digit :: cs.take (digitsLength cs)) :=
    List.forall_mem_cons.mpr ⟨isDigit, allDigits_take cs⟩
  generalize cs.drop (digitsLength cs) = behind
  unfold fractionLength
  split
  · rename_i decimals
    rw [Nat.add_comm, List.take_succ_cons]
    exact .pointed (List.cons_ne_nil _ _) areDigits (allDigits_take decimals)
  · rw [List.take_zero, List.append_nil]
    exact .whole (List.cons_ne_nil _ _) areDigits

private theorem isNumber_of_digit {digit : Char} {rest : List Char}
    (isDigit : isDecimalDigit digit = true) :
    IsNumber (String.ofList (digit :: rest.take (afterDigitLength rest))) := by
  apply isNumber_of_mantissa _ (mantissa_take isDigit rest)
  rw [String.toList_ofList, afterDigitLength, List.take_add, List.take_add, List.cons_append]

private theorem isNumber_of_point {rest : List Char} (starts : startsWithDigit rest = true) :
    IsNumber (String.ofList ('.' :: rest.take (afterPointLength rest))) := by
  have some : digitsLength rest ≠ 0 := by
    cases rest with
    | nil => cases starts
    | cons digit others =>
        have isDigit : isDecimalDigit digit = true := starts
        simp [digitsLength, isDigit]
  apply isNumber_of_mantissa _
    (.leadingPoint (take_digitsLength_ne_nil some) (allDigits_take rest))
  rw [String.toList_ofList, afterPointLength, List.take_add, List.cons_append]

/-! ### Other lexemes -/

private theorem quotedRest_take {quote : Char} {cs : List Char} {length : Nat}
    (extent : quotedLength? quote cs = some length) : QuotedRest quote (cs.take length) := by
  fun_induction quotedLength? quote cs generalizing length with
  | case1 => cases extent
  | case2 rest => cases extent
  | case3 escaped rest sameLine inductionHypothesis =>
      obtain ⟨inner, ofRest, rfl⟩ := Option.map_eq_some_iff.mp extent
      rw [Nat.add_comm, List.take_succ_cons, List.take_succ_cons]
      exact .escaped sameLine (inductionHypothesis ofRest)
  | case4 rest =>
      cases extent
      exact .close
  | case5 => cases extent
  | case6 c rest _ noQuote noEscape inductionHypothesis =>
      obtain ⟨inner, ofRest, rfl⟩ := Option.map_eq_some_iff.mp extent
      rw [Nat.add_comm, List.take_succ_cons]
      exact .plain noQuote noEscape (inductionHypothesis ofRest)

/-- The token is written by the first character and these many of the rest, and it may stand in
this place. -/
structure Found (afterOperand : Bool) (first : Char) (rest : List Char) (token : Token)
    (length : Nat) : Prop where
  spelled : token.spelling.toList = first :: rest.take length
  mayStand : token.MayStandAfter afterOperand

private theorem found_pair {afterOperand : Bool} {first second : Char} {token : Token}
    (pair : pair? afterOperand first second = some token) (rest : List Char) :
    Found afterOperand first (second :: rest) token 1 := by
  unfold pair? at pair
  split at pair
  case h_4 =>
    split_ifs at pair with isAfter
    cases pair
    exact ⟨rfl, isAfter⟩
  case h_8 => cases pair
  all_goals
    cases pair
    exact ⟨rfl, trivial⟩

private theorem found_single {first : Char} {token : Token} (single : single? first = some token)
    (afterOperand : Bool) (rest : List Char) : Found afterOperand first rest token 0 := by
  unfold single? at single
  split at single
  case h_19 => cases single
  all_goals
    cases single
    exact ⟨rfl, trivial⟩

private theorem found_symbol {afterOperand : Bool} {first : Char} {rest : List Char} {token : Token}
    {length : Nat} (symbol : symbol? afterOperand first rest = some (token, length)) :
    Found afterOperand first rest token length := by
  unfold symbol? at symbol
  split at symbol
  · rename_i pair
    cases symbol
    obtain ⟨second, isHead, isPair⟩ := Option.bind_eq_some_iff.mp pair
    obtain ⟨others, rfl⟩ := List.head?_eq_some_iff.mp isHead
    exact found_pair isPair others
  · obtain ⟨single, isSingle, same⟩ := Option.map_eq_some_iff.mp symbol
    cases same
    exact found_single isSingle afterOperand rest

private theorem found_lexeme {afterOperand : Bool} {first : Char} {rest : List Char} {token : Token}
    {length : Nat} (lexeme : lexeme? afterOperand first rest = some (token, length)) :
    Found afterOperand first rest token length := by
  unfold lexeme? at lexeme
  split_ifs at lexeme with isName isDigit isPoint isQuote
  · cases lexeme
    refine ⟨String.toList_ofList, first, _, String.toList_ofList, isName, fun c member => ?_⟩
    rw [take_length_takeWhile] at member
    exact List.mem_takeWhile_imp member
  · cases lexeme
    refine ⟨String.toList_ofList, isNumber_of_digit isDigit, fun _ isHead => ?_⟩
    obtain rfl : first = '.' := by simpa [Token.spelling] using isHead
    cases (show isDecimalDigit '.' = false by decide).symm.trans isDigit
  · obtain ⟨rfl, elsewhere, starts⟩ := isPoint
    cases lexeme
    exact ⟨String.toList_ofList, isNumber_of_point starts, fun after => absurd after elsewhere⟩
  · obtain ⟨extent, ofRest, same⟩ := Option.map_eq_some_iff.mp lexeme
    cases same
    exact ⟨String.toList_ofList, first, _, isQuote, String.toList_ofList,
      quotedRest_take ofRest⟩
  · exact found_symbol lexeme

/-! ### Division -/

/-- The text of a list of tokens that may be empty: perhaps spacing, and then the tokens with
spacing between them. -/
def WrittenBy (written : List Token) (cs : List Char) : Prop :=
  ∃ lead rest, cs = lead ++ rest ∧ Spacing lead ∧
    ((written = [] ∧ rest = []) ∨ Writes Spacing written rest)

theorem WrittenBy.cons {token : Token} {written : List Token} {lead cs : List Char}
    (spaced : Spacing lead) (others : WrittenBy written cs) :
    WrittenBy (token :: written) (lead ++ (token.spelling.toList ++ cs)) := by
  obtain ⟨gap, rest, rfl, gapSpaced, ⟨rfl, rfl⟩ | writes⟩ := others
  · refine ⟨lead, _, rfl, spaced, Or.inr ?_⟩
    rw [List.append_nil]
    exact .last gapSpaced
  · cases written with
    | nil => cases writes
    | cons next others => exact ⟨lead, _, rfl, spaced, Or.inr (.more gapSpaced writes)⟩

/-- Every division ends in one of its two markers. -/
theorem tokens_ends (afterOperand : Bool) (cs : List Char) :
    ∃ written, tokens afterOperand cs = written ++ [.endOfText] ∨
      tokens afterOperand cs = written ++ [.unreadable] := by
  fun_induction tokens afterOperand cs with
  | case1 => exact ⟨[], Or.inl rfl⟩
  | case2 => exact ⟨[], Or.inr rfl⟩
  | case3 afterOperand cs first rest start token length lexeme inductionHypothesis =>
      obtain ⟨written, divided⟩ := inductionHypothesis
      exact ⟨token :: written, divided.imp (congrArg (token :: ·)) (congrArg (token :: ·))⟩

/-- A text that divides up to its end is written by its tokens, each in its place. -/
theorem writes_of_tokens {afterOperand : Bool} {cs : List Char} {written : List Token}
    (divided : tokens afterOperand cs = written ++ [.endOfText]) :
    Placed afterOperand written ∧ WrittenBy written cs := by
  fun_induction tokens afterOperand cs generalizing written with
  | case1 afterOperand cs nothing =>
      obtain rfl : written = [] := by simpa using divided.symm
      refine ⟨trivial, cs, [], (List.append_nil cs).symm, ?_, Or.inl ⟨rfl, rfl⟩⟩
      exact List.dropWhile_eq_nil_iff.mp nothing
  | case2 afterOperand cs first rest start notFound =>
      cases written with
      | nil => cases divided
      | cons token others => simp at divided
  | case3 afterOperand cs first rest start token length lexeme inductionHypothesis =>
      have found := found_lexeme lexeme
      cases written with
      | nil =>
          obtain ⟨rfl, -⟩ := List.cons.inj divided
          exact found.mayStand.elim
      | cons head others =>
          rw [List.cons_append, List.cons.injEq] at divided
          obtain ⟨rfl, dividedRest⟩ := divided
          obtain ⟨placed, writtenRest⟩ := inductionHypothesis dividedRest
          have split : cs = cs.takeWhile isSpacing ++
              (token.spelling.toList ++ rest.drop length) := by
            rw [found.spelled, List.cons_append, List.take_append_drop, ← start,
              List.takeWhile_append_dropWhile]
          rw [split]
          exact ⟨⟨found.mayStand, placed⟩,
            .cons (fun c member => List.mem_takeWhile_imp member) writtenRest⟩

end TensorBindings.Expr
