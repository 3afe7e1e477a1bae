import Mathlib.Algebra.Field.Rat
import Mathlib.Data.Nat.Digits.Defs
import TensorBindings.Proofs.Expr.NimLexemes

/-!
Contract: the values of numbers.

Owns: the rational number that a text without a width mark stands for, and the theorem that a
number keeps it in Nim. The digits of every script count, and scripts may be mixed.

Three things happen to a number on its way: a width mark is dropped, and a zero is put before
and after a point where no digit stands. Such a zero changes neither the digits of the other
side nor the exponent, so the value is found to be the same part by part.

Does not own: the shape of numbers in Nim (`Proofs.Expr.NimLexemes`).
-/

set_option autoImplicit false

namespace TensorBindings.Number

open TensorBindings.Text TensorBindings.Expr

/-! ### Values -/

/-- The number that digits stand for, the most significant digit first. -/
def digitsValue (digits : List Char) : Nat :=
  Nat.ofDigits 10 (digits.filterMap digitValue?).reverse

/-- The number `whole.decimals · 10 ^ power`. -/
def scaled (whole decimals : List Char) (power : ℤ) : ℚ :=
  (digitsValue whole + digitsValue decimals / 10 ^ decimals.length) * 10 ^ power

@[simp] theorem digitsValue_nil : digitsValue [] = 0 := rfl

@[simp] theorem digitsValue_zero : digitsValue ['0'] = 0 := by decide

/-- A zero behind the point counts as no decimals. -/
theorem scaled_zero_behind (whole : List Char) : scaled whole ['0'] = scaled whole [] := by
  funext power
  simp [scaled]

/-- A zero before the point counts as no digits. -/
theorem scaled_zero_before (decimals : List Char) : scaled ['0'] decimals = scaled [] decimals := by
  funext power
  simp [scaled]

/-- The value of digits, of which there must be some and nothing else. -/
def natural? (cs : List Char) : Option ℤ :=
  if cs ≠ [] ∧ AllDigits cs then some (digitsValue cs) else none

def integer? : List Char → Option ℤ
  | '-' :: digits => (natural? digits).map (- ·)
  | '+' :: digits => natural? digits
  | digits => natural? digits

/-- The power of ten in an exponent; no exponent is the power zero. -/
def power? : List Char → Option ℤ
  | [] => some 0
  | mark :: rest => if isExponentMark mark then integer? rest else none

/-- The value of a number from what follows its first digits. -/
def valueAfter? (whole : List Char) : List Char → Option ℚ
  | '.' :: rest =>
      let decimals := rest.take (digitsLength rest)
      -- A point alone is no number.
      if whole = [] ∧ decimals = [] then none
      else (power? (rest.drop (digitsLength rest))).map (scaled whole decimals)
  | rest => if whole = [] then none else (power? rest).map (scaled whole [])

/-- The value of a number without a width mark. -/
def value? (cs : List Char) : Option ℚ :=
  valueAfter? (cs.take (digitsLength cs)) (cs.drop (digitsLength cs))

/-! ### Values of the parts -/

section Parts

variable {whole decimals exponent : List Char}

private theorem natural?_digits (nonempty : whole ≠ []) (areDigits : AllDigits whole) :
    natural? whole = some (digitsValue whole : ℤ) :=
  if_pos ⟨nonempty, areDigits⟩

private theorem integer?_digits (areDigits : AllDigits whole) :
    integer? whole = natural? whole := by
  unfold integer?
  split
  · exact absurd (areDigits '-' List.mem_cons_self) (by decide)
  · exact absurd (areDigits '+' List.mem_cons_self) (by decide)
  · rfl

private theorem exists_power? (isExponent : Exponent exponent) :
    ∃ power, power? exponent = some power := by
  cases isExponent with
  | absent => exact ⟨0, rfl⟩
  | @unsigned mark digits marked nonempty areDigits =>
      refine ⟨digitsValue digits, ?_⟩
      rw [power?, if_pos marked, integer?_digits areDigits, natural?_digits nonempty areDigits]
  | @signed mark sign digits marked isSigned nonempty areDigits =>
      simp only [isSign, Bool.or_eq_true, beq_iff_eq] at isSigned
      rcases isSigned with rfl | rfl
      · refine ⟨digitsValue digits, ?_⟩
        rw [power?, if_pos marked, integer?, natural?_digits nonempty areDigits]
      · refine ⟨-digitsValue digits, ?_⟩
        rw [power?, if_pos marked, integer?, natural?_digits nonempty areDigits, Option.map_some]

private theorem value?_append {rest : List Char} (areDigits : AllDigits whole)
    (stops : Stops isDecimalDigit rest) : value? (whole ++ rest) = valueAfter? whole rest := by
  rw [value?, digitsLength_append areDigits stops, List.take_left, List.drop_left]

private theorem stops_exponent (isExponent : Exponent exponent) :
    Stops isDecimalDigit exponent := by
  have stops := (stops_of_exponent isExponent .nothing).1
  rwa [List.append_nil] at stops

private theorem value?_whole (nonempty : whole ≠ []) (areDigits : AllDigits whole)
    (isExponent : Exponent exponent) :
    value? (whole ++ exponent) = (power? exponent).map (scaled whole []) := by
  rw [value?_append areDigits (stops_exponent isExponent)]
  unfold valueAfter?
  split
  · have isNumeral := isExponent.isNumeral '.' List.mem_cons_self
    exact absurd rfl isNumeral.ne_point
  · exact if_neg nonempty

private theorem value?_pointed (areDigits : AllDigits whole) (areDecimals : AllDigits decimals)
    (some : ¬ (whole = [] ∧ decimals = [])) (isExponent : Exponent exponent) :
    value? (whole ++ '.' :: (decimals ++ exponent)) =
      (power? exponent).map (scaled whole decimals) := by
  have stopsAtPoint : Stops isDecimalDigit ('.' :: (decimals ++ exponent)) :=
    forall_head_cons (by decide) _
  rw [value?_append areDigits stopsAtPoint, valueAfter?,
    digitsLength_append areDecimals (stops_exponent isExponent), List.take_left, List.drop_left]
  exact if_neg some

example : value? "12.50e-1".toList = some (5 / 4) := by
  decide +kernel

end Parts

/-! ### Values in Nim -/

section Translation

variable {mantissa completed exponent : List Char}

/-- A number that begins with its point has the value of the number with a zero before it, and
one that ends with its point that of the number with a zero behind it. -/
theorem value?_completed (completes : Completes mantissa completed)
    (isExponent : Exponent exponent) :
    value? (completed ++ exponent) = value? (mantissa ++ exponent) := by
  have areZeros : AllDigits ['0'] := by decide
  cases completes with
  | whole => rfl
  | pointed => rfl
  | @barePoint digits nonempty areDigits =>
      have filled := value?_pointed areDigits areZeros (by simp) isExponent
      have bare := value?_pointed areDigits (List.forall_mem_nil _)
        (fun none => nonempty none.1) isExponent
      simp only [List.append_assoc, List.cons_append, List.nil_append] at filled bare ⊢
      rw [filled, bare, scaled_zero_behind]
  | @leadingPoint decimals nonempty areDecimals =>
      have led := value?_pointed areZeros areDecimals (by simp) isExponent
      have bare := value?_pointed (List.forall_mem_nil _) areDecimals
        (fun none => nonempty none.2) isExponent
      simp only [List.cons_append, List.nil_append] at led bare ⊢
      rw [led, bare, scaled_zero_before]

private theorem exists_value? (isMantissa : Mantissa mantissa) (isExponent : Exponent exponent) :
    ∃ value, value? (mantissa ++ exponent) = some value := by
  obtain ⟨power, ofExponent⟩ := exists_power? isExponent
  cases isMantissa with
  | whole nonempty areDigits =>
      refine ⟨scaled mantissa [] power, ?_⟩
      rw [value?_whole nonempty areDigits isExponent, ofExponent, Option.map_some]
  | @pointed digits decimals nonempty areDigits areDecimals =>
      refine ⟨scaled digits decimals power, ?_⟩
      rw [List.append_assoc, List.cons_append, value?_pointed areDigits areDecimals
        (fun none => nonempty none.1) isExponent, ofExponent, Option.map_some]
  | @leadingPoint decimals nonempty areDecimals =>
      refine ⟨scaled [] decimals power, ?_⟩
      have bare := value?_pointed (List.forall_mem_nil _) areDecimals
        (fun none => nonempty none.2) isExponent
      rw [List.cons_append, ← List.nil_append ('.' :: _), bare, ofExponent, Option.map_some]

end Translation

/-- A number without its width mark has a value. In Nim it is a number with digits on both sides
of a point and no width mark, it has the same value, and it stays as it is. -/
theorem number_keeps_its_value_in_nim {text : String} {mantissa exponent width : List Char}
    (spelled : text.toList = mantissa ++ (exponent ++ width)) (isMantissa : Mantissa mantissa)
    (isExponent : Exponent exponent) (isWidth : WidthMark width) :
    IsNimNumber (toNim text) ∧
      (∃ value, value? (mantissa ++ exponent) = some value ∧
        value? (toNim text).toList = some value) ∧
      toNim (toNim text) = toNim text := by
  obtain ⟨completed, completes, written⟩ := toNim_completes spelled isMantissa isExponent isWidth
  obtain ⟨value, hasValue⟩ := exists_value? isMantissa isExponent
  have isNimNumber : IsNimNumber (toNim text) := completes.isNimNumber isExponent written
  refine ⟨isNimNumber, ⟨value, hasValue, ?_⟩, toNim_eq_self isNimNumber⟩
  rw [written, value?_completed completes isExponent, hasValue]

/-- An Arabic digit with a bare point, a negative exponent and a width mark. -/
theorem three_hundredths_in_nim :
    IsNumber "٣.e-2f" ∧ toNim "٣.e-2f" = "٣.0e-2" ∧ IsNimNumber "٣.0e-2" ∧
      value? ['٣', '.', 'e', '-', '2'] = some (3 / 100) ∧
      value? "٣.0e-2".toList = some (3 / 100) ∧
      toNim "٣.0e-2" = "٣.0e-2" := by
  have spelled : "٣.e-2f".toList = ['٣', '.'] ++ (['e', '-', '2'] ++ ['f']) := by decide +kernel
  have isMantissa : Mantissa ['٣', '.'] :=
    .pointed (by simp : ['٣'] ≠ []) (by decide) (by decide : AllDigits [])
  have isExponent : Exponent ['e', '-', '2'] :=
    .signed (by decide) (by decide) (by simp) (by decide)
  have isWidth : WidthMark ['f'] := .present (by decide)
  have written : toNim "٣.e-2f" = "٣.0e-2" := by decide +kernel
  have unmarked : value? ['٣', '.', 'e', '-', '2'] = some (3 / 100) := by decide +kernel
  obtain ⟨isNimNumber, ⟨value, ofUnmarked, ofNim⟩, stable⟩ :=
    number_keeps_its_value_in_nim spelled isMantissa isExponent isWidth
  rw [written] at isNimNumber ofNim stable
  refine ⟨⟨_, _, _, spelled, isMantissa, isExponent, isWidth⟩, written, isNimNumber, unmarked, ?_,
    stable⟩
  rw [ofNim, ← ofUnmarked]
  exact unmarked

end TensorBindings.Number
