import TensorBindings.Document.Basic
import TensorBindings.Text.Blank

/-!
Contract: the lexemes of JSON documents.

Owns: the problems a document can have, tokens with their positions, and the division
of a document into tokens. Positions count characters from zero.

A number takes the longest stretch that is one, so that `01` is a zero followed by a
one, and `1.` is a one followed by a point. A quoted text that cannot be read is a
token of its own, which holds its problem: whether that problem is reported depends on
whether a text may stand there.

Texts are made of Unicode scalar values. A surrogate that an escape gives without its other
half is none, and becomes the replacement character. So texts that differ in such halves
only are one text here. Two names of a record that differ in that way are one name, and
of their values the later one stays.

Does not own: the order of tokens (`Document.Reader`).
-/

set_option autoImplicit false

namespace TensorBindings.Document

open TensorBindings.Text

inductive Problem where
  | byteOrderMark
  | valueExpected
  | nameExpected
  | colonExpected
  | commaExpected
  | unterminatedText
  | controlCharacter
  | badEscape
  | badCodeEscape
  | extraData
deriving DecidableEq, Repr

def Problem.description : Problem → String
  | .byteOrderMark => "Unexpected UTF-8 BOM (decode using utf-8-sig)"
  | .valueExpected => "Expecting value"
  | .nameExpected => "Expecting property name enclosed in double quotes"
  | .colonExpected => "Expecting ':' delimiter"
  | .commaExpected => "Expecting ',' delimiter"
  | .unterminatedText => "Unterminated string starting at"
  | .controlCharacter => "Invalid control character at"
  | .badEscape => "Invalid \\escape"
  | .badCodeEscape => "Invalid \\uXXXX escape"
  | .extraData => "Extra data"

/-- A problem and where it is. -/
structure Fault where
  problem : Problem
  position : Nat
deriving DecidableEq, Repr

inductive Token where
  | openList
  | closeList
  | openRecord
  | closeRecord
  | comma
  | colon
  | scalar (value : Document)
  | text (content : String)
  | brokenText (fault : Fault)
  | unknown
  | endOfText
deriving Repr

structure PlacedToken where
  token : Token
  position : Nat
deriving Repr

/-! ### Quoted texts -/

def hexValue? (c : Char) : Option Nat :=
  if c.isDigit then some (c.toNat - '0'.toNat)
  else if 'a' ≤ c ∧ c ≤ 'f' then some (c.toNat - 'a'.toNat + 10)
  else if 'A' ≤ c ∧ c ≤ 'F' then some (c.toNat - 'A'.toNat + 10)
  else none

/-- The value of four hexadecimal digits at the front. -/
def codeUnit? : List Char → Option Nat
  | a :: b :: c :: d :: _ => do
      return ((← hexValue? a) * 16 + (← hexValue? b)) * 256 + (← hexValue? c) * 16 + (← hexValue? d)
  | _ => none

def namedEscape? : Char → Option Char
  | '"' => some '"'
  | '\\' => some '\\'
  | '/' => some '/'
  | 'b' => some '\x08'
  | 'f' => some '\x0c'
  | 'n' => some '\n'
  | 'r' => some '\r'
  | 't' => some '\t'
  | _ => none

/-- The code unit of an escape and the number of characters after its backslash. The
text starts at `start` and the backslash stands at `here`. The digits of a code escape
may not be the last characters of the document. -/
def escape (start here : Nat) : List Char → Except Fault (Nat × Nat)
  | [] => .error ⟨.unterminatedText, start⟩
  | 'u' :: rest =>
      match if (rest.drop 4).isEmpty then none else codeUnit? rest with
      | some unit => .ok (unit, 5)
      | none => .error ⟨.badCodeEscape, here + 1⟩
  | c :: _ =>
      match namedEscape? c with
      | some meant => .ok (meant.toNat, 1)
      | none => .error ⟨.badEscape, here⟩

/-- The code units of a quoted text after its opening quote at `start`, and the number
of characters up to and with the closing quote. -/
def quotedUnits (start here : Nat) (cs : List Char) : Except Fault (List Nat × Nat) :=
  match cs with
  | [] => .error ⟨.unterminatedText, start⟩
  | c :: rest =>
      if c = '"' then .ok ([], 1)
      else if c = '\\' then
        match escape start here rest with
        | .error fault => .error fault
        | .ok (unit, length) =>
            match quotedUnits start (here + 1 + length) (rest.drop length) with
            | .error fault => .error fault
            | .ok (units, total) => .ok (unit :: units, total + 1 + length)
      else if c.toNat < 0x20 then .error ⟨.controlCharacter, here⟩
      else
        match quotedUnits start (here + 1) rest with
        | .error fault => .error fault
        | .ok (units, total) => .ok (c.toNat :: units, total + 1)
termination_by cs.length
decreasing_by
  · simp only [List.length_cons, List.length_drop]
    omega
  · simp

def isHighSurrogate (unit : Nat) : Bool := 0xD800 ≤ unit && unit < 0xDC00

def isLowSurrogate (unit : Nat) : Bool := 0xDC00 ≤ unit && unit < 0xE000

/-- The character of a code point; a surrogate on its own stands for none and becomes
the replacement character. -/
def character (code : Nat) : Char :=
  if isHighSurrogate code || isLowSurrogate code then '\uFFFD' else Char.ofNat code

/-- Join surrogate pairs. -/
def joinUnits : List Nat → List Char
  | [] => []
  | [unit] => [character unit]
  | high :: low :: rest =>
      if isHighSurrogate high && isLowSurrogate low then
        Char.ofNat (0x10000 + (high - 0xD800) * 0x400 + (low - 0xDC00)) :: joinUnits rest
      else character high :: joinUnits (low :: rest)

/-! ### Numbers and literals -/

def digitsLength (cs : List Char) : Nat := (cs.takeWhile Char.isDigit).length

def digitsValue (cs : List Char) : Nat :=
  cs.foldl (fun value c => value * 10 + (c.toNat - '0'.toNat)) 0

/-- Digits before the point: a zero stands alone. -/
def wholeLength : List Char → Nat
  | '0' :: _ => 1
  | cs => digitsLength cs

/-- A point with at least one digit after it. -/
def fractionLength : List Char → Nat
  | '.' :: rest => if digitsLength rest = 0 then 0 else 1 + digitsLength rest
  | _ => 0

def isExponentMark (c : Char) : Bool := c == 'e' || c == 'E'

/-- The length of an exponent, and its value. -/
def exponentPart (cs : List Char) : Option (Nat × Int) :=
  match cs with
  | mark :: rest =>
      if isExponentMark mark then
        let (signLength, negative) := match rest with
          | '-' :: _ => (1, true)
          | '+' :: _ => (1, false)
          | _ => (0, false)
        let digits := (rest.drop signLength).takeWhile Char.isDigit
        if digits.isEmpty then none
        else
          let magnitude : Int := digitsValue digits
          some (1 + signLength + digits.length, if negative then -magnitude else magnitude)
      else none
  | [] => none

/-- A number without its sign, as its length and its value. -/
def unsignedNumber? (negative : Bool) (cs : List Char) : Option (Nat × Document) :=
  let whole := wholeLength cs
  if whole = 0 then none
  else
    let fraction := fractionLength (cs.drop whole)
    let exponent := exponentPart (cs.drop (whole + fraction))
    let wholeDigits := cs.take whole
    if fraction = 0 ∧ exponent.isNone then
      let magnitude : Int := digitsValue wholeDigits
      some (whole, .integer (if negative then -magnitude else magnitude))
    else
      let fractionDigits := (cs.drop (whole + 1)).take (fraction - 1)
      let (exponentLength, power) := exponent.getD (0, 0)
      some (whole + fraction + exponentLength,
        .decimal (.finite negative (digitsValue (wholeDigits ++ fractionDigits))
          (power - (fraction - 1 : Nat))))

def number? : List Char → Option (Nat × Document)
  | '-' :: rest => (unsignedNumber? true rest).map fun (length, value) => (length + 1, value)
  | cs => unsignedNumber? false cs

def literals : List (String × Document) :=
  [("null", .null), ("true", .bool true), ("false", .bool false), ("NaN", .decimal .undefined),
   ("Infinity", .decimal (.infinite false)), ("-Infinity", .decimal (.infinite true))]

def literal? (cs : List Char) : Option (Nat × Document) :=
  (literals.find? fun (word, _) => word.toList.isPrefixOf cs).map fun (word, value) =>
    (word.length, value)

/-! ### Division into tokens -/

def punctuation? : Char → Option Token
  | '[' => some .openList
  | ']' => some .closeList
  | '{' => some .openRecord
  | '}' => some .closeRecord
  | ',' => some .comma
  | ':' => some .colon
  | _ => none

/-- White space of documents. -/
def isSpace (c : Char) : Bool := c == ' ' || c == '\t' || c == '\n' || c == '\r'

/-- The token that starts with `first` at `here`, and how many characters of `rest`
belong to it as well. -/
def lexeme (here : Nat) (first : Char) (rest : List Char) : Token × Nat :=
  match punctuation? first with
  | some token => (token, 0)
  | none =>
      if first = '"' then
        match quotedUnits here (here + 1) rest with
        | .ok (units, length) => (.text (String.ofList (joinUnits units)), length)
        | .error fault => (.brokenText fault, rest.length)
      else
        match (literal? (first :: rest)).or (number? (first :: rest)) with
        | some (length, value) => (.scalar value, length - 1)
        | none => (.unknown, rest.length)

/-- Divide the rest of a document, which starts at `here`, into tokens. -/
def tokens (here : Nat) (cs : List Char) : List PlacedToken :=
  match cs with
  | [] => [⟨.endOfText, here⟩]
  | first :: rest =>
      if isSpace first then tokens (here + 1) rest
      else
        let (token, length) := lexeme here first rest
        ⟨token, here⟩ :: tokens (here + 1 + length) (rest.drop length)
termination_by cs.length
decreasing_by
  · simp
  · simp only [List.length_cons, List.length_drop]
    omega

end TensorBindings.Document
