import TensorBindings.Expr.Basic
import TensorBindings.SyntaxFault
import TensorBindings.Text.DecimalDigit

/-!
Contract: the lexemes of formula bodies.

Owns: tokens, the extent of each kind of lexeme, and the division of a text into
tokens. Division reads one lexeme after another, with spacing allowed before each,
and always ends in one of two markers: the end of the text, or a position where no
lexeme starts.

The language is ambiguous in two places, and both are settled by the token
before: right after an operand `!=` is one operator and a point selects a member;
elsewhere `!` stands alone and a point may begin a number.

Does not own: which order of tokens is an expression (`Expr.Reader`).
-/

set_option autoImplicit false

namespace TensorBindings.Expr

open TensorBindings.Text

inductive Token where
  | name (text : String)
  | number (text : String)
  | string (text : String)
  | operator (op : BinaryOp)
  | not
  | dot
  | scope
  | comma
  | question
  | colon
  | openParen
  | closeParen
  | openBracket
  | closeBracket
  | openBrace
  | closeBrace
  | endOfText
  | unreadable
deriving DecidableEq, Repr

namespace Token

/-- The token completes an operand, so an operator may follow it. -/
def endsOperand : Token → Bool
  | name _ | number _ | string _ | closeParen | closeBracket | closeBrace => true
  | _ => false

/-- The fault of a text that is refused at this token. -/
def fault : Token → SyntaxFault
  | unreadable => .unreadable
  | _ => .misplaced

end Token

/-! ### Extent of lexemes

Each function below gives the number of leading characters that belong to the
lexeme, or to the part of it that the function is named for. -/

def digitsLength (cs : List Char) : Nat := (cs.takeWhile isDecimalDigit).length

/-- A fraction: a point with the digits after it, if any. -/
def fractionLength : List Char → Nat
  | '.' :: rest => 1 + digitsLength rest
  | _ => 0

def isExponentMark (c : Char) : Bool := c == 'e' || c == 'E'

def isSign (c : Char) : Bool := c == '+' || c == '-'

/-- An exponent: a mark, perhaps a sign, and at least one digit. A mark without
digits is not part of the number. -/
def exponentLength : List Char → Nat
  | mark :: sign :: rest =>
      if isExponentMark mark then
        if isSign sign then
          if digitsLength rest = 0 then 0 else 2 + digitsLength rest
        else if digitsLength (sign :: rest) = 0 then 0
        else 1 + digitsLength (sign :: rest)
      else 0
  | _ => 0

/-- Letters that mark the width of a number. -/
def isWidthMark (c : Char) : Bool := c == 'f' || c == 'F' || c == 'l' || c == 'L'

def widthMarkLength : List Char → Nat
  | c :: _ => if isWidthMark c then 1 else 0
  | [] => 0

/-- Exponent and width mark at the end of a number. -/
def numberTailLength (cs : List Char) : Nat :=
  exponentLength cs + widthMarkLength (cs.drop (exponentLength cs))

/-- What follows the first digit of a number. -/
def afterDigitLength (cs : List Char) : Nat :=
  let whole := digitsLength cs
  let fraction := fractionLength (cs.drop whole)
  whole + fraction + numberTailLength (cs.drop (whole + fraction))

/-- What follows the leading point of a number. -/
def afterPointLength (cs : List Char) : Nat :=
  digitsLength cs + numberTailLength (cs.drop (digitsLength cs))

/-- The rest of a quoted text after its opening quote, closing quote included. A
backslash keeps the next character from closing the text; it cannot stand at the
end of a line. -/
def quotedLength? (quote : Char) : List Char → Option Nat
  | [] => none
  | '\\' :: escaped :: rest =>
      if escaped = '\n' then none else (quotedLength? quote rest).map (2 + ·)
  | c :: rest =>
      if c = quote then some 1
      else if c = '\\' then none
      else (quotedLength? quote rest).map (1 + ·)

def startsWithDigit : List Char → Bool
  | c :: _ => isDecimalDigit c
  | [] => false

/-- Lexemes of two characters, of which the second decides. -/
def pair? (afterOperand : Bool) (first second : Char) : Option Token :=
  match first, second with
  | '|', '|' => some (.operator .or)
  | '&', '&' => some (.operator .and)
  | '=', '=' => some (.operator .eq)
  | '!', '=' => if afterOperand then some (.operator .ne) else none
  | '<', '=' => some (.operator .le)
  | '>', '=' => some (.operator .ge)
  | ':', ':' => some .scope
  | _, _ => none

/-- Lexemes of one character. -/
def single? : Char → Option Token
  | '<' => some (.operator .lt)
  | '>' => some (.operator .gt)
  | '+' => some (.operator .add)
  | '-' => some (.operator .sub)
  | '*' => some (.operator .mul)
  | '/' => some (.operator .div)
  | '%' => some (.operator .mod)
  | '!' => some .not
  | '.' => some .dot
  | ',' => some .comma
  | '?' => some .question
  | ':' => some .colon
  | '(' => some .openParen
  | ')' => some .closeParen
  | '[' => some .openBracket
  | ']' => some .closeBracket
  | '{' => some .openBrace
  | '}' => some .closeBrace
  | _ => none

/-- Punctuation and operators, the longer lexeme first. -/
def symbol? (afterOperand : Bool) (first : Char) (rest : List Char) : Option (Token × Nat) :=
  match rest.head?.bind (pair? afterOperand first) with
  | some token => some (token, 1)
  | none => (single? first).map (·, 0)

/-- The token that starts with `first`, and how many characters of `rest` belong to
it as well. -/
def lexeme? (afterOperand : Bool) (first : Char) (rest : List Char) : Option (Token × Nat) :=
  let spelled (length : Nat) : String := String.ofList (first :: rest.take length)
  if isNameStart first then
    let length := (rest.takeWhile isNamePart).length
    some (.name (spelled length), length)
  else if isDecimalDigit first then
    let length := afterDigitLength rest
    some (.number (spelled length), length)
  else if first = '.' ∧ ¬ afterOperand ∧ startsWithDigit rest then
    let length := afterPointLength rest
    some (.number (spelled length), length)
  else if first = '"' ∨ first = '\'' then
    (quotedLength? first rest).map fun length => (.string (spelled length), length)
  else
    symbol? afterOperand first rest

/-- Divide the rest of a text into tokens; `afterOperand` tells whether the token
before it completed an operand. -/
def tokens (afterOperand : Bool) (cs : List Char) : List Token :=
  match _spaced : cs.dropWhile isSpacing with
  | [] => [.endOfText]
  | first :: rest =>
      match lexeme? afterOperand first rest with
      | none => [.unreadable]
      | some (token, length) => token :: tokens token.endsOperand (rest.drop length)
termination_by cs.length
decreasing_by
  have shorter := length_dropWhile_le isSpacing cs
  rw [_spaced] at shorter
  simp only [List.length_cons, List.length_drop] at shorter ⊢
  omega

end TensorBindings.Expr
