import TensorBindings.SyntaxFault
import TensorBindings.Text.DecimalDigit

/-!
Contract: the lexemes of formula headers.

Owns: tokens and the division of a header into tokens, which ends in one of three
markers: the end of the text, a stray lexeme, or a position where no lexeme starts.

A default value is a lexeme only right after an equals sign. It is either a brace
list, which may hold commas and parentheses, or a run of characters up to the next
separator. In any other place the same characters are a stray lexeme.

Does not own: which order of tokens is a header (`Header.Reader`).
-/

set_option autoImplicit false

namespace TensorBindings.Header

open TensorBindings.Text

inductive Token where
  | name (text : String)
  | integer (text : String)
  | defaultValue (text : String)
  | dot
  | scope
  | comma
  | star
  | question
  | equals
  | openParen
  | closeParen
  | openBracket
  | closeBracket
  | openAngle
  | closeAngle
  | endOfText
  | stray
  | unreadable
deriving DecidableEq, Repr

/-- The fault of a header that is refused at this token. -/
def Token.fault : Token → SyntaxFault
  | .unreadable => .unreadable
  | _ => .misplaced

/-- Characters that end a plain default value. -/
def isSeparator (c : Char) : Bool :=
  c == ',' || c == '(' || c == ')' || c == '{' || c == '}'

def startsDefault (c : Char) : Bool := !isSeparator c && !isBlank c

def isBrace (c : Char) : Bool := c == '{' || c == '}'

/-- The rest of a brace list after its opening brace, closing brace included. Brace
lists do not nest. -/
def braceListLength? (rest : List Char) : Option Nat :=
  let inner := rest.takeWhile (!isBrace ·)
  match rest.drop inner.length with
  | '}' :: _ => some (inner.length + 1)
  | _ => none

/-- A default value that starts with `first`, as the number of characters of `rest`
that belong to it. -/
def defaultLength? (first : Char) (rest : List Char) : Option Nat :=
  if startsDefault first then some (rest.takeWhile (!isSeparator ·)).length
  else if first = '{' then braceListLength? rest
  else none

def single? : Char → Option Token
  | '.' => some .dot
  | ',' => some .comma
  | '*' => some .star
  | '?' => some .question
  | '=' => some .equals
  | '(' => some .openParen
  | ')' => some .closeParen
  | '[' => some .openBracket
  | ']' => some .closeBracket
  | '<' => some .openAngle
  | '>' => some .closeAngle
  | _ => none

/-- The token that starts with `first`, outside default values, and how many
characters of `rest` belong to it as well. -/
def plainLexeme? (first : Char) (rest : List Char) : Option (Token × Nat) :=
  let spelled (length : Nat) : String := String.ofList (first :: rest.take length)
  if isNameStart first then
    let length := (rest.takeWhile isNamePart).length
    some (.name (spelled length), length)
  else if first.isDigit then
    let length := (rest.takeWhile Char.isDigit).length
    some (.integer (spelled length), length)
  else if first = ':' ∧ rest.head? = some ':' then
    some (.scope, 1)
  else
    (single? first).map (·, 0)

/-- The token that starts with `first`; `afterEquals` tells whether a default value may
stand here. -/
def lexeme? (afterEquals : Bool) (first : Char) (rest : List Char) : Option (Token × Nat) :=
  match if afterEquals then defaultLength? first rest else none with
  | some length => some (.defaultValue (String.ofList (first :: rest.take length)), length)
  | none => plainLexeme? first rest

/-- The marker for a position where no token starts. -/
def leftover (first : Char) (rest : List Char) : Token :=
  if (defaultLength? first rest).isSome then .stray else .unreadable

/-- Divide the rest of a header into tokens; `afterEquals` tells whether the token
before it was an equals sign. -/
def tokens (afterEquals : Bool) (cs : List Char) : List Token :=
  match _spaced : cs.dropWhile isSpacing with
  | [] => [.endOfText]
  | first :: rest =>
      match lexeme? afterEquals first rest with
      | none => [leftover first rest]
      | some (token, length) => token :: tokens (token = .equals) (rest.drop length)
termination_by cs.length
decreasing_by
  have shorter := length_dropWhile_le isSpacing cs
  rw [_spaced] at shorter
  simp only [List.length_cons, List.length_drop] at shorter ⊢
  omega

end TensorBindings.Header
