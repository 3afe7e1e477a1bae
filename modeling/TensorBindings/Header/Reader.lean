import TensorBindings.Header.Token

/-!
Contract: formula headers.

Owns: the header of a formula, that is a name with typed parameters, and its reader.
A header is `name(type name, …, *, type name = default)`. The name may be a path of
names with points between them, of which the last one counts. A lone star is no
parameter, and a default value has no influence on the header.

The reader is a machine that takes one token at a time, and a text is refused at the
first token for which it has no next state. It collects the canonical text of each
type on the way: the lexemes of the type without spacing.

Does not own: which declaration a header refers to (`Overload`).
-/

set_option autoImplicit false

namespace TensorBindings

structure HeaderParameter where
  typeTag : String
  name : String
deriving DecidableEq, Repr

structure Header where
  name : String
  parameters : List HeaderParameter
deriving DecidableEq, Repr

namespace Header

def typeTags (header : Header) : List String := header.parameters.map (·.typeTag)

/-- The header with one more parameter at its end. -/
def add (header : Header) (parameter : HeaderParameter) : Header :=
  { header with parameters := header.parameters ++ [parameter] }

/-- How much of a type was read. -/
inductive TypePart where
  /-- A path of names. -/
  | path
  /-- A path that ends in `::`. -/
  | pathScope
  /-- An argument list that waits for an argument. -/
  | argument
  /-- An argument list after an argument. -/
  | argumentRead
  /-- A closed argument list. -/
  | arguments
  | star
  /-- An array suffix after its bracket. -/
  | bracket
  /-- An array suffix after its size. -/
  | size
  /-- A closed array suffix. -/
  | array
  | optional
deriving DecidableEq, Repr

namespace TypePart

/-- The text that a token adds to a type, and what of the type is read then. -/
def step : TypePart → Token → Option (String × TypePart)
  | .path, .scope => some ("::", .pathScope)
  | .path, .openAngle => some ("<", .argument)
  | .path, .star | .arguments, .star => some ("*", .star)
  | .path, .openBracket | .arguments, .openBracket | .star, .openBracket => some ("[", .bracket)
  | .path, .question | .arguments, .question | .star, .question | .array, .question =>
      some ("?", .optional)
  | .pathScope, .name text => some (text, .path)
  | .argument, .name text => some (text, .argumentRead)
  | .argument, .integer text => some (text, .argumentRead)
  | .argumentRead, .comma => some (",", .argument)
  | .argumentRead, .closeAngle => some (">", .arguments)
  | .bracket, .integer text => some (text, .size)
  | .bracket, .closeBracket | .size, .closeBracket => some ("]", .array)
  | _, _ => none

/-- The type may end here. -/
def isWhole : TypePart → Bool
  | .path | .arguments | .star | .array | .optional => true
  | _ => false

end TypePart

inductive ReaderState where
  | start
  /-- A point of the name was read. -/
  | nameNeeded
  | nameRead (name : String)
  /-- The parameter list was opened. -/
  | opened (header : Header)
  /-- A comma between parameters was read. -/
  | parameterNeeded (header : Header)
  /-- Part of a parameter's type was read. -/
  | typing (header : Header) (typeTag : String) (part : TypePart)
  /-- A parameter without a default was read. -/
  | parameterRead (header : Header)
  /-- An equals sign was read. -/
  | defaultNeeded (header : Header)
  /-- A star or a default was read, so that only a separator may follow. -/
  | parameterClosed (header : Header)
  /-- The parameter list was closed. -/
  | closed (header : Header)
  | done (header : Header)
deriving DecidableEq, Repr

namespace ReaderState

def stepParameter (header : Header) : Token → Option ReaderState
  | .star => some (.parameterClosed header)
  | .name text => some (.typing header text .path)
  | _ => none

def stepSeparator (header : Header) : Token → Option ReaderState
  | .comma => some (.parameterNeeded header)
  | .closeParen => some (.closed header)
  | _ => none

/-- Inside a type a name ends the type and names the parameter, unless it belongs to
the type itself. -/
def stepType (header : Header) (typeTag : String) (part : TypePart) (token : Token) :
    Option ReaderState :=
  match part.step token with
  | some (text, next) => some (.typing header (typeTag ++ text) next)
  | none =>
      match token with
      | .name name => if part.isWhole then some (.parameterRead (header.add ⟨typeTag, name⟩)) else none
      | _ => none

/-- The state after one more token, or none where the token cannot stand. -/
def step : ReaderState → Token → Option ReaderState
  | .start, .dot => some .nameNeeded
  | .start, .name text => some (.nameRead text)
  | .nameNeeded, .name text => some (.nameRead text)
  | .nameRead _, .dot => some .nameNeeded
  | .nameRead name, .openParen => some (.opened ⟨name, []⟩)
  | .opened header, .closeParen => some (.closed header)
  | .opened header, token => stepParameter header token
  | .parameterNeeded header, token => stepParameter header token
  | .typing header typeTag part, token => stepType header typeTag part token
  | .parameterRead header, .equals => some (.defaultNeeded header)
  | .parameterRead header, token => stepSeparator header token
  | .defaultNeeded header, .defaultValue _ => some (.parameterClosed header)
  | .parameterClosed header, token => stepSeparator header token
  | .closed header, .endOfText => some (.done header)
  | _, _ => none

end ReaderState

def readTokens : ReaderState → List Token → Except SyntaxFault Header
  | .done header, [] => .ok header
  | _, [] => .error .misplaced
  | state, token :: rest =>
      match state.step token with
      | some next => readTokens next rest
      | none => .error token.fault

/-- The header that a text spells. -/
def parse (text : String) : Except SyntaxFault Header :=
  readTokens .start (tokens false text.toList)

end Header

end TensorBindings
