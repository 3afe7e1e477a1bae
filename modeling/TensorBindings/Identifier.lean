/-!
Contract: identifiers of generated code.

Owns: the spelling in Nim of a name of the engine. Engine names may begin or end with an
underscore, hold several in a row, or be words that Nim reserves; none of these is an
identifier in Nim. A name is changed in four steps:

- after an underscore at the end stands the letter `u`;
- before an underscore at the start stands the letter `u`;
- before a reserved word stands the letter `a`;
- two underscores in a row become `_u_u`, from left to right.
-/

set_option autoImplicit false

namespace TensorBindings.Identifier

/-- Words with a meaning of their own in Nim. -/
def keywords : List String :=
  ["addr", "and", "as", "asm", "bind", "block", "break", "case", "cast", "concept", "const",
   "continue", "converter", "defer", "discard", "distinct", "div", "do", "elif", "else", "end",
   "enum", "except", "export", "finally", "for", "from", "func", "if", "import", "in", "include",
   "interface", "is", "isnot", "iterator", "let", "macro", "method", "mixin", "mod", "nil",
   "not", "notin", "object", "of", "or", "out", "proc", "ptr", "raise", "ref", "return", "shl",
   "shr", "static", "template", "try", "tuple", "type", "using", "var", "when", "while", "xor",
   "yield"]

/-- Names that generated code uses itself: the implicit result of a procedure, and the
conversion in every engine call. -/
def ownNames : List String := ["result", "to"]

def reserved : List String := keywords ++ ownNames

def closeEnd (cs : List Char) : List Char :=
  if cs.getLast? = some '_' then cs ++ ['u'] else cs

def closeStart (cs : List Char) : List Char :=
  if cs.head? = some '_' then 'u' :: cs else cs

def avoidReserved (cs : List Char) : List Char :=
  if String.ofList cs ∈ reserved then 'a' :: cs else cs

def separateUnderscores : List Char → List Char
  | '_' :: '_' :: rest => '_' :: 'u' :: '_' :: 'u' :: separateUnderscores rest
  | c :: rest => c :: separateUnderscores rest
  | [] => []

/-- The identifier for an engine name. -/
def escape (name : String) : String :=
  String.ofList (separateUnderscores (avoidReserved (closeStart (closeEnd name.toList))))

end TensorBindings.Identifier
