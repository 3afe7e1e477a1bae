/-!
Contract: why a formula or a header is not in its language.

Owns: the two ways in which a text is refused. A text is refused at its first
position that cannot be continued. What stands there either is a lexeme of the
language, or the end of the text, in the wrong place; or no lexeme starts there.
-/

set_option autoImplicit false

namespace TensorBindings

inductive SyntaxFault where
  /-- A lexeme, or the end of the text, where another one is needed. -/
  | misplaced
  /-- Characters that begin no lexeme. -/
  | unreadable
deriving DecidableEq, Repr

def SyntaxFault.label : SyntaxFault → String
  | .misplaced => "UnexpectedToken"
  | .unreadable => "UnexpectedCharacters"

end TensorBindings
