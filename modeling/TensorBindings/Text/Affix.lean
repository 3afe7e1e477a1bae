import TensorBindings.Text.Blank

/-!
Contract: parts of texts.

Owns: removal of a given beginning or ending, and the test whether one text occurs in
another.
-/

set_option autoImplicit false

namespace TensorBindings.Text

/-- The rest of `text` after `start`, if `text` begins with it. -/
def dropStart? (start text : String) : Option String :=
  if start.toList.isPrefixOf text.toList then
    some (String.ofList (text.toList.drop start.toList.length))
  else none

def startsWith (start text : String) : Bool := start.toList.isPrefixOf text.toList

/-- The part of `text` before `ending`, if `text` ends with it. -/
def dropEnd? (ending text : String) : Option String :=
  if ending.toList.isSuffixOf text.toList then
    some (String.ofList (text.toList.take (text.toList.length - ending.toList.length)))
  else none

/-- Whether `part` begins at some position of `cs`. -/
def occursIn (part : List Char) : List Char → Bool
  | [] => part.isEmpty
  | c :: rest => part.isPrefixOf (c :: rest) || occursIn part rest

def contains (part text : String) : Bool := occursIn part.toList text.toList

end TensorBindings.Text
