import TensorBindings.Text.Blank

/-!
Contract: paths.

Owns: a path as its root and its steps, its normal form, and joining. Empty steps and
steps to the same directory are dropped; steps to the parent directory stay, because
where they lead depends on the directories that exist.
-/

set_option autoImplicit false

namespace TensorBindings

structure Path where
  /-- Empty for a path from the working directory; otherwise one slash or exactly two. -/
  root : String := ""
  steps : List String := []
deriving DecidableEq, Repr

namespace Path

def isStep (step : String) : Bool := step ≠ "" ∧ step ≠ "."

def rootOf : List Char → String
  | '/' :: '/' :: '/' :: _ => "/"
  | '/' :: '/' :: _ => "//"
  | '/' :: _ => "/"
  | _ => ""

def ofText (text : String) : Path :=
  { root := rootOf text.toList
    steps := ((Text.splitAt '/' text.toList).map String.ofList).filter isStep }

def toText (path : Path) : String :=
  if path.root = "" ∧ path.steps = [] then "."
  else path.root ++ "/".intercalate path.steps

/-- No file system takes a null character. -/
def hasNull (path : Path) : Bool := path.toText.toList.contains '\x00'

/-- The longest path that a file system takes, in bytes. -/
def maxBytes : Nat := 4095

/-- The longest step that a file system takes, in bytes. -/
def maxStepBytes : Nat := 255

def isAbsolute (path : Path) : Bool := path.root ≠ ""

/-- The second path as seen from the first; an absolute path stands for itself. -/
def join (base path : Path) : Path :=
  if path.isAbsolute then path else { base with steps := base.steps ++ path.steps }

end Path

end TensorBindings
