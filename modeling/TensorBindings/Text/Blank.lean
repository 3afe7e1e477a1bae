/-!
Contract: the blank characters of the input tables, and trimming.

Owns: the class of blank characters (every Unicode character of white space,
with the four information separators), the smaller class that may stand between
two lexemes, and removal of blanks at both ends of a text.

Does not own: the white space of JSON documents, which is part of that format.
-/

set_option autoImplicit false

namespace TensorBindings.Text

/-- Inclusive ranges of code points, in increasing order. -/
abbrev Ranges := List (Nat × Nat)

def Ranges.contains (ranges : Ranges) (c : Char) : Bool :=
  ranges.any fun (low, high) => low ≤ c.toNat && c.toNat ≤ high

def blankRanges : Ranges :=
  [(0x0009, 0x000D), (0x001C, 0x0020), (0x0085, 0x0085), (0x00A0, 0x00A0), (0x1680, 0x1680),
   (0x2000, 0x200A), (0x2028, 0x2029), (0x202F, 0x202F), (0x205F, 0x205F), (0x3000, 0x3000)]

def isBlank (c : Char) : Bool := blankRanges.contains c

/-- The characters that formulas and headers allow between two lexemes. Every one
of them is blank, but not conversely: a no-break space separates nothing. -/
def isSpacing (c : Char) : Bool :=
  c == ' ' || c == '\t' || c == '\n' || c == '\r' || c == '\x0c'

theorem length_dropWhile_le (p : Char → Bool) (cs : List Char) :
    (cs.dropWhile p).length ≤ cs.length :=
  (List.dropWhile_sublist p).length_le

/-- Drop blanks at the front of a text. -/
def trimFront (cs : List Char) : List Char := cs.dropWhile isBlank

/-- A text without the blanks at its two ends. -/
def trim (text : String) : String :=
  String.ofList (trimFront (trimFront text.toList).reverse).reverse

/-- The pieces of a text between occurrences of `separator`; an empty text is one
empty piece. -/
def splitAt (separator : Char) : List Char → List (List Char)
  | [] => [[]]
  | c :: rest =>
      if c = separator then [] :: splitAt separator rest
      else
        match splitAt separator rest with
        | [] => [[c]]
        | piece :: pieces => (c :: piece) :: pieces

end TensorBindings.Text
