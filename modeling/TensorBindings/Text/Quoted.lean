import TensorBindings.Text.Printable

/-!
Contract: texts quoted for reports.

Owns: the quoted form of a text. It stands in single quotes, or in double quotes if it
holds a single quote and no double quote. Characters that show nothing on a page are
written by their code.
-/

set_option autoImplicit false

namespace TensorBindings.Text

/-- Hexadecimal digits, with zeros in front up to the given width. -/
def hexText (width code : Nat) : String :=
  let digits := Nat.toDigits 16 code
  String.ofList (List.replicate (width - digits.length) '0' ++ digits)

def codeEscape (code : Nat) : String :=
  if code < 0x100 then "\\x" ++ hexText 2 code
  else if code < 0x10000 then "\\u" ++ hexText 4 code
  else "\\U" ++ hexText 8 code

def quotedCharacter (quote c : Char) : String :=
  if c = quote ∨ c = '\\' then "\\" ++ c.toString
  else if c = '\n' then "\\n"
  else if c = '\r' then "\\r"
  else if c = '\t' then "\\t"
  else if isPrintable c then c.toString
  else codeEscape c.toNat

def quoteFor (cs : List Char) : Char :=
  if '\'' ∈ cs ∧ '"' ∉ cs then '"' else '\''

def quoted (text : String) : String :=
  let quote := quoteFor text.toList
  quote.toString ++ String.join (text.toList.map (quotedCharacter quote)) ++ quote.toString

end TensorBindings.Text
