import TensorBindings.Document.Basic

/-!
Contract: writing JSON documents.

Owns: the text of a document in printable ASCII on one line, with a blank after each
comma and each colon. A character that is not printable ASCII is written by its
UTF-16 code units.
-/

set_option autoImplicit false

namespace TensorBindings.Document

/-- Lower-case hexadecimal digits of a code unit, at least four of them. -/
def codeUnitText (unit : Nat) : String :=
  let digits := Nat.toDigits 16 unit
  "\\u" ++ String.ofList (List.replicate (4 - digits.length) '0' ++ digits)

def codeText (code : Nat) : String :=
  if code < 0x10000 then codeUnitText code
  else
    let offset := code - 0x10000
    codeUnitText (0xD800 + offset / 0x400) ++ codeUnitText (0xDC00 + offset % 0x400)

def isPrintableAscii (c : Char) : Bool := ' ' ≤ c && c ≤ '~'

def characterText : Char → String
  | '"' => "\\\""
  | '\\' => "\\\\"
  | '\n' => "\\n"
  | '\r' => "\\r"
  | '\t' => "\\t"
  | '\x08' => "\\b"
  | '\x0c' => "\\f"
  | c => if isPrintableAscii c then c.toString else codeText c.toNat

def quotedText (content : String) : String :=
  "\"" ++ String.join (content.toList.map characterText) ++ "\""

def decimalText : Decimal → String
  | .finite negative coefficient exponent =>
      (if negative then "-" else "") ++ toString coefficient ++ "e" ++ toString exponent
  | .infinite negative => if negative then "-Infinity" else "Infinity"
  | .undefined => "NaN"

mutual

def render : Document → String
  | .null => "null"
  | .bool value => if value then "true" else "false"
  | .integer value => toString value
  | .decimal value => decimalText value
  | .text content => quotedText content
  | .list items => "[" ++ ", ".intercalate (renderItems items) ++ "]"
  | .record fields => "\x7b" ++ ", ".intercalate (renderFields fields) ++ "\x7d"

def renderItems : List Document → List String
  | [] => []
  | item :: rest => render item :: renderItems rest

def renderFields : List (String × Document) → List String
  | [] => []
  | (key, value) :: rest => (quotedText key ++ ": " ++ render value) :: renderFields rest

end

end TensorBindings.Document
