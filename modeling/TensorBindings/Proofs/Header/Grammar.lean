import TensorBindings.Header.Reader
import TensorBindings.Proofs.Expr.Grammar

/-!
Contract: the forms of formula headers, apart from any way to read them.

Owns:
- the texts of integers and default values;
- the form of a header: what its author chose, markers and default values included;
- the header that a form stands for, with the canonical text of each type;
- the lexemes of a form in order, and the texts that spell it.

Does not own: the reader (`Header.Reader`), and that it reads every spelling of a form
(`Proofs.Header.RoundTrip`).
-/

set_option autoImplicit false

namespace TensorBindings.Header

open TensorBindings.Text
open TensorBindings.Expr (IsName Spacing)

/-! ### Texts of lexemes -/

def IsInteger (text : String) : Prop :=
  text.toList ≠ [] ∧ ∀ c ∈ text.toList, c.isDigit = true

instance (text : String) : Decidable (IsInteger text) :=
  decidable_of_iff (text.toList ≠ [] ∧ text.toList.all Char.isDigit = true)
    (by rw [IsInteger, List.all_eq_true])

/-- A plain default value may hold spacing and every mark that is no separator. A brace list may
hold the other separators too. -/
inductive IsDefault : List Char → Prop where
  | plain {first : Char} {rest : List Char} (starts : startsDefault first = true)
      (within : ∀ c ∈ rest, (!isSeparator c) = true) : IsDefault (first :: rest)
  | braces {inner : List Char} (within : ∀ c ∈ inner, (!isBrace c) = true) :
      IsDefault ('{' :: (inner ++ ['}']))

abbrev NameText := { text : String // IsName text }

abbrev IntegerText := { text : String // IsInteger text }

abbrev DefaultText := { text : String // IsDefault text.toList }

/-! ### Forms -/

inductive TypeArgument where
  | name (text : NameText)
  | integer (text : IntegerText)

/-- A path of names with its suffixes. There are no angle brackets around no arguments. -/
structure TypeForm where
  first : NameText
  rest : List NameText
  arguments : List TypeArgument
  isPointer : Bool
  /-- An array suffix, with its size if it has one. -/
  array? : Option (Option IntegerText)
  isOptional : Bool

/-- What stands between two commas of a parameter list. -/
inductive ItemForm where
  | marker
  | typed (type : TypeForm) (name : NameText) (default? : Option DefaultText)

structure HeaderForm where
  hasLeadingDot : Bool
  qualifier : List NameText
  name : NameText
  items : List ItemForm

/-! ### The header of a form -/

def TypeArgument.text : TypeArgument → String
  | name text => text.val
  | integer text => text.val

def argumentsText : List TypeArgument → String
  | [] => ""
  | first :: rest => "<" ++ ",".intercalate ((first :: rest).map TypeArgument.text) ++ ">"

def arrayText : Option (Option IntegerText) → String
  | none => ""
  | some none => "[]"
  | some (some size) => "[" ++ size.val ++ "]"

/-- The canonical text of a type, which has no spacing. -/
def TypeForm.text (type : TypeForm) : String :=
  "::".intercalate ((type.first :: type.rest).map (·.val)) ++ argumentsText type.arguments ++
    (if type.isPointer then "*" else "") ++ arrayText type.array? ++
    (if type.isOptional then "?" else "")

/-- The parameter of an item, without its default value. -/
def ItemForm.typed? : ItemForm → Option (TypeForm × NameText)
  | marker => none
  | typed type name _ => some (type, name)

def TypeForm.parameter (typed : TypeForm × NameText) : HeaderParameter :=
  ⟨typed.1.text, typed.2.val⟩

namespace HeaderForm

def typed (form : HeaderForm) : List (TypeForm × NameText) := form.items.filterMap ItemForm.typed?

def header (form : HeaderForm) : Header where
  name := form.name.val
  parameters := form.typed.map TypeForm.parameter

end HeaderForm

/-! ### Lexemes of a form -/

def TypeArgument.token : TypeArgument → Token
  | name text => .name text.val
  | integer text => .integer text.val

def argumentLexemes : List TypeArgument → List Token
  | [] => []
  | first :: rest =>
      .openAngle ::
        ((first.token :: rest.flatMap fun argument => [.comma, argument.token]) ++ [.closeAngle])

def arrayLexemes : Option (Option IntegerText) → List Token
  | none => []
  | some none => [.openBracket, .closeBracket]
  | some (some size) => [.openBracket, .integer size.val, .closeBracket]

def TypeForm.lexemes (type : TypeForm) : List Token :=
  (.name type.first.val :: type.rest.flatMap fun part => [.scope, .name part.val]) ++
    (argumentLexemes type.arguments ++ ((if type.isPointer then [.star] else []) ++
      (arrayLexemes type.array? ++ (if type.isOptional then [.question] else []))))

def defaultLexemes : Option DefaultText → List Token
  | none => []
  | some text => [.equals, .defaultValue text.val]

def ItemForm.lexemes : ItemForm → List Token
  | marker => [.star]
  | typed type name default? => type.lexemes ++ (.name name.val :: defaultLexemes default?)

def itemLexemes : List ItemForm → List Token
  | [] => []
  | [item] => item.lexemes
  | item :: next :: rest => item.lexemes ++ (.comma :: itemLexemes (next :: rest))

def HeaderForm.lexemes (form : HeaderForm) : List Token :=
  (if form.hasLeadingDot then [.dot] else []) ++
    ((form.qualifier.flatMap fun part => [.name part.val, .dot]) ++
      (.name form.name.val :: .openParen :: (itemLexemes form.items ++ [.closeParen])))

/-! ### Spelling -/

namespace Token

/-- The characters of a token. The markers at the end of a division have none. -/
def spelling : Token → String
  | name text => text
  | integer text => text
  | defaultValue text => text
  | dot => "."
  | scope => "::"
  | comma => ","
  | star => "*"
  | question => "?"
  | equals => "="
  | openParen => "("
  | closeParen => ")"
  | openBracket => "["
  | closeBracket => "]"
  | openAngle => "<"
  | closeAngle => ">"
  | endOfText => ""
  | stray => ""
  | unreadable => ""

/-- The token is always spelled the same. -/
def isMark : Token → Bool
  | name _ | integer _ | defaultValue _ | endOfText | stray | unreadable => false
  | _ => true

/-- The token is a mark, or has a text of its kind. -/
def IsLexeme : Token → Prop
  | name text => IsName text
  | integer text => IsInteger text
  | defaultValue text => IsDefault text.toList
  | token => token.isMark = true

end Token

/-- The spacing between two lexemes. It may be missing next to a mark. -/
def Apart (token next : Token) (gap : List Char) : Prop :=
  Spacing gap ∧ (gap = [] → token.isMark = true ∨ next.isMark = true)

/-- The characters write the tokens, perhaps with spacing at the end. -/
inductive Writes : List Token → List Char → Prop where
  | last {token : Token} {trail : List Char} (spaced : Spacing trail) :
      Writes [token] (token.spelling.toList ++ trail)
  | more {token next : Token} {rest : List Token} {gap cs : List Char}
      (apart : Apart token next gap) (others : Writes (next :: rest) cs) :
      Writes (token :: next :: rest) (token.spelling.toList ++ (gap ++ cs))

/-- The text spells the form: it writes the lexemes of the form, perhaps after spacing. -/
def HeaderForm.Spells (form : HeaderForm) (text : String) : Prop :=
  ∃ lead cs, text.toList = lead ++ cs ∧ Spacing lead ∧ Writes form.lexemes cs

end TensorBindings.Header
