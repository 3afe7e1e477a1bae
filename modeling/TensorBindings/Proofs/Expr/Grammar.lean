import TensorBindings.Expr.Token

/-!
Contract: the grammar of formula bodies, apart from any way to read them.

Owns:
- the texts of names, numbers and quoted texts;
- the categories of expressions with their operators, from the loosest to the tightest, and
  the trees that each category derives;
- the lexemes of a tree in order, and the texts that write a list of lexemes.

Does not own: the reader (`Expr.Reader`), and that it reads the spaced spellings of this
language (`Proofs.Expr.Completeness`).
-/

set_option autoImplicit false

namespace TensorBindings.Expr

open TensorBindings.Text

/-! ### Texts of lexemes -/

def IsName (text : String) : Prop :=
  ∃ first rest, text.toList = first :: rest ∧ isNameStart first = true ∧
    ∀ c ∈ rest, isNamePart c = true

instance (text : String) : Decidable (IsName text) :=
  decidable_of_iff
    (text.toList.head?.any isNameStart = true ∧ text.toList.tail.all isNamePart = true)
    (by rw [IsName]; cases text.toList <;> simp [and_assoc])

def AllDigits (cs : List Char) : Prop := ∀ c ∈ cs, isDecimalDigit c = true

instance (cs : List Char) : Decidable (AllDigits cs) :=
  decidable_of_iff (cs.all isDecimalDigit = true) List.all_eq_true

/-- Digits, perhaps with a point after or among them, or a point and digits. -/
inductive Mantissa : List Char → Prop where
  | whole {digits : List Char} (nonempty : digits ≠ []) (areDigits : AllDigits digits) :
      Mantissa digits
  | pointed {digits decimals : List Char} (nonempty : digits ≠ []) (areDigits : AllDigits digits)
      (areDecimals : AllDigits decimals) : Mantissa (digits ++ '.' :: decimals)
  | leadingPoint {decimals : List Char} (nonempty : decimals ≠ [])
      (areDecimals : AllDigits decimals) : Mantissa ('.' :: decimals)

inductive Exponent : List Char → Prop where
  | absent : Exponent []
  | unsigned {mark : Char} {digits : List Char} (marked : isExponentMark mark = true)
      (nonempty : digits ≠ []) (areDigits : AllDigits digits) : Exponent (mark :: digits)
  | signed {mark sign : Char} {digits : List Char} (marked : isExponentMark mark = true)
      (isSigned : isSign sign = true) (nonempty : digits ≠ []) (areDigits : AllDigits digits) :
      Exponent (mark :: sign :: digits)

inductive WidthMark : List Char → Prop where
  | absent : WidthMark []
  | present {mark : Char} (marked : isWidthMark mark = true) : WidthMark [mark]

def IsNumber (text : String) : Prop :=
  ∃ mantissa exponent width, text.toList = mantissa ++ (exponent ++ width) ∧
    Mantissa mantissa ∧ Exponent exponent ∧ WidthMark width

/-- What follows an opening quote, up to the closing one. A backslash takes the next character
with it, which is not the end of a line. -/
inductive QuotedRest (quote : Char) : List Char → Prop where
  | close : QuotedRest quote [quote]
  | escaped {c : Char} {rest : List Char} (sameLine : c ≠ '\n') (inner : QuotedRest quote rest) :
      QuotedRest quote ('\\' :: c :: rest)
  | plain {c : Char} {rest : List Char} (noQuote : c ≠ quote) (noEscape : c ≠ '\\')
      (inner : QuotedRest quote rest) : QuotedRest quote (c :: rest)

def IsQuoted (text : String) : Prop :=
  ∃ quote rest, (quote = '"' ∨ quote = '\'') ∧ text.toList = quote :: rest ∧
    QuotedRest quote rest

/-! ### Categories -/

inductive Category where
  | ternary
  | logicOr
  | logicAnd
  | equality
  | relational
  | additive
  | multiplicative
  | unary
  | suffixed
  | primary
deriving DecidableEq, Repr

namespace Category

/-- The category that binds next tighter. -/
def tighter? : Category → Option Category
  | ternary => some logicOr
  | logicOr => some logicAnd
  | logicAnd => some equality
  | equality => some relational
  | relational => some additive
  | additive => some multiplicative
  | multiplicative => some unary
  | unary => some suffixed
  | suffixed => some primary
  | primary => none

/-- The binary operators of a category, which associate to the left. -/
def operators : Category → List BinaryOp
  | logicOr => [.or]
  | logicAnd => [.and]
  | equality => [.eq, .ne]
  | relational => [.lt, .le, .gt, .ge]
  | additive => [.add, .sub]
  | multiplicative => [.mul, .div, .mod]
  | _ => []

end Category

/-- The trees of a category. Every tree of a tighter category is one as well. -/
inductive Derives : Category → Expr → Prop where
  | tighter {category next : Category} {tree : Expr}
      (isNext : category.tighter? = some next) (inner : Derives next tree) :
      Derives category tree
  | ternary {condition thenValue elseValue : Expr}
      (ofCondition : Derives .logicOr condition) (ofThen : Derives .ternary thenValue)
      (ofElse : Derives .ternary elseValue) :
      Derives .ternary (.ternary condition thenValue elseValue)
  | binary {category next : Category} {op : BinaryOp} {left right : Expr}
      (isOperator : op ∈ category.operators) (isNext : category.tighter? = some next)
      (ofLeft : Derives category left) (ofRight : Derives next right) :
      Derives category (.binary op left right)
  | unary {op : UnaryOp} {operand : Expr}
      (isOperator : op ∈ [UnaryOp.plus, .minus, .not]) (ofOperand : Derives .unary operand) :
      Derives .unary (.unary op operand)
  | member {value : Expr} {field : String}
      (ofValue : Derives .suffixed value) (isName : IsName field) :
      Derives .suffixed (.member value field)
  | call {callee : Expr} {arguments : List Expr}
      (ofCallee : Derives .suffixed callee)
      (ofArguments : ∀ argument ∈ arguments, Derives .ternary argument) :
      Derives .suffixed (.call callee arguments)
  | index {value position : Expr}
      (ofValue : Derives .suffixed value) (ofPosition : Derives .ternary position) :
      Derives .suffixed (.index value position)
  | name {qualifier : List String} {ident : String}
      (areNames : ∀ part ∈ qualifier, IsName part) (isName : IsName ident) :
      Derives .primary (.name qualifier ident)
  | number {text : String} (isNumber : IsNumber text) : Derives .primary (.number text)
  | string {text : String} (isQuoted : IsQuoted text) : Derives .primary (.string text)
  | paren {inner : Expr} (ofInner : Derives .ternary inner) : Derives .primary (.paren inner)
  | list {items : List Expr} (ofItems : ∀ item ∈ items, Derives .ternary item) :
      Derives .primary (.list items)

/-! ### Spelling -/

/-- The characters of a token. The two markers at the end of a division have none. -/
def Token.spelling : Token → String
  | name text => text
  | number text => text
  | string text => text
  | operator op => op.symbol
  | not => "!"
  | dot => "."
  | scope => "::"
  | comma => ","
  | question => "?"
  | colon => ":"
  | openParen => "("
  | closeParen => ")"
  | openBracket => "["
  | closeBracket => "]"
  | openBrace => "\x7b"
  | closeBrace => "\x7d"
  | endOfText => ""
  | unreadable => ""

/-- The token of an operator before its operand. A sign is the token of a binary operator as
well. -/
def unaryToken : UnaryOp → Token
  | .plus => .operator .add
  | .minus => .operator .sub
  | .not => .not
  | .custom symbol => .operator (.custom symbol)

mutual

/-- The tokens of a tree in order. -/
def lexemes : Expr → List Token
  | .name qualifier ident => qualifier.flatMap (fun part => [.name part, .scope]) ++ [.name ident]
  | .number text => [.number text]
  | .string text => [.string text]
  | .member value field => lexemes value ++ [.dot, .name field]
  | .call callee arguments =>
      lexemes callee ++ (.openParen :: (lexemesOfAll arguments ++ [.closeParen]))
  | .index value position =>
      lexemes value ++ (.openBracket :: (lexemes position ++ [.closeBracket]))
  | .unary op operand => unaryToken op :: lexemes operand
  | .binary op left right => lexemes left ++ (.operator op :: lexemes right)
  | .ternary condition thenValue elseValue =>
      lexemes condition ++ (.question :: (lexemes thenValue ++ (.colon :: lexemes elseValue)))
  | .list items => .openBrace :: (lexemesOfAll items ++ [.closeBrace])
  | .paren inner => .openParen :: (lexemes inner ++ [.closeParen])
  | .hole => []

/-- The tokens of trees with commas between them. -/
def lexemesOfAll : List Expr → List Token
  | [] => []
  | [tree] => lexemes tree
  | tree :: next :: rest => lexemes tree ++ (.comma :: lexemesOfAll (next :: rest))

end

def Spacing (cs : List Char) : Prop := ∀ c ∈ cs, isSpacing c = true

instance (cs : List Char) : Decidable (Spacing cs) :=
  decidable_of_iff (cs.all isSpacing = true) List.all_eq_true

/-- A run of spacing that separates what stands around it. -/
def Separation (cs : List Char) : Prop := cs ≠ [] ∧ Spacing cs

instance (cs : List Char) : Decidable (Separation cs) :=
  inferInstanceAs (Decidable (cs ≠ [] ∧ Spacing cs))

/-- The characters write the tokens, with a gap between any two and perhaps spacing at the
end. -/
inductive Writes (Gap : List Char → Prop) : List Token → List Char → Prop where
  | last {token : Token} {trail : List Char} (spaced : Spacing trail) :
      Writes Gap [token] (token.spelling.toList ++ trail)
  | more {token next : Token} {rest : List Token} {gap cs : List Char}
      (isGap : Gap gap) (others : Writes Gap (next :: rest) cs) :
      Writes Gap (token :: next :: rest) (token.spelling.toList ++ (gap ++ cs))

/-- The text spells the tree: it writes the lexemes of the tree, perhaps after spacing. -/
def Spells (Gap : List Char → Prop) (text : String) (tree : Expr) : Prop :=
  ∃ lead cs, text.toList = lead ++ cs ∧ Spacing lead ∧ Writes Gap tree.lexemes cs

end TensorBindings.Expr
