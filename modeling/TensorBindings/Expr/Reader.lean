import TensorBindings.Expr.Token

/-!
Contract: reading formula bodies.

Owns: the reader, a machine that takes one token at a time. It keeps the
constructs that are still open as a stack of frames, the innermost first, and is in
one of a few states that say what may come next. An open operator frame is closed
as soon as a token arrives that binds no tighter, which gives every operator its
level and makes operators of one level associate to the left.

A text is refused at the first token for which the machine has no next state.

Recognition and construction are one: the machine builds the expression as it reads, and
there is no tree of the grammar that has to be turned into one afterwards. So no error is
there for a node of unknown form, and to be refused is the only way to fail.

Does not own: the division of texts into tokens (`Expr.Token`).
-/

set_option autoImplicit false

namespace TensorBindings.Expr

/-- A construct whose last part is still being read. -/
inductive Frame where
  | unary (op : UnaryOp)
  | binary (left : Expr) (op : BinaryOp)
  | thenBranch (condition : Expr)
  | elseBranch (condition thenValue : Expr)
  | group
  | items (read : List Expr)
  | arguments (callee : Expr) (read : List Expr)
  | subscript (value : Expr)
deriving Repr

inductive ReaderState where
  /-- An operand has to come. -/
  | operand (stack : List Frame)
  /-- A name was read, and `::` may extend it. -/
  | named (stack : List Frame) (qualifier : List String) (ident : String)
  /-- After a path and `::`: a name has to come. -/
  | qualified (stack : List Frame) (path : List String)
  /-- A point was read after a value, and a name has to come. -/
  | selecting (stack : List Frame) (value : Expr)
  /-- An operand was read. -/
  | operator (stack : List Frame) (value : Expr)
  | done (tree : Expr)
deriving Repr

/-- Close the unary operators, and the binary operators of at least this level, that
wait for `value`. -/
def settle (level : Nat) : List Frame → Expr → List Frame × Expr
  | .unary op :: stack, value => settle level stack (.unary op value)
  | .binary left op :: stack, value =>
      if level ≤ op.level then settle level stack (.binary op left value)
      else (.binary left op :: stack, value)
  | stack, value => (stack, value)

/-- Close everything that `value` can complete: operators and else branches. -/
def complete : List Frame → Expr → List Frame × Expr
  | .unary op :: stack, value => complete stack (.unary op value)
  | .binary left op :: stack, value => complete stack (.binary op left value)
  | .elseBranch condition thenValue :: stack, value =>
      complete stack (.ternary condition thenValue value)
  | stack, value => (stack, value)

namespace ReaderState

/-- The state after `token` where an operand has to come. An argument list or a brace
list that was just opened may close instead. -/
def stepOperand (stack : List Frame) : Token → Option ReaderState
  | .name ident => some (.named stack [] ident)
  | .number text => some (.operator stack (.number text))
  | .string text => some (.operator stack (.string text))
  | .operator .add => some (.operand (.unary .plus :: stack))
  | .operator .sub => some (.operand (.unary .minus :: stack))
  | .not => some (.operand (.unary .not :: stack))
  | .openParen => some (.operand (.group :: stack))
  | .openBrace => some (.operand (.items [] :: stack))
  | .closeParen =>
      match stack with
      | .arguments callee [] :: below => some (.operator below (.call callee []))
      | _ => none
  | .closeBrace =>
      match stack with
      | .items [] :: below => some (.operator below (.list []))
      | _ => none
  | _ => none

/-- The state after `token` where `value` was read. -/
def stepOperator (stack : List Frame) (value : Expr) : Token → Option ReaderState
  | .dot => some (.selecting stack value)
  | .openParen => some (.operand (.arguments value [] :: stack))
  | .openBracket => some (.operand (.subscript value :: stack))
  | .operator op =>
      let (below, left) := settle op.level stack value
      some (.operand (.binary left op :: below))
  | .question =>
      let (below, condition) := settle 0 stack value
      some (.operand (.thenBranch condition :: below))
  | .colon =>
      match complete stack value with
      | (.thenBranch condition :: below, thenValue) =>
          some (.operand (.elseBranch condition thenValue :: below))
      | _ => none
  | .comma =>
      match complete stack value with
      | (.arguments callee read :: below, item) =>
          some (.operand (.arguments callee (read ++ [item]) :: below))
      | (.items read :: below, item) => some (.operand (.items (read ++ [item]) :: below))
      | _ => none
  | .closeParen =>
      match complete stack value with
      | (.group :: below, inner) => some (.operator below (.paren inner))
      | (.arguments callee read :: below, item) =>
          some (.operator below (.call callee (read ++ [item])))
      | _ => none
  | .closeBracket =>
      match complete stack value with
      | (.subscript container :: below, position) =>
          some (.operator below (.index container position))
      | _ => none
  | .closeBrace =>
      match complete stack value with
      | (.items read :: below, item) => some (.operator below (.list (read ++ [item])))
      | _ => none
  | .endOfText =>
      match complete stack value with
      | ([], tree) => some (.done tree)
      | _ => none
  | _ => none

/-- The state after one more token, or none where the token cannot stand. -/
def step : ReaderState → Token → Option ReaderState
  | .operand stack, token => stepOperand stack token
  | .named stack qualifier ident, .scope => some (.qualified stack (qualifier ++ [ident]))
  | .named stack qualifier ident, token => stepOperator stack (.name qualifier ident) token
  | .qualified stack path, .name ident => some (.named stack path ident)
  | .selecting stack value, .name field => some (.operator stack (.member value field))
  | .operator stack value, token => stepOperator stack value token
  | _, _ => none

end ReaderState

def readTokens : ReaderState → List Token → Except SyntaxFault Expr
  | .done tree, [] => .ok tree
  | _, [] => .error .misplaced
  | state, token :: rest =>
      match state.step token with
      | some next => readTokens next rest
      | none => .error token.fault

/-- The expression that a text spells. -/
def parse (text : String) : Except SyntaxFault Expr :=
  readTokens (.operand []) (tokens false text.toList)

end TensorBindings.Expr
