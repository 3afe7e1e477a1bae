/-!
Contract: the expression trees of gradient formulas.

Owns: operators with their precedence, the tree, the nodes of a tree in reading
order, the names of its call sites, and whether it mentions a name.

A parenthesised expression is a node of its own, so that a tree keeps the
grouping its author wrote. `Expr.hole` is a node without a form: no text reads as
one, and none is written for one.

Does not own: the spelling of trees (`Expr.Reader`) or their Nim text
(`Expr.Printer`).
-/

set_option autoImplicit false

namespace TensorBindings

inductive UnaryOp where
  | plus
  | minus
  | not
  | custom (symbol : String)
deriving DecidableEq, Repr

inductive BinaryOp where
  | or
  | and
  | eq
  | ne
  | lt
  | le
  | gt
  | ge
  | add
  | sub
  | mul
  | div
  | mod
  | custom (symbol : String)
deriving DecidableEq, Repr

namespace UnaryOp

def symbol : UnaryOp → String
  | plus => "+"
  | minus => "-"
  | not => "!"
  | custom text => text

def ofSymbol (text : String) : UnaryOp :=
  ([plus, minus, not].find? (·.symbol == text)).getD (custom text)

end UnaryOp

namespace BinaryOp

def symbol : BinaryOp → String
  | or => "||"
  | and => "&&"
  | eq => "=="
  | ne => "!="
  | lt => "<"
  | le => "<="
  | gt => ">"
  | ge => ">="
  | add => "+"
  | sub => "-"
  | mul => "*"
  | div => "/"
  | mod => "%"
  | custom text => text

def ofSymbol (text : String) : BinaryOp :=
  ([or, and, eq, ne, lt, le, gt, ge, add, sub, mul, div, mod].find? (·.symbol == text)).getD
    (custom text)

/-- Binding strength in formulas: a higher level binds tighter, and operators of
one level associate to the left. Operators without a place in the formula grammar
have level zero. -/
def level : BinaryOp → Nat
  | custom _ => 0
  | or => 1
  | and => 2
  | eq | ne => 3
  | lt | le | gt | ge => 4
  | add | sub => 5
  | mul | div | mod => 6

end BinaryOp

inductive Expr where
  | name (qualifier : List String) (ident : String)
  | number (text : String)
  | string (text : String)
  | member (value : Expr) (field : String)
  | call (callee : Expr) (arguments : List Expr)
  | index (value position : Expr)
  | unary (op : UnaryOp) (operand : Expr)
  | binary (op : BinaryOp) (left right : Expr)
  | ternary (condition thenValue elseValue : Expr)
  | list (items : List Expr)
  | paren (inner : Expr)
  | hole
deriving Repr

namespace Expr

mutual

/-- A tree and all trees below it, parents first and siblings from left to right. -/
def nodes : Expr → List Expr
  | .name qualifier ident => [.name qualifier ident]
  | .number text => [.number text]
  | .string text => [.string text]
  | .member value field => .member value field :: nodes value
  | .call callee arguments => .call callee arguments :: (nodes callee ++ nodesOfAll arguments)
  | .index value position => .index value position :: (nodes value ++ nodes position)
  | .unary op operand => .unary op operand :: nodes operand
  | .binary op left right => .binary op left right :: (nodes left ++ nodes right)
  | .ternary condition thenValue elseValue =>
      .ternary condition thenValue elseValue ::
        (nodes condition ++ nodes thenValue ++ nodes elseValue)
  | .list items => .list items :: nodesOfAll items
  | .paren inner => .paren inner :: nodes inner
  | .hole => [.hole]

def nodesOfAll : List Expr → List Expr
  | [] => []
  | tree :: rest => nodes tree ++ nodesOfAll rest

end

/-- The name a call site refers to: `x.f(…)` and `ns::f(…)` both refer to `f`. A
call of anything else refers to no name. -/
def calleeName? : Expr → Option String
  | .member _ field => some field
  | .name _ ident => some ident
  | _ => none

/-- The name called at this node, if it is a call of a name. -/
def calledName? : Expr → Option String
  | .call callee _ => callee.calleeName?
  | _ => none

/-- Names of all call sites in reading order, with repetitions. -/
def callNames (tree : Expr) : List String :=
  tree.nodes.filterMap calledName?

def isBareName (ident : String) : Expr → Bool
  | .name [] other => other == ident
  | _ => false

/-- The unqualified name `ident` occurs somewhere in the tree. -/
def mentions (tree : Expr) (ident : String) : Bool :=
  tree.nodes.any (isBareName ident)

end Expr

end TensorBindings
