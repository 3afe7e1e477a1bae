import TensorBindings.Expr.Basic
import TensorBindings.RenderError
import TensorBindings.Text.DecimalDigit

/-!
Contract: the Nim text of expression trees.

Owns: the text of numbers and of whole trees, and the faults of trees without a
text. Parentheses are written where the tree has a parenthesis node; none are added
for precedence. The single exception is a sign before another unary operator, which
Nim would otherwise read as one operator.

Does not own: renaming (`Backward.Renaming`).
-/

set_option autoImplicit false

namespace TensorBindings

open TensorBindings.Text

namespace Number

def widthMarks : List Char := ['f', 'F', 'l', 'L']

/-- Numbers carry no width in Nim. -/
def dropWidthMark (cs : List Char) : List Char :=
  match cs.getLast? with
  | some last => if last ∈ widthMarks then cs.dropLast else cs
  | none => cs

/-- A number that starts with its point gets a zero before it. -/
def leadWithDigit : List Char → List Char
  | '.' :: rest => '0' :: '.' :: rest
  | cs => cs

/-- A point that no digit follows gets a zero after it. -/
def fillPoints : List Char → List Char
  | [] => []
  | '.' :: digit :: rest =>
      if isDecimalDigit digit then '.' :: fillPoints (digit :: rest)
      else '.' :: '0' :: fillPoints (digit :: rest)
  | '.' :: [] => ['.', '0']
  | c :: rest => c :: fillPoints rest

/-- Nim text of a number: no width mark, and digits on both sides of a point. -/
def toNim (text : String) : String :=
  String.ofList (fillPoints (leadWithDigit (dropWidthMark text.toList)))

end Number

namespace UnaryOp

def nimText : UnaryOp → String
  | not => "not "
  | op => op.symbol

/-- Signs, which would merge with an operator that follows them. -/
def isSign : UnaryOp → Bool
  | plus | minus => true
  | _ => false

end UnaryOp

def BinaryOp.nimText : BinaryOp → String
  | .or => "or"
  | .and => "and"
  | .mod => "mod"
  | op => op.symbol

namespace Expr

/-- Namespaces of the engine, which are not written. -/
def droppedQualifiers : List String := ["at"]

def isUnary : Expr → Bool
  | .unary _ _ => true
  | _ => false

mutual

/-- Nim text of a tree without faults. -/
def nimText : Expr → String
  | .name qualifier ident =>
      ".".intercalate (qualifier.filter (· ∉ droppedQualifiers) ++ [ident])
  | .number text => Number.toNim text
  | .string text => text
  | .member value field => nimText value ++ "." ++ field
  | .call callee arguments => nimText callee ++ "(" ++ ", ".intercalate (nimTexts arguments) ++ ")"
  | .index value position => nimText value ++ "[" ++ nimText position ++ "]"
  | .unary op operand =>
      if op.isSign ∧ operand.isUnary then op.nimText ++ "(" ++ nimText operand ++ ")"
      else op.nimText ++ nimText operand
  | .binary op left right => nimText left ++ " " ++ op.nimText ++ " " ++ nimText right
  | .ternary condition thenValue elseValue =>
      "(if " ++ nimText condition ++ ": " ++ nimText thenValue ++ " else: " ++ nimText elseValue ++ ")"
  | .list items => "@[" ++ ", ".intercalate (nimTexts items) ++ "]"
  | .paren inner => "(" ++ nimText inner ++ ")"
  | .hole => ""

def nimTexts : List Expr → List String
  | [] => []
  | tree :: rest => nimText tree :: nimTexts rest

end

mutual

/-- The first fault met when a tree is written. The arguments of a call are written
before its callee, everything else from left to right. -/
def fault? : Expr → Option RenderError
  | .name _ _ => none
  | .number text => if text = "" then some .emptyNumber else none
  | .string _ => none
  | .member value _ => fault? value
  | .call callee arguments => (faultOfAll? arguments).or (fault? callee)
  | .index value position => (fault? value).or (fault? position)
  | .unary _ operand => fault? operand
  | .binary _ left right => (fault? left).or (fault? right)
  | .ternary condition thenValue elseValue =>
      ((fault? condition).or (fault? thenValue)).or (fault? elseValue)
  | .list items => faultOfAll? items
  | .paren inner => fault? inner
  | .hole => some .hole

def faultOfAll? : List Expr → Option RenderError
  | [] => none
  | tree :: rest => (fault? tree).or (faultOfAll? rest)

end

/-- Nim text of a tree. -/
def toNim (tree : Expr) : Except RenderError String :=
  match tree.fault? with
  | some fault => .error fault
  | none => .ok tree.nimText

end Expr

end TensorBindings
