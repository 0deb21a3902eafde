/-!
# HostScript.Operator

The operators of the script language, shared by tokens, syntax trees and instructions.
-/

namespace HostScript

inductive BinaryOperator where
  | mul | div | mod | add | sub | shl | shr | bitAnd | bitOr | bitXor
  | eq | neq | lt | lte | gt | gte | and | or
deriving DecidableEq, Repr, Inhabited

inductive UnaryOperator where
  | negate | not
deriving DecidableEq, Repr, Inhabited

namespace BinaryOperator

/-- All operators, in the order of their codes in compiled programs. -/
def all : List BinaryOperator :=
  [mul, div, mod, add, sub, shl, shr, bitAnd, bitOr, bitXor, eq, neq, lt, lte, gt, gte, and, or]

/-- The operator as scripts write it. -/
def text : BinaryOperator → String
  | mul => "*"
  | div => "/"
  | mod => "%"
  | add => "+"
  | sub => "-"
  | shl => "<<"
  | shr => ">>"
  | bitAnd => "&"
  | bitOr => "|"
  | bitXor => "^"
  | eq => "=="
  | neq => "!="
  | lt => "<"
  | lte => "<="
  | gt => ">"
  | gte => ">="
  | and => "&&"
  | or => "||"

/-- The name of the operator in environment descriptions and syntax tree dumps. -/
def name : BinaryOperator → String
  | mul => "Mul"
  | div => "Div"
  | mod => "Mod"
  | add => "Add"
  | sub => "Sub"
  | shl => "Shl"
  | shr => "Shr"
  | bitAnd => "BitAnd"
  | bitOr => "BitOr"
  | bitXor => "BitXor"
  | eq => "Eq"
  | neq => "Neq"
  | lt => "Lt"
  | lte => "Lte"
  | gt => "Gt"
  | gte => "Gte"
  | and => "And"
  | or => "Or"

/-- The precedence category: an operator of a lower category binds tighter. -/
def category : BinaryOperator → Nat
  | mul | div | mod => 0
  | add | sub => 1
  | shl | shr => 2
  | bitAnd | bitOr | bitXor => 3
  | eq | neq | lt | lte | gt | gte => 4
  | and => 5
  | or => 6

/-- The loosest precedence category. -/
def maxCategory : Nat := 6

theorem category_le_maxCategory (op : BinaryOperator) : op.category ≤ maxCategory := by
  cases op <;> decide

/-- Whether the right operand is evaluated only when the left one does not settle the result. -/
def isShortCircuit : BinaryOperator → Bool
  | and | or => true
  | _ => false

end BinaryOperator

namespace UnaryOperator

/-- All operators, in the order of their codes in compiled programs. -/
def all : List UnaryOperator := [negate, not]

/-- The operator as scripts write it. -/
def text : UnaryOperator → String
  | negate => "-"
  | not => "!"

/-- The name of the operator in environment descriptions and syntax tree dumps. -/
def name : UnaryOperator → String
  | negate => "Negate"
  | not => "Not"

end UnaryOperator

end HostScript
