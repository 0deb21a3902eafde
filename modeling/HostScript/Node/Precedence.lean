import HostScript.Node.Basic

/-!
# HostScript.Node.Precedence

Operands with operators between them become one tree.  There is one pass for each precedence
category, from the tightest to the loosest, and each pass joins the operands around its operators
from left to right.  Operands can be anything that two of them and an operator make another of.
-/

namespace HostScript.Precedence

variable {α : Type}

/-- An operand and the operators and operands behind it. -/
abbrev Run (α : Type) := α × List (BinaryOperator × α)

/-- Joins the operands around the operators of one category, from left to right. -/
def pass (combine : α → BinaryOperator → α → α) (category : Nat) :
    α → List (BinaryOperator × α) → Run α
  | first, [] => (first, [])
  | first, (op, second) :: rest =>
    if op.category = category then pass combine category (combine first op second) rest
    else
      let (second, rest) := pass combine category second rest
      (first, (op, second) :: rest)

/-- The passes for the first so many categories, one after the other. -/
def passes (combine : α → BinaryOperator → α → α) (run : Run α) : Nat → Run α
  | 0 => run
  | category + 1 =>
    let (first, rest) := passes combine run category
    pass combine category first rest

/-- The tree of a run, if its operators are all joined at the end. -/
def fold? (combine : α → BinaryOperator → α → α) (run : Run α) : Option α :=
  match passes combine run (BinaryOperator.maxCategory + 1) with
  | (tree, []) => some tree
  | _ => none

/-- A binary operation stands where its left operand does. -/
def join (left : Node) (op : BinaryOperator) (right : Node) : Node :=
  .binary left.location op left right

end HostScript.Precedence
