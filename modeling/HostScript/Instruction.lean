import HostScript.Number.Format
import HostScript.Operator
import HostScript.Text.Column
import HostScript.Text.Quoted

/-!
# HostScript.Instruction

The instructions of the stack machine that runs compiled scripts.  Stack effects are noted as
`[inputs] → [outputs]`, the rightmost entry being the top.
-/

namespace HostScript

/-- Where a jump goes.  Only addresses are left in a finished program. -/
inductive JumpTarget where
  /-- Not known yet; patched when the target is reached or when labels are linked. -/
  | unresolved
  /-- The end of the innermost loop or switch. -/
  | breakPoint
  /-- The continue point of the innermost loop. -/
  | continuePoint
  | address (value : Nat)
deriving DecidableEq, Repr, Inhabited

namespace JumpTarget

def text : JumpTarget → String
  | unresolved => "<unresolved>"
  | breakPoint => "<break>"
  | continuePoint => "<continue>"
  | address a => Text.zeroPadded 4 a

def address? : JumpTarget → Option Nat
  | address a => some a
  | _ => none

end JumpTarget

inductive Instruction where
  /-- `[] → [null]` -/
  | pushNull
  /-- `[] → [number]` -/
  | pushNumber (value : Number)
  /-- `[] → [string]` -/
  | pushString (value : String)
  /-- Looks up a variable when run.  `[] → [value]` -/
  | pushIdentifier (name : String)
  /-- `[receiver] → [value]` -/
  | pushField (name : String)
  /-- Pushes an argument of the running function.  `[] → [value]` -/
  | pushArgument (index : Nat)
  /-- `[value] → []` -/
  | setIdentifier (name : String)
  /-- `[receiver, value] → []` -/
  | setField (name : String)
  /-- Calls a script function, host function or builtin.  `[arg0..argN] → [result]` -/
  | call (name : String) (argc : Nat)
  /-- `[receiver, arg0..argN] → [result]` -/
  | callInstance (name : String) (argc : Nat)
  /-- `[arg0..argN] → [result]` -/
  | callStatic (template name : String) (argc : Nat)
  /-- `[a] → [a, a]` -/
  | duplicate
  /-- `[a] → []` -/
  | discard
  /-- `[a] → [op a]` -/
  | unaryOp (op : UnaryOperator)
  /-- `[a, b] → [a op b]` -/
  | binaryOp (op : BinaryOperator)
  /-- If `a` is falsy, pushes false and jumps, otherwise goes on with the right operand.
  `[a] → []` or `[false]` -/
  | binaryAnd (target : JumpTarget)
  /-- If `a` is truthy, pushes true and jumps, otherwise goes on with the right operand.
  `[a] → []` or `[true]` -/
  | binaryOr (target : JumpTarget)
  | jump (target : JumpTarget)
  /-- `[condition] → []` -/
  | jumpIf (target : JumpTarget)
  /-- `[condition] → []` -/
  | jumpUnless (target : JumpTarget)
  /-- Remembers the address of the next instruction, then jumps. -/
  | jumpPush (target : JumpTarget)
  /-- Jumps to the address remembered last. -/
  | jumpPop
  /-- Compares a case value with the switch value below it.  On a match both are removed and the
  jump is taken.  `[value, case] → [value]` or `[]` -/
  | switchJump (target : JumpTarget)
  /-- `[result] → []` -/
  | ret
deriving DecidableEq, Repr, Inhabited

namespace Instruction

/-- The instruction as listings show it. -/
def text : Instruction → String
  | pushNull => "push_null"
  | pushNumber value => "push_number " ++ value.text
  | pushString value => "push_string " ++ Text.quote value
  | pushIdentifier name => "push_identifier " ++ name
  | pushField name => "push_field " ++ name
  | pushArgument index => "push_argument " ++ toString index
  | setIdentifier name => "set_identifier " ++ name
  | setField name => "set_field " ++ name
  | call name argc => "call " ++ name ++ " (" ++ toString argc ++ " args)"
  | callInstance name argc => "call_instance " ++ name ++ " (" ++ toString argc ++ " args)"
  | callStatic template name argc =>
    "call_static " ++ template ++ "." ++ name ++ " (" ++ toString argc ++ " args)"
  | duplicate => "duplicate"
  | discard => "discard"
  | unaryOp op => "unary_op " ++ op.text
  | binaryOp op => "binary_op " ++ op.text
  | binaryAnd target => "binary_and " ++ target.text
  | binaryOr target => "binary_or " ++ target.text
  | jump target => "jump " ++ target.text
  | jumpIf target => "jump_if " ++ target.text
  | jumpUnless target => "jump_unless " ++ target.text
  | jumpPush target => "jump_push " ++ target.text
  | jumpPop => "jump_pop"
  | switchJump target => "switch_jump " ++ target.text
  | ret => "return"

/-- The target of an instruction that carries one. -/
def target? : Instruction → Option JumpTarget
  | binaryAnd target | binaryOr target | jump target | jumpIf target | jumpUnless target
  | jumpPush target | switchJump target => some target
  | _ => none

/-- Applies `f` to the target of an instruction that carries one. -/
def mapTarget (f : JumpTarget → JumpTarget) : Instruction → Instruction
  | binaryAnd target => binaryAnd (f target)
  | binaryOr target => binaryOr (f target)
  | jump target => jump (f target)
  | jumpIf target => jumpIf (f target)
  | jumpUnless target => jumpUnless (f target)
  | jumpPush target => jumpPush (f target)
  | switchJump target => switchJump (f target)
  | other => other

@[simp] theorem target?_mapTarget (f : JumpTarget → JumpTarget) (i : Instruction) :
    (i.mapTarget f).target? = i.target?.map f := by
  cases i <;> rfl

theorem mapTarget_eq_self {f : JumpTarget → JumpTarget} {i : Instruction}
    (h : i.target? = none) : i.mapTarget f = i := by
  cases i <;> simp_all [target?, mapTarget]

theorem mapTarget_mapTarget (f g : JumpTarget → JumpTarget) (i : Instruction) :
    (i.mapTarget f).mapTarget g = i.mapTarget (g ∘ f) := by
  cases i <;> rfl

def isReturn : Instruction → Bool
  | ret => true
  | _ => false

end Instruction

end HostScript
