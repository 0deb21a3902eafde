import HostScript.Code.Sources
import HostScript.Instruction

/-!
# HostScript.Code.Basic

Code that is being generated: instructions and, for each of them, the place it comes from.  Code
only ever grows at its end.  A jump whose target is not known yet is written with a placeholder and
patched later, which changes its target and nothing else.
-/

namespace HostScript

structure Code where
  instructions : Array Instruction := #[]
  locations : Array CodeLocation := #[]
deriving DecidableEq, Repr, Inhabited

namespace Code

/-- The address of the next instruction. -/
def size (c : Code) : Nat := c.instructions.size

/-- Appends an instruction, whose address is the size before. -/
def push (c : Code) (i : Instruction) (l : CodeLocation) : Code :=
  ⟨c.instructions.push i, c.locations.push l⟩

/-- Whether there is an instruction with a target at `address`. -/
def hasTarget (c : Code) (address : Nat) : Bool :=
  match c.instructions[address]? with
  | some i => i.target?.isSome
  | none => false

/-- Gives the jump at `address` a new target; without a jump there nothing changes. -/
def setTarget (c : Code) (address : Nat) (target : JumpTarget) : Code :=
  { c with instructions := c.instructions.modify address (·.mapTarget fun _ => target) }

/-- What becomes of a target in the range of a loop or switch that ends at `breakTo` and goes on
at `continueTo`. -/
def retarget (breakTo continueTo : Option Nat) (target : JumpTarget) : JumpTarget :=
  match target, breakTo, continueTo with
  | .breakPoint, some address, _ => .address address
  | .continuePoint, _, some address => .address address
  | _, _, _ => target

/-- Points the break and continue jumps from `start` up to `stop` to the given addresses.  Those
without an address stay, so that an enclosing loop can take them. -/
def patchLoop (c : Code) (start stop : Nat) (breakTo continueTo : Option Nat) : Code :=
  { c with
    instructions := c.instructions.mapIdx fun address i =>
      if start ≤ address ∧ address < stop then i.mapTarget (retarget breakTo continueTo) else i }

/-- Whether the code from `start` on can run past its end: it does not end in a return, or
something in it jumps right behind it. -/
def fallsOffEnd (c : Code) (start : Nat) : Bool :=
  c.size ≤ start ||
    !((c.instructions.back?).any Instruction.isReturn) ||
    (c.instructions.toList.drop start).any fun i => i.target? == some (.address c.size)

/-! ## sizes -/

@[simp] theorem size_push (c : Code) (i : Instruction) (l : CodeLocation) :
    (c.push i l).size = c.size + 1 := by simp [push, size]

@[simp] theorem size_setTarget (c : Code) (address : Nat) (target : JumpTarget) :
    (c.setTarget address target).size = c.size := by simp [setTarget, size]

@[simp] theorem size_patchLoop (c : Code) (start stop : Nat) (breakTo continueTo : Option Nat) :
    (c.patchLoop start stop breakTo continueTo).size = c.size := by simp [patchLoop, size]

end Code

end HostScript
