import HostScript.Code.Generator
import HostScript.Program.Basic

/-!
# HostScript.Program.Link

From generated code to a program: jumps are linked to their labels, the code gets a return at its
end if it needs one, and every jump and every call has to have a target.
-/

namespace HostScript.Generate

/-- Points one jump to its label. -/
def linkJump (name : String) (address : Nat) (location : Location) : Generate Unit := do
  let g ← get
  match g.labels.find? name with
  | none => fail location (.undeclaredLabel name)
  | some target =>
    record (.linked address name target)
    if g.code.hasTarget address then
      modify fun g => { g with code := g.code.setTarget address (.address target) }
    else fail location (.noJumpForLabel address name)

def linkJumps (name : String) : List (Nat × Location) → Generate Unit
  | [] => pure ()
  | (address, location) :: jumps => do
    linkJump name address location
    linkJumps name jumps

def linkEntries : List (String × List (Nat × Location)) → Generate Unit
  | [] => pure ()
  | (name, jumps) :: entries => do
    linkJumps name jumps
    linkEntries entries

/-- Points all jumps that wait for a label to it, in the order of the labels' names. -/
def linkLabels : Generate Unit := do
  let pending := (← get).pending
  modify fun g => { g with pending := .empty }
  linkEntries pending.entries

/-- Adds a return if the code can run past its end. -/
def closeProgram (stop : Location) : Generate Unit := do
  if (← get).fallsOffEnd 0 then
    put .pushNull stop
    put .ret stop

end HostScript.Generate

namespace HostScript.Generator

/-- The place that the instruction at `address` comes from. -/
def locationOf (g : Generator) (stop : Location) (address : Nat) : Location :=
  match g.code.locations[address]? with
  | some l => g.sources.location l
  | none => stop

/-- Whether a call goes to a script function, a host function or a builtin. -/
def isResolved (g : Generator) (env : Environment) (name : String) (argc : Nat) : Bool :=
  (g.functions.find? name argc).isSome || (env.globalFunction? name).any (·.accepts argc) ||
    (env.builtin? name argc).isSome

/-- What is wrong with the target of an instruction: every jump has to end up inside the code. -/
def targetFault? (g : Generator) (address : Nat) (i : Instruction) : Option Cause :=
  match i.target? with
  | none => none
  | some (.address target) =>
    if target < g.here then none else some (.invalidTarget address (.address target))
  | some target => some (.invalidTarget address target)

/-- What is wrong with the callee of an instruction. -/
def callFault? (g : Generator) (env : Environment) (i : Instruction) : Option Cause :=
  match i with
  | .call name argc => if g.isResolved env name argc then none else some (.unresolvedCall name argc)
  | _ => none

/-- The first fault that a check finds, with the address of the instruction at fault. -/
def firstFault (check : Nat → Instruction → Option Cause) : Nat → List Instruction →
    Option (Nat × Cause)
  | _, [] => none
  | address, i :: is =>
    match check address i with
    | some cause => some (address, cause)
    | none => firstFault check (address + 1) is

/-- The program that the code makes. -/
def program (g : Generator) : Program where
  version := .current
  instructions := g.code.instructions.toList
  locations := g.code.locations.toList
  sources := g.sources
  functions := g.functions.grouped
  labels := g.labels

end HostScript.Generator

namespace HostScript.Generate

/-- Fails at the first instruction that a check finds at fault. -/
def check (stop : Location) (fault? : Generator → Nat → Instruction → Option Cause) :
    Generate Unit := do
  let g ← get
  match Generator.firstFault (fault? g) 0 g.code.instructions.toList with
  | some (address, cause) => fail (g.locationOf stop address) cause
  | none => pure ()

/-- Links the labels, checks the instructions and hands out the program.  What is added at the end
comes from `stop`. -/
def finish (env : Environment) (stop : Location) : Generate Program := do
  linkLabels
  closeProgram stop
  check stop fun g address i => g.targetFault? address i
  check stop fun g _ i => g.callFault? env i
  let g ← get
  record (.finished g.here g.functions.size g.labels.size)
  return g.program

end HostScript.Generate
