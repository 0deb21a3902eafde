import HostScript.Code.Sources
import HostScript.Function
import HostScript.Instruction

/-!
# HostScript.Program.Basic

Compiled scripts.
-/

namespace HostScript

/-- A release of the compiler. -/
structure Version where
  major : UInt16
  minor : UInt16
  patch : UInt16
deriving DecidableEq, Repr, Inhabited

namespace Version

/-- The release this is. -/
def current : Version := ⟨0, 1, 0⟩

def parts (v : Version) : List Nat := [v.major.toNat, v.minor.toNat, v.patch.toNat]

def text (v : Version) : String := "[" ++ Text.join ", " (v.parts.map toString) ++ "]"

end Version

structure Program where
  /-- The release that compiled the program. -/
  version : Version
  instructions : List Instruction
  /-- One place for each instruction. -/
  locations : List CodeLocation
  sources : CodeSources
  /-- Script functions by name, those of one name by their number of parameters. -/
  functions : NameMap (List ScriptFunction)
  labels : NameMap Nat
deriving DecidableEq

namespace Program

instance : Inhabited Program := ⟨⟨default, [], [], {}, .empty, .empty⟩⟩

/-- The script function with this name and number of parameters. -/
def function? (p : Program) (name : String) (argc : Nat) : Option ScriptFunction := do
  let overloads ← p.functions.find? name
  overloads.find? (·.arity == argc)

def label? (p : Program) (name : String) : Option Nat := p.labels.find? name

/-- The place that the instruction at `address` comes from. -/
def location? (p : Program) (address : Nat) : Option Location :=
  p.locations[address]?.map p.sources.location

/-! ## listing -/

/-- A line for the instruction at `address`. -/
def instructionLine (address : Nat) (i : Instruction) (l : CodeLocation) : String :=
  Text.zeroPadded 4 address ++ "  " ++ Text.padRight 40 i.text ++ " ; " ++ l.text ++ "\n"

def instructionLines : Nat → List Instruction → List CodeLocation → String
  | address, i :: is, l :: ls => instructionLine address i l ++ instructionLines (address + 1) is ls
  | _, _, _ => ""

def functionLine (f : ScriptFunction) : String :=
  "  " ++ Text.padRight 30 f.text ++ " " ++ Text.zeroPadded 4 f.start ++ "..=" ++
    Text.zeroPadded 4 f.stop ++ "\n"

def labelLine (label : String × Nat) : String :=
  "  " ++ Text.padRight 30 label.1 ++ " " ++ Text.zeroPadded 4 label.2 ++ "\n"

/-- The program as text: its instructions, then its functions and labels if it has any. -/
def listing (p : Program) : String :=
  instructionLines 0 p.instructions p.locations ++
    (if p.functions.isEmpty then ""
      else "\nfunctions:\n" ++ Text.join "" (p.functions.values.flatten.map functionLine)) ++
    (if p.labels.isEmpty then ""
      else "\nlabels:\n" ++ Text.join "" (p.labels.entries.map labelLine))

end Program

end HostScript
