import HostScript.Code.Basic
import HostScript.Environment.Basic
import HostScript.Error
import HostScript.Function
import HostScript.Log

/-!
# HostScript.Code.Generator

The state of code generation and its elementary steps.  A step that fails leaves behind what was
generated before.
-/

namespace HostScript

structure Generator where
  code : Code := {}
  sources : CodeSources := {}
  /-- The addresses of the labels declared so far. -/
  labels : NameMap Nat := .empty
  /-- The jumps that wait to be linked, by the name of their label. -/
  pending : NameMap (List (Nat × Location)) := .empty
  functions : FunctionTable := {}
  /-- The parameters of the function whose body is being generated, if it is one. -/
  parameters : Option (List String) := none
  log : Log := #[]

instance : Inhabited Generator := ⟨{}⟩

abbrev Generate := EStateM CompileError Generator

/-- The names that code generation can see: those of the host, and the parameters of the function
around, or the arguments of the script itself outside of functions. -/
structure Scope where
  environment : Environment
  parameters : List String

/-- What can be seen inside of a function with these parameters, or outside of functions, where the
script itself has the names of `scope`. -/
def Scope.inside (scope : Scope) : Option (List String) → Scope
  | none => scope
  | some parameters => { scope with parameters }

@[simp] theorem Scope.environment_inside (scope : Scope) (parameters : Option (List String)) :
    (scope.inside parameters).environment = scope.environment := by
  cases parameters <;> rfl

namespace Generator

/-- The address of the next instruction. -/
def here (g : Generator) : Nat := g.code.size

/-- Appends an instruction that comes from `location`. -/
def push (g : Generator) (i : Instruction) (location : Location) : Generator :=
  let sources := g.sources.insert location.sourceName
  { g with sources, code := g.code.push i (sources.compact location) }

/-- Points the jump at `address` to the next instruction. -/
def patchHere (g : Generator) (address : Nat) : Generator :=
  { g with code := g.code.setTarget address (.address g.here) }

/-- Points the break and continue jumps in a range to the given addresses. -/
def patchLoop (g : Generator) (start stop : Nat) (breakTo continueTo : Option Nat) : Generator :=
  { g with code := g.code.patchLoop start stop breakTo continueTo }

/-- Goes on with other parameters. -/
def withParameters (g : Generator) (parameters : Option (List String)) : Generator :=
  { g with parameters }

/-- Whether the code from `start` on can run past its end, by itself or through a label there. -/
def fallsOffEnd (g : Generator) (start : Nat) : Bool :=
  g.code.fallsOffEnd start ||
    g.labels.values.any fun address => start ≤ address && address == g.here

end Generator

namespace Generate

def fail {α : Type} (location : Location) (cause : Cause) : Generate α := throw ⟨location, cause⟩

/-- The address of the next instruction. -/
def here : Generate Nat := return (← get).here

/-- Appends an instruction and returns its address. -/
def push (i : Instruction) (location : Location) : Generate Nat := do
  let address ← here
  modify (·.push i location)
  return address

/-- Appends an instruction. -/
def put (i : Instruction) (location : Location) : Generate Unit := modify (·.push i location)

/-- Appends instructions that all come from one place. -/
def putAll (code : List Instruction) (location : Location) : Generate Unit :=
  code.forM (put · location)

def patchHere (address : Nat) : Generate Unit := modify (·.patchHere address)

def patchLoop (start stop : Nat) (breakTo continueTo : Option Nat) : Generate Unit :=
  modify (·.patchLoop start stop breakTo continueTo)

def record (entry : LogRecord) : Generate Unit := modify fun g => { g with log := g.log.push entry }

/-! ## labels -/

/-- Declares a label at the next instruction. -/
def declareLabel (name : String) (location : Location) : Generate Unit := do
  let g ← get
  if g.labels.contains name then fail location (.secondLabel name)
  record (.labelled name g.here)
  modify fun g => { g with labels := g.labels.insert name g.here }

/-- Remembers that the jump at `address` goes to a label. -/
def awaitLabel (name : String) (address : Nat) (location : Location) : Generate Unit :=
  modify fun g =>
    { g with
      pending := g.pending.insert name ((g.pending.find? name).getD [] ++ [(address, location)]) }

/-! ## names -/

/-- Generates code for the body of a function, whose parameters take the place of those around it.
They are put back behind the body, also when it fails. -/
def inFunction {α : Type} (parameters : List String) (x : Generate α) : Generate α := fun g =>
  match x (g.withParameters (some parameters)) with
  | .ok a g' => .ok a (g'.withParameters g.parameters)
  | .error e g' => .error e (g'.withParameters g.parameters)

/-- The names that can be seen at this point of a script that has the names of `scope`. -/
def visible (scope : Scope) : Generate Scope := return scope.inside (← get).parameters

/-- A read of a name.  Constants are inlined, system macros expanded and parameters read by index;
everything else is looked up when the program runs. -/
def readName (scope : Scope) (location : Location) (name : String) : Generate Unit :=
  match scope.environment.constant? name, scope.environment.systemMacro? name,
    scope.parameters.idxOf? name with
  | some constant, _, _ => put constant.instruction location
  | none, some code, _ => putAll code location
  | none, none, some index => put (.pushArgument index) location
  | none, none, none => put (.pushIdentifier name) location

/-- Why a name cannot be assigned to. -/
def readOnly? (scope : Scope) (name : String) : Option ReadOnly :=
  if (scope.environment.constant? name).isSome then some .constant
  else if (scope.environment.systemMacro? name).isSome then some .systemMacro
  else if name ∈ scope.parameters then some .argument
  else none

/-- The instruction that stores into a variable. -/
def nameSetter (scope : Scope) (location : Location) (name : String) : Generate Instruction :=
  match readOnly? scope name with
  | some what => fail location (.readOnly what name)
  | none => return .setIdentifier name

/-- Fails unless a template has a static function that takes so many arguments. -/
def checkStaticCall (scope : Scope) (location : Location) (template name : String) (argc : Nat) :
    Generate Unit :=
  match scope.environment.template? template with
  | none => fail location (.unknownTemplate template)
  | some t =>
    match t.staticFunction? name argc with
    | none => fail location (.noStaticFunction template name argc)
    | some _ => return

/-- Closes the body of a function that starts at `start`: it ends in a return, and the jump over
it goes behind that. -/
def closeFunction (location : Location) (id : Nat) (name : String) (skip start : Nat) :
    Generate Unit := do
  if (← get).fallsOffEnd start then
    put .pushNull location
    put .ret location
  let stop := (← here) - 1
  patchHere skip
  match (← get).functions.get? id with
  | none => fail location (.unregisteredFunction name)
  | some _ => modify fun g => { g with functions := g.functions.place id start stop }

end Generate

end HostScript
