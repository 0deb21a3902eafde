import HostScript.NameMap
import HostScript.Text.Column

/-!
# HostScript.Function

Functions that a script defines.  They are registered in the order of their definitions while the
script is read and placed when their code is generated.
-/

namespace HostScript

structure ScriptFunction where
  name : String
  parameters : List String
  /-- The address of the first instruction of the body. -/
  start : Nat := 0
  /-- The address of the last instruction of the body, a return. -/
  stop : Nat := 0
deriving DecidableEq, Repr, Inhabited

namespace ScriptFunction

def arity (f : ScriptFunction) : Nat := f.parameters.length

def text (f : ScriptFunction) : String := f.name ++ "(" ++ Text.join ", " f.parameters ++ ")"

/-- Whether a call with `argc` arguments of a function `name` goes to this one. -/
def answers (f : ScriptFunction) (name : String) (argc : Nat) : Bool :=
  f.name == name && f.arity == argc

end ScriptFunction

/-- The functions of a script in the order of their definitions.  The place of a function in the
table is its id. -/
structure FunctionTable where
  functions : Array ScriptFunction := #[]
deriving DecidableEq, Repr, Inhabited

namespace FunctionTable

def size (t : FunctionTable) : Nat := t.functions.size

/-- Adds a function without a place; its id is the size before. -/
def register (t : FunctionTable) (name : String) (parameters : List String) : FunctionTable :=
  ⟨t.functions.push { name, parameters }⟩

/-- The first function with this name and number of parameters. -/
def find? (t : FunctionTable) (name : String) (argc : Nat) : Option ScriptFunction :=
  t.functions.find? (·.answers name argc)

def get? (t : FunctionTable) (id : Nat) : Option ScriptFunction := t.functions[id]?

/-- Sets the addresses of the function with a given id, if there is one. -/
def place (t : FunctionTable) (id start stop : Nat) : FunctionTable :=
  ⟨t.functions.modify id fun f => { f with start, stop }⟩

/-- Adds a function at the end of its name's group. -/
def addToGroup (m : NameMap (List ScriptFunction)) (f : ScriptFunction) :
    NameMap (List ScriptFunction) :=
  m.insert f.name ((m.find? f.name).getD [] ++ [f])

/-- The functions by name.  Those of one name are sorted by their number of parameters, and among
equals the order of definition stays. -/
def grouped (t : FunctionTable) : NameMap (List ScriptFunction) :=
  (t.functions.toList.foldl addToGroup .empty).mapValues
    (List.mergeSort · fun f g => f.arity ≤ g.arity)

end FunctionTable

end HostScript
