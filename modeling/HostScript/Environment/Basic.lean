import HostScript.Instruction
import HostScript.NameMap
import HostScript.Token.Basic

/-!
# HostScript.Environment.Basic

What a host program predefines for its scripts.  Compiling never runs anything: it only has to
know which names exist and how many arguments they take.  Lists are searched in order and the first
match counts.
-/

namespace HostScript

/-- A value that takes the place of its name wherever a script reads it. -/
inductive Constant where
  | number (value : Number)
  | string (value : String)
deriving DecidableEq, Repr, Inhabited

/-- The instruction that pushes the constant. -/
def Constant.instruction : Constant → Instruction
  | number value => .pushNumber value
  | string value => .pushString value

/-- A name with the number of arguments it takes. -/
structure Signature where
  name : String
  argc : Nat
deriving DecidableEq, Repr, Inhabited

namespace Signature

def text (s : Signature) : String := s.name ++ "(" ++ toString s.argc ++ " args)"

/-- The first of some signatures with this name and number of arguments. -/
def find? (signatures : List Signature) (name : String) (argc : Nat) : Option Signature :=
  signatures.find? fun s => s.name == name && s.argc == argc

end Signature

/-- A function of the host that every script can call. -/
structure HostFunction where
  name : String
  minArgs : Nat := 0
  /-- Without a maximum any number of arguments will do. -/
  maxArgs : Option Nat := none
deriving DecidableEq, Repr, Inhabited

def HostFunction.accepts (f : HostFunction) (argc : Nat) : Bool :=
  f.minArgs ≤ argc && f.maxArgs.all (argc ≤ ·)

/-- A type of the host's objects, with the functions that make or serve them. -/
structure Template where
  name : String
  staticFunctions : List Signature := []
deriving DecidableEq, Repr, Inhabited

namespace Template

/-- The static function that `new` calls unless another one is named. -/
def constructor : String := "new"

def staticFunction? (t : Template) (name : String) (argc : Nat) : Option Signature :=
  Signature.find? t.staticFunctions name argc

end Template

/-- How the host reads what follows the name of a directive, and what comes of it. -/
inductive DirectiveRule where
  /-- Nothing follows and nothing comes of it. -/
  | marker
  /-- A fixed number of tokens follows; they turn into instructions or are refused. -/
  | arguments (count : Nat) (code : List Token → Except String (List Instruction))
  /-- A statement follows and is compiled so many times. -/
  | statement (copies : Nat)

/-- The names that are predefined for a script. -/
structure Environment where
  constants : NameMap Constant := .empty
  /-- Names whose reads turn into the given instructions. -/
  systemMacros : NameMap (List Instruction) := .empty
  globalFunctions : List HostFunction := []
  builtins : List Signature := []
  /-- Preprocessor macros, which share the name space of script functions. -/
  macros : List Signature := []
  templates : List Template := []
  /-- Directives that are nothing but their name. -/
  directives : List String := []
  /-- Directives with a rule of their own, which come before the others. -/
  hostDirectives : List (String × DirectiveRule) := []

namespace Environment

instance : Inhabited Environment := ⟨{}⟩

def constant? (env : Environment) (name : String) : Option Constant := env.constants.find? name

/-- The instructions that a read of the system macro `name` turns into. -/
def systemMacro? (env : Environment) (name : String) : Option (List Instruction) :=
  env.systemMacros.find? name

def globalFunction? (env : Environment) (name : String) : Option HostFunction :=
  env.globalFunctions.find? (·.name == name)

def builtin? (env : Environment) (name : String) (argc : Nat) : Option Signature :=
  Signature.find? env.builtins name argc

def macroSignature? (env : Environment) (name : String) (argc : Nat) : Option Signature :=
  Signature.find? env.macros name argc

def template? (env : Environment) (name : String) : Option Template :=
  env.templates.find? (·.name == name)

def directive? (env : Environment) (name : String) : Option DirectiveRule :=
  match env.hostDirectives.lookup name with
  | some rule => some rule
  | none => if name ∈ env.directives then some .marker else none

/-! ## extending

A constant or system macro takes the place of one with the same name; all else goes behind what is
there, so that it never hides anything. -/

def addConstant (env : Environment) (name : String) (value : Constant) : Environment :=
  { env with constants := env.constants.insert name value }

def addSystemMacro (env : Environment) (name : String) (code : List Instruction) : Environment :=
  { env with systemMacros := env.systemMacros.insert name code }

def addGlobalFunction (env : Environment) (f : HostFunction) : Environment :=
  { env with globalFunctions := env.globalFunctions ++ [f] }

def addBuiltin (env : Environment) (s : Signature) : Environment :=
  { env with builtins := env.builtins ++ [s] }

def addMacro (env : Environment) (s : Signature) : Environment :=
  { env with macros := env.macros ++ [s] }

def addTemplate (env : Environment) (t : Template) : Environment :=
  { env with templates := env.templates ++ [t] }

def addDirective (env : Environment) (name : String) : Environment :=
  { env with directives := env.directives ++ [name] }

end Environment

end HostScript
