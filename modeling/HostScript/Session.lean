import HostScript.Code.Emit
import HostScript.Dump
import HostScript.Node.Parse.Statement
import HostScript.Program.Link
import HostScript.Token.Lexer

/-!
# HostScript.Session

Compiling step by step.  A session holds the tokens of a script, the tree read from them and the
code generated so far, and a step that fails leaves it as far as it came.  `compile` takes a script
through all steps.
-/

namespace HostScript

/-- Settings for one script. -/
structure Options where
  /-- The name of the script in messages and programs. -/
  sourceName : Option String := none
  /-- The number of the first line, for scripts that stand inside another file. -/
  startingLine : Nat := 1
  /-- The names of the arguments that the script itself is called with. -/
  mainArguments : List String := []
deriving DecidableEq, Repr, Inhabited

structure Session where
  environment : Environment
  options : Options
  tokens : Array Token := #[]
  /-- The place of the next token. -/
  cursor : Nat := 0
  /-- The token that stands behind all others. -/
  eof : Token
  /-- Whether `break` and `continue` are allowed at the next token. -/
  allowed : Allowed := .nowhere
  root : Option Node := none
  generator : Generator := {}

abbrev Compile := EStateM CompileError Session

/-- Something that changes the tokens of a script before they are read.  It is given the tokens and
may make reports or fail; a preprocessor has no other hold on the session here, neither on its
options nor on what was read or generated before. -/
abbrev Preprocessor := List Token → EStateM CompileError Log (List Token)

/-- The tokens of a script, with a report if it has no faults. -/
def readTokens (source : Option String) (line : Nat) (text : String) :
    EStateM CompileError Log (List Token) := fun log =>
  match tokenize source line text with
  | .ok tokens => .ok tokens (log.push (tokenizedRecord source line text tokens.length))
  | .error error => .error error log

namespace Session

def start (environment : Environment) (options : Options) : Session where
  environment
  options
  eof := ⟨.eof, .ofPosition options.sourceName (.lineStart options.startingLine)⟩

/-- A session with nothing done yet, except that the reports stay. -/
def reset (s : Session) : Session :=
  let fresh := start s.environment s.options
  { fresh with generator := { fresh.generator with log := s.generator.log } }

def log (s : Session) : Log := s.generator.log

/-- The names at the top level of the script. -/
def scope (s : Session) : Scope := ⟨s.environment, s.options.mainArguments⟩

/-! ## tokens -/

/-- The token so many places behind the next one. -/
def peek (s : Session) (offset : Nat) : Token := s.tokens[s.cursor + offset]?.getD s.eof

def current (s : Session) : Token := s.peek 0

/-- Whether the next token is not the end of the script. -/
def hasMore (s : Session) : Bool := s.current.kind != .eof

def advance (s : Session) : Session :=
  if s.cursor < s.tokens.size then { s with cursor := s.cursor + 1 } else s

def retreat (s : Session) : Session := { s with cursor := s.cursor - 1 }

/-- Puts tokens in place of `count` ones from `start` on. -/
def splice (s : Session) (start count : Nat) (tokens : List Token) : Session :=
  let old := s.tokens.toList
  { s with tokens := (old.take start ++ tokens ++ old.drop (start + count)).toArray }

/-! ## reading -/

/-- What the readers of syntax trees are told. -/
def input (s : Session) : Parse.Input := ⟨s.environment, s.tokens, s.eof⟩

/-- Where the readers of syntax trees start. -/
def reader (s : Session) : Parse.State where
  cursor := s.cursor
  allowed := s.allowed
  functions := s.generator.functions
  log := s.generator.log

/-- The session when a reader of syntax trees has come to `state`. -/
def withReader (s : Session) (state : Parse.State) : Session :=
  { s with
    cursor := state.cursor
    allowed := state.allowed
    generator := { s.generator with functions := state.functions, log := state.log } }

/-- One line on how far the session is. -/
def summary (s : Session) : String :=
  let options := Dump.record "CompileOptions"
    [("source_name", .ofOption (fun name => .word (Text.quote name)) s.options.sourceName),
      ("starting_line", .ofNat s.options.startingLine),
      ("main_argument_names", .list (s.options.mainArguments.map fun a => .word (Text.quote a)))]
  "CompileContext \x7b options: " ++ options.inline ++ ", cursor: " ++ toString s.cursor ++
    ", tokens: " ++ toString s.tokens.size ++ ", instructions: " ++ toString s.generator.here ++
    ", .. \x7d"

end Session

namespace Compile

/-! ## the parts of a session at work -/

/-- Runs something that makes reports. -/
def logging {α : Type} (x : EStateM CompileError Log α) : Compile α := fun s =>
  let withLog (log : Log) : Session := { s with generator := { s.generator with log } }
  match x s.generator.log with
  | .ok a log => .ok a (withLog log)
  | .error e log => .error e (withLog log)

/-- Runs a reader of syntax trees on the tokens. -/
def parsing {α : Type} (x : Parse α) : Compile α := fun s =>
  match x s.input s.reader with
  | .ok a state => .ok a (s.withReader state)
  | .error e state => .error e (s.withReader state)

/-- Runs code generation. -/
def generating {α : Type} (x : Generate α) : Compile α := fun s =>
  match x s.generator with
  | .ok a generator => .ok a { s with generator }
  | .error e generator => .error e { s with generator }

/-! ## steps -/

/-- Reads the tokens of a script in place of those before. -/
def tokenize (text : String) : Compile Unit := do
  let options := (← get).options
  let tokens ← logging (readTokens options.sourceName options.startingLine text)
  modify fun s =>
    { s with tokens := tokens.toArray, eof := tokens.getLast?.getD s.eof, cursor := 0 }

/-- Changes the tokens. -/
def preprocess (p : Preprocessor) : Compile Unit := do
  let tokens ← logging (p (← get).tokens.toList)
  modify fun s => { s with tokens := tokens.toArray }

/-- Reads one statement. -/
def statement : Compile Node := parsing Parse.statement

/-- Reads one expression. -/
def expression (withOperators : Bool) : Compile Node := parsing (Parse.expression withOperators)

/-- Reads all statements into the root of the tree. -/
def build : Compile Unit := do
  let root ← parsing Parse.script
  modify fun s => { s with root := some root }

/-- Generates code for a node. -/
def compileNode (node : Node) : Compile Unit := do
  generating (Generate.emit node (← get).scope)

/-- Generates code for the root of the tree. -/
def compileRoot : Compile Unit := do
  let s ← get
  match s.root with
  | none => throw ⟨s.current.location, .missingRoot⟩
  | some root =>
    compileNode root
    generating do Generate.record (.generated (← Generate.here))

/-- Finishes the program. -/
def finish : Compile Program := do
  let s ← get
  generating (Generate.finish s.environment s.eof.location)

/-- All steps from the text of a script to its program. -/
def script (p : Preprocessor) (text : String) : Compile Program := do
  tokenize text
  preprocess p
  build
  compileRoot
  finish

end Compile

/-- Compiles a script whose tokens are changed before they are read. -/
def compileWith (p : Preprocessor) (env : Environment) (options : Options) (text : String) :
    Except CompileError Program :=
  match Compile.script p text (.start env options) with
  | .ok program _ => .ok program
  | .error error _ => .error error

/-- Leaves the tokens as they are. -/
def noPreprocessing : Preprocessor := fun tokens => return tokens

/-- Compiles a script. -/
def compile (env : Environment) (options : Options) (text : String) :
    Except CompileError Program :=
  compileWith noPreprocessing env options text

end HostScript
