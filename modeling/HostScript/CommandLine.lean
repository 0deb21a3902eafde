import HostScript.Environment.Description
import HostScript.Json.Reader
import HostScript.Node.Dump
import HostScript.Program.Codec
import HostScript.Session

/-!
# HostScript.CommandLine

The command line: compiles one script and prints or writes the result.

Reading the arguments and compiling are functions; only looking at files and writing them is left
to the caller, who hands in what the files hold.  Environments are described by JSON documents.
-/

namespace HostScript.CommandLine

/-! ## arguments -/

/-- What the arguments ask for. -/
structure Invocation where
  script : String
  environment : Option String := none
  sourceName : Option String := none
  startLine : Nat := 1
  arguments : List String := []
  showTokens : Bool := false
  showTree : Bool := false
  output : Option String := none
deriving DecidableEq, Repr, Inhabited

/-- Arguments that do not name a compilation. -/
inductive Refusal where
  /-- They are wrong. -/
  | usage
  /-- They ask for the release. -/
  | version
  /-- They ask for help. -/
  | help
deriving DecidableEq, Repr, Inhabited

/-- Options that stand alone. -/
inductive Flag where
  | showTokens | showTree | version | help
deriving DecidableEq, Repr, Inhabited

/-- Options that take a value. -/
inductive Setting where
  | environment | sourceName | startLine | argument | output
deriving DecidableEq, Repr, Inhabited

/-- The option with this name behind two hyphens. -/
def longOption? : String → Option (Flag ⊕ Setting)
  | "show-tokens" => some (.inl .showTokens)
  | "show-ast" => some (.inl .showTree)
  | "version" => some (.inl .version)
  | "help" => some (.inl .help)
  | "env" => some (.inr .environment)
  | "source-name" => some (.inr .sourceName)
  | "start-line" => some (.inr .startLine)
  | "arg" => some (.inr .argument)
  | "output" => some (.inr .output)
  | _ => none

/-- The option with this letter behind one hyphen. -/
def shortOption? : Char → Option (Flag ⊕ Setting)
  | 't' => some (.inl .showTokens)
  | 'a' => some (.inl .showTree)
  | 'V' => some (.inl .version)
  | 'h' => some (.inl .help)
  | 'e' => some (.inr .environment)
  | 'o' => some (.inr .output)
  | _ => none

/-- What was read of the arguments so far. -/
structure Draft where
  script : Option String := none
  environment : Option String := none
  sourceName : Option String := none
  startLine : Option Nat := none
  arguments : List String := []
  showTokens : Bool := false
  showTree : Bool := false
  output : Option String := none

/-- A decimal number below `2 ^ 64`, which may have a plus sign. -/
def natOfText? (text : String) : Option Nat :=
  let digits :=
    match text.toList with
    | '+' :: digits => digits
    | digits => digits
  let value := Number.digitsValue digits
  if digits ≠ [] ∧ digits.all Char.isDigit ∧ value < UInt64.size then some value else none

/-- A value that may be given once. -/
def once {α : Type} (old : Option α) (new : Option α) : Except Refusal (Option α) :=
  match old, new with
  | none, some value => .ok (some value)
  | _, _ => .error .usage

/-- A path, which is not empty. -/
def path? (text : String) : Option String := if text.isEmpty then none else some text

namespace Draft

/-- Sets a flag, which may be given once.  Asking for the release or for help ends it all. -/
def flag (d : Draft) : Flag → Except Refusal Draft
  | .showTokens => if d.showTokens then .error .usage else .ok { d with showTokens := true }
  | .showTree => if d.showTree then .error .usage else .ok { d with showTree := true }
  | .version => .error .version
  | .help => .error .help

/-- Gives a setting its value.  Only arguments may be given more than once. -/
def set (d : Draft) (setting : Setting) (value : String) : Except Refusal Draft :=
  match setting with
  | .environment => return { d with environment := ← once d.environment (path? value) }
  | .sourceName => return { d with sourceName := ← once d.sourceName (some value) }
  | .startLine => return { d with startLine := ← once d.startLine (natOfText? value) }
  | .argument => return { d with arguments := d.arguments ++ [value] }
  | .output => return { d with output := ← once d.output (path? value) }

/-- The script, of which there is one. -/
def positional (d : Draft) (value : String) : Except Refusal Draft :=
  return { d with script := ← once d.script (path? value) }

def positionals (d : Draft) (values : List String) : Except Refusal Draft :=
  values.foldlM positional d

/-- The invocation, if there is a script. -/
def invocation (d : Draft) : Except Refusal Invocation :=
  match d.script with
  | none => .error .usage
  | some script =>
    .ok ⟨script, d.environment, d.sourceName, d.startLine.getD 1, d.arguments, d.showTokens,
      d.showTree, d.output⟩

end Draft

/-- Whether an argument is an option rather than a value; a single hyphen is a value. -/
def isOption (argument : String) : Bool :=
  argument.toList.head? == some '-' && argument != "-"

/-- What an option leaves to be read: a setting waits for its value in the next argument. -/
abbrev Step := Draft × Option Setting

/-- A long option behind its two hyphens, with a value if there is an equals sign in it. -/
def long (d : Draft) (text : List Char) : Except Refusal Step :=
  let name := String.ofList (text.takeWhile (· != '='))
  match longOption? name, text.dropWhile (· != '=') with
  | none, _ => .error .usage
  | some (.inl flag), [] => return (← d.flag flag, none)
  | some (.inl _), _ :: _ => .error .usage
  | some (.inr setting), [] => return (d, some setting)
  | some (.inr setting), _ :: value => return (← d.set setting (String.ofList value), none)

/-- Short options behind their hyphen.  A setting takes the rest as its value. -/
def short (d : Draft) : List Char → Except Refusal Step
  | [] => return (d, none)
  | c :: rest =>
    match shortOption? c with
    | none => .error .usage
    | some (.inl flag) => do short (← d.flag flag) rest
    | some (.inr setting) =>
      match rest with
      | [] => return (d, some setting)
      | '=' :: value | value => return (← d.set setting (String.ofList value), none)

/-- Reads arguments, the first of them the value of a waiting setting. -/
def readArguments (d : Draft) : Option Setting → List String → Except Refusal Draft
  | none, [] => .ok d
  | some _, [] => .error .usage
  | some setting, argument :: rest =>
    if isOption argument then .error .usage
    else do readArguments (← d.set setting argument) none rest
  | none, argument :: rest =>
    match argument.toList with
    | ['-', '-'] => d.positionals rest
    | '-' :: '-' :: text => do
      let (d, waiting) ← long d text
      readArguments d waiting rest
    | '-' :: c :: text => do
      let (d, waiting) ← short d (c :: text)
      readArguments d waiting rest
    | _ => do readArguments (← d.positional argument) none rest

/-- What a list of arguments asks for. -/
def Invocation.ofArguments (arguments : List String) : Except Refusal Invocation := do
  (← readArguments {} none arguments).invocation

/-! ## compiling -/

/-- What running the command shows and leaves behind. -/
structure Outcome where
  code : Nat
  stdout : String := ""
  stderr : String := ""
deriving DecidableEq, Repr, Inhabited

namespace Outcome

def success (text : String) : Outcome := ⟨0, text, ""⟩

def failure (message : String) : Outcome := ⟨1, "", "Error: " ++ message ++ "\n"⟩

/-- Something that could not be done, and why. -/
def failureBecause (action reason : String) : Outcome :=
  failure (action ++ "\n\nCaused by:\n    " ++ reason)

def ofRefusal : Refusal → Outcome
  | .usage => ⟨2, "", "Usage: twinec [OPTIONS] <SCRIPT>\n"⟩
  | .version => success "twinec 0.1.0\n"
  | .help =>
    success "Compiles a script and prints the result\n\nUsage: twinec [OPTIONS] <SCRIPT>\n"

end Outcome

/-- What the command finds on disk; a file that cannot be read comes with the reason. -/
structure Files where
  /-- The text of the file at a path. -/
  text : String → Except String String
  /-- The environment that the file at a path describes. -/
  environment : String → Except Outcome Environment

/-- An environment from the text of the file that describes it. -/
def environmentOfText (path : String) (text : Except String String) :
    Except Outcome Environment :=
  match text with
  | .error reason => .error (.failureBecause ("reading " ++ path) reason)
  | .ok text =>
    match (Json.ofText? text).bind Environment.ofJson? with
    | some env => .ok env
    | none => .error (.failureBecause ("parsing environment " ++ path) "invalid description")

/-- The end of a run: all is shown, or a program is left to be written to a file. -/
inductive Result where
  | done (outcome : Outcome)
  | write (path : String) (bytes : List UInt8)

/-- One line for each token. -/
def tokenLine (token : Token) : String :=
  Text.padRight 20 token.location.text ++ " " ++ token.kind.text ++ "\n"

namespace Invocation

/-- The script goes by its path unless it has another name. -/
def options (i : Invocation) : Options where
  sourceName := some (i.sourceName.getD i.script)
  startingLine := i.startLine
  mainArguments := i.arguments

/-- The steps that were asked for, up to what is to be shown. -/
def steps (i : Invocation) (text : String) : Compile Result := do
  Compile.tokenize text
  if i.showTokens then
    return .done (.success (Text.join "" ((← get).tokens.toList.map tokenLine)))
  Compile.build
  if i.showTree then
    return .done (.success ((Node.dumpOptional (← get).root).spread 0 ++ "\n"))
  Compile.compileRoot
  let program ← Compile.finish
  match i.output with
  | some path => return .write path program.toBytes
  | none => return .done (.success program.listing)

/-- Compiles the script.  A script that cannot be read is reported before the environment. -/
def run (i : Invocation) (files : Files) : Result :=
  match files.text i.script with
  | .error reason => .done (.failureBecause ("reading " ++ i.script) reason)
  | .ok text =>
    match i.environment.mapM files.environment with
    | .error outcome => .done outcome
    | .ok env =>
      match i.steps text (.start (env.getD {}) i.options) with
      | .ok result _ => result
      | .error error _ => .done (.failure error.text)

end Invocation

/-- The outcome of writing a program, with the reason if that failed. -/
def written (path : String) : Option String → Outcome
  | none => .success ""
  | some reason => .failureBecause ("writing " ++ path) reason

end HostScript.CommandLine
