import HostScript.Instruction
import HostScript.Token.Basic

/-!
# HostScript.Error

Why a script does not compile.  An error is a cause and the place it is found at; the wording of
all causes is in `Cause.message`.
-/

namespace HostScript

/-- The stage at fault: the text, the script, or the compiler itself. -/
inductive ErrorKind where
  | lexical | script | compiler
deriving DecidableEq, Repr, Inhabited

/-- What kind of name a script function collides with. -/
inductive Rival where
  | scriptFunction (text : String)
  | preprocessed (text : String)
  | builtin (text : String)
  | constant (name : String)
  | hostFunction (name : String)
deriving DecidableEq, Repr, Inhabited

def Rival.text : Rival → String
  | scriptFunction text => "the script function '" ++ text ++ "' that is already defined"
  | preprocessed text => "the macro '" ++ text ++ "'"
  | builtin text => "the builtin '" ++ text ++ "'"
  | constant name => "the compiler constant '" ++ name ++ "'"
  | hostFunction name => "the host function '" ++ name ++ "'"

/-- What kind of name cannot be assigned to. -/
inductive ReadOnly where
  | constant | systemMacro | argument
deriving DecidableEq, Repr, Inhabited

def ReadOnly.text : ReadOnly → String
  | constant => "constant"
  | systemMacro => "system macro"
  | argument => "argument"

/-- What the parser looked for when it met another token. -/
inductive Expected where
  | token (kind : TokenKind)
  | caseClause
  | labelName
  | directiveName
  | functionName
  | parameterName
  | separator
  | functionBody (name : String)
  | expression
  | chainLink
  | templateName
  | constructorName
deriving DecidableEq, Repr, Inhabited

def Expected.text : Expected → String
  | token kind => "'" ++ kind.text ++ "'"
  | caseClause => "'case', 'default' or '\x7d'"
  | labelName => "a label name"
  | directiveName => "a directive name after '#'"
  | functionName => "a function name"
  | parameterName => "a parameter name"
  | separator => "',' or ')'"
  | functionBody name => "'\x7b' to start the body of function '" ++ name ++ "'"
  | expression => "an expression"
  | chainLink => "a field or function name after '.'"
  | templateName => "a template name after 'new'"
  | constructorName => "a constructor name"

inductive Cause where
  /- text -/
  | unterminatedComment
  | unterminatedString
  | unexpectedCharacter (c : Char)
  | invalidNumber (text : String)
  /- script structure -/
  | unexpected (expected : Expected) (found : TokenKind)
  | notAStatement (found : String)
  | notUnary (op : BinaryOperator)
  | breakOutside
  | continueOutside
  | blockNeverClosed
  | switchNeverClosed
  | argumentsNeverClosed
  | secondDefault
  | secondParameter (parameter function : String)
  | nameTaken (signature : String) (rival : Rival)
  | unknownTemplate (name : String)
  | noConstructor (template name : String) (argc : Nat)
  | invalidDirective (name : String)
  | refusedDirective (message : String)
  /- names and targets -/
  | readOnly (what : ReadOnly) (name : String)
  | notAChainLink (found : String)
  | notAssignable (found : String)
  | fieldIncrement
  | noStaticFunction (template name : String) (argc : Nat)
  | secondLabel (name : String)
  | undeclaredLabel (name : String)
  | unresolvedCall (name : String) (argc : Nat)
  /- faults of the compiler -/
  | missingRoot
  | operatorsLeft
  | unregisteredFunction (name : String)
  | noJumpForLabel (address : Nat) (name : String)
  | invalidTarget (address : Nat) (target : JumpTarget)
  | noProgress
deriving DecidableEq, Repr, Inhabited

namespace Cause

def kind : Cause → ErrorKind
  | unterminatedComment | unterminatedString | unexpectedCharacter _ | invalidNumber _ => .lexical
  | missingRoot | operatorsLeft | unregisteredFunction _ | noJumpForLabel .. | invalidTarget ..
  | noProgress => .compiler
  | _ => .script

def message : Cause → String
  | unterminatedComment => "Unterminated block comment."
  | unterminatedString => "Unterminated string literal."
  | unexpectedCharacter c => "Unexpected character '" ++ Text.showChar c ++ "'."
  | invalidNumber text => "Invalid number '" ++ text ++ "'."
  | unexpected expected found =>
    "Expected " ++ expected.text ++ ", but got '" ++ found.text ++ "' instead."
  | notAStatement found => "Expected a statement, but got a " ++ found ++ " instead."
  | notUnary op => "'" ++ op.text ++ "' can not be used as a unary operator."
  | breakOutside => "'break' is only allowed inside of a loop or switch."
  | continueOutside => "'continue' is only allowed inside of a loop."
  | blockNeverClosed => "Block is never closed, expected '\x7d'."
  | switchNeverClosed => "Switch is never closed, expected '\x7d'."
  | argumentsNeverClosed => "Argument list is never closed."
  | secondDefault => "There can only be one default case."
  | secondParameter parameter function =>
    "Parameter '" ++ parameter ++ "' of function '" ++ function ++ "' is declared more than once."
  | nameTaken signature rival =>
    "Function '" ++ signature ++ "' conflicts with " ++ rival.text ++ "."
  | unknownTemplate name => "Unknown template '" ++ name ++ "'."
  | noConstructor template name argc =>
    "Template '" ++ template ++ "' has no constructor '" ++ name ++ "' taking " ++
      toString argc ++ " argument(s)."
  | invalidDirective name => "Invalid preprocessor directive '#" ++ name ++ "'."
  | refusedDirective message => message
  | readOnly what name => "Cannot modify read-only " ++ what.text ++ " '" ++ name ++ "'."
  | notAChainLink found => "A " ++ found ++ " can not be part of an evaluation chain."
  | notAssignable found => "A " ++ found ++ " can not be set to a value."
  | fieldIncrement => "Incrementing a field is only possible as a statement of its own."
  | noStaticFunction template name argc =>
    "Template '" ++ template ++ "' has no static function '" ++ name ++ "' taking " ++
      toString argc ++ " argument(s)."
  | secondLabel name => "Label '" ++ name ++ "' is defined more than once."
  | undeclaredLabel name => "Referenced an undeclared label '" ++ name ++ "'."
  | unresolvedCall name argc =>
    "Cannot resolve function '" ++ name ++ "' with " ++ toString argc ++ " argument(s)."
  | missingRoot => "there is no AST to compile"
  | operatorsLeft => "operators were not folded into one node"
  | unregisteredFunction name => "function '" ++ name ++ "' was never registered"
  | noJumpForLabel address name =>
    "no jump instruction at " ++ toString address ++ " for label '" ++ name ++ "'"
  | invalidTarget address target =>
    "jump at " ++ toString address ++ " has the invalid target " ++ target.text
  | noProgress => "the parser made no progress"

end Cause

structure CompileError where
  location : Location
  cause : Cause
deriving DecidableEq, Repr, Inhabited

namespace CompileError

def kind (e : CompileError) : ErrorKind := e.cause.kind

/-- The message without its place. -/
def message (e : CompileError) : String := e.cause.message

/-- The message behind its place. -/
def text (e : CompileError) : String :=
  e.location.text ++ ": " ++
    (if e.kind = .compiler then "A compiler bug was detected: " else "") ++ e.message

end CompileError

end HostScript
