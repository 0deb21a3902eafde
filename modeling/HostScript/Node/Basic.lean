import HostScript.Instruction
import HostScript.Token.Basic

/-!
# HostScript.Node.Basic

Syntax trees.  Expressions, statements and the links of chains are nodes of one type, and every
node carries the location of its leading token.
-/

namespace HostScript

/-- Which value a stepped variable yields. -/
inductive AdjustKind where
  /-- `++a` yields the new value. -/
  | before
  /-- `a++` yields the old value. -/
  | after
  /-- `a++;` as a whole statement yields nothing. -/
  | statement
deriving DecidableEq, Repr, Inhabited

inductive SwitchKind where
  /-- The body of a case runs on into that of the next one. -/
  | switch
  /-- The body of a case ends the whole statement. -/
  | select
deriving DecidableEq, Repr, Inhabited

mutual

inductive Node where
  | null (location : Location)
  | number (location : Location) (value : Number)
  | string (location : Location) (value : String)
  | identifier (location : Location) (name : String)
  /-- `current.remaining`, where `remaining` is the last link or another chain. -/
  | chain (location : Location) (current remaining : Node)
  /-- `name(arguments)` -/
  | call (location : Location) (name : String) (arguments : List Node)
  /-- `template.name(arguments)` and `new template(arguments)` -/
  | staticCall (location : Location) (template name : String) (arguments : List Node)
  | unary (location : Location) (op : UnaryOperator) (operand : Node)
  | binary (location : Location) (op : BinaryOperator) (left right : Node)
  | block (location : Location) (statements : List Node)
  | returns (location : Location) (value : Option Node)
  /-- Evaluates an expression and drops the result. -/
  | discard (location : Location) (value : Node)
  | branch (location : Location) (condition accepted : Node) (otherwise : Option Node)
  | switch (location : Location) (kind : SwitchKind) (value : Node) (cases : List SwitchCase)
      (fallback : Option Node)
  /-- `target = value` or, with an operator, `target op= value` -/
  | assign (location : Location) (op : Option BinaryOperator) (target value : Node)
  | adjust (location : Location) (kind : AdjustKind) (target : Node) (direction : Direction)
  | whileLoop (location : Location) (condition body : Node)
  | doLoop (location : Location) (body condition : Node)
  | forLoop (location : Location) (init condition post body : Node)
  | leave (location : Location)
  | proceed (location : Location)
  | label (location : Location) (name : String) (statement : Node)
  | jump (location : Location) (label : String)
  /-- `call label`: remembers where to come back to, then jumps. -/
  | callLabel (location : Location) (label : String)
  | back (location : Location)
  /-- A directive that emits some instructions and then some statements. -/
  | directive (location : Location) (name : String) (code : List Instruction)
      (statements : List Node)
  | function (location : Location) (id : Nat) (name : String) (parameters : List String)
      (body : Node)

inductive SwitchCase where
  | mk (value body : Node)

end

instance : Inhabited Node := ⟨.null default⟩

instance : Inhabited SwitchCase := ⟨.mk default default⟩

namespace SwitchCase

def value : SwitchCase → Node
  | mk value _ => value

def body : SwitchCase → Node
  | mk _ body => body

end SwitchCase

namespace Node

def location : Node → Location
  | null l | number l _ | string l _ | identifier l _ | chain l .. | call l .. | staticCall l ..
  | unary l .. | binary l .. | block l _ | returns l _ | discard l _ | branch l .. | switch l ..
  | assign l .. | adjust l .. | whileLoop l .. | doLoop l .. | forLoop l .. | leave l | proceed l
  | label l .. | jump l _ | callLabel l _ | back l | directive l .. | function l .. => l

/-- A short name for the kind of a node. -/
def kindName : Node → String
  | null _ => "null"
  | number .. => "number"
  | string .. => "string"
  | identifier .. => "identifier"
  | chain .. => "evaluation chain"
  | call .. => "function call"
  | staticCall .. => "static function call"
  | unary .. => "unary operation"
  | binary .. => "binary operation"
  | block .. => "block"
  | returns .. => "return"
  | discard .. => "discard"
  | branch .. => "if"
  | switch _ .switch .. => "switch"
  | switch _ .select .. => "select"
  | assign .. => "assignment"
  | adjust .. => "increment"
  | whileLoop .. => "while"
  | doLoop .. => "do-while"
  | forLoop .. => "for"
  | leave _ => "break"
  | proceed _ => "continue"
  | label .. => "label"
  | jump .. => "jump"
  | callLabel .. => "call"
  | back _ => "back"
  | directive .. => "directive"
  | function .. => "function definition"

/-- The link at the end of a chain; any other node is its own last link. -/
def lastLink : Node → Node
  | chain _ _ remaining => remaining.lastLink
  | other => other

end Node

end HostScript
