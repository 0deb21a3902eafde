import HostScript.Location
import HostScript.Number.Format
import HostScript.Operator
import HostScript.Text.Quoted

/-!
# HostScript.Token.Basic

The words a script is made of.
-/

namespace HostScript

/-- Reserved words.  `true`, `false` and `var` are no keywords: the first two are numbers, the
last one means nothing. -/
inductive Keyword where
  | ifKw | elseKw | returnKw | whileKw | doKw | forKw | breakKw | continueKw
  | labelKw | jumpKw | callKw | backKw
  | selectKw | switchKw | caseKw | defaultKw
  | functionKw | nullKw | newKw
deriving DecidableEq, Repr, Inhabited

namespace Keyword

def all : List Keyword :=
  [ifKw, elseKw, returnKw, whileKw, doKw, forKw, breakKw, continueKw, labelKw, jumpKw, callKw,
    backKw, selectKw, switchKw, caseKw, defaultKw, functionKw, nullKw, newKw]

def text : Keyword → String
  | ifKw => "if"
  | elseKw => "else"
  | returnKw => "return"
  | whileKw => "while"
  | doKw => "do"
  | forKw => "for"
  | breakKw => "break"
  | continueKw => "continue"
  | labelKw => "label"
  | jumpKw => "jump"
  | callKw => "call"
  | backKw => "back"
  | selectKw => "select"
  | switchKw => "switch"
  | caseKw => "case"
  | defaultKw => "default"
  | functionKw => "function"
  | nullKw => "null"
  | newKw => "new"

/-- The keyword that is written like `word`. -/
def ofText? (word : String) : Option Keyword := all.find? (·.text == word)

end Keyword

/-- The way a variable is stepped by `++` or `--`.  The lexer makes steps by one up or down, and
steps by other amounts have no token here. -/
inductive Direction where
  | up | down
deriving DecidableEq, Repr, Inhabited

namespace Direction

def delta : Direction → Int
  | up => 1
  | down => -1

/-- The number that is added to the variable. -/
def number : Direction → Number
  | up => Number.one
  | down => Number.minusOne

def text : Direction → String
  | up => "++"
  | down => "--"

end Direction

inductive TokenKind where
  | semicolon | colon | comma | period | pound | backslash
  | parenOpen | parenClose | braceOpen | braceClose
  | operator (op : BinaryOperator)
  | unary (op : UnaryOperator)
  /-- An assignment; the compound forms such as `+=` carry their operator. -/
  | set (op : Option BinaryOperator)
  | adjust (direction : Direction)
  | number (value : Number)
  | string (value : String)
  | identifier (name : String)
  | keyword (word : Keyword)
  | eof
deriving DecidableEq, Repr, Inhabited

namespace TokenKind

/-- The token as messages show it. -/
def text : TokenKind → String
  | semicolon => ";"
  | colon => ":"
  | comma => ","
  | period => "."
  | pound => "#"
  | backslash => "\\"
  | parenOpen => "("
  | parenClose => ")"
  | braceOpen => "\x7b"
  | braceClose => "\x7d"
  | operator op => op.text
  | unary op => op.text
  | set none => "="
  | set (some op) => op.text ++ "="
  | adjust direction => direction.text
  | number value => value.text
  | string value => Text.quote value
  | identifier name => name
  | keyword word => word.text
  | eof => "end of file"

/-- The name of an identifier. -/
def identifier? : TokenKind → Option String
  | identifier name => some name
  | _ => none

end TokenKind

/-- A token and the place of its first character. -/
structure Token where
  kind : TokenKind
  location : Location
deriving DecidableEq, Repr, Inhabited

end HostScript
