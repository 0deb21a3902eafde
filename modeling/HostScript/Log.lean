import HostScript.Location

/-!
# HostScript.Log

What compiling reports about its progress.
-/

namespace HostScript

inductive LogRecord where
  | tokenized (stop : Location) (tokens : Nat)
  | parsed (statements functions : Nat)
  | registered (name : String) (argc : Nat)
  | directive (name : String) (location : Location)
  | labelled (name : String) (address : Nat)
  | generated (instructions : Nat)
  | linked (address : Nat) (label : String) (target : Nat)
  | finished (instructions functions labels : Nat)
deriving DecidableEq, Repr, Inhabited

namespace LogRecord

inductive Level where
  | debug | trace
deriving DecidableEq, Repr, Inhabited

def level : LogRecord → Level
  | tokenized .. | parsed .. | generated .. | finished .. => .debug
  | registered .. | directive .. | labelled .. | linked .. => .trace

def message : LogRecord → String
  | tokenized stop tokens =>
    "tokenized " ++ stop.text ++ " into " ++ toString tokens ++ " tokens"
  | parsed statements functions =>
    "built AST with " ++ toString statements ++ " top-level statements and " ++
      toString functions ++ " functions"
  | registered name argc => "registered function " ++ name ++ "(" ++ toString argc ++ " args)"
  | directive name location => "parsed directive #" ++ name ++ " at " ++ location.text
  | labelled name address => "label '" ++ name ++ "' is at " ++ toString address
  | generated instructions => "generated " ++ toString instructions ++ " instructions"
  | linked address label target =>
    "linking jump at " ++ toString address ++ " to label '" ++ label ++ "' (" ++
      toString target ++ ")"
  | finished instructions functions labels =>
    "finished program: " ++ toString instructions ++ " instructions, " ++ toString functions ++
      " functions, " ++ toString labels ++ " labels"

/-- A record as one line: its level, then its message. -/
def text (r : LogRecord) : String :=
  (match r.level with
    | .debug => "DEBUG "
    | .trace => "TRACE ") ++ r.message

end LogRecord

/-- Records in the order in which they were made. -/
abbrev Log := Array LogRecord

end HostScript
