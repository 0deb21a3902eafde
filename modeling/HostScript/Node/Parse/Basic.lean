import HostScript.Environment.Basic
import HostScript.Error
import HostScript.Function
import HostScript.Log
import HostScript.Node.Basic

/-!
# HostScript.Node.Parse.Basic

Reading syntax trees from tokens.  A reader knows the environment and the tokens, and moves a
cursor over them.  Behind the last token it meets the end of the script again and again, and cannot
move on.

Readers that repeat or nest take fuel, of which they need less than there are tokens left: every
repetition takes a token.
-/

namespace HostScript

/-- Whether `break` and `continue` are allowed at some place of a script. -/
structure Allowed where
  leave : Bool := false
  proceed : Bool := false
deriving DecidableEq, Repr, Inhabited

namespace Allowed

/-- Neither is allowed. -/
def nowhere : Allowed := ⟨false, false⟩

/-- The body of a loop. -/
def loopBody : Allowed := ⟨true, true⟩

/-- The last statement in the head of a for loop: a break leaves the loop, a continue would never
get past it. -/
def loopPost : Allowed := ⟨true, false⟩

/-- The cases of a switch, where a break leaves it, or those of a select, which have no break. -/
def cases (kind : SwitchKind) (allowed : Allowed) : Allowed :=
  { allowed with leave := kind = .switch }

end Allowed

namespace Parse

/-- What does not change while a script is read. -/
structure Input where
  environment : Environment
  tokens : Array Token
  /-- The token that stands behind all others. -/
  eof : Token

/-- What changes: where the next token is, whether `break` and `continue` are allowed there, and
what was found so far.  It survives an error. -/
structure State where
  cursor : Nat := 0
  allowed : Allowed := .nowhere
  functions : FunctionTable := {}
  log : Log := #[]

end Parse

abbrev Parse := ReaderT Parse.Input (EStateM CompileError Parse.State)

namespace Parse

def fail {α : Type} (location : Location) (cause : Cause) : Parse α := throw ⟨location, cause⟩

/-- The token so many places behind the next one. -/
def peek (offset : Nat) : Parse Token := fun input state =>
  .ok (input.tokens[state.cursor + offset]?.getD input.eof) state

/-- The next token. -/
def current : Parse Token := peek 0

/-- How many tokens are left. -/
def remaining : Parse Nat := fun input state => .ok (input.tokens.size - state.cursor) state

/-- Moves on, except at the end of the tokens. -/
def advance : Parse Unit := fun input state =>
  .ok () (if state.cursor < input.tokens.size then { state with cursor := state.cursor + 1 }
    else state)

/-- Moves back, except at the start of the tokens. -/
def retreat : Parse Unit := fun _ state => .ok () { state with cursor := state.cursor - 1 }

/-- Takes the next token. -/
def next : Parse Token := do
  let token ← current
  advance
  return token

/-- Takes the next token if it is of this kind, and says whether it was. -/
def accept (kind : TokenKind) : Parse Bool := do
  if (← current).kind = kind then
    advance
    return true
  else
    return false

/-- Takes a token that has to be of this kind. -/
def expect (kind : TokenKind) : Parse Token := do
  let token ← next
  if token.kind = kind then return token
  else fail token.location (.unexpected (.token kind) token.kind)

def record (entry : LogRecord) : Parse Unit :=
  modify fun state => { state with log := state.log.push entry }

def environment : Parse Environment := return (← read).environment

/-- Whether `break` and `continue` are allowed at the next token. -/
def allowed : Parse Allowed := return (← get).allowed

/-- Reads something where `enter` says what is allowed.  Behind it that is put back by `restore`,
which is given what was allowed before and what is allowed now, also when reading fails. -/
def bracket {α : Type} (enter : Allowed → Allowed) (restore : Allowed → Allowed → Allowed)
    (x : Parse α) : Parse α := fun input state =>
  match x input { state with allowed := enter state.allowed } with
  | .ok a state' => .ok a { state' with allowed := restore state.allowed state'.allowed }
  | .error e state' => .error e { state' with allowed := restore state.allowed state'.allowed }

/-- Something in brackets is read if it is where the brackets say what is allowed. -/
theorem bracket_eq_ok {α : Type} {enter : Allowed → Allowed}
    {restore : Allowed → Allowed → Allowed} {x : Parse α} {input : Input} {state state' : State}
    {a : α} :
    bracket enter restore x input state = .ok a state' ↔
      ∃ state₁, x input { state with allowed := enter state.allowed } = .ok a state₁ ∧
        { state₁ with allowed := restore state.allowed state₁.allowed } = state' := by
  unfold bracket
  cases x input { state with allowed := enter state.allowed } with
  | ok b state₁ => simp [and_assoc]
  | error e state₁ => simp

/-- Reads a part of a loop or function, which says itself what is allowed in it. -/
def within {α : Type} (inner : Allowed) : Parse α → Parse α :=
  bracket (fun _ => inner) fun outer _ => outer

/-- Reads the cases of a switch or select, which say whether a break is allowed, and nothing about
a continue. -/
def inCases {α : Type} (kind : SwitchKind) : Parse α → Parse α :=
  bracket (·.cases kind) fun outer inner => { inner with leave := outer.leave }

/-- The end of the fuel, which no reader comes to. -/
def noProgress {α : Type} : Parse α := do fail (← current).location .noProgress

/-- Repeats a reader until it finds the end. -/
def collect {α : Type} (item : Parse (Option α)) : Nat → Parse (List α)
  | 0 => noProgress
  | fuel + 1 => do
    match ← item with
    | some a => return a :: (← collect item fuel)
    | none => return []

/-- Repeats a reader until it finds the end, with fuel for the tokens that are left. -/
def many {α : Type} (item : Parse (Option α)) : Parse (List α) := do
  collect item ((← remaining) + 1)

/-- So many tokens, whatever they are. -/
def take : Nat → Parse (List Token)
  | 0 => return []
  | count + 1 => do
    let token ← next
    return token :: (← take count)

end Parse

end HostScript
