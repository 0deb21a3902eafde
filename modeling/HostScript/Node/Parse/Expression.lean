import HostScript.Node.Parse.Basic
import HostScript.Node.Precedence

/-!
# HostScript.Node.Parse.Expression

Reading expressions.  The readers below take the reader for nested expressions as an argument,
which is told whether to read binary operators behind the operand; `expression` ties the knot.
-/

namespace HostScript.Parse

/-- Arguments up to the closing parenthesis, at least one. -/
def argumentsFrom (nested : Bool → Parse Node) (opening : Location) : Nat → Parse (List Node)
  | 0 => noProgress
  | fuel + 1 => do
    let argument ← nested true
    let separator ← next
    match separator.kind with
    | .comma => return argument :: (← argumentsFrom nested opening fuel)
    | .parenClose => return [argument]
    | .eof => fail opening .argumentsNeverClosed
    | kind => fail separator.location (.unexpected .separator kind)

/-- `(a, b, c)` -/
def arguments (nested : Bool → Parse Node) : Parse (List Node) := do
  let opening ← expect .parenOpen
  if ← accept .parenClose then return []
  else argumentsFrom nested opening.location ((← remaining) + 1)

/-- A field or an instance call behind a point, and the links behind it. -/
def chainLinks (nested : Bool → Parse Node) : Nat → Parse Node
  | 0 => noProgress
  | fuel + 1 => do
    let token ← next
    match token.kind with
    | .identifier name =>
      let link ←
        if (← current).kind = .parenOpen then
          pure (Node.call token.location name (← arguments nested))
        else pure (Node.identifier token.location name)
      if ← accept .period then return .chain token.location link (← chainLinks nested fuel)
      else return link
    | kind => fail token.location (.unexpected .chainLink kind)

/-- If a point follows, `base` is the start of a chain. -/
def continueChain (nested : Bool → Parse Node) (location : Location) (base : Node) :
    Parse Node := do
  if ← accept .period then
    return .chain location base (← chainLinks nested ((← remaining) + 1))
  else return base

/-- An identifier, a call, a static call on a template, or a chain that starts with one of them. -/
def identifierExpression (nested : Bool → Parse Node) (location : Location) (name : String) :
    Parse Node := do
  let template := (← environment).template? name
  let base ←
    match (← current).kind, template, (← peek 1).kind with
    | .parenOpen, _, _ => pure (Node.call location name (← arguments nested))
    | .period, some _, .identifier function =>
      advance
      advance
      pure (Node.staticCall location name function (← arguments nested))
    | _, _, _ => pure (Node.identifier location name)
  continueChain nested location base

/-- `new Template(arguments)` or `new Template.constructor(arguments)` behind its keyword. -/
def newExpression (nested : Bool → Parse Node) (location : Location) : Parse Node := do
  let token ← next
  match token.kind with
  | .identifier name =>
    match (← environment).template? name with
    | none => fail token.location (.unknownTemplate name)
    | some template =>
      let function ←
        if ← accept .period then
          let token ← next
          match token.kind with
          | .identifier function => pure function
          | kind => fail token.location (.unexpected .constructorName kind)
        else pure Template.constructor
      let arguments ← arguments nested
      match template.staticFunction? function arguments.length with
      | none => fail location (.noConstructor name function arguments.length)
      | some _ => continueChain nested location (.staticCall location name function arguments)
  | kind => fail token.location (.unexpected .templateName kind)

/-- One operand, without the `++` or `--` that may follow it. -/
def operand (nested : Bool → Parse Node) : Parse Node := do
  let token ← next
  let location := token.location
  match token.kind with
  | .keyword .nullKw => return .null location
  | .number value => return .number location value
  | .string value => return .string location value
  | .identifier name => identifierExpression nested location name
  | .parenOpen =>
    let inner ← nested true
    let _ ← expect .parenClose
    return inner
  | .operator .sub => return .unary location .negate (← nested false)
  | .operator op => fail location (.notUnary op)
  | .unary op => return .unary location op (← nested false)
  | .adjust direction => return .adjust location .before (← nested false) direction
  | .keyword .newKw => newExpression nested location
  | kind => fail location (.unexpected .expression kind)

/-- If `++` or `--` follows, it steps `node`. -/
def adjusted (node : Node) : Parse Node := do
  match (← current).kind with
  | .adjust direction =>
    advance
    return .adjust node.location .after node direction
  | _ => return node

/-- An operator and the operand behind it, if an operator follows. -/
def operatorAndOperand (nested : Bool → Parse Node) : Parse (Option (BinaryOperator × Node)) := do
  match (← current).kind with
  | .operator op =>
    advance
    return some (op, ← nested false)
  | _ => return none

/-- The operators and operands that follow, folded with `first` into one tree. -/
def operators (nested : Bool → Parse Node) (first : Node) : Parse Node := do
  let rest ← many (operatorAndOperand nested)
  match Precedence.fold? Precedence.join (first, rest) with
  | some tree => return tree
  | none => fail (← current).location .operatorsLeft

/-- An operand and, if asked for, the binary operators behind it. -/
def expressionStep (nested : Bool → Parse Node) (withOperators : Bool) : Parse Node := do
  let node ← adjusted (← operand nested)
  if withOperators then operators nested node else return node

def expressionAt : Nat → Bool → Parse Node
  | 0, _ => noProgress
  | fuel + 1, withOperators => expressionStep (expressionAt fuel) withOperators

/-- Reads an expression, with fuel for the tokens that are left. -/
def expression (withOperators : Bool) : Parse Node := do
  expressionAt ((← remaining) + 1) withOperators

end HostScript.Parse
