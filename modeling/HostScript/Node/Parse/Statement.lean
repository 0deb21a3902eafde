import HostScript.Node.Parse.Expression

/-!
# HostScript.Node.Parse.Statement

Reading statements.  The readers below take the reader for nested statements as an argument;
`statement` ties the knot.  Loops, switches and functions change where `break` and `continue` are
allowed while their parts are read, and put it back behind them.
-/

namespace HostScript

namespace Parse

/-! ## blocks and switches -/

/-- A statement of a block, unless the block ends. -/
def blockItem (nested : Parse Node) (opening : Location) : Parse (Option Node) := do
  match (← current).kind with
  | .braceClose =>
    advance
    return none
  | .eof => fail opening .blockNeverClosed
  | _ => return some (← nested)

/-- The rest of a block behind its opening brace. -/
def block (nested : Parse Node) (opening : Location) : Parse Node :=
  return .block opening (← many (blockItem nested opening))

/-- A statement of a case, unless the next case or the end of the switch follows. -/
def caseItem (nested : Parse Node) (switch : Location) : Parse (Option Node) := do
  match (← current).kind with
  | .keyword .caseKw | .keyword .defaultKw | .braceClose => return none
  | .eof => fail switch .switchNeverClosed
  | _ => return some (← nested)

def caseBody (nested : Parse Node) (switch location : Location) : Parse Node :=
  return .block location (← many (caseItem nested switch))

/-- The cases up to the closing brace; `fallback` is the default body found so far. -/
def casesFrom (nested : Parse Node) (switch : Location) :
    Nat → Option Node → Parse (List SwitchCase × Option Node)
  | 0, _ => noProgress
  | fuel + 1, fallback => do
    let token ← next
    match token.kind with
    | .keyword .caseKw =>
      let value ← expression true
      let _ ← expect .colon
      let body ← caseBody nested switch token.location
      let (cases, fallback) ← casesFrom nested switch fuel fallback
      return (.mk value body :: cases, fallback)
    | .keyword .defaultKw =>
      if fallback.isSome then fail token.location .secondDefault
      let _ ← expect .colon
      let body ← caseBody nested switch token.location
      casesFrom nested switch fuel (some body)
    | .braceClose => return ([], fallback)
    | kind => fail token.location (.unexpected .caseClause kind)

/-- A switch or select behind its keyword. -/
def switch (nested : Parse Node) (location : Location) (kind : SwitchKind) : Parse Node := do
  let value ← expression true
  let _ ← expect .braceOpen
  let (cases, fallback) ←
    inCases kind (casesFrom nested location ((← remaining) + 1) none)
  return .switch location kind value cases fallback

/-! ## loops -/

/-- `for (init; condition; post) body` behind its keyword; the parentheses are optional. -/
def forLoop (nested : Parse Node) (location : Location) : Parse Node := do
  let parenthesized ← accept .parenOpen
  let init ← nested
  let condition ← expression true
  let _ ← accept .semicolon
  let post ← within .loopPost nested
  if parenthesized then
    let _ ← expect .parenClose
  let body ← within .loopBody nested
  return .forLoop location init condition post body

/-! ## labels and directives -/

/-- The name of a label: an identifier or a string. -/
def labelName : Parse String := do
  let token ← next
  match token.kind with
  | .identifier name | .string name => return name
  | kind => fail token.location (.unexpected .labelName kind)

/-- A label behind its keyword.  At the end of a block it stands before nothing. -/
def label (nested : Parse Node) (location : Location) : Parse Node := do
  let name ← labelName
  let _ ← accept .colon
  let token ← current
  match token.kind with
  | .braceClose | .eof => return .label location name (.block token.location [])
  | _ => return .label location name (← nested)

/-- What follows the name of a directive, read by its rule. -/
def directiveBody (nested : Parse Node) (name : Token) :
    DirectiveRule → Parse (List Instruction × List Node)
  | .marker => return ([], [])
  | .arguments count code => do
    match code (← take count) with
    | .ok code => return (code, [])
    | .error message => fail name.location (.refusedDirective message)
  | .statement copies => return ([], List.replicate copies (← nested))

/-- A directive behind its `#`. -/
def directive (nested : Parse Node) (location : Location) : Parse Node := do
  let token ← next
  match token.kind with
  | .identifier _ | .keyword _ =>
    let name := token.kind.text
    match (← environment).directive? name with
    | none => fail token.location (.invalidDirective name)
    | some rule =>
      let (code, statements) ← directiveBody nested token rule
      record (.directive name location)
      return .directive location name code statements
  | kind => fail token.location (.unexpected .directiveName kind)

/-! ## functions -/

/-- Parameters up to the closing parenthesis, behind those in `parameters`. -/
def parametersFrom (function : String) : Nat → List String → Parse (List String)
  | 0, _ => noProgress
  | fuel + 1, parameters => do
    let token ← next
    match token.kind with
    | .identifier parameter =>
      if parameter ∈ parameters then
        fail token.location (.secondParameter parameter function)
      let separator ← next
      match separator.kind with
      | .comma => parametersFrom function fuel (parameters ++ [parameter])
      | .parenClose => return parameters ++ [parameter]
      | kind => fail separator.location (.unexpected .separator kind)
    | kind => fail token.location (.unexpected .parameterName kind)

/-- `(a, b)` -/
def parameters (function : String) : Parse (List String) := do
  let _ ← expect .parenOpen
  if ← accept .parenClose then return []
  else parametersFrom function ((← remaining) + 1) []

/-- The name that a new script function collides with.  Script functions share their name space
with macros, builtins, constants and host functions, and only they can be overloaded. -/
def rival? (env : Environment) (functions : FunctionTable) (name : String) (argc : Nat) :
    Option Rival :=
  match functions.find? name argc, env.macroSignature? name argc, env.builtin? name argc,
    decide (argc = 0) && (env.constant? name).isSome, env.globalFunction? name with
  | some f, _, _, _, _ => some (.scriptFunction f.text)
  | none, some s, _, _, _ => some (.preprocessed s.text)
  | none, none, some s, _, _ => some (.builtin s.text)
  | none, none, none, true, _ => some (.constant name)
  | none, none, none, false, some f => some (.hostFunction f.name)
  | none, none, none, false, none => none

/-- Adds a function to the table and returns its id. -/
def register (name : String) (parameters : List String) (location : Location) : Parse Nat := do
  let functions := (← get).functions
  match rival? (← environment) functions name parameters.length with
  | some rival =>
    fail location (.nameTaken (Signature.mk name parameters.length).text rival)
  | none =>
    modify fun state => { state with functions := functions.register name parameters }
    record (.registered name parameters.length)
    return functions.size

/-- `function name(a, b) { … }` behind its keyword.  The function is registered behind its body,
which may call it nevertheless: calls are resolved when the program is finished. -/
def function (nested : Parse Node) (location : Location) : Parse Node := do
  let nameToken ← next
  match nameToken.kind with
  | .identifier name =>
    let parameters ← parameters name
    let opening ← current
    if opening.kind ≠ .braceOpen then
      fail opening.location (.unexpected (.functionBody name) opening.kind)
    let body ← within .nowhere nested
    let id ← register name parameters nameToken.location
    return .function location id name parameters body
  | kind => fail nameToken.location (.unexpected .functionName kind)

/-! ## statements -/

/-- A statement that starts like an expression: an assignment, an increment or a call. -/
def expressionStatement (location : Location) : Parse Node := do
  let node ← expression false
  match (← current).kind with
  | .set op =>
    advance
    return .assign location op node (← expression true)
  | _ =>
    match node with
    | .adjust location _ target direction =>
      return .adjust location .statement target direction
    | .call .. | .staticCall .. | .chain .. => return .discard location node
    | other => fail other.location (.notAStatement other.kindName)

/-- The value of a return statement, unless the statement ends. -/
def returnValue : Parse (Option Node) := do
  match (← current).kind with
  | .semicolon | .braceClose | .eof => return none
  | _ => return some (← expression true)

/-- The rest of a statement that starts with `token`. -/
def statementFrom (nested : Parse Node) (token : Token) : Parse Node := do
  let location := token.location
  match token.kind with
  | .keyword .returnKw => return .returns location (← returnValue)
  | .keyword .ifKw =>
    let condition ← expression true
    let accepted ← nested
    if ← accept (.keyword .elseKw) then
      return .branch location condition accepted (some (← nested))
    else return .branch location condition accepted none
  | .keyword .switchKw => switch nested location .switch
  | .keyword .selectKw => switch nested location .select
  | .braceOpen => block nested location
  | .keyword .whileKw =>
    let condition ← expression true
    return .whileLoop location condition (← within .loopBody nested)
  | .keyword .doKw =>
    let body ← within .loopBody nested
    let _ ← expect (.keyword .whileKw)
    return .doLoop location body (← expression true)
  | .keyword .forKw => forLoop nested location
  | .keyword .breakKw =>
    if (← allowed).leave then return .leave location else fail location .breakOutside
  | .keyword .continueKw =>
    if (← allowed).proceed then return .proceed location else fail location .continueOutside
  | .keyword .labelKw => label nested location
  | .keyword .jumpKw => return .jump location (← labelName)
  | .keyword .callKw => return .callLabel location (← labelName)
  | .keyword .backKw => return .back location
  | .keyword .functionKw => function nested location
  | .pound => directive nested location
  | _ =>
    retreat
    expressionStatement location

/-- A statement and the semicolon that may follow it. -/
def statementStep (nested : Parse Node) : Parse Node := do
  let token ← next
  let node ← statementFrom nested token
  let _ ← accept .semicolon
  return node

def statementAt : Nat → Parse Node
  | 0 => noProgress
  | fuel + 1 => statementStep (statementAt fuel)

/-- Reads a statement, with fuel for the tokens that are left. -/
def statement : Parse Node := do
  statementAt ((← remaining) + 1)

/-- A statement, unless the script ends. -/
def scriptItem : Parse (Option Node) := do
  match (← current).kind with
  | .eof => return none
  | _ => return some (← statement)

/-- All statements of a script as one block.  Outside of all of them neither `break` nor `continue`
is allowed, whatever was allowed before. -/
def script : Parse Node := do
  modify fun state => { state with allowed := .nowhere }
  let location := (← current).location
  let statements ← many scriptItem
  record (.parsed statements.length (← get).functions.size)
  return .block location statements

end Parse

end HostScript
