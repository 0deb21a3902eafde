import HostScript.Code.Generator
import HostScript.Node.Basic

/-!
# HostScript.Code.Emit

Code for syntax trees.

Structured jumps are patched as soon as their targets are reached.  A `break` or `continue` is
written with a placeholder, which the loop or switch around it resolves once its body is complete.
Jumps to labels are remembered and linked when the program is finished.

The scope that these functions take is that of the script itself, whatever is around a node: the
parameters of the function around it are part of the generator.
-/

namespace HostScript.Generate

/-- The instruction that sets the last link of a chain. -/
def fieldSetter : Node → Generate Instruction
  | .identifier _ name => return .setField name
  | other => fail other.location (.notAssignable other.kindName)

/-- Reads the last link of a chain whose receiver is on the stack and returns the instruction that
sets it.  The receiver is duplicated: both reading and setting consume it. -/
def fieldGetterAndSetter : Node → Generate Instruction
  | .identifier location name => do
    put .duplicate location
    put (.pushField name) location
    return .setField name
  | other => fail other.location (.notAssignable other.kindName)

mutual

/-- Code for a node. -/
def emit : Node → Scope → Generate Unit
  | .null location, _ => put .pushNull location
  | .number location value, _ => put (.pushNumber value) location
  | .string location value, _ => put (.pushString value) location
  | .identifier location name, scope => do readName (← visible scope) location name
  | .chain _ current remaining, scope => do
    emit current scope
    emitLinks remaining scope
  | .call location name arguments, scope => do
    emitAll arguments scope
    put (.call name arguments.length) location
  | .staticCall location template name arguments, scope => do
    checkStaticCall scope location template name arguments.length
    emitAll arguments scope
    put (.callStatic template name arguments.length) location
  | .unary location op operand, scope => do
    emit operand scope
    put (.unaryOp op) location
  | .binary location op left right, scope => do
    emit left scope
    match op with
    | .and =>
      let skip ← push (.binaryAnd .unresolved) location
      emit right scope
      patchHere skip
    | .or =>
      let skip ← push (.binaryOr .unresolved) location
      emit right scope
      patchHere skip
    | op =>
      emit right scope
      put (.binaryOp op) location
  | .block _ statements, scope => emitAll statements scope
  | .returns location none, _ => do
    put .pushNull location
    put .ret location
  | .returns location (some value), scope => do
    emit value scope
    put .ret location
  | .discard location value, scope => do
    emit value scope
    put .discard location
  | .branch location condition accepted none, scope => do
    emit condition scope
    let skip ← push (.jumpUnless .unresolved) location
    emit accepted scope
    patchHere skip
  | .branch location condition accepted (some otherwise), scope => do
    emit condition scope
    let skipAccepted ← push (.jumpUnless .unresolved) location
    emit accepted scope
    let skipOtherwise ← push (.jump .unresolved) location
    patchHere skipAccepted
    emit otherwise scope
    patchHere skipOtherwise
  | .switch location kind value cases fallback, scope => do
    emit value scope
    let tests ← emitTests cases scope
    put .discard location
    let toFallback ← push (.jump .unresolved) location
    let start ← here
    emitBodies cases kind tests scope
    patchHere toFallback
    emitOptional fallback scope
    let stop ← here
    patchLoop start stop (some stop) none
  | .assign location none target value, scope => do
    let setter ← emitSetter target scope
    emit value scope
    put setter location
  | .assign location (some op) target value, scope => do
    let setter ← emitGetterAndSetter target scope
    emit value scope
    put (.binaryOp op) location
    put setter location
  | .adjust location kind target direction, scope => do
    match kind, target with
    | .before, .chain .. | .after, .chain .. => fail location .fieldIncrement
    | _, _ => pure ()
    let setter ← emitGetterAndSetter target scope
    if kind = .after then put .duplicate location
    put (.pushNumber direction.number) location
    put (.binaryOp .add) location
    if kind = .before then put .duplicate location
    put setter location
  | .whileLoop location condition body, scope => do
    let start ← here
    emit condition scope
    let exit ← push (.jumpUnless .unresolved) location
    let bodyStart ← here
    emit body scope
    put (.jump (.address start)) location
    let stop ← here
    patchHere exit
    patchLoop bodyStart stop (some stop) (some start)
  | .doLoop location body condition, scope => do
    let start ← here
    emit body scope
    let check ← here
    emit condition scope
    put (.jumpIf (.address start)) location
    let stop ← here
    patchLoop start check (some stop) (some check)
  | .forLoop location init condition post body, scope => do
    emit init scope
    let start ← here
    emit condition scope
    let exit ← push (.jumpUnless .unresolved) location
    let bodyStart ← here
    emit body scope
    let postStart ← here
    emit post scope
    put (.jump (.address start)) location
    let stop ← here
    patchHere exit
    patchLoop bodyStart stop (some stop) (some postStart)
  | .leave location, _ => put (.jump .breakPoint) location
  | .proceed location, _ => put (.jump .continuePoint) location
  | .label location name statement, scope => do
    declareLabel name location
    emit statement scope
  | .jump location name, _ => do
    let address ← push (.jump .unresolved) location
    awaitLabel name address location
  | .callLabel location name, _ => do
    let address ← push (.jumpPush .unresolved) location
    awaitLabel name address location
  | .back location, _ => put .jumpPop location
  | .directive location _ code statements, scope => do
    putAll code location
    emitAll statements scope
  | .function location id name parameters body, scope => do
    let skip ← push (.jump .unresolved) location
    let start ← here
    inFunction parameters (emit body scope)
    closeFunction location id name skip start

/-- Code for nodes one after the other. -/
def emitAll : List Node → Scope → Generate Unit
  | [], _ => pure ()
  | node :: nodes, scope => do
    emit node scope
    emitAll nodes scope

def emitOptional : Option Node → Scope → Generate Unit
  | none, _ => pure ()
  | some node, scope => emit node scope

/-- A field access or instance call on the value on top of the stack. -/
def emitLink : Node → Scope → Generate Unit
  | .identifier location name, _ => put (.pushField name) location
  | .call location name arguments, scope => do
    emitAll arguments scope
    put (.callInstance name arguments.length) location
  | other, _ => fail other.location (.notAChainLink other.kindName)

/-- All links of a chain from here on. -/
def emitLinks : Node → Scope → Generate Unit
  | .chain _ current remaining, scope => do
    emitLink current scope
    emitLinks remaining scope
  | .identifier location name, _ => put (.pushField name) location
  | .call location name arguments, scope => do
    emitAll arguments scope
    put (.callInstance name arguments.length) location
  | other, _ => fail other.location (.notAChainLink other.kindName)

/-- All links of a chain from here on but the last. -/
def emitReceiver : Node → Scope → Generate Unit
  | .chain _ current remaining, scope => do
    emitLink current scope
    emitReceiver remaining scope
  | _, _ => pure ()

/-- Pushes what has to be on the stack below a value that is assigned, and returns the instruction
that assigns it. -/
def emitSetter : Node → Scope → Generate Instruction
  | .identifier location name, scope => do nameSetter (← visible scope) location name
  | .chain _ current remaining, scope => do
    emit current scope
    emitReceiver remaining scope
    fieldSetter remaining.lastLink
  | other, _ => fail other.location (.notAssignable other.kindName)

/-- Like `emitSetter`, and pushes the current value of the target as well. -/
def emitGetterAndSetter : Node → Scope → Generate Instruction
  | .identifier location name, scope => do
    let names ← visible scope
    let setter ← nameSetter names location name
    readName names location name
    return setter
  | .chain _ current remaining, scope => do
    emit current scope
    emitReceiver remaining scope
    fieldGetterAndSetter remaining.lastLink
  | other, _ => fail other.location (.notAssignable other.kindName)

/-- The comparisons with the case values; returns the addresses of their jumps. -/
def emitTests : List SwitchCase → Scope → Generate (List Nat)
  | [], _ => return []
  | .mk value _ :: cases, scope => do
    emit value scope
    let test ← push (.switchJump .unresolved) value.location
    let tests ← emitTests cases scope
    return test :: tests

/-- The bodies of the cases, each behind the target of its jump.  Those of a select end in a
break. -/
def emitBodies : List SwitchCase → SwitchKind → List Nat → Scope → Generate Unit
  | .mk _ body :: cases, kind, test :: tests, scope => do
    patchHere test
    emit body scope
    if kind = .select then put (.jump .breakPoint) body.location
    emitBodies cases kind tests scope
  | _, _, _, _ => pure ()

end

end HostScript.Generate
