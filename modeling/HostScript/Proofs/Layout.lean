import HostScript.Code.Emit
import HostScript.Proofs.Fragment

/-!
# HostScript.Proofs.Layout

The code of a syntax tree, without its history.  `Generate.emit` writes jumps before it knows where
they go and patches them later; `layout` gives the finished fragment at once, with every target in
place that the tree itself settles.  What is left open are the breaks and continues of a loop
further out and the jumps to labels.

`emit_extends` in `Proofs.Emission` says that the two agree: a tree that `emit` accepts extends the
generator by its layout.  Whatever holds of all layouts therefore holds of all generated code.
-/

namespace HostScript.Generate

/-! ## the layout of a tree -/

/-- The instructions that a read of a name turns into. -/
def readCode (scope : Scope) (name : String) : List Instruction :=
  match scope.environment.constant? name, scope.environment.systemMacro? name,
    scope.parameters.idxOf? name with
  | some constant, _, _ => [constant.instruction]
  | none, some code, _ => code
  | none, none, some index => [.pushArgument index]
  | none, none, none => [.pushIdentifier name]

/-- The name at the end of a chain. -/
def lastName : Node → String
  | .chain _ _ remaining => lastName remaining
  | .identifier _ name => name
  | _ => ""

/-- The instruction that stores into a target.  Only names and chains are accepted as targets; what
stands for others here and in `layoutCurrent` does no more than keep the stack in order. -/
def storeCode : Node → Instruction
  | .identifier _ name => .setIdentifier name
  | .chain _ _ remaining => .setField (lastName remaining)
  | _ => .setIdentifier ""

mutual

/-- The fragment of a node whose code starts at `base`. -/
def layout : Node → Scope → Nat → Fragment
  | .null _, _, _ => .one .pushNull
  | .number _ value, _, _ => .one (.pushNumber value)
  | .string _ value, _, _ => .one (.pushString value)
  | .identifier _ name, scope, _ => .ofCode (readCode scope name)
  | .chain _ current remaining, scope, base =>
    let receiver := layout current scope base
    receiver ++ layoutLinks remaining scope (base + receiver.size)
  | .call _ name arguments, scope, base =>
    layoutAll arguments scope base ++ .one (.call name arguments.length)
  | .staticCall _ template name arguments, scope, base =>
    layoutAll arguments scope base ++ .one (.callStatic template name arguments.length)
  | .unary _ op operand, scope, base => layout operand scope base ++ .one (.unaryOp op)
  | .binary _ op left right, scope, base =>
    let first := layout left scope base
    let test := base + first.size
    match op with
    | .and => first ++ .jumpOver .binaryAnd test (layout right scope (test + 1))
    | .or => first ++ .jumpOver .binaryOr test (layout right scope (test + 1))
    | op => first ++ layout right scope test ++ .one (.binaryOp op)
  | .block _ statements, scope, base => layoutAll statements scope base
  | .returns _ none, _, _ => .ofCode [.pushNull, .ret]
  | .returns _ (some value), scope, base => layout value scope base ++ .one .ret
  | .discard _ value, scope, base => layout value scope base ++ .one .discard
  | .branch _ condition accepted none, scope, base =>
    let first := layout condition scope base
    let test := base + first.size
    first ++ .jumpOver .jumpUnless test (layout accepted scope (test + 1))
  | .branch _ condition accepted (some otherwise), scope, base =>
    let first := layout condition scope base
    let test := base + first.size
    let second := layout accepted scope (test + 1)
    let skip := test + 1 + second.size
    first ++ .one (.jumpUnless (.address (skip + 1))) ++ second ++
      .jumpOver .jump skip (layout otherwise scope (skip + 1))
  | .switch _ kind value cases fallback, scope, base =>
    let first := layout value scope base
    let tests := layoutTests cases [] scope (base + first.size)
    let start := base + first.size + tests.size + 2
    let bodies := layoutBodies cases kind scope start
    let last := layoutOptional fallback scope (start + bodies.size)
    first ++ layoutTests cases (bodyStarts cases kind scope start) scope (base + first.size) ++
      .ofCode [.discard, .jump (.address (start + bodies.size))] ++
      (bodies ++ last).retarget (some (start + bodies.size + last.size)) none
  | .assign _ none target value, scope, base =>
    let receiver := layoutTarget target scope base
    receiver ++ layout value scope (base + receiver.size) ++ .one (storeCode target)
  | .assign _ (some op) target value, scope, base =>
    let current := layoutCurrent target scope base
    current ++ layout value scope (base + current.size) ++ .ofCode [.binaryOp op, storeCode target]
  | .adjust _ kind target direction, scope, base =>
    layoutCurrent target scope base ++
      .ofCode ((if kind = .after then [.duplicate] else []) ++
        [.pushNumber direction.number, .binaryOp .add] ++
        (if kind = .before then [.duplicate] else []) ++ [storeCode target])
  | .whileLoop _ condition body, scope, base =>
    let first := layout condition scope base
    let test := base + first.size
    let turn := layout body scope (test + 1) ++ .one (.jump (.address base))
    first ++ .jumpOver .jumpUnless test (turn.retarget (some (test + 1 + turn.size)) (some base))
  | .doLoop _ body condition, scope, base =>
    let turn := layout body scope base
    let check := base + turn.size
    let second := layout condition scope check
    turn.retarget (some (check + second.size + 1)) (some check) ++ second ++
      .one (.jumpIf (.address base))
  | .forLoop _ init condition post body, scope, base =>
    let before := layout init scope base
    let start := base + before.size
    let first := layout condition scope start
    let test := start + first.size
    let turn := layout body scope (test + 1)
    let step := layout post scope (test + 1 + turn.size)
    let rest := turn ++ step ++ .one (.jump (.address start))
    before ++ first ++ .jumpOver .jumpUnless test
      (rest.retarget (some (test + 1 + rest.size)) (some (test + 1 + turn.size)))
  | .leave _, _, _ => .one (.jump .breakPoint)
  | .proceed _, _, _ => .one (.jump .continuePoint)
  | .label _ name statement, scope, base =>
    ({ labels := [(name, base)] } : Fragment) ++ layout statement scope base
  | .jump _ name, _, base => { code := [.jump .unresolved], waiting := [(name, base)] }
  | .callLabel _ name, _, base => { code := [.jumpPush .unresolved], waiting := [(name, base)] }
  | .back _, _, _ => .one .jumpPop
  | .directive _ _ code statements, scope, base =>
    .ofCode code ++ layoutAll statements scope (base + code.length)
  | .function _ id _ parameters body, scope, base =>
    let inner := (layout body { scope with parameters } (base + 1)).closed (base + 1)
    .jumpOver .jump base inner ++ ({ placements := [⟨id, base + 1, base + inner.size⟩] } : Fragment)

/-- The fragments of nodes one after the other. -/
def layoutAll : List Node → Scope → Nat → Fragment
  | [], _, _ => {}
  | node :: nodes, scope, base =>
    let first := layout node scope base
    first ++ layoutAll nodes scope (base + first.size)

def layoutOptional : Option Node → Scope → Nat → Fragment
  | none, _, _ => {}
  | some node, scope, base => layout node scope base

/-- A field access or instance call on the value on top of the stack. -/
def layoutLink : Node → Scope → Nat → Fragment
  | .identifier _ name, _, _ => .one (.pushField name)
  | .call _ name arguments, scope, base =>
    layoutAll arguments scope base ++ .one (.callInstance name arguments.length)
  | _, _, _ => {}

/-- All links of a chain from here on. -/
def layoutLinks : Node → Scope → Nat → Fragment
  | .chain _ current remaining, scope, base =>
    let link := layoutLink current scope base
    link ++ layoutLinks remaining scope (base + link.size)
  | .identifier _ name, _, _ => .one (.pushField name)
  | .call _ name arguments, scope, base =>
    layoutAll arguments scope base ++ .one (.callInstance name arguments.length)
  | _, _, _ => {}

/-- All links of a chain from here on but the last. -/
def layoutReceiver : Node → Scope → Nat → Fragment
  | .chain _ current remaining, scope, base =>
    let link := layoutLink current scope base
    link ++ layoutReceiver remaining scope (base + link.size)
  | _, _, _ => {}

/-- What has to be on the stack below a value that is stored into a target. -/
def layoutTarget : Node → Scope → Nat → Fragment
  | .chain _ current remaining, scope, base =>
    let first := layout current scope base
    first ++ layoutReceiver remaining scope (base + first.size)
  | _, _, _ => {}

/-- Like `layoutTarget`, with the current value of the target on top. -/
def layoutCurrent : Node → Scope → Nat → Fragment
  | .identifier _ name, scope, _ => .ofCode (readCode scope name)
  | .chain _ current remaining, scope, base =>
    let first := layout current scope base
    first ++ layoutReceiver remaining scope (base + first.size) ++
      .ofCode [.duplicate, .pushField (lastName remaining)]
  | _, _, _ => .one .pushNull

/-- The comparisons with the case values.  Those with a body address in `targets` jump there. -/
def layoutTests : List SwitchCase → List Nat → Scope → Nat → Fragment
  | [], _, _, _ => {}
  | .mk value _ :: cases, targets, scope, base =>
    let first := layout value scope base
    let target := targets.head?.elim .unresolved .address
    first ++ .one (.switchJump target) ++
      layoutTests cases targets.tail scope (base + first.size + 1)

/-- The bodies of the cases. -/
def layoutBodies : List SwitchCase → SwitchKind → Scope → Nat → Fragment
  | [], _, _, _ => {}
  | .mk _ body :: cases, kind, scope, base =>
    let first := layout body scope base ++
      .ofCode (if kind = .select then [.jump .breakPoint] else [])
    first ++ layoutBodies cases kind scope (base + first.size)

/-- The addresses of the bodies. -/
def bodyStarts : List SwitchCase → SwitchKind → Scope → Nat → List Nat
  | [], _, _, _ => []
  | .mk _ body :: cases, kind, scope, base =>
    let size := (layout body scope base).size + if kind = .select then 1 else 0
    base :: bodyStarts cases kind scope (base + size)

end

/-! ## switches -/

/-- Where the comparisons jump to does not change how long they are. -/
theorem size_layoutTests (cases : List SwitchCase) (targets : List Nat) (scope : Scope)
    (base : Nat) :
    (layoutTests cases targets scope base).size = (layoutTests cases [] scope base).size := by
  induction cases generalizing targets base with
  | nil => rfl
  | cons first cases ih =>
      obtain ⟨value, body⟩ := first
      simp only [layoutTests, Fragment.size_append, Fragment.size_one, List.tail_nil]
      rw [ih targets.tail]

/-- Each body starts where the one before it ends. -/
theorem bodyStarts_cons (value body : Node) (cases : List SwitchCase) (kind : SwitchKind)
    (scope : Scope) (base : Nat) :
    bodyStarts (.mk value body :: cases) kind scope base =
      base :: bodyStarts cases kind scope (base + (layout body scope base ++
        .ofCode (if kind = .select then [.jump .breakPoint] else [])).size) := by
  rw [bodyStarts, Fragment.size_append, Fragment.size_ofCode]
  split <;> rfl

theorem length_bodyStarts (cases : List SwitchCase) (kind : SwitchKind) (scope : Scope)
    (base : Nat) : (bodyStarts cases kind scope base).length = cases.length := by
  induction cases generalizing base with
  | nil => rfl
  | cons first cases ih =>
      obtain ⟨value, body⟩ := first
      rw [bodyStarts_cons, List.length_cons, ih, List.length_cons]

end HostScript.Generate
