import HostScript.Proofs.Emission
import HostScript.Proofs.Machine

/-!
# HostScript.Proofs.Evaluation

What an expression means, and that its code computes it.  `evaluate` walks over the tree from left
to right and knows nothing of stacks and addresses.  The code of an expression, wherever it stands
in a program, leaves what lies on the stack alone, puts the value on top and goes on right behind
itself.
-/

namespace HostScript

open Machine Generate

/-! ## what an expression means -/

/-- The value of a name.  A system macro stands for whatever its instructions push. -/
def readValue (H : Host) (scope : Scope) (name : String) : H.Action H.Value :=
  match scope.environment.constant? name, scope.environment.systemMacro? name,
    scope.parameters.idxOf? name with
  | some constant, _, _ => return H.constant constant
  | none, some code, _ => do
    match ← effects H code [] with
    | [value] => return value
    | _ => failure
  | none, none, some index => H.argument index
  | none, none, none => H.read name

/-- Something that can be assigned to. -/
inductive Place (H : Host) where
  | named (name : String)
  | field (receiver : H.Value) (name : String)

namespace Place

variable {H : Host}

def fetch : Place H → H.Action H.Value
  | .named name => H.read name
  | .field receiver name => H.field name receiver

def store (value : H.Value) : Place H → H.Action Unit
  | .named name => H.write name value
  | .field receiver name => H.setField name receiver value

/-- Stores what an operator makes of the old value and another one. -/
def update (place : Place H) (op : BinaryOperator) (old value : H.Value) : H.Action H.Value := do
  let new ← H.binary op old value
  place.store new
  return new

end Place

/-- The variable of this name, unless it cannot be assigned to. -/
def locateName (H : Host) (scope : Scope) (name : String) : H.Action (Place H) :=
  if readOnly? scope name = none then return .named name else failure

/-- The variable that an expression steps.  Fields are stepped by statements only. -/
def locateVariable (H : Host) (scope : Scope) : Node → H.Action (Place H)
  | .identifier _ name => locateName H scope name
  | _ => failure

mutual

/-- The value of an expression. -/
def evaluate (H : Host) (scope : Scope) : Node → H.Action H.Value
  | .null _ => return H.null
  | .number _ value => return H.number value
  | .string _ value => return H.string value
  | .identifier _ name => readValue H scope name
  | .chain _ current remaining => do
    let receiver ← evaluate H scope current
    evaluateLinks H scope remaining receiver
  | .call _ name arguments => do
    let values ← evaluateAll H scope arguments
    H.call name values
  | .staticCall _ template name arguments => do
    let values ← evaluateAll H scope arguments
    H.callStatic template name values
  | .unary _ op operand => do
    let a ← evaluate H scope operand
    H.unary op a
  | .binary _ op left right => do
    let a ← evaluate H scope left
    match op with
    | .and => if H.isTrue a then evaluate H scope right else return H.boolean false
    | .or => if H.isTrue a then return H.boolean true else evaluate H scope right
    | op =>
      let b ← evaluate H scope right
      H.binary op a b
  | .adjust _ kind target direction => do
    let place ← locateVariable H scope target
    let old ← place.fetch
    let new ← place.update .add old (H.number direction.number)
    match kind with
    | .before => return new
    | .after => return old
    | .statement => failure
  | _ => failure

/-- The values of expressions, from left to right. -/
def evaluateAll (H : Host) (scope : Scope) : List Node → H.Action (List H.Value)
  | [] => return []
  | node :: nodes => do
    let value ← evaluate H scope node
    let values ← evaluateAll H scope nodes
    return value :: values

/-- A field of a value or a call on it. -/
def evaluateLink (H : Host) (scope : Scope) : Node → H.Value → H.Action H.Value
  | .identifier _ name, receiver => H.field name receiver
  | .call _ name arguments, receiver => do
    let values ← evaluateAll H scope arguments
    H.callInstance name receiver values
  | _, _ => failure

/-- The rest of a chain behind a value. -/
def evaluateLinks (H : Host) (scope : Scope) : Node → H.Value → H.Action H.Value
  | .chain _ current remaining, receiver => do
    let value ← evaluateLink H scope current receiver
    evaluateLinks H scope remaining value
  | .identifier _ name, receiver => H.field name receiver
  | .call _ name arguments, receiver => do
    let values ← evaluateAll H scope arguments
    H.callInstance name receiver values
  | _, _ => failure

end

/-- The field at the end of a chain behind a value. -/
def locateField (H : Host) (scope : Scope) : Node → H.Value → H.Action (Place H)
  | .chain _ current remaining, receiver => do
    let value ← evaluateLink H scope current receiver
    locateField H scope remaining value
  | .identifier _ name, receiver => return .field receiver name
  | _, _ => failure

/-- The place that an assignment stores into. -/
def locate (H : Host) (scope : Scope) : Node → H.Action (Place H)
  | .identifier _ name => locateName H scope name
  | .chain _ current remaining => do
    let receiver ← evaluate H scope current
    locateField H scope remaining receiver
  | _ => failure

/-! ## code for names and places -/

section places

variable {H : Host} {scope : Scope} {program : List Instruction} {x y : Option Nat} {base : Nat}
  {s s₁ s₂ : H.Store} {name : String} {place : Place H}

/-- The code of a read pushes the value that the name has. -/
theorem readValue_runs {value : H.Value} (h : readValue H scope name s = some (value, s₁)) :
    Runs program x y base (.ofCode (readCode scope name)) [] s [value] s₁ := by
  unfold readValue at h
  unfold readCode
  cases constants : scope.environment.constant? name with
  | some constant =>
      rw [constants] at h
      obtain ⟨rfl, rfl⟩ := Host.pure_eq_some.1 h
      cases constant with
      | number value => exact .ofOperate (.pushNumber value) [] [_] rfl rfl
      | string value => exact .ofOperate (.pushString value) [] [_] rfl rfl
  | none =>
      cases macros : scope.environment.systemMacro? name with
      | some code =>
          rw [constants, macros] at h
          obtain ⟨stack, s', run, rest⟩ := Host.bind_eq_some.1 h
          match stack, rest with
          | [_], rest =>
              obtain ⟨rfl, rfl⟩ := Host.pure_eq_some.1 rest
              exact .ofEffects run
          | [], rest | _ :: _ :: _, rest => exact absurd rest Host.failure_ne_some
      | none =>
          cases indices : scope.parameters.idxOf? name with
          | some index =>
              rw [constants, macros, indices] at h
              exact .ofOperate (.pushArgument index) [] [value] (Host.yields h) rfl
          | none =>
              rw [constants, macros, indices] at h
              exact .ofOperate (.pushIdentifier name) [] [value] (Host.yields h) rfl

/-- A name that can be stored into is a variable, and nothing is done to find it. -/
theorem locateName_eq_some (h : locateName H scope name s = some (place, s₁)) :
    place = .named name ∧ s₁ = s ∧ readCode scope name = [.pushIdentifier name] := by
  unfold locateName at h
  split at h
  next assignable =>
    obtain ⟨rfl, rfl⟩ := Host.pure_eq_some.1 h
    refine ⟨rfl, rfl, ?_⟩
    unfold readOnly? at assignable
    unfold readCode
    split at assignable
    next => cases assignable
    next constants =>
      split at assignable
      next => cases assignable
      next macros =>
        split at assignable
        next => cases assignable
        next parameters =>
          rw [Option.not_isSome_iff_eq_none.1 constants, Option.not_isSome_iff_eq_none.1 macros,
            List.idxOf?_eq_none_iff.2 parameters]
  next => exact absurd h Host.failure_ne_some

/-- The only node of this kind is a name. -/
theorem locateVariable_eq_some {node : Node}
    (h : locateVariable H scope node s = some (place, s₁)) :
    ∃ l name, node = .identifier l name ∧ place = .named name ∧ s₁ = s ∧
      readCode scope name = [.pushIdentifier name] := by
  cases node with
  | identifier l name => exact ⟨l, name, rfl, locateName_eq_some h⟩
  | _ => exact absurd h Host.failure_ne_some

namespace Place

/-- What lies on the stack below a value that is stored. -/
def operands : Place H → List H.Value
  | .named _ => []
  | .field receiver _ => [receiver]

/-- The instruction that stores a value. -/
def setter : Place H → Instruction
  | .named name => .setIdentifier name
  | .field _ name => .setField name

/-- A store takes the value and the operands of its place. -/
theorem setter_runs {value : H.Value} {u : Unit} (h : place.store value s = some (u, s₁)) :
    Runs program x y base (.one place.setter) (value :: place.operands) s [] s₁ := by
  cases place with
  | named name =>
      exact .ofOperate (.setIdentifier name) [value] [] (Host.bind_eq_some.2 ⟨u, s₁, h, rfl⟩) rfl
  | field receiver name =>
      exact .ofOperate (.setField name) [receiver, value] []
        (Host.bind_eq_some.2 ⟨u, s₁, h, rfl⟩) rfl

end Place

/-- An update is an operation and a store. -/
theorem update_eq_some {op : BinaryOperator} {old value new : H.Value} :
    place.update op old value s = some (new, s₂) ↔
      ∃ s₁, H.binary op old value s = some (new, s₁) ∧ place.store new s₁ = some (⟨⟩, s₂) := by
  unfold Place.update
  constructor
  · intro h
    obtain ⟨new', s₁, made, rest⟩ := Host.bind_eq_some.1 h
    obtain ⟨_, s', stored, last⟩ := Host.bind_eq_some.1 rest
    obtain ⟨rfl, rfl⟩ := Host.pure_eq_some.1 last
    exact ⟨s₁, made, stored⟩
  · rintro ⟨s₁, made, stored⟩
    exact Host.bind_eq_some.2 ⟨new, s₁, made, Host.bind_eq_some.2 ⟨⟨⟩, s₂, stored, rfl⟩⟩

/-- A variable is pushed. -/
theorem variable_runs {value : H.Value} (code : readCode scope name = [.pushIdentifier name])
    (h : H.read name s = some (value, s₁)) :
    Runs program x y base (.ofCode (readCode scope name)) [] s [value] s₁ := by
  rw [code]
  exact .ofOperate (.pushIdentifier name) [] [value] (Host.yields h) rfl

/-- An operator on the old value of a place and another value. -/
theorem operator_runs {op : BinaryOperator} {old value new : H.Value} (left : List H.Value)
    (made : H.binary op old value s = some (new, s₁)) :
    Runs program x y base (.one (.binaryOp op)) (value :: old :: left) s (new :: left) s₁ :=
  (Runs.ofOperate (.binaryOp op) [old, value] [new] (Host.yields made) rfl).below left

theorem number_runs (left : List H.Value) (value : Number) :
    Runs program x y base (.one (.pushNumber value)) left s (H.number value :: left) s :=
  (Runs.ofOperate (.pushNumber value) [] [H.number value] rfl rfl).below left

theorem duplicate_runs (left : List H.Value) (value : H.Value) :
    Runs program x y base (.one .duplicate) (value :: left) s (value :: value :: left) s :=
  (Runs.ofOperate .duplicate [value] [value, value] rfl rfl).below left

end places

/-! ## code for expressions -/

section expressions

variable {H : Host} {scope : Scope} {program : List Instruction} {x y : Option Nat} {base : Nat}
  {s s₁ s₂ : H.Store}

/-- There is a value for each node. -/
theorem length_evaluateAll : {nodes : List Node} → {values : List H.Value} → {s s' : H.Store} →
    evaluateAll H scope nodes s = some (values, s') → values.length = nodes.length
  | [], _, _, _, h => by
    obtain ⟨rfl, rfl⟩ := Host.pure_eq_some.1 h
    rfl
  | node :: nodes, _, _, _, h => by
    rw [evaluateAll] at h
    obtain ⟨value, s₁, -, rest⟩ := Host.bind_eq_some.1 h
    obtain ⟨values, s₂, others, last⟩ := Host.bind_eq_some.1 rest
    obtain ⟨rfl, rfl⟩ := Host.pure_eq_some.1 last
    rw [List.length_cons, List.length_cons, length_evaluateAll others]

/-- An instance call takes its arguments and its receiver. -/
theorem callInstance_runs {name : String} {argc : Nat} {receiver v : H.Value}
    {values : List H.Value} (h : H.callInstance name receiver values s = some (v, s₁))
    (size : values.length = argc) :
    Runs program x y base (.one (.callInstance name argc)) (values.reverse ++ [receiver]) s [v]
      s₁ := by
  rw [← List.reverse_cons]
  exact .ofOperate (.callInstance name argc) (receiver :: values) [v] (Host.yields h)
    (congrArg (· + 1) size)

mutual

/-- The code of an expression pushes its value. -/
theorem evaluate_runs : (node : Node) → {v : H.Value} → {base : Nat} → {s s' : H.Store} →
    evaluate H scope node s = some (v, s') →
    Runs program x y base (layout node scope base) [] s [v] s'
  | .null _, _, _, _, _, h => by
    obtain ⟨rfl, rfl⟩ := Host.pure_eq_some.1 h
    exact .ofOperate .pushNull [] [_] rfl rfl
  | .number _ value, _, _, _, _, h => by
    obtain ⟨rfl, rfl⟩ := Host.pure_eq_some.1 h
    exact .ofOperate (.pushNumber value) [] [_] rfl rfl
  | .string _ value, _, _, _, _, h => by
    obtain ⟨rfl, rfl⟩ := Host.pure_eq_some.1 h
    exact .ofOperate (.pushString value) [] [_] rfl rfl
  | .identifier _ name, _, _, _, _, h => readValue_runs h
  | .chain _ current remaining, _, _, _, _, h => by
    rw [evaluate] at h
    obtain ⟨receiver, s₁, first, rest⟩ := Host.bind_eq_some.1 h
    exact (evaluate_runs current first).append (evaluateLinks_runs remaining rest)
  | .call _ name arguments, v, _, _, _, h => by
    rw [evaluate] at h
    obtain ⟨values, s₁, first, rest⟩ := Host.bind_eq_some.1 h
    exact (evaluateAll_runs arguments first).append
      (.ofOperate (.call name arguments.length) values [v] (Host.yields rest)
        (length_evaluateAll first))
  | .staticCall _ template name arguments, v, _, _, _, h => by
    rw [evaluate] at h
    obtain ⟨values, s₁, first, rest⟩ := Host.bind_eq_some.1 h
    exact (evaluateAll_runs arguments first).append
      (.ofOperate (.callStatic template name arguments.length) values [v] (Host.yields rest)
        (length_evaluateAll first))
  | .unary _ op operand, v, _, _, _, h => by
    rw [evaluate] at h
    obtain ⟨a, s₁, first, rest⟩ := Host.bind_eq_some.1 h
    exact (evaluate_runs operand first).append
      (.ofOperate (.unaryOp op) [a] [v] (Host.yields rest) rfl)
  | .binary _ op left right, v, _, _, _, h => by
    rw [evaluate] at h
    obtain ⟨a, s₁, first, rest⟩ := Host.bind_eq_some.1 h
    cases op with
    | and =>
        dsimp only at rest
        refine (evaluate_runs left first).append ?_
        split at rest
        next truth =>
          exact .overEnter (fun _ _ => rfl) (fun _ _ _ => if_pos truth)
            (evaluate_runs right rest)
        next falsity =>
          obtain ⟨rfl, rfl⟩ := Host.pure_eq_some.1 rest
          exact .overSkip (fun _ _ => rfl) (fun _ _ _ => if_neg falsity)
    | or =>
        dsimp only at rest
        refine (evaluate_runs left first).append ?_
        split at rest
        next truth =>
          obtain ⟨rfl, rfl⟩ := Host.pure_eq_some.1 rest
          exact .overSkip (fun _ _ => rfl) (fun _ _ _ => if_pos truth)
        next falsity =>
          exact .overEnter (fun _ _ => rfl) (fun _ _ _ => if_neg falsity)
            (evaluate_runs right rest)
    | _ =>
        obtain ⟨b, s₂, second, last⟩ := Host.bind_eq_some.1 rest
        exact ((evaluate_runs left first).append ((evaluate_runs right second).below [a])).append
          (.ofOperate (.binaryOp _) [a, b] [v] (Host.yields last) rfl)
  | .adjust _ kind target direction, v, _, _, _, h => by
    rw [evaluate] at h
    obtain ⟨place, s₁, found, rest⟩ := Host.bind_eq_some.1 h
    obtain ⟨l, name, rfl, rfl, rfl, code⟩ := locateVariable_eq_some found
    obtain ⟨old, s₂, fetched, rest⟩ := Host.bind_eq_some.1 rest
    obtain ⟨new, s₃, updated, last⟩ := Host.bind_eq_some.1 rest
    obtain ⟨s₄, made, stored⟩ := update_eq_some.1 updated
    cases kind with
    | before =>
        obtain ⟨rfl, rfl⟩ := Host.pure_eq_some.1 last
        exact (variable_runs code fetched).append ((number_runs [old] _).append
          ((operator_runs [] made).append ((duplicate_runs [] new).append
            ((Place.setter_runs stored).below [new]))))
    | after =>
        obtain ⟨rfl, rfl⟩ := Host.pure_eq_some.1 last
        exact (variable_runs code fetched).append ((duplicate_runs [] old).append
          ((number_runs [old, old] _).append ((operator_runs [old] made).append
            ((Place.setter_runs stored).below [old]))))
    | statement => exact absurd last Host.failure_ne_some
  | .block .., _, _, _, _, h | .returns .., _, _, _, _, h | .discard .., _, _, _, _, h
  | .branch .., _, _, _, _, h | .switch .., _, _, _, _, h | .assign .., _, _, _, _, h
  | .whileLoop .., _, _, _, _, h | .doLoop .., _, _, _, _, h | .forLoop .., _, _, _, _, h
  | .leave _, _, _, _, _, h | .proceed _, _, _, _, _, h | .label .., _, _, _, _, h
  | .jump .., _, _, _, _, h | .callLabel .., _, _, _, _, h | .back _, _, _, _, _, h
  | .directive .., _, _, _, _, h | .function .., _, _, _, _, h => absurd h Host.failure_ne_some

/-- The values of expressions are pushed in their order. -/
theorem evaluateAll_runs : (nodes : List Node) → {values : List H.Value} → {base : Nat} →
    {s s' : H.Store} → evaluateAll H scope nodes s = some (values, s') →
    Runs program x y base (layoutAll nodes scope base) [] s values.reverse s'
  | [], _, _, _, _, h => by
    obtain ⟨rfl, rfl⟩ := Host.pure_eq_some.1 h
    exact .refl [] _
  | node :: nodes, _, _, _, _, h => by
    rw [evaluateAll] at h
    obtain ⟨value, s₁, first, rest⟩ := Host.bind_eq_some.1 h
    obtain ⟨values, s₂, others, last⟩ := Host.bind_eq_some.1 rest
    obtain ⟨rfl, rfl⟩ := Host.pure_eq_some.1 last
    rw [List.reverse_cons]
    exact (evaluate_runs node first).append ((evaluateAll_runs nodes others).below [value])

/-- A link takes the receiver and pushes its value. -/
theorem evaluateLink_runs (node : Node) {receiver v : H.Value} {base : Nat} {s s' : H.Store}
    (h : evaluateLink H scope node receiver s = some (v, s')) :
    Runs program x y base (layoutLink node scope base) [receiver] s [v] s' := by
  cases node with
  | identifier _ name => exact .ofOperate (.pushField name) [receiver] [v] (Host.yields h) rfl
  | call _ name arguments =>
      rw [evaluateLink] at h
      obtain ⟨values, s₁, first, rest⟩ := Host.bind_eq_some.1 h
      exact ((evaluateAll_runs arguments first).below [receiver]).append
        (callInstance_runs rest (length_evaluateAll first))
  | _ => exact absurd h Host.failure_ne_some

/-- The links of a chain take the receiver and push the value of the last one. -/
theorem evaluateLinks_runs (node : Node) {receiver v : H.Value} {base : Nat} {s s' : H.Store}
    (h : evaluateLinks H scope node receiver s = some (v, s')) :
    Runs program x y base (layoutLinks node scope base) [receiver] s [v] s' := by
  cases node with
  | chain _ current remaining =>
      rw [evaluateLinks] at h
      obtain ⟨value, s₁, first, rest⟩ := Host.bind_eq_some.1 h
      exact (evaluateLink_runs current first).append (evaluateLinks_runs remaining rest)
  | identifier _ name => exact .ofOperate (.pushField name) [receiver] [v] (Host.yields h) rfl
  | call _ name arguments =>
      rw [evaluateLinks] at h
      obtain ⟨values, s₁, first, rest⟩ := Host.bind_eq_some.1 h
      exact ((evaluateAll_runs arguments first).below [receiver]).append
        (callInstance_runs rest (length_evaluateAll first))
  | _ => exact absurd h Host.failure_ne_some

end

/-! ## code for targets -/

variable {place : Place H}

/-- The place at the end of a chain is a field. -/
theorem locateField_eq_some (node : Node) {receiver : H.Value} {s s' : H.Store}
    (h : locateField H scope node receiver s = some (place, s')) :
    ∃ owner, place = .field owner (lastName node) := by
  fun_induction locateField H scope node receiver generalizing s with
  | case1 _ current remaining receiver ih =>
      obtain ⟨value, s₁, -, rest⟩ := Host.bind_eq_some.1 h
      exact ih value rest
  | case2 _ name receiver =>
      obtain ⟨rfl, rfl⟩ := Host.pure_eq_some.1 h
      exact ⟨receiver, rfl⟩
  | case3 => exact absurd h Host.failure_ne_some

/-- The receiver of the last link is left on the stack. -/
theorem locateField_runs (node : Node) {receiver : H.Value} {s s' : H.Store}
    (h : locateField H scope node receiver s = some (place, s')) :
    Runs program x y base (layoutReceiver node scope base) [receiver] s place.operands s' := by
  fun_induction locateField H scope node receiver generalizing s base with
  | case1 _ current remaining receiver ih =>
      obtain ⟨value, s₁, first, rest⟩ := Host.bind_eq_some.1 h
      exact (evaluateLink_runs current first).append (ih value rest)
  | case2 _ name receiver =>
      obtain ⟨rfl, rfl⟩ := Host.pure_eq_some.1 h
      exact .refl [receiver] s
  | case3 => exact absurd h Host.failure_ne_some

/-- The place of a target is what its store is made for. -/
theorem setter_locate {target : Node} (h : locate H scope target s = some (place, s₁)) :
    storeCode target = place.setter := by
  cases target with
  | identifier _ name =>
      obtain ⟨rfl, -⟩ := locateName_eq_some h
      rfl
  | chain _ current remaining =>
      obtain ⟨receiver, s', -, rest⟩ := Host.bind_eq_some.1 h
      obtain ⟨owner, rfl⟩ := locateField_eq_some remaining rest
      rfl
  | _ => exact absurd h Host.failure_ne_some

/-- The code of a target pushes the operands of its place. -/
theorem locate_runs {target : Node} (h : locate H scope target s = some (place, s₁)) :
    Runs program x y base (layoutTarget target scope base) [] s place.operands s₁ := by
  cases target with
  | identifier _ name =>
      obtain ⟨rfl, rfl, -⟩ := locateName_eq_some h
      exact .refl [] s₁
  | chain _ current remaining =>
      obtain ⟨receiver, s', first, rest⟩ := Host.bind_eq_some.1 h
      exact (evaluate_runs current first).append (locateField_runs remaining rest)
  | _ => exact absurd h Host.failure_ne_some

/-- A target is read without losing its receiver. -/
theorem fetch_runs {target : Node} {old : H.Value}
    (located : locate H scope target s = some (place, s₁))
    (fetched : place.fetch s₁ = some (old, s₂)) :
    Runs program x y base (layoutCurrent target scope base) [] s (old :: place.operands) s₂ := by
  cases target with
  | identifier _ name =>
      obtain ⟨rfl, rfl, code⟩ := locateName_eq_some located
      exact variable_runs code fetched
  | chain _ current remaining =>
      obtain ⟨receiver, s', first, rest⟩ := Host.bind_eq_some.1 located
      obtain ⟨owner, rfl⟩ := locateField_eq_some remaining rest
      refine ((evaluate_runs current first).append (locateField_runs remaining rest)).append ?_
      exact ((duplicate_runs [] owner).append
        ((Runs.ofOperate (.pushField _) [owner] [old] (Host.yields fetched) rfl).below
          [owner]))
  | _ => exact absurd located Host.failure_ne_some

end expressions

/-! ## generated code -/

/-- Wherever the generated code of an expression stands in a program, a run from its first address
on comes to the address right behind it with the value of the expression on top of the stack.  Its
names mean what can be seen where the code is generated. -/
theorem generated_expression_computes_value (H : Host) (node : Node) (top scope : Scope)
    {g g' : Generator} (ready : g.Ready top scope) (generated : emit node top g = .ok ⟨⟩ g')
    {program : List Instruction} {breakTo continueTo : Option Nat}
    (held : Holds program breakTo continueTo g g') {v : H.Value} {s s' : H.Store}
    (value : evaluate H scope node s = some (v, s')) (stack : List H.Value)
    (remembered : List Nat) :
    Reaches program (.running g.here stack remembered s)
      (.running g'.here (v :: stack) remembered s') := by
  have code := emit_extends node ready generated
  have run := evaluate_runs node value (held.carries code) stack remembered
  rwa [← code.here] at run

/-- `a.f(b, c++) || d` -/
def shortCircuit : Node :=
  .binary default .or
    (.chain default (.identifier default "a")
      (.call default "f"
        [.identifier default "b", .adjust default .after (.identifier default "c") .up]))
    (.identifier default "d")

/-- The call yields two, so that `d` is never read. -/
theorem generated_expression_computes_value_or :
    ∃ g', emit shortCircuit ⟨{}, []⟩ {} = .ok ⟨⟩ g' ∧
      evaluate .recorder ⟨{}, []⟩ shortCircuit [] =
        some ((1 : Nat), ["f", "c", "+", "c", "b", "a"]) ∧
      Reaches (H := .recorder) g'.listing
        (.running 0 [] [] []) (.running 10 [(1 : Nat)] [] ["f", "c", "+", "c", "b", "a"]) :=
  ⟨_, rfl, rfl, generated_expression_computes_value .recorder shortCircuit ⟨{}, []⟩ ⟨{}, []⟩
    (Generator.ready_empty _) rfl (holds_listing {} _) rfl [] []⟩

end HostScript
