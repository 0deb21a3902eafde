import HostScript.Proofs.Fragment
import Mathlib.Logic.Relation

/-!
# HostScript.Proofs.Machine

The stack machine that runs compiled scripts.  What a value is, what an operator makes of two of
them and what a call does is up to the `Host`; the machine itself only moves values on its stack and
the address of the next instruction.

`Carries` says that a piece of code stands at some place of a program.  The piece may hold breaks
and continues that a loop further out has resolved in the program, so what stands there is the piece
with those targets filled in.
-/

namespace HostScript

/-- The values of a script and everything that can be done with them.  An operation may change the
store, and it may fail. -/
structure Host where
  Value : Type
  Store : Type
  null : Value
  number : Number → Value
  string : String → Value
  boolean : Bool → Value
  isTrue : Value → Bool
  /-- Whether the value of a switch and that of one of its cases agree. -/
  agree : Value → Value → Bool
  read : String → StateT Store Option Value
  /-- An argument of the running function. -/
  argument : Nat → StateT Store Option Value
  field : String → Value → StateT Store Option Value
  write : String → Value → StateT Store Option Unit
  /-- Stores the second value into a field of the first. -/
  setField : String → Value → Value → StateT Store Option Unit
  call : String → List Value → StateT Store Option Value
  callInstance : String → Value → List Value → StateT Store Option Value
  callStatic : String → String → List Value → StateT Store Option Value
  unary : UnaryOperator → Value → StateT Store Option Value
  binary : BinaryOperator → Value → Value → StateT Store Option Value

namespace Host

variable {H : Host} {α β : Type}

/-- Something that the host does: it may change the store, and it may fail. -/
abbrev Action (H : Host) := StateT H.Store Option

/-- An action in two steps succeeds when both do. -/
theorem bind_eq_some {x : H.Action α} {f : α → H.Action β} {s s'' : H.Store} {b : β} :
    (x >>= f) s = some (b, s'') ↔ ∃ a s', x s = some (a, s') ∧ f a s' = some (b, s'') := by
  show (x s).bind (fun p => f p.1 p.2) = _ ↔ _
  rw [Option.bind_eq_some_iff, Prod.exists]

theorem pure_eq_some {a b : α} {s s' : H.Store} :
    (pure a : H.Action α) s = some (b, s') ↔ a = b ∧ s = s' := by
  show some (a, s) = some (b, s') ↔ _
  simp

theorem failure_ne_some {b : α} {s s' : H.Store} :
    (failure : H.Action α) s ≠ some (b, s') := nofun

/-- What an action yields, as the only output of an instruction. -/
theorem yields {x : H.Action α} {s s' : H.Store} {a : α} (h : x s = some (a, s')) :
    (do return [← x] : H.Action (List α)) s = some ([a], s') :=
  bind_eq_some.2 ⟨a, s', h, rfl⟩

/-- The value of a constant. -/
def constant (H : Host) : Constant → H.Value
  | .number value => H.number value
  | .string value => H.string value

end Host

/-- A host that keeps a record of what it is asked for, the latest first.  A call yields the number
of its arguments, an operator adds, and everything else yields one. -/
def Host.recorder : Host where
  Value := Nat
  Store := List String
  null := 0
  number _ := 1
  string _ := 1
  boolean b := b.toNat
  isTrue a := a != 0
  agree a b := a == b
  read name log := some (1, name :: log)
  argument _ log := some (1, log)
  field name _ log := some (1, name :: log)
  write name _ log := some (⟨⟩, name :: log)
  setField name _ _ log := some (⟨⟩, name :: log)
  call name values log := some (values.length, name :: log)
  callInstance name _ values log := some (values.length, name :: log)
  callStatic _ name values log := some (values.length, name :: log)
  unary op a log := some (a, op.text :: log)
  binary op a b log := some (a + b, op.text :: log)

/-- How many values an instruction takes from the stack. -/
def Instruction.inputs : Instruction → Nat
  | pushField _ | setIdentifier _ | duplicate | discard | unaryOp _ | binaryAnd _ | binaryOr _
  | jumpIf _ | jumpUnless _ | ret => 1
  | setField _ | binaryOp _ | switchJump _ => 2
  | call _ argc | callStatic _ _ argc => argc
  | callInstance _ argc => argc + 1
  | _ => 0

/-- How many values an instruction leaves on the stack when the next one follows. -/
def Instruction.outputs : Instruction → Nat
  | pushNull | pushNumber _ | pushString _ | pushIdentifier _ | pushField _ | pushArgument _
  | call .. | callInstance .. | callStatic .. | unaryOp _ | binaryOp _ | switchJump _ => 1
  | duplicate => 2
  | _ => 0

/-- How many values an instruction leaves on the stack when it jumps. -/
def Instruction.jumpOutputs : Instruction → Nat
  | binaryAnd _ | binaryOr _ => 1
  | _ => 0

/-- Whether the next instruction may follow. -/
def Instruction.goesOn : Instruction → Bool
  | jump _ | jumpPush _ | jumpPop | ret => false
  | _ => true

namespace Machine

variable {H : Host}

/-! ## instructions without jumps -/

/-- What an instruction makes of the values that it takes, the rightmost being the top in both
lists.  Those that decide where to go on do nothing here. -/
def operate (H : Host) : Instruction → List H.Value → H.Action (List H.Value)
  | .pushNull, [] => return [H.null]
  | .pushNumber value, [] => return [H.number value]
  | .pushString value, [] => return [H.string value]
  | .pushIdentifier name, [] => return [← H.read name]
  | .pushField name, [receiver] => return [← H.field name receiver]
  | .pushArgument index, [] => return [← H.argument index]
  | .setIdentifier name, [value] => do
    H.write name value
    return []
  | .setField name, [receiver, value] => do
    H.setField name receiver value
    return []
  | .call name _, arguments => return [← H.call name arguments]
  | .callInstance name _, receiver :: arguments =>
    return [← H.callInstance name receiver arguments]
  | .callStatic template name _, arguments => return [← H.callStatic template name arguments]
  | .duplicate, [a] => return [a, a]
  | .discard, [_] => return []
  | .unaryOp op, [a] => return [← H.unary op a]
  | .binaryOp op, [a, b] => return [← H.binary op a b]
  | _, _ => failure

/-- The effect of an instruction on the whole stack. -/
def effect (H : Host) (i : Instruction) (stack : List H.Value) : H.Action (List H.Value) :=
  if i.inputs ≤ stack.length then do
    let outputs ← operate H i (stack.take i.inputs).reverse
    return outputs.reverse ++ stack.drop i.inputs
  else failure

/-- The effects of instructions one after the other. -/
def effects (H : Host) : List Instruction → List H.Value → H.Action (List H.Value)
  | [], stack => return stack
  | i :: code, stack => do effects H code (← effect H i stack)

/-- An instruction takes its inputs from the stack and puts its outputs there. -/
theorem effect_eq_some {i : Instruction} {stack stack' : List H.Value} {s s' : H.Store} :
    effect H i stack s = some (stack', s') ↔
      ∃ operands outputs rest, stack = operands.reverse ++ rest ∧ operands.length = i.inputs ∧
        operate H i operands s = some (outputs, s') ∧ stack' = outputs.reverse ++ rest := by
  unfold effect
  constructor
  · intro h
    split at h
    next enough =>
      obtain ⟨outputs, s₁, run, rest⟩ := Host.bind_eq_some.1 h
      obtain ⟨rfl, rfl⟩ := Host.pure_eq_some.1 rest
      refine ⟨_, outputs, stack.drop i.inputs, ?_, ?_, run, rfl⟩
      · rw [List.reverse_reverse, List.take_append_drop]
      · rw [List.length_reverse, List.length_take, Nat.min_eq_left enough]
    next => exact absurd h Host.failure_ne_some
  · rintro ⟨operands, outputs, rest, rfl, size, run, rfl⟩
    have size : i.inputs = operands.reverse.length := by rw [List.length_reverse, size]
    rw [if_pos (by simp [size]), size, List.take_left, List.drop_left, List.reverse_reverse]
    exact Host.bind_eq_some.2 ⟨outputs, s', run, rfl⟩

/-- An instruction that finds enough on the stack leaves alone what lies below. -/
theorem effect_below {i : Instruction} {stack stack' : List H.Value} {s s' : H.Store}
    (below : List H.Value) (h : effect H i stack s = some (stack', s')) :
    effect H i (stack ++ below) s = some (stack' ++ below, s') := by
  obtain ⟨operands, outputs, rest, rfl, size, run, rfl⟩ := effect_eq_some.1 h
  exact effect_eq_some.2 ⟨operands, outputs, rest ++ below, by simp, size, run, by simp⟩

/-- An instruction with an effect of its own carries no target, and the next one follows. -/
theorem straight_of_operate {i : Instruction} {operands outputs : List H.Value} {s s' : H.Store}
    (h : operate H i operands s = some (outputs, s')) : i.target? = none ∧ i.goesOn := by
  cases i with
  | binaryAnd | binaryOr | jump | jumpIf | jumpUnless | jumpPush | jumpPop | switchJump | ret =>
      exact absurd h Host.failure_ne_some
  | _ => exact ⟨rfl, rfl⟩

/-- An instruction has as many outputs as it says. -/
theorem length_operate {i : Instruction} {operands outputs : List H.Value} {s s' : H.Store}
    (h : operate H i operands s = some (outputs, s')) : outputs.length = i.outputs := by
  unfold operate at h
  split at h <;>
    simp only [Host.bind_eq_some, Host.pure_eq_some, Host.failure_ne_some] at h <;>
    grind [Instruction.outputs]

/-! ## the machine -/

/-- The machine between two instructions, or when a return has ended its run. -/
inductive State (H : Host) where
  | running (address : Nat) (stack : List H.Value) (remembered : List Nat) (store : H.Store)
  | returned (value : H.Value) (stack : List H.Value) (store : H.Store)

/-- What the instruction at `address` does.  A jump without an address as its target cannot be
run. -/
def perform (i : Instruction) (address : Nat) (stack : List H.Value) (remembered : List Nat)
    (store : H.Store) : Option (State H) :=
  match i, stack, remembered with
  | .binaryAnd (.address target), a :: stack, _ =>
    if H.isTrue a then some (.running (address + 1) stack remembered store)
    else some (.running target (H.boolean false :: stack) remembered store)
  | .binaryOr (.address target), a :: stack, _ =>
    if H.isTrue a then some (.running target (H.boolean true :: stack) remembered store)
    else some (.running (address + 1) stack remembered store)
  | .jump (.address target), stack, _ => some (.running target stack remembered store)
  | .jumpIf (.address target), a :: stack, _ =>
    some (.running (if H.isTrue a then target else address + 1) stack remembered store)
  | .jumpUnless (.address target), a :: stack, _ =>
    some (.running (if H.isTrue a then address + 1 else target) stack remembered store)
  | .jumpPush (.address target), stack, _ =>
    some (.running target stack ((address + 1) :: remembered) store)
  | .jumpPop, stack, back :: remembered => some (.running back stack remembered store)
  | .switchJump (.address target), test :: value :: stack, _ =>
    if H.agree value test then some (.running target stack remembered store)
    else some (.running (address + 1) (value :: stack) remembered store)
  | .ret, value :: stack, _ => some (.returned value stack store)
  | i, stack, _ =>
    (effect H i stack store).map fun done => .running (address + 1) done.1 remembered done.2

/-- One instruction of a program. -/
def step (program : List Instruction) : State H → Option (State H)
  | .running address stack remembered store => do
    perform (← program[address]?) address stack remembered store
  | .returned .. => none

/-- A run of a program. -/
abbrev Reaches (program : List Instruction) : State H → State H → Prop :=
  Relation.ReflTransGen fun a b => step program a = some b

section steps

variable {program : List Instruction} {i : Instruction} {address : Nat} {s s' : H.Store}
  {stack stack' : List H.Value} {remembered : List Nat} {state : State H}

/-- An instruction without a jump is followed by the next one. -/
theorem perform_of_effect (h : effect H i stack s = some (stack', s')) :
    perform i address stack remembered s = some (.running (address + 1) stack' remembered s') := by
  obtain ⟨operands, outputs, rest, -, -, run, -⟩ := effect_eq_some.1 h
  cases i with
  | binaryAnd | binaryOr | jump | jumpIf | jumpUnless | jumpPush | jumpPop | switchJump | ret =>
      exact absurd run Host.failure_ne_some
  | _ => simp only [perform, h, Option.map_some]

/-- One step of the machine. -/
theorem reaches_of_perform (at_ : program[address]? = some i)
    (h : perform i address stack remembered s = some state) :
    Reaches program (.running address stack remembered s) state := by
  refine .single ?_
  show program[address]?.bind _ = some state
  rw [at_]
  exact h

/-- What every step keeps holds at the end of a run if it holds at its start. -/
theorem reaches_invariant {Inv : State H → Prop} {state' : State H}
    (keeps : ∀ a b, Inv a → step program a = some b → Inv b) (run : Reaches program state state')
    (start : Inv state) : Inv state' := by
  induction run with
  | refl => exact start
  | tail _ last ih => exact keeps _ _ ih last

/-- What one instruction can do: the next one follows, or a jump is taken, or the machine goes back
to where it came from. -/
theorem perform_cases {address' : Nat} {remembered' : List Nat}
    (h : perform i address stack remembered s =
      some (.running address' stack' remembered' s')) :
    i.inputs ≤ stack.length ∧
      ((i.goesOn ∧ address' = address + 1 ∧ remembered' = remembered ∧
          stack'.length = stack.length - i.inputs + i.outputs) ∨
        (i.target? = some (.address address') ∧
          stack'.length = stack.length - i.inputs + i.jumpOutputs ∧
          (remembered' = remembered ∨
            (∃ target, i = .jumpPush target) ∧ remembered' = (address + 1) :: remembered)) ∨
        (i = .jumpPop ∧ remembered = address' :: remembered' ∧ stack' = stack)) := by
  unfold perform at h
  split at h
  next => -- a short circuit
    split at h <;> cases h
    · exact ⟨by simp [Instruction.inputs], .inl ⟨rfl, rfl, rfl, rfl⟩⟩
    · exact ⟨by simp [Instruction.inputs], .inr (.inl ⟨rfl, rfl, .inl rfl⟩)⟩
  next =>
    split at h <;> cases h
    · exact ⟨by simp [Instruction.inputs], .inr (.inl ⟨rfl, rfl, .inl rfl⟩)⟩
    · exact ⟨by simp [Instruction.inputs], .inl ⟨rfl, rfl, rfl, rfl⟩⟩
  next =>
    cases h
    exact ⟨Nat.zero_le _, .inr (.inl ⟨rfl, rfl, .inl rfl⟩)⟩
  next =>
    split at h <;> cases h
    · exact ⟨by simp [Instruction.inputs], .inr (.inl ⟨rfl, rfl, .inl rfl⟩)⟩
    · exact ⟨by simp [Instruction.inputs], .inl ⟨rfl, rfl, rfl, rfl⟩⟩
  next =>
    split at h <;> cases h
    · exact ⟨by simp [Instruction.inputs], .inl ⟨rfl, rfl, rfl, rfl⟩⟩
    · exact ⟨by simp [Instruction.inputs], .inr (.inl ⟨rfl, rfl, .inl rfl⟩)⟩
  next target _ _ =>
    cases h
    exact ⟨Nat.zero_le _, .inr (.inl ⟨rfl, rfl, .inr ⟨⟨_, rfl⟩, rfl⟩⟩)⟩
  next =>
    cases h
    exact ⟨Nat.zero_le _, .inr (.inr ⟨rfl, rfl, rfl⟩)⟩
  next =>
    split at h <;> cases h
    · exact ⟨by simp [Instruction.inputs], .inr (.inl ⟨rfl, rfl, .inl rfl⟩)⟩
    · exact ⟨by simp [Instruction.inputs], .inl ⟨rfl, rfl, rfl, rfl⟩⟩
  next => cases h
  next =>
    obtain ⟨⟨stack₁, s₁⟩, changed, same⟩ := Option.map_eq_some_iff.1 h
    cases same
    obtain ⟨operands, outputs, rest, rfl, size, run, rfl⟩ := effect_eq_some.1 changed
    refine ⟨by simp [size], .inl ⟨(straight_of_operate run).2, rfl, rfl, ?_⟩⟩
    simp [size, length_operate run, Nat.add_comm]

end steps

/-! ## code in its place -/

/-- The fragment stands at `base` of a program in which its breaks and continues have the given
targets. -/
def Carries (program : List Instruction) (breakTo continueTo : Option Nat) (base : Nat)
    (f : Fragment) : Prop :=
  f.Each (fun address i =>
    program[address]? = some (i.mapTarget (Code.retarget breakTo continueTo))) base

section carries

variable {program : List Instruction} {x y : Option Nat} {base : Nat} {a b : Fragment}
  {i : Instruction} {code : List Instruction}

/-- A program carries a fragment if it carries its parts. -/
theorem carries_append :
    Carries program x y base (a ++ b) ↔
      Carries program x y base a ∧ Carries program x y (base + a.size) b :=
  Fragment.each_append

/-- A program carries code instruction by instruction. -/
theorem carries_ofCode_cons :
    Carries program x y base (.ofCode (i :: code)) ↔
      program[base]? = some (i.mapTarget (Code.retarget x y)) ∧
        Carries program x y (base + 1) (.ofCode code) :=
  Fragment.each_ofCode_cons

theorem carries_one :
    Carries program x y base (.one i) ↔
      program[base]? = some (i.mapTarget (Code.retarget x y)) :=
  Fragment.each_one

/-- A jump around code is carried with its target. -/
theorem carries_jumpOver {make : JumpTarget → Instruction} {start : Nat} :
    Carries program x y base (.jumpOver make start a) ↔
      program[base]? = some ((make (.address (start + 1 + a.size))).mapTarget (Code.retarget x y)) ∧
        Carries program x y (base + 1) a := by
  rw [Fragment.jumpOver, carries_append, carries_one, Fragment.size_one]

/-- A loop further in comes first: what it has resolved, the ones around it leave alone. -/
theorem retarget_comp_retarget (u v : Option Nat) :
    Code.retarget x y ∘ Code.retarget u v = Code.retarget (u.or x) (v.or y) := by
  funext target
  cases target <;> cases u <;> cases v <;> cases x <;> cases y <;> rfl

/-- A loop settles before what is around it. -/
theorem carries_retarget {u v : Option Nat} :
    Carries program x y base (a.retarget u v) ↔ Carries program (u.or x) (v.or y) base a := by
  simp only [Carries, Fragment.each_retarget, Instruction.mapTarget_mapTarget,
    retarget_comp_retarget]

@[simp] theorem retarget_address (target : Nat) :
    Code.retarget x y (.address target) = .address target := by
  cases x <;> cases y <;> rfl

theorem mapTarget_retarget_none (i : Instruction) :
    i.mapTarget (Code.retarget none none) = i := by
  have same : Code.retarget none none = id := by
    funext target
    cases target <;> rfl
  rw [same]
  cases i <;> rfl

/-- A program holds what was generated between `g` and `g'`, with the given targets for the breaks
and continues that are still open in it.  What stands before and behind is left open. -/
def Holds (program : List Instruction) (breakTo continueTo : Option Nat) (g g' : Generator) :
    Prop :=
  ∀ address i, g.here ≤ address → g'.listing[address]? = some i →
    program[address]? = some (i.mapTarget (Code.retarget breakTo continueTo))

/-- Generated code as a program of its own. -/
theorem holds_listing (g g' : Generator) : Holds g'.listing none none g g' := by
  intro address i _ found
  rw [found, mapTarget_retarget_none]

/-- A program that holds the code of a generator carries the fragment that it was extended by. -/
theorem Holds.carries {g g' : Generator} (h : Holds program x y g g') (extends_ : Extends g a g') :
    Carries program x y g.here a := by
  intro k i found
  refine h (g.here + k) i (Nat.le_add_right _ _) ?_
  rw [extends_.listing, ← g.length_listing, List.getElem?_append_right (Nat.le_add_right _ _),
    Nat.add_sub_cancel_left, found]

end carries

/-! ## runs through a fragment -/

/-- Wherever the fragment stands, a run through it from `before` on top of the stack and the store
`s` comes out right behind it with `after` and `s'`. -/
def Runs (program : List Instruction) (x y : Option Nat) (base : Nat) (f : Fragment)
    (before : List H.Value) (s : H.Store) (after : List H.Value) (s' : H.Store) : Prop :=
  Carries program x y base f → ∀ below remembered,
    Reaches program (.running base (before ++ below) remembered s)
      (.running (base + f.size) (after ++ below) remembered s')

namespace Runs

variable {program : List Instruction} {x y : Option Nat} {base : Nat} {a b : Fragment}
  {stack stack₁ stack₂ : List H.Value} {s s₁ s₂ : H.Store}

/-- There is nothing to run where there is no code. -/
theorem ofEmpty (empty : a.code = []) (stack : List H.Value) (s : H.Store) :
    Runs program x y base a stack s stack s := by
  intro _ _ _
  rw [Fragment.size, empty]
  exact .refl

theorem refl (stack : List H.Value) (s : H.Store) : Runs program x y base {} stack s stack s :=
  ofEmpty rfl stack s

/-- A run through two fragments. -/
theorem append (first : Runs program x y base a stack s stack₁ s₁)
    (second : Runs program x y (base + a.size) b stack₁ s₁ stack₂ s₂) :
    Runs program x y base (a ++ b) stack s stack₂ s₂ := by
  intro carries below remembered
  obtain ⟨left, right⟩ := carries_append.1 carries
  rw [Fragment.size_append, ← Nat.add_assoc]
  exact (first left below remembered).trans (second right below remembered)

/-- What lies below may be counted in. -/
theorem below (lower : List H.Value) (h : Runs program x y base a stack s stack₁ s₁) :
    Runs program x y base a (stack ++ lower) s (stack₁ ++ lower) s₁ := by
  intro carries below remembered
  rw [List.append_assoc, List.append_assoc]
  exact h carries (lower ++ below) remembered

/-- A run through an instruction without a jump. -/
theorem ofEffect {i : Instruction} (h : effect H i stack s = some (stack₁, s₁)) :
    Runs program x y base (.one i) stack s stack₁ s₁ := by
  intro carries below remembered
  obtain ⟨_, _, _, -, -, run, -⟩ := effect_eq_some.1 h
  have at_ := carries_one.1 carries
  rw [Instruction.mapTarget_eq_self (straight_of_operate run).1] at at_
  exact reaches_of_perform at_ (perform_of_effect (effect_below below h))

/-- An instruction on the values that it takes. -/
theorem ofOperate (i : Instruction) (operands outputs : List H.Value)
    (run : operate H i operands s = some (outputs, s₁)) (size : operands.length = i.inputs) :
    Runs program x y base (.one i) operands.reverse s outputs.reverse s₁ :=
  ofEffect (effect_eq_some.2 ⟨operands, outputs, [], by simp, size, run, by simp⟩)

/-- A run through code without jumps, instruction by instruction. -/
theorem ofEffects {code : List Instruction} (h : effects H code stack s = some (stack₁, s₁)) :
    Runs program x y base (.ofCode code) stack s stack₁ s₁ := by
  induction code generalizing base stack s with
  | nil =>
      obtain ⟨rfl, rfl⟩ := Host.pure_eq_some.1 h
      exact refl stack s
  | cons i code ih =>
      obtain ⟨stack', s', first, rest⟩ := Host.bind_eq_some.1 h
      show Runs program x y base (.one i ++ .ofCode code) stack s stack₁ s₁
      exact (ofEffect first).append (ih rest)

/-- An instruction that jumps over the fragment behind it. -/
theorem overSkip {make : JumpTarget → Instruction} {after : List H.Value}
    (maps : ∀ f t, (make t).mapTarget f = make (f t))
    (h : ∀ target below remembered,
      perform (make (.address target)) base (stack ++ below) remembered s =
        some (.running target (after ++ below) remembered s)) :
    Runs program x y base (.jumpOver make base a) stack s after s := by
  intro carries below remembered
  have at_ := (carries_jumpOver.1 carries).1
  rw [maps, retarget_address] at at_
  rw [Fragment.add_size_jumpOver]
  exact reaches_of_perform at_ (h _ below remembered)

/-- An instruction that goes on with the fragment behind it instead of jumping over it. -/
theorem overEnter {make : JumpTarget → Instruction} {inner after : List H.Value}
    (maps : ∀ f t, (make t).mapTarget f = make (f t))
    (h : ∀ target below remembered,
      perform (make (.address target)) base (stack ++ below) remembered s =
        some (.running (base + 1) (inner ++ below) remembered s))
    (rest : Runs program x y (base + 1) a inner s after s₁) :
    Runs program x y base (.jumpOver make base a) stack s after s₁ := by
  intro carries below remembered
  obtain ⟨at_, inside⟩ := carries_jumpOver.1 carries
  rw [maps, retarget_address] at at_
  rw [Fragment.add_size_jumpOver]
  exact (reaches_of_perform at_ (h _ below remembered)).trans (rest inside below remembered)

end Runs

end Machine

end HostScript
