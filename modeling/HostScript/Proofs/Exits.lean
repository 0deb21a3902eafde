import HostScript.Proofs.Scoping
import HostScript.Proofs.Statements

/-!
# HostScript.Proofs.Exits

Where `break` and `continue` go.  `Node.exits` lists the breaks and continues of a tree together
with the breaks that end the cases of a select, each with the address of its jump and with the
constructs around it from the inside out.  A construct is given by the addresses where its code ends
and where it goes on, so that `Departure.target?` can say from the constructs around it alone where
an exit leads.

The reader follows the same rule with two flags, and code generation follows it by patching ranges.
`Binds may es base f` ties the two together: in the fragment `f` at `base` the exits `es` go where
the constructs around them say, or nothing in the fragment takes them and they are of a kind that
`may` be left open.
-/

namespace HostScript

/-! ## exits of a tree -/

/-- A construct around a statement. -/
inductive Enclosure where
  /-- The body of a loop that ends before `stop` and goes on at `next`. -/
  | loopBody (stop next : Nat)
  /-- The last statement in the head of a for loop. -/
  | loopPost (stop : Nat)
  /-- A case or the default of a switch or select. -/
  | clause (kind : SwitchKind) (stop : Nat)
  | function
deriving DecidableEq, Repr

inductive Departure where
  /-- A break. -/
  | leave
  /-- A continue. -/
  | proceed
  /-- The end of a case of a select, which has a break that no script writes. -/
  | caseEnd
deriving DecidableEq, Repr

/-- Whether a script has a word for it. -/
def Departure.isWritten : Departure → Bool
  | .leave | .proceed => true
  | .caseEnd => false

/-- Where a jump leads to from inside of these constructs, the innermost one first.  A break leaves
the innermost loop or switch, but no select and no function.  A continue goes on with the innermost
loop, through all switches and selects on the way, but not from the head of a for loop. -/
def Departure.target? : Departure → List Enclosure → Option Nat
  | .leave, .loopBody stop _ :: _ => some stop
  | .leave, .loopPost stop :: _ => some stop
  | .leave, .clause .switch stop :: _ => some stop
  | .proceed, .loopBody _ next :: _ => some next
  | .proceed, .clause _ _ :: around => target? .proceed around
  | .caseEnd, .clause .select stop :: _ => some stop
  | _, _ => none

structure Exit where
  kind : Departure
  /-- The address of the jump. -/
  address : Nat
  /-- The constructs around it, the innermost one first. -/
  around : List Enclosure
deriving DecidableEq, Repr

namespace Exit

def target? (e : Exit) : Option Nat := e.kind.target? e.around

/-- The code goes where the exit leads. -/
def Taken (e : Exit) (code : List Instruction) : Prop :=
  ∃ a, e.target? = some a ∧ code[e.address]? = some (.jump (.address a))

/-- The exit with one more construct around it. -/
def within (c : Enclosure) (e : Exit) : Exit := { e with around := e.around ++ [c] }

end Exit

mutual

/-- The exits of a node whose code starts at `base`. -/
def Node.exits : Node → Scope → Nat → List Exit
  | .leave _, _, base => [⟨.leave, base, []⟩]
  | .proceed _, _, base => [⟨.proceed, base, []⟩]
  | .block _ statements, scope, base => exitsOfAll statements scope base
  | .branch _ condition accepted otherwise, scope, base =>
    let first := base + (Generate.layout condition scope base).size + 1
    let second := first + (Generate.layout accepted scope first).size + 1
    accepted.exits scope first ++ exitsOfOptional otherwise scope second
  | .switch location kind value cases fallback, scope, base =>
    let tests := base + (Generate.layout value scope base).size
    let bodies := tests + (Generate.layoutTests cases [] scope tests).size + 2
    let last := bodies + (Generate.layoutBodies cases kind scope bodies).size
    let whole := Generate.layout (.switch location kind value cases fallback) scope base
    (exitsOfCases cases kind scope bodies ++ exitsOfOptional fallback scope last).map
      (·.within (.clause kind (base + whole.size)))
  | .whileLoop location condition body, scope, base =>
    let start := base + (Generate.layout condition scope base).size + 1
    let whole := Generate.layout (.whileLoop location condition body) scope base
    (body.exits scope start).map (·.within (.loopBody (base + whole.size) base))
  | .doLoop location body condition, scope, base =>
    let check := base + (Generate.layout body scope base).size
    let whole := Generate.layout (.doLoop location body condition) scope base
    (body.exits scope base).map (·.within (.loopBody (base + whole.size) check))
  | .forLoop location init condition post body, scope, base =>
    let check := base + (Generate.layout init scope base).size
    let start := check + (Generate.layout condition scope check).size + 1
    let step := start + (Generate.layout body scope start).size
    let whole := Generate.layout (.forLoop location init condition post body) scope base
    init.exits scope base ++
      ((body.exits scope start).map (·.within (.loopBody (base + whole.size) step)) ++
        (post.exits scope step).map (·.within (.loopPost (base + whole.size))))
  | .label _ _ statement, scope, base => statement.exits scope base
  | .directive _ _ code statements, scope, base => exitsOfAll statements scope (base + code.length)
  | .function _ _ _ parameters body, scope, base =>
    (body.exits { scope with parameters } (base + 1)).map (·.within .function)
  | _, _, _ => []

def exitsOfAll : List Node → Scope → Nat → List Exit
  | [], _, _ => []
  | node :: nodes, scope, base =>
    node.exits scope base ++ exitsOfAll nodes scope (base + (Generate.layout node scope base).size)

def exitsOfOptional : Option Node → Scope → Nat → List Exit
  | none, _, _ => []
  | some node, scope, base => node.exits scope base

/-- The exits of the cases, with those at the ends of the cases of a select. -/
def exitsOfCases : List SwitchCase → SwitchKind → Scope → Nat → List Exit
  | [], _, _, _ => []
  | .mk _ body :: cases, kind, scope, base =>
    let stop := base + (Generate.layout body scope base).size
    body.exits scope base ++ (if kind = .select then [⟨.caseEnd, stop, []⟩] else []) ++
      exitsOfCases cases kind scope (if kind = .select then stop + 1 else stop)

end

mutual

/-- The breaks and continues that stand anywhere in a tree, in the order of the script. -/
def Node.departures : Node → List Departure
  | .leave _ => [.leave]
  | .proceed _ => [.proceed]
  | .chain _ current remaining => current.departures ++ remaining.departures
  | .call _ _ arguments | .staticCall _ _ _ arguments => departuresOfAll arguments
  | .unary _ _ operand => operand.departures
  | .binary _ _ left right => left.departures ++ right.departures
  | .block _ statements | .directive _ _ _ statements => departuresOfAll statements
  | .returns _ value => departuresOfOptional value
  | .discard _ value => value.departures
  | .branch _ condition accepted otherwise =>
    condition.departures ++ accepted.departures ++ departuresOfOptional otherwise
  | .switch _ _ value cases fallback =>
    value.departures ++ departuresOfCases cases ++ departuresOfOptional fallback
  | .assign _ _ target value => target.departures ++ value.departures
  | .adjust _ _ target _ => target.departures
  | .whileLoop _ condition body => condition.departures ++ body.departures
  | .doLoop _ body condition => body.departures ++ condition.departures
  | .forLoop _ init condition post body =>
    init.departures ++ condition.departures ++ body.departures ++ post.departures
  | .label _ _ statement => statement.departures
  | .function _ _ _ _ body => body.departures
  | .null _ | .number .. | .string .. | .identifier .. | .jump .. | .callLabel .. | .back _ => []

def departuresOfAll : List Node → List Departure
  | [] => []
  | node :: nodes => node.departures ++ departuresOfAll nodes

def departuresOfOptional : Option Node → List Departure
  | none => []
  | some node => node.departures

def departuresOfCases : List SwitchCase → List Departure
  | [] => []
  | .mk value body :: cases => value.departures ++ body.departures ++ departuresOfCases cases

end

/-! ## one exit -/

namespace Departure

/-- The target of an exit that no construct has taken yet. -/
def placeholder : Departure → JumpTarget
  | leave | caseEnd => .breakPoint
  | proceed => .continuePoint

/-- Constructs further out do not change where an exit leads. -/
theorem target?_append {kind : Departure} {around : List Enclosure} {a : Nat} (c : Enclosure)
    (h : kind.target? around = some a) : kind.target? (around ++ [c]) = some a := by
  fun_induction target? kind around with
  | case5 _ _ around ih => exact ih h
  | case7 => cases h
  | _ => exact h

/-- A continue goes through cases. -/
theorem target?_proceed {around : List Enclosure} (stop next : Nat)
    (h : ∀ c ∈ around, ∃ kind end_, c = .clause kind end_) :
    target? .proceed (around ++ [.loopBody stop next]) = some next := by
  induction around with
  | nil => rfl
  | cons c around ih =>
      obtain ⟨⟨kind, end_, rfl⟩, others⟩ := List.forall_mem_cons.1 h
      exact ih others

end Departure

/-- What a place allows, as kinds of exits that may be left open. -/
def Allowed.Permits (allowed : Allowed) : Departure → Prop
  | .leave => allowed.leave = true
  | .proceed => allowed.proceed = true
  | .caseEnd => False

/-- What may be left open between the cases of a switch or select. -/
def Allowed.PermitsInCases (kind : SwitchKind) (allowed : Allowed) : Departure → Prop
  | .leave => kind = .switch
  | .proceed => allowed.proceed = true
  | .caseEnd => kind = .select

namespace Exit

variable {may may' : Departure → Prop} {e : Exit} {i : Instruction}

/-- Nothing around the exit takes it or holds it up. -/
def Open (e : Exit) : Prop :=
  ∀ c ∈ e.around, e.kind = .proceed ∧ ∃ kind stop, c = .clause kind stop

/-- The instruction goes where the exit leads, or the exit is open and so is the instruction. -/
def Fits (may : Departure → Prop) (e : Exit) (i : Instruction) : Prop :=
  (∃ a, e.target? = some a ∧ i = .jump (.address a)) ∨
    may e.kind ∧ e.Open ∧ i = .jump e.kind.placeholder

/-- Nothing is around an exit that is open, unless it is a continue. -/
theorem Open.around_eq_nil (h : e.Open) (other : e.kind ≠ .proceed) : e.around = [] :=
  List.eq_nil_iff_forall_not_mem.2 fun c found => other (h c found).1

/-- More may be left open. -/
theorem Fits.mono (h : e.Fits may i) (step : ∀ kind, may kind → may' kind) : e.Fits may' i := by
  rcases h with settled | ⟨permitted, open_⟩
  · exact .inl settled
  · exact .inr ⟨step _ permitted, open_⟩

/-- An exit that has found its target keeps it. -/
theorem settled_within {a : Nat} (h : e.target? = some a) (c : Enclosure) (x y : Option Nat) :
    (e.within c).Fits may ((Instruction.jump (.address a)).mapTarget (Code.retarget x y)) := by
  refine .inl ⟨a, Departure.target?_append c h, ?_⟩
  cases x <;> cases y <;> rfl

/-- The body of a loop takes all exits. -/
theorem Fits.inLoopBody (h : e.Fits may i) (ends : ¬ may .caseEnd) (stop next : Nat) :
    (e.within (.loopBody stop next)).Fits may'
      (i.mapTarget (Code.retarget (some stop) (some next))) := by
  obtain ⟨kind, address, around⟩ := e
  rcases h with ⟨a, target, rfl⟩ | ⟨permitted, open_, rfl⟩
  · exact settled_within target _ _ _
  · cases kind with
    | leave =>
        obtain rfl := open_.around_eq_nil nofun
        exact .inl ⟨stop, rfl, rfl⟩
    | proceed =>
        exact .inl ⟨next, Departure.target?_proceed stop next fun c found => (open_ c found).2, rfl⟩
    | caseEnd => exact absurd permitted ends

/-- The head of a for loop takes breaks; it has no continues. -/
theorem Fits.inLoopPost (h : e.Fits may i) (ends : ¬ may .caseEnd) (continues : ¬ may .proceed)
    (stop next : Nat) :
    (e.within (.loopPost stop)).Fits may'
      (i.mapTarget (Code.retarget (some stop) (some next))) := by
  obtain ⟨kind, address, around⟩ := e
  rcases h with ⟨a, target, rfl⟩ | ⟨permitted, open_, rfl⟩
  · exact settled_within target _ _ _
  · cases kind with
    | leave =>
        obtain rfl := open_.around_eq_nil nofun
        exact .inl ⟨stop, rfl, rfl⟩
    | proceed => exact absurd permitted continues
    | caseEnd => exact absurd permitted ends

/-- A switch takes the breaks in it and a select the ends of its cases.  Both let continues
through. -/
theorem Fits.inClause {kind : SwitchKind} {allowed : Allowed}
    (h : e.Fits (allowed.PermitsInCases kind) i) (stop : Nat) :
    (e.within (.clause kind stop)).Fits allowed.Permits
      (i.mapTarget (Code.retarget (some stop) none)) := by
  obtain ⟨departure, address, around⟩ := e
  rcases h with ⟨a, target, rfl⟩ | ⟨permitted, open_, rfl⟩
  · exact settled_within target _ _ _
  · cases departure with
    | leave =>
        obtain rfl := open_.around_eq_nil nofun
        obtain rfl : kind = .switch := permitted
        exact .inl ⟨stop, rfl, rfl⟩
    | proceed =>
        refine .inr ⟨permitted, fun c found => ?_, rfl⟩
        rcases List.mem_append.1 found with found | found
        · exact open_ c found
        · exact ⟨rfl, kind, stop, List.mem_singleton.1 found⟩
    | caseEnd =>
        obtain rfl := open_.around_eq_nil nofun
        obtain rfl : kind = .select := permitted
        exact .inl ⟨stop, rfl, rfl⟩

/-- Where nothing is left open a function changes nothing. -/
theorem Fits.inFunction (h : e.Fits Allowed.nowhere.Permits i) :
    (e.within .function).Fits may i := by
  rcases h with ⟨a, target, rfl⟩ | ⟨permitted, -, -⟩
  · exact .inl ⟨a, Departure.target?_append _ target, rfl⟩
  · cases kind : e.kind <;> simp [kind, Allowed.Permits, Allowed.nowhere] at permitted

end Exit

/-! ## fragments -/

/-- A loop around two fragments is a loop around each. -/
theorem Fragment.retarget_append (a b : Fragment) (x y : Option Nat) :
    (a ++ b).retarget x y = a.retarget x y ++ b.retarget x y := by
  show Fragment.retarget x y (Fragment.append a b) =
    Fragment.append (a.retarget x y) (b.retarget x y)
  simp [Fragment.retarget, Fragment.append]

/-- The exits of a fragment at `base` go where they lead or are left open. -/
structure Binds (may : Departure → Prop) (es : List Exit) (base : Nat) (f : Fragment) : Prop where
  waits : ∀ w ∈ f.waiting, base ≤ w.2 ∧ w.2 < base + f.size
  exits : ∀ e ∈ es, ∃ k i, f.code[k]? = some i ∧ e.address = base + k ∧ e.Fits may i ∧
    f.Rests e.address

namespace Binds

variable {may may' : Departure → Prop} {es es' : List Exit} {base : Nat} {a b f : Fragment}
  {i : Instruction} {code : List Instruction}

/-- More may be left open. -/
theorem mono (h : Binds may es base f) (step : ∀ kind, may kind → may' kind) :
    Binds may' es base f where
  waits := h.waits
  exits e found := by
    obtain ⟨k, i, there, same, fits, rests⟩ := h.exits e found
    exact ⟨k, i, there, same, fits.mono step, rests⟩

/-- Code without exits in which nothing waits for a label. -/
theorem silent (h : f.waiting = []) : Binds may [] base f where
  waits := by simp [h]
  exits := nofun

theorem one (i : Instruction) : Binds may [] base (.one i) := silent rfl

/-- A jump that waits for a label. -/
theorem await (i : Instruction) (name : String) :
    Binds may [] base { code := [i], waiting := [(name, base)] } where
  waits := by simp [Fragment.size]
  exits := nofun

/-- An exit by itself. -/
theorem exit (kind : Departure) (permitted : may kind) :
    Binds may [⟨kind, base, []⟩] base (.one (.jump kind.placeholder)) where
  waits := nofun
  exits e found := by
    obtain rfl := List.mem_singleton.1 found
    exact ⟨0, _, rfl, rfl, .inr ⟨permitted, nofun, rfl⟩, nofun⟩

/-- Two fragments have the exits of both. -/
theorem append {mid : Nat} (first : Binds may es base a) (second : Binds may es' mid b)
    (at_ : mid = base + a.size) : Binds may (es ++ es') base (a ++ b) where
  waits := by
    subst at_
    rw [Fragment.size_append]
    refine List.forall_mem_append.2 ⟨fun w found => ?_, fun w found => ?_⟩
    · have bounds := first.waits w found
      omega
    · have bounds := second.waits w found
      omega
  exits := by
    subst at_
    refine List.forall_mem_append.2 ⟨fun e found => ?_, fun e found => ?_⟩
    · obtain ⟨k, i, there, same, fits, rests⟩ := first.exits e found
      have inside := (List.getElem?_eq_some_iff.1 there).1
      refine ⟨k, i, by rw [Fragment.code_append, List.getElem?_append_left inside, there], same,
        fits, List.forall_mem_append.2 ⟨rests, fun w waiting => ?_⟩⟩
      have bounds := second.waits w waiting
      rw [Fragment.size] at bounds
      omega
    · obtain ⟨k, i, there, same, fits, rests⟩ := second.exits e found
      refine ⟨a.size + k, i, ?_, by rw [same, Nat.add_assoc], fits,
        List.forall_mem_append.2 ⟨fun w waiting => ?_, rests⟩⟩
      · rw [Fragment.code_append, Fragment.size, List.getElem?_append_right (Nat.le_add_right _ _),
          Nat.add_sub_cancel_left, there]
      · have bounds := first.waits w waiting
        omega

/-- Code without exits behind other code. -/
theorem appendSilent (h : Binds may es base a) (other : b.waiting = []) :
    Binds may es base (a ++ b) := by
  have both := h.append (silent other : Binds may [] _ b) rfl
  rwa [List.append_nil] at both

/-- Other code behind code without exits. -/
theorem afterSilent {mid : Nat} (h : Binds may es mid b) (other : a.waiting = [])
    (at_ : mid = base + a.size) : Binds may es base (a ++ b) :=
  (silent other : Binds may [] base a).append h at_

/-- A construct that patches its range takes exits or lets them through. -/
theorem within {x y : Option Nat} (h : Binds may es base f) (c : Enclosure)
    (step : ∀ (e : Exit) i, e.Fits may i →
      (e.within c).Fits may' (i.mapTarget (Code.retarget x y))) :
    Binds may' (es.map (·.within c)) base (f.retarget x y) where
  waits := by
    rw [Fragment.size_retarget]
    exact h.waits
  exits e found := by
    obtain ⟨inner, member, rfl⟩ := List.mem_map.1 found
    obtain ⟨k, i, there, same, fits, rests⟩ := h.exits inner member
    exact ⟨k, i.mapTarget (Code.retarget x y), by simp [Fragment.retarget, there], same,
      step inner i fits, rests⟩

/-- A function takes no exit, and there is none that it would have to take. -/
theorem inFunction (h : Binds Allowed.nowhere.Permits es base f) :
    Binds may (es.map (·.within .function)) base f where
  waits := h.waits
  exits e found := by
    obtain ⟨inner, member, rfl⟩ := List.mem_map.1 found
    obtain ⟨k, i, there, same, fits, rests⟩ := h.exits inner member
    exact ⟨k, i, there, same, fits.inFunction, rests⟩

/-- The body of a loop takes all exits. -/
theorem inLoopBody {inner : Allowed} (h : Binds inner.Permits es base f) (stop next : Nat) :
    Binds may (es.map (·.within (.loopBody stop next))) base
      (f.retarget (some stop) (some next)) :=
  h.within _ fun _ _ fits => fits.inLoopBody id stop next

/-- The last part of a for loop has breaks at most, which leave the loop. -/
theorem inLoopPost (h : Binds Allowed.loopPost.Permits es base f) (stop next : Nat) :
    Binds may (es.map (·.within (.loopPost stop))) base (f.retarget (some stop) (some next)) :=
  h.within _ fun _ _ fits =>
    fits.inLoopPost id (by simp [Allowed.Permits, Allowed.loopPost]) stop next

/-- A clause takes what its kind takes and passes on the rest. -/
theorem inClause {kind : SwitchKind} {allowed : Allowed}
    (h : Binds (allowed.PermitsInCases kind) es base f) (stop : Nat) :
    Binds allowed.Permits (es.map (·.within (.clause kind stop))) base
      (f.retarget (some stop) none) :=
  h.within _ fun _ _ fits => fits.inClause stop

theorem jumpOver {make : JumpTarget → Instruction} (h : Binds may es (base + 1) f) :
    Binds may es base (.jumpOver make base f) :=
  h.afterSilent rfl rfl

/-- A return is no exit. -/
theorem closed (h : Binds may es base f) : Binds may es base (f.closed base) := by
  unfold Fragment.closed
  split
  · exact h.appendSilent rfl
  · exact h

/-! ### statements

The constructs with exits of their own, each with the address behind its whole code. -/

variable {c d : Fragment}

/-- Both branches of a condition, with a jump over the second one. -/
theorem branch {target : JumpTarget} (test : a.waiting = [])
    (second : Binds may es (base + a.size + 1) b)
    (third : Binds may es' (base + a.size + 1 + b.size + 1) c) :
    Binds may (es ++ es') base
      (a ++ .one (.jumpUnless target) ++ b ++ .jumpOver .jump (base + a.size + 1 + b.size) c) := by
  have front : (a ++ .one (.jumpUnless target)).waiting = [] := by
    rw [Fragment.waiting_append, test]
    rfl
  have both : Binds may es base (a ++ .one (.jumpUnless target) ++ b) :=
    second.afterSilent front (by simp [Nat.add_assoc])
  exact both.append third.jumpOver (by simp [Nat.add_assoc])

/-- The test of a loop and its turns. -/
theorem loop {inner : Allowed} {whole : Fragment} {next : Nat} (test : a.waiting = [])
    (turn : Binds inner.Permits es (base + a.size + 1) b)
    (shape : whole = a ++ .jumpOver .jumpUnless (base + a.size)
      (b.retarget (some (base + a.size + 1 + b.size)) (some next))) :
    Binds may (es.map (·.within (.loopBody (base + whole.size) next))) base whole := by
  have stop : base + whole.size = base + a.size + 1 + b.size := by
    rw [shape, Fragment.size_append, Fragment.size_jumpOver, Fragment.size_retarget]
    omega
  rw [stop, shape]
  exact (turn.inLoopBody _ _).jumpOver.afterSilent test rfl

/-- The turns of a loop with its test behind them. -/
theorem loopBefore {inner : Allowed} {whole : Fragment} {target : JumpTarget}
    (turn : Binds inner.Permits es base a) (test : b.waiting = [])
    (shape : whole = a.retarget (some (base + a.size + b.size + 1)) (some (base + a.size)) ++ b ++
      .one (.jumpIf target)) :
    Binds may (es.map (·.within (.loopBody (base + whole.size) (base + a.size)))) base whole := by
  have stop : base + whole.size = base + a.size + b.size + 1 := by
    rw [shape, Fragment.size_append, Fragment.size_append, Fragment.size_retarget,
      Fragment.size_one]
    omega
  rw [stop, shape]
  exact ((turn.inLoopBody _ _).appendSilent test).appendSilent rfl

/-- The first statement of a for loop, its test and its turns, each with the statement behind it
that takes to the next one. -/
theorem loopWithStep {whole : Fragment} {target : JumpTarget} {start : Nat} {first : List Exit}
    (init : Binds may first base d) (test : a.waiting = [])
    (turn : Binds Allowed.loopBody.Permits es (start + a.size + 1) b)
    (step : Binds Allowed.loopPost.Permits es' (start + a.size + 1 + b.size) c)
    (at_ : start = base + d.size)
    (shape : whole = d ++ a ++ .jumpOver .jumpUnless (start + a.size)
      ((b ++ c ++ .one (.jump target)).retarget
        (some (start + a.size + 1 + (b ++ c ++ .one (.jump target)).size))
        (some (start + a.size + 1 + b.size)))) :
    Binds may
      (first ++ (es.map (·.within (.loopBody (base + whole.size) (start + a.size + 1 + b.size))) ++
        es'.map (·.within (.loopPost (base + whole.size))))) base whole := by
  have stop : base + whole.size = start + a.size + 1 + (b ++ c ++ .one (.jump target)).size := by
    rw [shape, at_, Fragment.size_append, Fragment.size_append, Fragment.size_jumpOver,
      Fragment.size_retarget]
    omega
  rw [stop, shape, Fragment.retarget_append, Fragment.retarget_append, Fragment.append_assoc d]
  refine init.append ((jumpOver ?_).afterSilent test rfl) at_
  exact ((turn.inLoopBody _ _).append (step.inLoopPost _ _) (by simp)).appendSilent rfl

/-- The value of a switch and the comparisons with it, then the bodies with the fallback behind
them. -/
theorem switch {kind : SwitchKind} {allowed : Allowed} {whole : Fragment} {start : Nat}
    {target : JumpTarget} (value : a.waiting = []) (tests : b.waiting = [])
    (bodies : Binds (allowed.PermitsInCases kind) es start c)
    (last : Binds (allowed.PermitsInCases kind) es' (start + c.size) d)
    (at_ : start = base + a.size + b.size + 2)
    (shape : whole = a ++ b ++ .ofCode [.discard, .jump target] ++
      (c ++ d).retarget (some (start + c.size + d.size)) none) :
    Binds allowed.Permits ((es ++ es').map (·.within (.clause kind (base + whole.size)))) base
      whole := by
  have stop : base + whole.size = start + c.size + d.size := by
    rw [shape, at_]
    simp only [Fragment.size_append, Fragment.size_ofCode, Fragment.size_retarget, List.length_cons,
      List.length_nil]
    omega
  have front : (a ++ b ++ .ofCode [.discard, .jump target]).waiting = [] := by
    rw [Fragment.waiting_append, Fragment.waiting_append, value, tests]
    rfl
  rw [stop, shape]
  refine ((bodies.append last rfl).inClause _).afterSilent front ?_
  simp only [Fragment.size_append, Fragment.size_ofCode, List.length_cons, List.length_nil]
  omega

end Binds

/-! ## trees -/

namespace Generate

open Fragment

/-- What a case allows may be left open between the cases. -/
theorem permits_cases {kind : SwitchKind} {allowed : Allowed} (departure : Departure)
    (h : (allowed.cases kind).Permits departure) : allowed.PermitsInCases kind departure := by
  cases departure with
  | leave =>
      have switch : kind = .switch := of_decide_eq_true h
      exact switch
  | proceed => exact h
  | caseEnd => exact h.elim

mutual

/-- The exits of a statement go where the constructs around them say. -/
theorem binds_statement {n : Nat} {allowed : Allowed} : (node : Node) → (scope : Scope) →
    IsStatement n allowed node → (base : Nat) →
    Binds allowed.Permits (node.exits scope base) base (layout node scope base)
  | .block _ statements, _, h, base => binds_statements statements _ h base
  | .returns _ none, _, _, _ => .silent rfl
  | .returns _ (some value), scope, h, base | .discard _ value, scope, h, base =>
      .silent ((plain_expression scope value h base).append (plain_one _)).waiting
  | .branch _ condition accepted none, scope, h, base => by
      rw [Node.exits, exitsOfOptional, List.append_nil]
      exact (binds_statement accepted _ h.2.1 _).jumpOver.afterSilent
        (plain_expression scope condition h.1 base).waiting rfl
  | .branch _ condition accepted (some otherwise), scope, h, base => by
      exact .branch (plain_expression scope condition h.1 base).waiting
        (binds_statement accepted _ h.2.1 _) (binds_statement otherwise _ h.2.2 _)
  | .switch l kind value cases fallback, scope, h, base => by
      have bodies := binds_cases cases kind scope h.2.1
        (base + (layout value scope base).size +
          (layoutTests cases [] scope (base + (layout value scope base).size)).size + 2)
      exact bodies.switch (plain_expression scope value h.1 base).waiting
        (plain_tests scope cases h.2.1 _ _).waiting
        ((binds_optional fallback _ h.2.2 _).mono permits_cases)
        (by simp only [size_layoutTests]) rfl
  | .assign _ none target value, scope, h, base =>
      .silent (((plain_target scope h.1 base).append
        (plain_expression scope value h.2 _)).append (plain_one _)).waiting
  | .assign _ (some op) target value, scope, h, base =>
      .silent (((plain_current scope target h.1 base).append
        (plain_expression scope value h.2 _)).append (plain_ofCode _)).waiting
  | .adjust _ kind target direction, scope, h, base =>
      .silent ((plain_current scope target h.2 base).append (plain_ofCode _)).waiting
  | .whileLoop l condition body, scope, h, base => by
      have turn := (binds_statement body scope h.2
        (base + (layout condition scope base).size + 1)).appendSilent
          (b := .one (.jump (.address base))) rfl
      exact turn.loop (plain_expression scope condition h.1 base).waiting rfl
  | .doLoop l body condition, scope, h, base =>
      (binds_statement body _ h.1 base).loopBefore
        (plain_expression scope condition h.2 _).waiting rfl
  | .forLoop l init condition post body, scope, h, base =>
      (binds_statement init _ h.1 base).loopWithStep
        (plain_expression scope condition h.2.1 _).waiting
        (binds_statement body _ h.2.2.2 _) (binds_statement post _ h.2.2.1 _) rfl rfl
  | .leave _, _, h, _ => .exit .leave h
  | .proceed _, _, h, _ => .exit .proceed h
  | .label _ name statement, _, h, base =>
      (binds_statement statement _ h base).afterSilent rfl rfl
  | .jump _ name, _, _, base | .callLabel _ name, _, _, base => .await _ name
  | .back _, _, _, _ => .one _
  | .directive .., _, ⟨rfl, rfl⟩, _ => .silent rfl
  | .function _ _ _ parameters body, scope, h, base => by
      have inner : Binds Allowed.nowhere.Permits _ (base + 1)
        (layout body { scope with parameters } (base + 1)) := binds_statement body _ h.2 (base + 1)
      exact inner.closed.inFunction.jumpOver.appendSilent rfl

theorem binds_statements {n : Nat} {allowed : Allowed} : (nodes : List Node) → (scope : Scope) →
    AreStatements n allowed nodes → (base : Nat) →
    Binds allowed.Permits (exitsOfAll nodes scope base) base (layoutAll nodes scope base)
  | [], _, _, _ => .silent rfl
  | node :: nodes, _, h, base =>
      (binds_statement node _ h.1 base).append (binds_statements nodes _ h.2 _) rfl

theorem binds_optional {n : Nat} {allowed : Allowed} : (node : Option Node) → (scope : Scope) →
    IsOptional n allowed node → (base : Nat) →
    Binds allowed.Permits (exitsOfOptional node scope base) base (layoutOptional node scope base)
  | none, _, _, _ => .silent rfl
  | some node, _, h, base => binds_statement node _ h base

theorem binds_cases {n : Nat} {allowed : Allowed} : (cases : List SwitchCase) →
    (kind : SwitchKind) → (scope : Scope) → AreCases n (allowed.cases kind) cases → (base : Nat) →
    Binds (allowed.PermitsInCases kind) (exitsOfCases cases kind scope base) base
      (layoutBodies cases kind scope base)
  | [], _, _, _, _ => .silent rfl
  | .mk _ body :: cases, kind, scope, h, base => by
      have first := (binds_statement body scope h.2.1 base).mono permits_cases
      cases kind with
      | switch =>
          simp only [exitsOfCases, layoutBodies, reduceCtorEq, if_false, List.append_nil,
            Fragment.ofCode_nil, Fragment.append_empty]
          exact first.append (binds_cases cases .switch _ h.2.2 _) rfl
      | select =>
          have ends : Binds (allowed.PermitsInCases .select)
              [⟨.caseEnd, base + (layout body scope base).size, []⟩] _
              (.ofCode [.jump .breakPoint]) := .exit .caseEnd rfl
          simp only [exitsOfCases, layoutBodies, if_true, Fragment.size_append,
            Fragment.size_ofCode, ← Nat.add_assoc]
          exact (first.append ends rfl).append (binds_cases cases .select _ h.2.2 _) (by simp; rfl)

end

end Generate

/-! ## no exit is left out -/

mutual

/-- No break and no continue stands in an expression. -/
theorem departures_expression : (node : Node) → IsExpression node → node.departures = []
  | .null _, _ | .number .., _ | .string .., _ | .identifier .., _ => rfl
  | .chain _ current remaining, h => by
      rw [Node.departures, departures_expression current h.1, departures_links remaining h.2,
        List.append_nil]
  | .call _ _ arguments, h | .staticCall _ _ _ arguments, h => departures_expressions arguments h
  | .unary _ _ operand, h => departures_expression operand h
  | .binary _ _ left right, h => by
      rw [Node.departures, departures_expression left h.1, departures_expression right h.2,
        List.append_nil]
  | .adjust _ _ target _, h => departures_expression target h.2

/-- Expressions in a list have no exits. -/
theorem departures_expressions : (nodes : List Node) → AreExpressions nodes →
    departuresOfAll nodes = []
  | [], _ => rfl
  | node :: nodes, h => by
      rw [departuresOfAll, departures_expression node h.1, departures_expressions nodes h.2,
        List.append_nil]

theorem departures_link : (node : Node) → IsLink node → node.departures = []
  | .identifier .., _ => rfl
  | .call _ _ arguments, h => departures_expressions arguments h

/-- The links of a chain have no exits. -/
theorem departures_links : (node : Node) → AreLinks node → node.departures = []
  | .chain _ current remaining, h => by
      rw [Node.departures, departures_link current h.1, departures_links remaining h.2,
        List.append_nil]
  | .identifier .., _ => rfl
  | .call _ _ arguments, h => departures_expressions arguments h

end

/-- The breaks and continues among the exits, without the ends of cases. -/
def Exit.written (es : List Exit) : List Departure := (es.map (·.kind)).filter (·.isWritten)

/-- What is written in two lists is written in both. -/
@[simp] theorem Exit.written_append (es es' : List Exit) :
    written (es ++ es') = written es ++ written es' := by
  simp [written]

/-- A construct around exits does not change what is written. -/
@[simp] theorem Exit.written_within (es : List Exit) (c : Enclosure) :
    written (es.map (·.within c)) = written es := by
  simp [written, within, Function.comp_def]

mutual

/-- The exits of a statement are the breaks and continues in it and the ends of cases. -/
theorem written_exits {n : Nat} {allowed : Allowed} : (node : Node) → (scope : Scope) →
    IsStatement n allowed node → (base : Nat) →
    Exit.written (node.exits scope base) = node.departures
  | .block _ statements, scope, h, base => written_exitsOfAll statements scope h base
  | .returns _ none, _, _, _ => rfl
  | .returns _ (some value), _, h, _ | .discard _ value, _, h, _ =>
      (departures_expression value h).symm
  | .branch _ condition accepted otherwise, scope, h, base => by
      simp only [Node.exits, Node.departures, Exit.written_append, departures_expression _ h.1,
        written_exits accepted scope h.2.1, written_exitsOfOptional otherwise scope h.2.2,
        List.nil_append]
  | .switch _ kind value cases fallback, scope, h, base => by
      simp only [Node.exits, Node.departures, Exit.written_append, Exit.written_within,
        departures_expression _ h.1, written_exitsOfCases cases kind scope h.2.1,
        written_exitsOfOptional fallback scope h.2.2, List.nil_append]
  | .assign _ none target value, _, h, _ | .assign _ (some _) target value, _, h, _ => by
      rw [Node.departures, departures_expression target h.1, departures_expression value h.2]
      rfl
  | .adjust _ _ target _, _, h, _ => (departures_expression target h.2).symm
  | .whileLoop _ condition body, scope, h, base => by
      simp only [Node.exits, Node.departures, Exit.written_within, departures_expression _ h.1,
        written_exits body scope h.2, List.nil_append]
  | .doLoop _ body condition, scope, h, base => by
      simp only [Node.exits, Node.departures, Exit.written_within, departures_expression _ h.2,
        written_exits body scope h.1, List.append_nil]
  | .forLoop _ init condition post body, scope, h, base => by
      simp only [Node.exits, Node.departures, Exit.written_append, Exit.written_within,
        written_exits init scope h.1, departures_expression _ h.2.1,
        written_exits post scope h.2.2.1, written_exits body scope h.2.2.2, List.append_nil,
        List.append_assoc]
  | .leave _, _, _, _ | .proceed _, _, _, _ | .jump .., _, _, _ | .callLabel .., _, _, _
  | .back _, _, _, _ | .directive .., _, ⟨rfl, rfl⟩, _ => rfl
  | .label _ _ statement, scope, h, base => written_exits statement scope h base
  | .function _ _ _ parameters body, scope, h, base => by
      rw [Node.exits, Exit.written_within, Node.departures, written_exits body _ h.2]

/-- The exits of a list of statements are those that are written in it. -/
theorem written_exitsOfAll {n : Nat} {allowed : Allowed} : (nodes : List Node) → (scope : Scope) →
    AreStatements n allowed nodes → (base : Nat) →
    Exit.written (exitsOfAll nodes scope base) = departuresOfAll nodes
  | [], _, _, _ => rfl
  | node :: nodes, scope, h, base => by
      rw [exitsOfAll, Exit.written_append, departuresOfAll, written_exits node scope h.1,
        written_exitsOfAll nodes scope h.2]

theorem written_exitsOfOptional {n : Nat} {allowed : Allowed} : (node : Option Node) →
    (scope : Scope) → IsOptional n allowed node → (base : Nat) →
    Exit.written (exitsOfOptional node scope base) = departuresOfOptional node
  | none, _, _, _ => rfl
  | some node, scope, h, base => written_exits node scope h base

/-- The exits of the bodies are those that are written in them, without the ends of the cases. -/
theorem written_exitsOfCases {n : Nat} {inner : Allowed} : (cases : List SwitchCase) →
    (kind : SwitchKind) → (scope : Scope) → AreCases n inner cases → (base : Nat) →
    Exit.written (exitsOfCases cases kind scope base) = departuresOfCases cases
  | [], _, _, _, _ => rfl
  | .mk value body :: cases, kind, scope, h, base => by
      have ends (address : Nat) :
          Exit.written (if kind = .select then [⟨.caseEnd, address, []⟩] else []) = [] := by
        cases kind <;> rfl
      simp only [exitsOfCases, Exit.written_append, departuresOfCases,
        written_exits body scope h.2.1, departures_expression value h.1, ends,
        written_exitsOfCases cases kind scope h.2.2, List.nil_append, List.append_nil]

end

/-! ## main result -/

section main

variable {env : Environment} {options : Options} {text : String} {root : Node}

/-- Where nothing may be left open the code goes where its exits lead. -/
theorem Binds.settled {es : List Exit} {base : Nat} {f : Fragment} {e : Exit}
    (h : Binds Allowed.nowhere.Permits es base f) (found : e ∈ es) :
    ∃ k a, f.code[k]? = some (.jump (.address a)) ∧ e.address = base + k ∧ e.target? = some a ∧
      f.Rests e.address := by
  obtain ⟨k, i, there, same, ⟨a, target, rfl⟩ | ⟨permitted, -, -⟩, rests⟩ := h.exits e found
  · exact ⟨k, a, there, same, target, rests⟩
  · cases kind : e.kind <;> simp [kind, Allowed.Permits, Allowed.nowhere] at permitted

/-- Every break and every continue of a script that can be read stands where a construct takes it,
and the code goes there.  In a finished program it still does. -/
theorem compile_binds_exits (plain : env.hostDirectives = [])
    (read : readTree env options text = some root) :
    (∀ scope base, Exit.written (root.exits scope base) = root.departures ∧
      ∀ e ∈ root.exits scope base, e.target?.isSome) ∧
    (∀ (top scope : Scope) (g g' : Generator) (u : Unit), g.Ready top scope →
      Generate.emit root top g = .ok u g' →
      ∀ e ∈ root.exits scope g.here, e.Taken g'.listing) ∧
    ∀ program, compile env options text = .ok program →
      ∀ e ∈ root.exits ⟨env, options.mainArguments⟩ 0, e.Taken program.instructions := by
  obtain ⟨session, -, holds⟩ := readTree_eq_some plain read
  have binds (scope : Scope) (base : Nat) :=
    Generate.binds_statement root scope holds.statement base
  refine ⟨fun scope base => ⟨written_exits root scope holds.statement base, fun e found => ?_⟩,
    fun top scope g g' u ready run e found => ?_, fun program compiled e found => ?_⟩
  · obtain ⟨k, a, -, -, target, -⟩ := (binds scope base).settled found
    rw [target, Option.isSome_some]
  · obtain ⟨k, a, there, same, target, -⟩ := (binds scope g.here).settled found
    refine ⟨a, target, ?_⟩
    have front : g.listing.length ≤ g.here + k :=
      Nat.le_add_right_of_le (Nat.le_of_eq g.length_listing)
    rw [(Generate.emit_extends root ready run).listing, same, List.getElem?_append_right front,
      Generator.length_listing, Nat.add_sub_cancel_left, there]
  · obtain ⟨root', session', g, read', h⟩ := completes_of_compile plain compiled
    obtain rfl : root = root' := Option.some.inj (read.symm.trans read')
    obtain ⟨k, a, there, same, target, rests⟩ := (binds _ 0).settled found
    rw [Nat.zero_add] at same
    refine ⟨a, target, h.finished.getElem?_of_rests (fun name waits => ?_) ?_⟩
    · exact rests _ ((h.holds.fresh.blank.waits_iff h.extends_).1 waits) rfl
    · rw [h.holds.fresh.blank.listing_eq h.extends_, same, there]

end main

/-- A loop that the last statement of its head leaves.  In its body a continue goes through a switch
and a break leaves only the loop in a case of a select. -/
def strayScript : String :=
  "for (i = 0; i < 9; break) \x7b switch i \x7b case 1: continue; case 2: break \x7d select i \x7b case 3: while 1 break \x7d \x7d"

theorem compile_binds_exits_stray : ∃ root program,
    readTree {} {} strayScript = some root ∧ compile {} {} strayScript = .ok program ∧
      (root.exits ⟨{}, []⟩ 0).map (fun e => (e.kind, e.target?)) =
        [(.proceed, some 25), (.leave, some 15), (.leave, some 24), (.caseEnd, some 25),
          (.leave, some 27)] ∧
      ∀ e ∈ root.exits ⟨{}, []⟩ 0, e.Taken program.instructions := by
  have known : (readTree {} {} strayScript).map
      (fun root => (root.exits ⟨{}, []⟩ 0).map fun e => (e.kind, e.target?)) =
        some [(.proceed, some 25), (.leave, some 15), (.leave, some 24), (.caseEnd, some 25),
          (.leave, some 27)] := by decide +kernel
  have succeeds : (compile {} {} strayScript).isOk = true := by decide +kernel
  obtain ⟨root, read, exits⟩ := Option.map_eq_some_iff.1 known
  cases compiled : compile {} {} strayScript with
  | error e =>
      rw [compiled] at succeeds
      cases succeeds
  | ok program =>
      exact ⟨root, program, read, rfl, exits, (compile_binds_exits rfl read).2.2 program compiled⟩

end HostScript
