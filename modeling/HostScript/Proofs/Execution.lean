import HostScript.Proofs.Evaluation

/-!
# HostScript.Proofs.Execution

What a statement means, and that its code does it.  `Executes` gives the meaning as a relation over
trees: a statement takes a store to another one and ends normally, in a break, in a continue or with
a returned value.  The code of the statement arrives where the outcome says: behind itself, at the
end or the continue point of the loop around it, or in a return.
-/

namespace HostScript

open Machine Generate

/-! ## what a statement means -/

/-- How a statement ends. -/
inductive Outcome (H : Host) where
  | normal
  | broke
  | continued
  | returned (value : H.Value)

namespace Outcome

variable {H : Host}

/-- Whether the loop around goes on when its body ends like this. -/
def goesOn : Outcome H → Bool
  | normal | continued => true
  | broke | returned _ => false

/-- How a loop or switch ends that is left like this: a break goes no further. -/
def pastBreak : Outcome H → Outcome H
  | broke => normal
  | other => other

/-- What a function yields whose body ends like this. -/
def result? : Outcome H → Option H.Value
  | normal => some H.null
  | returned value => some value
  | broke | continued => none

end Outcome

/-- The cases of a switch from the first one on whose value agrees.  The values behind that are not
evaluated. -/
def agreeingCases (H : Host) (scope : Scope) (value : H.Value) :
    List SwitchCase → H.Action (List SwitchCase)
  | [] => return []
  | case :: cases => do
    let test ← evaluate H scope case.value
    if H.agree value test then return case :: cases else agreeingCases H scope value cases

/-- The bodies that run, from the agreeing cases on: a switch falls through to the end, a select
takes one body, and the fallback stands in when nothing agrees. -/
def SwitchKind.bodies (fallback : Option Node) : SwitchKind → List SwitchCase → List Node
  | .switch, cases => cases.map (·.body) ++ fallback.toList
  | .select, [] => fallback.toList
  | .select, case :: _ => [case.body]

/-- What is executed: a statement, a sequence of them, or the turns of a for loop. -/
inductive Task where
  | one (statement : Node)
  | all (statements : List Node)
  | turns (condition post body : Node)

/-- `Executes H scope task s o s'`: from the store `s` on, the task ends as `o` says with the store
`s'`. -/
inductive Executes (H : Host) (scope : Scope) : Task → H.Store → Outcome H → H.Store → Prop where
  | nil {s} : Executes H scope (.all []) s .normal s
  | cons {statement statements s s₁ s₂ o} :
      Executes H scope (.one statement) s .normal s₁ → Executes H scope (.all statements) s₁ o s₂ →
      Executes H scope (.all (statement :: statements)) s o s₂
  | stop {statement statements s s₁ o} :
      Executes H scope (.one statement) s o s₁ → o ≠ .normal →
      Executes H scope (.all (statement :: statements)) s o s₁
  | block {l statements s s₁ o} :
      Executes H scope (.all statements) s o s₁ →
      Executes H scope (.one (.block l statements)) s o s₁
  | returnNull {l s} : Executes H scope (.one (.returns l none)) s (.returned H.null) s
  | returnValue {l value s s₁ v} :
      evaluate H scope value s = some (v, s₁) →
      Executes H scope (.one (.returns l (some value))) s (.returned v) s₁
  | discard {l value s s₁ v} :
      evaluate H scope value s = some (v, s₁) →
      Executes H scope (.one (.discard l value)) s .normal s₁
  | accepted {l condition accepted otherwise s s₁ s₂ v o} :
      evaluate H scope condition s = some (v, s₁) → H.isTrue v = true →
      Executes H scope (.one accepted) s₁ o s₂ →
      Executes H scope (.one (.branch l condition accepted otherwise)) s o s₂
  | otherwise {l condition accepted otherwise s s₁ s₂ v o} :
      evaluate H scope condition s = some (v, s₁) → H.isTrue v = false →
      Executes H scope (.all otherwise.toList) s₁ o s₂ →
      Executes H scope (.one (.branch l condition accepted otherwise)) s o s₂
  | switch {l kind value cases chosen fallback s s₁ s₂ s₃ v o} :
      evaluate H scope value s = some (v, s₁) →
      agreeingCases H scope v cases s₁ = some (chosen, s₂) →
      Executes H scope (.all (kind.bodies fallback chosen)) s₂ o s₃ →
      Executes H scope (.one (.switch l kind value cases fallback)) s o.pastBreak s₃
  | assign {l target value s s₁ s₂ s₃ place v} :
      locate H scope target s = some (place, s₁) → evaluate H scope value s₁ = some (v, s₂) →
      place.store v s₂ = some (⟨⟩, s₃) →
      Executes H scope (.one (.assign l none target value)) s .normal s₃
  | update {l op target value s s₁ s₂ s₃ s₄ place old v new} :
      locate H scope target s = some (place, s₁) → place.fetch s₁ = some (old, s₂) →
      evaluate H scope value s₂ = some (v, s₃) → place.update op old v s₃ = some (new, s₄) →
      Executes H scope (.one (.assign l (some op) target value)) s .normal s₄
  | adjust {l target direction s s₁ s₂ s₃ place old new} :
      locate H scope target s = some (place, s₁) → place.fetch s₁ = some (old, s₂) →
      place.update .add old (H.number direction.number) s₂ = some (new, s₃) →
      Executes H scope (.one (.adjust l .statement target direction)) s .normal s₃
  | whileEnd {l condition body s s₁ v} :
      evaluate H scope condition s = some (v, s₁) → H.isTrue v = false →
      Executes H scope (.one (.whileLoop l condition body)) s .normal s₁
  | whileNext {l condition body s s₁ s₂ s₃ v o o'} :
      evaluate H scope condition s = some (v, s₁) → H.isTrue v = true →
      Executes H scope (.one body) s₁ o s₂ → o.goesOn = true →
      Executes H scope (.one (.whileLoop l condition body)) s₂ o' s₃ →
      Executes H scope (.one (.whileLoop l condition body)) s o' s₃
  | whileLeave {l condition body s s₁ s₂ v o} :
      evaluate H scope condition s = some (v, s₁) → H.isTrue v = true →
      Executes H scope (.one body) s₁ o s₂ → o.goesOn = false →
      Executes H scope (.one (.whileLoop l condition body)) s o.pastBreak s₂
  | doEnd {l body condition s s₁ s₂ v o} :
      Executes H scope (.one body) s o s₁ → o.goesOn = true →
      evaluate H scope condition s₁ = some (v, s₂) → H.isTrue v = false →
      Executes H scope (.one (.doLoop l body condition)) s .normal s₂
  | doNext {l body condition s s₁ s₂ s₃ v o o'} :
      Executes H scope (.one body) s o s₁ → o.goesOn = true →
      evaluate H scope condition s₁ = some (v, s₂) → H.isTrue v = true →
      Executes H scope (.one (.doLoop l body condition)) s₂ o' s₃ →
      Executes H scope (.one (.doLoop l body condition)) s o' s₃
  | doLeave {l body condition s s₁ o} :
      Executes H scope (.one body) s o s₁ → o.goesOn = false →
      Executes H scope (.one (.doLoop l body condition)) s o.pastBreak s₁
  | forLoop {l init condition post body s s₁ s₂ o} :
      Executes H scope (.one init) s .normal s₁ →
      Executes H scope (.turns condition post body) s₁ o s₂ →
      Executes H scope (.one (.forLoop l init condition post body)) s o s₂
  | forInit {l init condition post body s s₁ o} :
      Executes H scope (.one init) s o s₁ → o ≠ .normal →
      Executes H scope (.one (.forLoop l init condition post body)) s o s₁
  | turnsEnd {condition post body s s₁ v} :
      evaluate H scope condition s = some (v, s₁) → H.isTrue v = false →
      Executes H scope (.turns condition post body) s .normal s₁
  | turnsNext {condition post body s s₁ s₂ s₃ s₄ v o o'} :
      evaluate H scope condition s = some (v, s₁) → H.isTrue v = true →
      Executes H scope (.one body) s₁ o s₂ → o.goesOn = true →
      Executes H scope (.one post) s₂ .normal s₃ →
      Executes H scope (.turns condition post body) s₃ o' s₄ →
      Executes H scope (.turns condition post body) s o' s₄
  | turnsLeave {condition post body s s₁ s₂ v o} :
      evaluate H scope condition s = some (v, s₁) → H.isTrue v = true →
      Executes H scope (.one body) s₁ o s₂ → o.goesOn = false →
      Executes H scope (.turns condition post body) s o.pastBreak s₂
  | turnsLeavePost {condition post body s s₁ s₂ s₃ v o o'} :
      evaluate H scope condition s = some (v, s₁) → H.isTrue v = true →
      Executes H scope (.one body) s₁ o s₂ → o.goesOn = true →
      Executes H scope (.one post) s₂ o' s₃ → o'.goesOn = false →
      Executes H scope (.turns condition post body) s o'.pastBreak s₃
  | leave {l s} : Executes H scope (.one (.leave l)) s .broke s
  | proceed {l s} : Executes H scope (.one (.proceed l)) s .continued s
  | function {l id name parameters body s} :
      Executes H scope (.one (.function l id name parameters body)) s .normal s

/-! ## where a run arrives -/

section arrivals

variable {H : Host} {program : List Instruction} {x y : Option Nat} {base : Nat} {a b : Fragment}
  {before stack₁ : List H.Value} {s s₁ s₂ : H.Store} {o : Outcome H}

/-- Where the machine is when a statement has ended.  A break or continue needs a loop around it. -/
def Outcome.arrival? (o : Outcome H) (breakTo continueTo : Option Nat) (next : Nat)
    (stack : List H.Value) (remembered : List Nat) (s : H.Store) : Option (State H) :=
  match o with
  | normal => some (.running next stack remembered s)
  | broke => breakTo.map fun target => .running target stack remembered s
  | continued => continueTo.map fun target => .running target stack remembered s
  | returned value => some (.returned value stack s)

/-- Wherever the fragment stands, a run through it uses up `before` and arrives where the outcome
says. -/
def Leads (program : List Instruction) (x y : Option Nat) (base : Nat) (f : Fragment)
    (before : List H.Value) (s : H.Store) (o : Outcome H) (s' : H.Store) : Prop :=
  Carries program x y base f → ∀ stack remembered,
    ∀ state ∈ o.arrival? x y (base + f.size) stack remembered s',
      Reaches program (.running base (before ++ stack) remembered s) state

/-- A run through a fragment that leaves an empty stack arrives at its end. -/
theorem Machine.Runs.leads (h : Runs program x y base a before s [] s₁) :
    Leads program x y base a before s .normal s₁ := by
  intro carries stack remembered state arrives
  obtain rfl := Option.some.inj arrives
  exact h carries stack remembered

/-- A run through the first part of a fragment, and then a way through the second. -/
theorem Machine.Runs.then (first : Runs program x y base a before s stack₁ s₁)
    (second : Leads program x y (base + a.size) b stack₁ s₁ o s₂) :
    Leads program x y base (a ++ b) before s o s₂ := by
  intro carries stack remembered state arrives
  obtain ⟨left, right⟩ := carries_append.1 carries
  rw [Fragment.size_append, ← Nat.add_assoc] at arrives
  exact (first left stack remembered).trans (second right stack remembered state arrives)

namespace Leads

/-- A statement that ends normally is followed by the next one. -/
theorem append (first : Leads program x y base a before s .normal s₁)
    (second : Leads program x y (base + a.size) b [] s₁ o s₂) :
    Leads program x y base (a ++ b) before s o s₂ :=
  Runs.then (fun carries stack remembered => first carries stack remembered _ rfl) second

/-- What is behind a statement that does not end normally is not run. -/
theorem stop (first : Leads program x y base a before s o s₁) (abrupt : o ≠ .normal) :
    Leads program x y base (a ++ b) before s o s₁ := by
  intro carries stack remembered state arrives
  refine first (carries_append.1 carries).1 stack remembered state ?_
  cases o with
  | normal => exact absurd rfl abrupt
  | _ => exact arrives

/-- An instruction that goes on with the fragment behind it instead of jumping over it. -/
theorem overEnter {make : JumpTarget → Instruction}
    (maps : ∀ f t, (make t).mapTarget f = make (f t))
    (h : ∀ target below remembered, perform (make (.address target)) base (before ++ below)
      remembered s = some (.running (base + 1) (stack₁ ++ below) remembered s))
    (rest : Leads program x y (base + 1) a stack₁ s o s₁) :
    Leads program x y base (.jumpOver make base a) before s o s₁ := by
  intro carries stack remembered state arrives
  obtain ⟨at_, inside⟩ := carries_jumpOver.1 carries
  rw [maps, retarget_address] at at_
  rw [Fragment.add_size_jumpOver] at arrives
  exact (reaches_of_perform at_ (h _ stack remembered)).trans
    (rest inside stack remembered state arrives)

/-- An instruction that jumps over one fragment to the next. -/
theorem skip {make : JumpTarget → Instruction} (maps : ∀ f t, (make t).mapTarget f = make (f t))
    (h : ∀ target below remembered, perform (make (.address target)) base (before ++ below)
      remembered s = some (.running target (stack₁ ++ below) remembered s))
    (rest : Leads program x y (base + 1 + a.size) b stack₁ s o s₁) :
    Leads program x y base (.jumpOver make base a ++ b) before s o s₁ := by
  refine Runs.then (Runs.overSkip maps h) ?_
  rwa [Fragment.add_size_jumpOver]

/-- A return ends the program with the value on the stack. -/
theorem ofReturn {v : H.Value} :
    Leads program x y base (.one .ret) [v] s (.returned v) s := by
  intro carries stack remembered state arrives
  obtain rfl := Option.some.inj arrives
  exact reaches_of_perform (carries_one.1 carries) rfl

/-- A body that goes on comes to the continue point of its loop, provided that a run from its end
does. -/
theorem goOn {continueTo : Nat} (stack : List H.Value) (remembered : List Nat)
    (body : Leads program x (some continueTo) base a [] s o s₁)
    (carries : Carries program x (some continueTo) base a) (on : o.goesOn = true)
    (link : Reaches program (.running (base + a.size) stack remembered s₁)
      (.running continueTo stack remembered s₁)) :
    Reaches program (.running base stack remembered s)
      (.running continueTo stack remembered s₁) := by
  cases o with
  | normal => exact (body carries stack remembered _ rfl).trans link
  | continued => exact body carries stack remembered _ rfl
  | broke | returned => cases on

/-- A body that does not go on leaves its loop. -/
theorem leave {breakTo : Nat} {stack : List H.Value} {remembered : List Nat} {u v : Option Nat}
    {state : State H} (body : Leads program (some breakTo) y base a [] s o s₁)
    (carries : Carries program (some breakTo) y base a) (out : o.goesOn = false)
    (arrives : state ∈ o.pastBreak.arrival? u v breakTo stack remembered s₁) :
    Reaches program (.running base stack remembered s) state := by
  refine body carries stack remembered state ?_
  cases o with
  | normal | continued => cases out
  | broke | returned => exact arrives

end Leads

end arrivals

/-! ## code for loops -/

/-- The code of a for loop behind its first statement. -/
def layoutTurns (condition post body : Node) (scope : Scope) (start : Nat) : Fragment :=
  let first := layout condition scope start
  let test := start + first.size
  let turn := layout body scope (test + 1)
  let step := layout post scope (test + 1 + turn.size)
  let rest := turn ++ step ++ .one (.jump (.address start))
  first ++ .jumpOver .jumpUnless test
    (rest.retarget (some (test + 1 + rest.size)) (some (test + 1 + turn.size)))

def Task.layout (scope : Scope) (base : Nat) : Task → Fragment
  | .one statement => Generate.layout statement scope base
  | .all statements => layoutAll statements scope base
  | .turns condition post body => layoutTurns condition post body scope base

/-- A for loop is its first statement and its turns. -/
theorem layout_forLoop (l : Location) (init condition post body : Node) (scope : Scope)
    (base : Nat) :
    layout (.forLoop l init condition post body) scope base =
      layout init scope base ++
        layoutTurns condition post body scope (base + (layout init scope base).size) := by
  rw [layout, Fragment.append_assoc]
  rfl

section loops

variable {H : Host} {scope : Scope} {program : List Instruction} {x y : Option Nat} {base : Nat}
  {s s₁ s₂ s₃ : H.Store} {v : H.Value} {o o' : Outcome H} {condition body post : Node}
  {l : Location}

/-- With a condition that holds, the turn begins. -/
theorem jumpUnless_runs {target : Nat} (truth : H.isTrue v = true) :
    Runs program x y base (.one (.jumpUnless (.address target))) [v] s [] s := by
  intro carries below remembered
  have at_ := carries_one.1 carries
  rw [Instruction.mapTarget, retarget_address] at at_
  refine reaches_of_perform at_ ?_
  show some (State.running (if H.isTrue v then _ else _) _ _ _) = _
  rw [if_pos truth]
  rfl

/-- A loop whose test stands before its turns: the test at the start, a jump behind the loop, and
the turns with the breaks and continues of the loop resolved. -/
theorem carries_loop {start stop : Nat} {first turns : Fragment} {continueTo : Nat}
    (carries : Carries program x y start (first ++ .jumpOver .jumpUnless (start + first.size)
      (turns.retarget (some stop) (some continueTo))))
    (stop_eq : stop = start + first.size + 1 + turns.size) :
    Carries program x y start first ∧
      program[start + first.size]? = some (.jumpUnless (.address stop)) ∧
      Carries program (some stop) (some continueTo) (start + first.size + 1) turns := by
  obtain ⟨test, rest⟩ := carries_append.1 carries
  obtain ⟨at_, inside⟩ := carries_jumpOver.1 rest
  rw [Instruction.mapTarget, retarget_address, Fragment.size_retarget, ← stop_eq] at at_
  exact ⟨test, at_, carries_retarget.1 inside⟩

/-- The test of a loop decides whether another turn begins. -/
theorem test_reaches {start stop : Nat}
    (carries : Carries program x y start (layout condition scope start))
    (at_ : program[start + (layout condition scope start).size]? =
      some (.jumpUnless (.address stop)))
    (test : evaluate H scope condition s = some (v, s₁)) (stack : List H.Value)
    (remembered : List Nat) :
    Reaches program (.running start stack remembered s)
      (.running (if H.isTrue v then start + (layout condition scope start).size + 1 else stop) stack
        remembered s₁) :=
  (evaluate_runs condition test carries stack remembered).trans (reaches_of_perform at_ rfl)

/-- The code of a while loop, taken apart. -/
theorem while_code
    (carries : Carries program x y base (layout (.whileLoop l condition body) scope base)) :
    ∃ test stop, test = base + (layout condition scope base).size ∧
      stop = base + (layout (.whileLoop l condition body) scope base).size ∧
      Carries program x y base (layout condition scope base) ∧
      program[test]? = some (.jumpUnless (.address stop)) ∧
      Carries program (some stop) (some base) (test + 1) (layout body scope (test + 1)) ∧
      program[test + 1 + (layout body scope (test + 1)).size]? = some (.jump (.address base)) := by
  rw [layout] at carries ⊢
  obtain ⟨first, at_, turns⟩ := carries_loop carries rfl
  obtain ⟨turn, back⟩ := carries_append.1 turns
  refine ⟨_, _, rfl, ?_, first, at_, turn, ?_⟩
  · simp [Nat.add_assoc, Nat.add_comm, Nat.add_left_comm]
  · have back := carries_one.1 back
    rwa [Instruction.mapTarget, retarget_address] at back

/-- The code of the turns of a for loop is in the program piece by piece: the condition, the jump
out, the body, the last part and the jump back. -/
theorem turns_code
    (carries : Carries program x y base (layoutTurns condition post body scope base)) :
    ∃ test stop next, test = base + (layout condition scope base).size ∧
      stop = base + (layoutTurns condition post body scope base).size ∧
      next = test + 1 + (layout body scope (test + 1)).size ∧
      Carries program x y base (layout condition scope base) ∧
      program[test]? = some (.jumpUnless (.address stop)) ∧
      Carries program (some stop) (some next) (test + 1) (layout body scope (test + 1)) ∧
      Carries program (some stop) (some next) next (layout post scope next) ∧
      program[next + (layout post scope next).size]? = some (.jump (.address base)) := by
  unfold layoutTurns at carries ⊢
  obtain ⟨first, at_, turns⟩ := carries_loop carries rfl
  obtain ⟨turn, back⟩ := carries_append.1 turns
  obtain ⟨turn, step⟩ := carries_append.1 turn
  refine ⟨_, _, _, rfl, ?_, rfl, first, at_, turn, step, ?_⟩
  · simp [Nat.add_assoc, Nat.add_comm, Nat.add_left_comm]
  · have back := carries_one.1 back
    rwa [Instruction.mapTarget, retarget_address, Fragment.size_append, ← Nat.add_assoc] at back

/-- The code of a do loop is in the program piece by piece: the body, the condition and the jump
back. -/
theorem do_code
    (carries : Carries program x y base (layout (.doLoop l body condition) scope base)) :
    ∃ check stop, check = base + (layout body scope base).size ∧
      stop = base + (layout (.doLoop l body condition) scope base).size ∧
      Carries program (some stop) (some check) base (layout body scope base) ∧
      Carries program x y check (layout condition scope check) ∧
      program[check + (layout condition scope check).size]? = some (.jumpIf (.address base)) ∧
      stop = check + (layout condition scope check).size + 1 := by
  rw [layout] at carries ⊢
  obtain ⟨front, back⟩ := carries_append.1 carries
  obtain ⟨turn, test⟩ := carries_append.1 front
  have back := carries_one.1 back
  rw [Instruction.mapTarget, retarget_address, Fragment.size_append, Fragment.size_retarget,
    ← Nat.add_assoc] at back
  rw [Fragment.size_retarget] at test
  refine ⟨_, _, rfl, ?_, carries_retarget.1 turn, test, back, rfl⟩
  simp [Nat.add_assoc]

/-- The code of a task does what the task does, wherever it stands. -/
def Task.Simulates (scope : Scope) (task : Task) (s : H.Store) (o : Outcome H) (s' : H.Store) :
    Prop :=
  ∀ program x y base, Leads program x y base (task.layout scope base) [] s o s'

/-- The condition does not hold, and the loop is over. -/
theorem whileEnd_simulates (tested : evaluate H scope condition s = some (v, s₁))
    (falsity : H.isTrue v = false) :
    Task.Simulates scope (.one (.whileLoop l condition body)) s .normal s₁ := by
  intro program x y base carries stack remembered state arrives
  obtain rfl := Option.some.inj arrives
  obtain ⟨_, _, rfl, rfl, first, at_, -, -⟩ := while_code (l := l) carries
  have done := test_reaches first at_ tested stack remembered
  rw [falsity] at done
  exact done

/-- A turn that goes on is followed by the loop itself. -/
theorem whileNext_simulates (tested : evaluate H scope condition s = some (v, s₁))
    (truth : H.isTrue v = true) (turn : Task.Simulates scope (.one body) s₁ o s₂)
    (on : o.goesOn = true)
    (rest : Task.Simulates scope (.one (.whileLoop l condition body)) s₂ o' s₃) :
    Task.Simulates scope (.one (.whileLoop l condition body)) s o' s₃ := by
  intro program x y base carries stack remembered state arrives
  obtain ⟨test, stop, rfl, -, first, at_, inside, back⟩ := while_code (l := l) carries
  have start := test_reaches first at_ tested stack remembered
  rw [if_pos truth] at start
  have again := (turn program _ _ _).goOn stack remembered inside on (reaches_of_perform back rfl)
  exact (start.trans again).trans (rest program x y base carries stack remembered state arrives)

/-- A turn that breaks or returns ends the loop. -/
theorem whileLeave_simulates (tested : evaluate H scope condition s = some (v, s₁))
    (truth : H.isTrue v = true) (turn : Task.Simulates scope (.one body) s₁ o s₂)
    (out : o.goesOn = false) :
    Task.Simulates scope (.one (.whileLoop l condition body)) s o.pastBreak s₂ := by
  intro program x y base carries stack remembered state arrives
  obtain ⟨_, _, rfl, rfl, first, at_, inside, -⟩ := while_code (l := l) carries
  have start := test_reaches first at_ tested stack remembered
  rw [if_pos truth] at start
  exact start.trans ((turn program _ _ _).leave inside out arrives)

/-- The condition does not hold, and the turns are over. -/
theorem turnsEnd_simulates (tested : evaluate H scope condition s = some (v, s₁))
    (falsity : H.isTrue v = false) :
    Task.Simulates scope (.turns condition post body) s .normal s₁ := by
  intro program x y base carries stack remembered state arrives
  obtain rfl := Option.some.inj arrives
  obtain ⟨_, _, _, rfl, rfl, rfl, first, at_, -, -⟩ := turns_code carries
  have done := test_reaches first at_ tested stack remembered
  rw [falsity] at done
  exact done

/-- A turn that goes on is followed by the last part and the other turns. -/
theorem turnsNext_simulates (tested : evaluate H scope condition s = some (v, s₁))
    (truth : H.isTrue v = true) (turn : Task.Simulates scope (.one body) s₁ o s₂)
    (on : o.goesOn = true) (step : Task.Simulates scope (.one post) s₂ .normal s₃) {s₄ : H.Store}
    (rest : Task.Simulates scope (.turns condition post body) s₃ o' s₄) :
    Task.Simulates scope (.turns condition post body) s o' s₄ := by
  intro program x y base carries stack remembered state arrives
  obtain ⟨_, _, _, rfl, -, rfl, first, at_, inside, next, back⟩ := turns_code carries
  have start := test_reaches first at_ tested stack remembered
  rw [if_pos truth] at start
  have toPost := (turn program _ _ _).goOn stack remembered inside on .refl
  have again := (step program _ _ _ next stack remembered _ rfl).trans (reaches_of_perform back rfl)
  exact ((start.trans toPost).trans again).trans
    (rest program x y base carries stack remembered state arrives)

/-- A turn that breaks or returns ends the turns. -/
theorem turnsLeave_simulates (tested : evaluate H scope condition s = some (v, s₁))
    (truth : H.isTrue v = true) (turn : Task.Simulates scope (.one body) s₁ o s₂)
    (out : o.goesOn = false) :
    Task.Simulates scope (.turns condition post body) s o.pastBreak s₂ := by
  intro program x y base carries stack remembered state arrives
  obtain ⟨_, _, _, rfl, rfl, rfl, first, at_, inside, -⟩ := turns_code carries
  have start := test_reaches first at_ tested stack remembered
  rw [if_pos truth] at start
  exact start.trans ((turn program _ _ _).leave inside out arrives)

/-- The post statement of a for loop can leave it, too. -/
theorem turnsLeavePost_simulates (tested : evaluate H scope condition s = some (v, s₁))
    (truth : H.isTrue v = true) (turn : Task.Simulates scope (.one body) s₁ o s₂)
    (on : o.goesOn = true) (step : Task.Simulates scope (.one post) s₂ o' s₃)
    (out : o'.goesOn = false) :
    Task.Simulates scope (.turns condition post body) s o'.pastBreak s₃ := by
  intro program x y base carries stack remembered state arrives
  obtain ⟨_, _, _, rfl, rfl, rfl, first, at_, inside, next, -⟩ := turns_code carries
  have start := test_reaches first at_ tested stack remembered
  rw [if_pos truth] at start
  have toPost := (turn program _ _ _).goOn stack remembered inside on .refl
  exact (start.trans toPost).trans ((step program _ _ _).leave next out arrives)

/-- The test behind the turns of a do loop goes back to its start or on behind it. -/
theorem doTest_reaches {check : Nat}
    (carries : Carries program x y check (layout condition scope check))
    (at_ : program[check + (layout condition scope check).size]? = some (.jumpIf (.address base)))
    (test : evaluate H scope condition s = some (v, s₁)) (stack : List H.Value)
    (remembered : List Nat) :
    Reaches program (.running check stack remembered s)
      (.running (if H.isTrue v then base else check + (layout condition scope check).size + 1) stack
        remembered s₁) :=
  (evaluate_runs condition test carries stack remembered).trans (reaches_of_perform at_ rfl)

/-- The condition does not hold behind a turn, and the loop is over. -/
theorem doEnd_simulates (turn : Task.Simulates scope (.one body) s o s₁) (on : o.goesOn = true)
    (tested : evaluate H scope condition s₁ = some (v, s₂)) (falsity : H.isTrue v = false) :
    Task.Simulates scope (.one (.doLoop l body condition)) s .normal s₂ := by
  intro program x y base carries stack remembered state arrives
  obtain rfl := Option.some.inj arrives
  obtain ⟨_, _, rfl, rfl, inside, check, at_, stop⟩ := do_code (l := l) carries
  have toTest := (turn program _ _ _).goOn stack remembered inside on .refl
  have done := doTest_reaches check at_ tested stack remembered
  rw [falsity] at done
  exact toTest.trans (stop ▸ done)

/-- The condition holds behind a turn, and the loop is entered again. -/
theorem doNext_simulates (turn : Task.Simulates scope (.one body) s o s₁) (on : o.goesOn = true)
    (tested : evaluate H scope condition s₁ = some (v, s₂)) (truth : H.isTrue v = true)
    (rest : Task.Simulates scope (.one (.doLoop l body condition)) s₂ o' s₃) :
    Task.Simulates scope (.one (.doLoop l body condition)) s o' s₃ := by
  intro program x y base carries stack remembered state arrives
  obtain ⟨_, _, rfl, -, inside, check, at_, -⟩ := do_code (l := l) carries
  have toTest := (turn program _ _ _).goOn stack remembered inside on .refl
  have again := doTest_reaches check at_ tested stack remembered
  rw [if_pos truth] at again
  exact (toTest.trans again).trans (rest program x y base carries stack remembered state arrives)

/-- A turn that breaks or returns ends the loop before its condition. -/
theorem doLeave_simulates (turn : Task.Simulates scope (.one body) s o s₁)
    (out : o.goesOn = false) :
    Task.Simulates scope (.one (.doLoop l body condition)) s o.pastBreak s₁ := by
  intro program x y base carries stack remembered state arrives
  obtain ⟨_, _, rfl, rfl, inside, -⟩ := do_code (l := l) carries
  exact (turn program _ _ _).leave inside out arrives

end loops

/-! ## code for switches -/

section switches

variable {H : Host} {scope : Scope} {kind : SwitchKind} {fallback : Option Node} {base : Nat}

/-- A default that may be missing is a list of at most one statement. -/
theorem layoutAll_toList :
    layoutAll fallback.toList scope base = layoutOptional fallback scope base := by
  cases fallback with
  | none => rfl
  | some node => exact Fragment.append_empty _

/-- The bodies behind others have their code behind the code of those. -/
theorem layoutBodies_append (skipped cases : List SwitchCase) :
    layoutBodies (skipped ++ cases) kind scope base =
      layoutBodies skipped kind scope base ++
        layoutBodies cases kind scope (base + (layoutBodies skipped kind scope base).size) := by
  induction skipped generalizing base with
  | nil => rfl
  | cons first skipped ih =>
      cases first
      simp only [List.cons_append, layoutBodies, ih, Fragment.append_assoc, Fragment.size_append,
        Nat.add_assoc]

/-- The body behind some skipped ones starts right behind their code. -/
theorem bodyStarts_append (skipped cases : List SwitchCase) (first : SwitchCase) :
    (bodyStarts (skipped ++ first :: cases) kind scope base)[skipped.length]? =
      some (base + (layoutBodies skipped kind scope base).size) := by
  induction skipped generalizing base with
  | nil => cases first; rfl
  | cons other skipped ih =>
      cases other
      simp only [List.cons_append, bodyStarts, layoutBodies, List.length_cons,
        List.getElem?_cons_succ, ih, Fragment.size_append, Fragment.size_ofCode]
      congr 1
      split <;> simp [Nat.add_assoc]

/-- The bodies of a switch and its fallback are one sequence. -/
theorem layoutBodies_switch (cases : List SwitchCase) :
    layoutBodies cases .switch scope base ++
        layoutOptional fallback scope (base + (layoutBodies cases .switch scope base).size) =
      layoutAll (cases.map (·.body) ++ fallback.toList) scope base := by
  induction cases generalizing base with
  | nil => exact layoutAll_toList.symm
  | cons first cases ih =>
      cases first with
      | mk value body =>
          rw [List.map_cons, List.cons_append, layoutAll, ← ih]
          simp [layoutBodies, SwitchCase.body, Fragment.append_assoc, Nat.add_assoc]

/-- One comparison: on a match both values are gone and the jump is taken. -/
theorem compare_reaches {program : List Instruction} {x y : Option Nat} {value : Node}
    {target : Nat} {v test : H.Value} {s s₁ : H.Store}
    (carries : Carries program x y base
      (layout value scope base ++ .one (.switchJump (.address target))))
    (tested : evaluate H scope value s = some (test, s₁)) (stack : List H.Value)
    (remembered : List Nat) :
    Reaches program (.running base (v :: stack) remembered s)
      (if H.agree v test then .running target stack remembered s₁
      else .running (base + (layout value scope base).size + 1) (v :: stack) remembered s₁) := by
  obtain ⟨first, jump⟩ := carries_append.1 carries
  have at_ := carries_one.1 jump
  rw [Instruction.mapTarget, retarget_address] at at_
  refine (evaluate_runs value tested first (v :: stack) remembered).trans
    (reaches_of_perform at_ ?_)
  exact (apply_ite some (H.agree v test = true) _ _).symm

/-- The comparisons of a switch go to the first case that agrees, or through all of them. -/
theorem agreeingCases_reaches {v : H.Value} {cases chosen : List SwitchCase} {s s' : H.Store}
    (h : agreeingCases H scope v cases s = some (chosen, s')) :
    ∃ skipped, cases = skipped ++ chosen ∧
      ∀ (program : List Instruction) (x y : Option Nat) (base : Nat) (targets : List Nat),
        targets.length = cases.length →
        Carries program x y base (layoutTests cases targets scope base) →
        ∀ stack remembered,
          match chosen with
          | [] => Reaches program (.running base (v :: stack) remembered s)
              (.running (base + (layoutTests cases targets scope base).size) (v :: stack)
                remembered s')
          | _ :: _ => ∀ target, targets[skipped.length]? = some target →
              Reaches program (.running base (v :: stack) remembered s)
                (.running target stack remembered s') := by
  induction cases generalizing s with
  | nil =>
      obtain ⟨rfl, rfl⟩ := Host.pure_eq_some.1 h
      exact ⟨[], rfl, fun _ _ _ _ _ _ _ _ _ => .refl⟩
  | cons first cases ih =>
      obtain ⟨value, body⟩ := first
      obtain ⟨test, s₁, tested, rest⟩ := Host.bind_eq_some.1 h
      split at rest
      next agrees =>
        obtain ⟨rfl, rfl⟩ := Host.pure_eq_some.1 rest
        refine ⟨[], rfl,
          fun program x y base targets size carries stack remembered target found => ?_⟩
        obtain ⟨other, targets, rfl⟩ := List.exists_cons_of_length_eq_add_one size
        obtain rfl : other = target := Option.some.inj found
        have run := compare_reaches (v := v) (carries_append.1 carries).1 tested stack remembered
        rwa [if_pos agrees] at run
      next differs =>
        obtain ⟨skipped, rfl, run⟩ := ih rest
        refine ⟨.mk value body :: skipped, rfl,
          fun program x y base targets size carries stack remembered => ?_⟩
        obtain ⟨other, targets, rfl⟩ := List.exists_cons_of_length_eq_add_one size
        obtain ⟨front, others⟩ := carries_append.1 carries
        rw [Fragment.size_append, Fragment.size_one, ← Nat.add_assoc] at others
        have step := compare_reaches (v := v) front tested stack remembered
        rw [if_neg differs] at step
        have onward := run program x y _ targets (Nat.succ.inj size) others stack remembered
        cases chosen with
        | nil =>
            have size : base + (layoutTests (.mk value body :: (skipped ++ [])) (other :: targets)
                scope base).size = base + (layout value scope base).size + 1 +
                  (layoutTests (skipped ++ []) targets scope
                    (base + (layout value scope base).size + 1)).size := by
              simp [layoutTests, Nat.add_assoc]
            exact size ▸ step.trans onward
        | cons => exact fun target found => step.trans (onward target found)

variable {o : Outcome H} {s s₁ s₂ s₃ : H.Store} {v : H.Value} {cases chosen : List SwitchCase}

/-- A run that enters the code of the bodies at the first of some cases executes what the switch or
select takes from there. -/
theorem bodies_reaches (run : Task.Simulates scope (.all (kind.bodies fallback chosen)) s o s₁)
    {program : List Instruction} {y : Option Nat} {start stop : Nat}
    (carries : Carries program (some stop) y start (layoutBodies chosen kind scope start ++
      layoutOptional fallback scope (start + (layoutBodies chosen kind scope start).size)))
    (stop_eq : stop = start + (layoutBodies chosen kind scope start).size +
      (layoutOptional fallback scope (start + (layoutBodies chosen kind scope start).size)).size)
    (stack : List H.Value) (remembered : List Nat) {state : State H}
    (arrives : state ∈ o.arrival? (some stop) y stop stack remembered s₁) :
    Reaches program (.running start stack remembered s) state := by
  rw [Nat.add_assoc, ← Fragment.size_append] at stop_eq
  cases kind with
  | switch =>
      rw [layoutBodies_switch] at carries stop_eq
      exact run program (some stop) y start carries stack remembered state (stop_eq ▸ arrives)
  | select =>
      cases chosen with
      | nil =>
          rw [layoutBodies, Fragment.size_empty, Nat.add_zero, Fragment.empty_append,
            ← layoutAll_toList] at carries stop_eq
          exact run program (some stop) y start carries stack remembered state (stop_eq ▸ arrives)
      | cons first others =>
          obtain ⟨value, body⟩ := first
          rw [layoutBodies] at carries
          obtain ⟨inside, leaves⟩ := carries_append.1
            (carries_append.1 (carries_append.1 carries).1).1
          have single : layoutAll [body] scope start = layout body scope start :=
            Fragment.append_empty _
          have body_leads : Leads program (some stop) y start (layout body scope start) [] s o s₁ :=
            single ▸ run program (some stop) y start
          cases o with
          | normal =>
              have done := body_leads inside stack remembered _ rfl
              have at_ := (carries_ofCode_cons.1 leaves).1
              obtain rfl := Option.some.inj arrives
              exact done.trans (reaches_of_perform at_ rfl)
          | _ => exact body_leads inside stack remembered state arrives

/-- Behind a switch a break has arrived at its end. -/
theorem arrival?_pastBreak {x y : Option Nat} {stop : Nat} {stack : List H.Value}
    {remembered : List Nat} :
    o.pastBreak.arrival? x y stop stack remembered s =
      o.arrival? (some stop) y stop stack remembered s := by
  cases o <;> rfl

/-- The code of a switch, taken apart: its value, the comparisons, a jump to the fallback, and the
bodies with their breaks resolved. -/
theorem switch_code {program : List Instruction} {x y : Option Nat} {l : Location} {value : Node}
    (carries : Carries program x y base (layout (.switch l kind value cases fallback) scope base)) :
    ∃ test check start stop, test = base + (layout value scope base).size ∧
      check = test + (layoutTests cases (bodyStarts cases kind scope start) scope test).size ∧
      start = check + 2 ∧
      stop = base + (layout (.switch l kind value cases fallback) scope base).size ∧
      stop = start + (layoutBodies cases kind scope start).size +
        (layoutOptional fallback scope (start + (layoutBodies cases kind scope start).size)).size ∧
      Carries program x y base (layout value scope base) ∧
      Carries program x y test
        (layoutTests cases (bodyStarts cases kind scope start) scope test) ∧
      program[check]? = some .discard ∧
      program[check + 1]? =
        some (.jump (.address (start + (layoutBodies cases kind scope start).size))) ∧
      Carries program (some stop) y start (layoutBodies cases kind scope start ++
        layoutOptional fallback scope (start + (layoutBodies cases kind scope start).size)) := by
  rw [layout] at carries ⊢
  obtain ⟨front, bodies⟩ := carries_append.1 carries
  obtain ⟨front, jumps⟩ := carries_append.1 front
  obtain ⟨first, tests⟩ := carries_append.1 front
  obtain ⟨discards, jumps⟩ := carries_ofCode_cons.1 jumps
  have jump := (carries_ofCode_cons.1 jumps).1
  simp only [Fragment.size_append, Fragment.size_ofCode, size_layoutTests, List.length_cons,
    List.length_nil, Nat.zero_add, Instruction.mapTarget, retarget_address,
    carries_retarget, Option.none_or, ← Nat.add_assoc] at discards jump bodies
  refine ⟨_, _, _, _, rfl, ?_, rfl, ?_, rfl, first, tests, discards, jump, bodies⟩
  · rw [size_layoutTests cases (bodyStarts ..)]
  · simp [size_layoutTests, Nat.add_assoc]

/-- A switch comes to where the bodies of the chosen cases start, which is where the fallback starts
if there are none. -/
theorem switch_enters {program : List Instruction} {x y : Option Nat} {value : Node}
    {check start : Nat} (evaluated : evaluate H scope value s = some (v, s₁))
    (agreed : agreeingCases H scope v cases s₁ = some (chosen, s₂))
    (first : Carries program x y base (layout value scope base))
    (compares : Carries program x y (base + (layout value scope base).size)
      (layoutTests cases (bodyStarts cases kind scope start) scope
        (base + (layout value scope base).size)))
    (check_eq : check = base + (layout value scope base).size +
      (layoutTests cases (bodyStarts cases kind scope start) scope
        (base + (layout value scope base).size)).size)
    (discards : program[check]? = some .discard)
    (jump : program[check + 1]? =
      some (.jump (.address (start + (layoutBodies cases kind scope start).size)))) :
    ∃ skipped, cases = skipped ++ chosen ∧ ∀ stack remembered,
      Reaches program (.running base stack remembered s)
        (.running (start + (layoutBodies skipped kind scope start).size) stack remembered s₂) := by
  obtain ⟨skipped, rfl, tests⟩ := agreeingCases_reaches agreed
  refine ⟨skipped, rfl, fun stack remembered => ?_⟩
  have run := tests program x y _ _ (length_bodyStarts ..) compares stack remembered
  refine (evaluate_runs value evaluated first stack remembered).trans ?_
  cases chosen with
  | nil =>
      rw [List.append_nil] at check_eq run jump
      rw [check_eq] at discards jump
      exact (run.trans (reaches_of_perform discards rfl)).trans (reaches_of_perform jump rfl)
  | cons first others => exact run _ (bodyStarts_append skipped others first)

/-- A switch runs the bodies that agree, and a break in them ends it. -/
theorem switch_simulates {l : Location} {value : Node}
    (evaluated : evaluate H scope value s = some (v, s₁))
    (agreed : agreeingCases H scope v cases s₁ = some (chosen, s₂))
    (run : Task.Simulates scope (.all (kind.bodies fallback chosen)) s₂ o s₃) :
    Task.Simulates scope (.one (.switch l kind value cases fallback)) s o.pastBreak s₃ := by
  intro program x y base carries stack remembered state arrives
  obtain ⟨_, _, start, stop, rfl, check_eq, start_eq, rfl, stop_eq, first, compares, discards, jump,
    bodies⟩ :=
    switch_code (l := l) carries
  rw [arrival?_pastBreak] at arrives
  obtain ⟨skipped, rfl, entered⟩ :=
    switch_enters evaluated agreed first compares check_eq discards jump
  rw [layoutBodies_append, Fragment.append_assoc] at bodies
  rw [layoutBodies_append, Fragment.size_append, ← Nat.add_assoc] at stop_eq
  have inside := (carries_append.1 bodies).2
  rw [Fragment.size_append, ← Nat.add_assoc] at inside
  exact (entered stack remembered).trans
    (bodies_reaches run inside stop_eq stack remembered arrives)

end switches

/-! ## code for statements -/

section statements

variable {H : Host} {scope : Scope} {s s₁ s₂ s₃ : H.Store} {v : H.Value} {o : Outcome H}
  {l : Location} {condition accepted : Node}

/-- The condition holds, and the branch is taken. -/
theorem accepted_simulates {otherwise : Option Node}
    (tested : evaluate H scope condition s = some (v, s₁)) (truth : H.isTrue v = true)
    (run : Task.Simulates scope (.one accepted) s₁ o s₂) :
    Task.Simulates scope (.one (.branch l condition accepted otherwise)) s o s₂ := by
  intro program x y base
  cases otherwise with
  | none =>
      refine Runs.then (evaluate_runs condition tested)
        (.overEnter (fun _ _ => rfl) (fun _ _ _ => ?_) (run _ _ _ _))
      exact congrArg (fun address => some (State.running address _ _ _)) (if_pos truth)
  | some otherwise =>
      have entered (target : Nat) : Leads program x y base (layout condition scope base ++
          .one (.jumpUnless (.address target)) ++
            layout accepted scope (base + (layout condition scope base).size + 1)) [] s o s₂ := by
        refine ((evaluate_runs condition tested).append (jumpUnless_runs truth)).then ?_
        rw [Fragment.size_append, Fragment.size_one, ← Nat.add_assoc]
        exact run program x y _
      rw [Task.layout, layout]
      cases o with
      | normal =>
          refine (entered _).append ?_
          simp only [Fragment.size_append, Fragment.size_one, ← Nat.add_assoc]
          exact (Runs.overSkip (fun _ _ => rfl) fun _ _ _ => rfl).leads
      | _ => exact (entered _).stop nofun

/-- The accepted branch and the jump at its end make one piece that the test can skip. -/
theorem layout_branch_some (l : Location) (condition accepted otherwise : Node) (scope : Scope)
    (base : Nat) :
    let test := base + (layout condition scope base).size
    let second := layout accepted scope (test + 1)
    let third := layout otherwise scope (test + 1 + second.size + 1)
    layout (.branch l condition accepted (some otherwise)) scope base =
      layout condition scope base ++
        (.jumpOver .jumpUnless test (second ++
          .one (.jump (.address (test + 1 + second.size + 1 + third.size)))) ++ third) := by
  simp only [layout, Fragment.jumpOver, Fragment.size_append, Fragment.size_one,
    Fragment.append_assoc, ← Nat.add_assoc]

/-- The condition does not hold, and the other branch is taken. -/
theorem otherwise_simulates {otherwise : Option Node}
    (tested : evaluate H scope condition s = some (v, s₁)) (falsity : H.isTrue v = false)
    (run : Task.Simulates scope (.all otherwise.toList) s₁ o s₂) :
    Task.Simulates scope (.one (.branch l condition accepted otherwise)) s o s₂ := by
  intro program x y base
  have jumps (address target : Nat) (below : List H.Value) (remembered : List Nat) :
      perform (.jumpUnless (.address target)) address (v :: below) remembered s₁ =
        some (.running target ([] ++ below) remembered s₁) := by
    show some (State.running (if H.isTrue v then _ else _) _ _ _) = _
    rw [falsity]
    rfl
  cases otherwise with
  | none =>
      rw [Task.layout, layout, ← Fragment.append_empty (_ ++ _)]
      exact ((evaluate_runs condition tested).append
        (.overSkip (fun _ _ => rfl) (jumps _))).then (run program x y _)
  | some otherwise =>
      rw [Task.layout, layout_branch_some, ← Fragment.append_empty (layout otherwise ..)]
      refine (evaluate_runs condition tested).then (.skip (fun _ _ => rfl) (jumps _) ?_)
      rw [Fragment.size_append, Fragment.size_one, ← Nat.add_assoc]
      exact run program x y _

/-- Every task is simulated by its code. -/
theorem executes_simulates {task : Task} (h : Executes H scope task s o s₁) :
    task.Simulates scope s o s₁ := by
  induction h with
  | nil => exact fun _ _ _ _ => (Runs.refl [] _).leads
  | cons _ _ first rest => exact fun _ _ _ _ => (first _ _ _ _).append (rest _ _ _ _)
  | stop _ abrupt first => exact fun _ _ _ _ => (first _ _ _ _).stop abrupt
  | block _ inner => exact inner
  | returnNull =>
      exact fun _ _ _ _ => (Runs.ofOperate .pushNull [] [_] rfl rfl).then .ofReturn
  | returnValue value => exact fun _ _ _ _ => (evaluate_runs _ value).then .ofReturn
  | @discard _ _ _ _ v value =>
      exact fun _ _ _ _ =>
        ((evaluate_runs _ value).append (.ofOperate .discard [v] [] rfl rfl)).leads
  | accepted tested truth _ run => exact accepted_simulates tested truth run
  | otherwise tested falsity _ run => exact otherwise_simulates tested falsity run
  | switch value agreed _ run => exact switch_simulates value agreed run
  | assign located value stored =>
      intro program x y base
      rw [Task.layout, layout, setter_locate located]
      exact (((locate_runs located).append ((evaluate_runs _ value).below _)).append
        (Place.setter_runs stored)).leads
  | update located fetched value updated =>
      intro program x y base
      obtain ⟨_, made, stored⟩ := update_eq_some.1 updated
      rw [Task.layout, layout, setter_locate located]
      exact (((fetch_runs located fetched).append ((evaluate_runs _ value).below _)).append
        ((operator_runs _ made).append (Place.setter_runs stored))).leads
  | adjust located fetched updated =>
      intro program x y base
      obtain ⟨_, made, stored⟩ := update_eq_some.1 updated
      rw [Task.layout, layout, setter_locate located]
      exact ((fetch_runs located fetched).append ((number_runs _ _).append
        ((operator_runs _ made).append (Place.setter_runs stored)))).leads
  | whileEnd tested falsity => exact whileEnd_simulates tested falsity
  | whileNext tested truth _ on _ turn rest => exact whileNext_simulates tested truth turn on rest
  | whileLeave tested truth _ out turn => exact whileLeave_simulates tested truth turn out
  | doEnd _ on tested falsity turn => exact doEnd_simulates turn on tested falsity
  | doNext _ on tested truth _ turn rest => exact doNext_simulates turn on tested truth rest
  | doLeave _ out turn => exact doLeave_simulates turn out
  | forLoop _ _ init turns =>
      intro program x y base
      rw [Task.layout, layout_forLoop]
      exact (init _ _ _ _).append (turns _ _ _ _)
  | forInit _ abrupt init =>
      intro program x y base
      rw [Task.layout, layout_forLoop]
      exact (init _ _ _ _).stop abrupt
  | turnsEnd tested falsity => exact turnsEnd_simulates tested falsity
  | turnsNext tested truth _ on _ _ turn step rest =>
      exact turnsNext_simulates tested truth turn on step rest
  | turnsLeave tested truth _ out turn => exact turnsLeave_simulates tested truth turn out
  | turnsLeavePost tested truth _ on _ out turn step =>
      exact turnsLeavePost_simulates tested truth turn on step out
  | leave | proceed =>
      intro program x y base carries stack remembered state arrives
      obtain ⟨target, rfl, rfl⟩ := Option.map_eq_some_iff.1 arrives
      exact reaches_of_perform (carries_one.1 carries) rfl
  | function =>
      exact fun _ _ _ _ => ((Runs.overSkip (fun _ _ => rfl) fun _ _ _ => rfl).append
        (.ofEmpty rfl [] _)).leads

end statements

/-! ## code for functions -/

section functions

variable {H : Host} {scope : Scope} {f : Fragment} {base : Nat} {s s' : H.Store}

/-- The machine is not right behind a fragment and will not come back there. -/
def AwayFrom (stop : Nat) : State H → Prop
  | .running address _ remembered _ => address ≠ stop ∧ stop ∉ remembered
  | .returned .. => True

/-- A fragment that does not fall off its end has a return there, and no jump behind it. -/
theorem fallsOff_eq_false (closed : f.fallsOff base = false) :
    f.code.getLast? = some .ret ∧ ∀ i ∈ f.code, i.target? ≠ some (.address (base + f.size)) := by
  simp only [Fragment.fallsOff, Bool.or_eq_false_iff, Bool.not_eq_false', Option.any_eq_true,
    List.any_eq_false, beq_iff_eq] at closed
  obtain ⟨⟨⟨i, last, returns⟩, jumps⟩, -⟩ := closed
  exact ⟨Instruction.isReturn_iff.1 returns ▸ last, jumps⟩

/-- In a fragment that does not fall off its end nothing leads there. -/
theorem step_awayFrom {state state' : State H} (closed : f.fallsOff base = false)
    (away : AwayFrom (base + f.size) state)
    (h : step (List.replicate base .ret ++ f.code) state = some state') :
    AwayFrom (base + f.size) state' := by
  obtain ⟨last, jumps⟩ := fallsOff_eq_false closed
  match state, state', h with
  | .running address stack remembered s, .returned .., _ => exact trivial
  | .running address stack remembered s, .running address' stack' remembered' s', h =>
      obtain ⟨i, at_, performed⟩ := Option.bind_eq_some_iff.1 h
      obtain ⟨-, moved⟩ := perform_cases performed
      have place : i = .ret ∨ i ∈ f.code ∧ address + 1 ≠ base + f.size := by
        by_cases front : address < base
        · rw [List.getElem?_append_left (by simpa using front),
            List.getElem?_replicate_of_lt front] at at_
          exact .inl (Option.some.inj at_).symm
        · rw [List.getElem?_append_right (by simpa using front), List.length_replicate] at at_
          by_cases stop : address + 1 = base + f.size
          · have final : address - base = f.code.length - 1 := by
              rw [Fragment.size] at stop
              omega
            rw [final, ← List.getLast?_eq_getElem?, last] at at_
            exact .inl (Option.some.inj at_).symm
          · exact .inr ⟨List.mem_of_getElem? at_, stop⟩
      rcases place with rfl | ⟨inside, notLast⟩
      · rcases moved with ⟨on, -⟩ | ⟨jump, -⟩ | ⟨pop, -⟩
        · cases on
        · cases jump
        · cases pop
      · rcases moved with ⟨-, rfl, rfl, -⟩ | ⟨jump, -, rest⟩ | ⟨-, rfl, -⟩
        · exact ⟨notLast, away.2⟩
        · refine ⟨fun same => jumps i inside (same ▸ jump), ?_⟩
          rcases rest with rfl | ⟨-, rfl⟩
          · exact away.2
          · exact List.not_mem_cons_of_ne_of_not_mem (Ne.symm notLast) away.2
        · exact ⟨(List.ne_of_not_mem_cons away.2).symm, List.not_mem_of_not_mem_cons away.2⟩

/-- A run that comes to the end of a fragment shows that the fragment falls off its end. -/
theorem fallsOff_of_reaches {stack stack' : List H.Value} {remembered : List Nat}
    (run : Reaches (List.replicate base .ret ++ f.code) (.running base stack [] s)
      (.running (base + f.size) stack' remembered s')) : f.fallsOff base = true := by
  cases closed : f.fallsOff base with
  | true => rfl
  | false =>
      have start : AwayFrom (base + f.size) (.running base stack [] s) := by
        refine ⟨fun same => ?_, List.not_mem_nil⟩
        have empty : f.code = [] :=
          List.length_eq_zero_iff.1 (by rw [Fragment.size] at same; omega)
        have last := (fallsOff_eq_false closed).1
        rw [empty] at last
        cases last
      have away := reaches_invariant (fun _ _ => step_awayFrom closed) run start
      exact absurd rfl away.1

/-- A body that can end normally falls off its end, so that a return is put there. -/
theorem fallsOff_of_normal {body : Node} (base : Nat)
    (h : Executes H scope (.one body) s .normal s') :
    (layout body scope base).fallsOff base = true := by
  have carries : Carries (List.replicate base .ret ++ (layout body scope base).code) none none base
      (layout body scope base) := by
    intro k i found
    rw [List.getElem?_append_right (by simp), List.length_replicate, Nat.add_sub_cancel_left, found,
      mapTarget_retarget_none]
  exact fallsOff_of_reaches (executes_simulates h _ none none base carries [] [] _ rfl)

/-- The code of a function returns what its body returns, and null if the body ends. -/
theorem function_reaches {program : List Instruction} {x y : Option Nat} {l : Location} {id : Nat}
    {name : String} {parameters : List String} {body : Node} {o : Outcome H} {v : H.Value}
    (carries : Carries program x y base (layout (.function l id name parameters body) scope base))
    (h : Executes H { scope with parameters } (.one body) s o s') (result : v ∈ o.result?)
    (stack : List H.Value) (remembered : List Nat) :
    Reaches program (.running (base + 1) stack remembered s) (.returned v stack s') := by
  have inside := (carries_jumpOver.1 (carries_append.1 carries).1).2
  have run := executes_simulates h program x y (base + 1)
  unfold Fragment.closed at inside
  cases o with
  | normal =>
      obtain rfl := Option.some.inj result
      rw [fallsOff_of_normal (base + 1) h, if_pos rfl] at inside
      have returns : Leads program x y _ _ [] s (.returned H.null) s' :=
        run.append ((Runs.ofOperate .pushNull [] [H.null] rfl rfl).then .ofReturn)
      exact returns inside stack remembered _ rfl
  | returned value =>
      obtain rfl := Option.some.inj result
      split at inside
      · exact run.stop nofun inside stack remembered _ rfl
      · exact run inside stack remembered _ rfl
  | broke | continued => cases result

end functions

/-! ## generated code -/

/-- A function that was placed starts there. -/
theorem start_of_place {t : FunctionTable} {id start stop : Nat} {f : ScriptFunction}
    (h : (t.place id start stop).get? id = some f) : f.start = start := by
  simp only [FunctionTable.get?, FunctionTable.place, Array.getElem?_modify, if_true,
    Option.map_eq_some_iff] at h
  obtain ⟨old, -, rfl⟩ := h
  rfl

/-- A function is entered right behind the jump over it. -/
theorem start_of_extends {g g' : Generator} {l : Location} {id : Nat} {name : String}
    {parameters : List String} {body : Node} {scope : Scope} {f : ScriptFunction}
    (code : Extends g (layout (.function l id name parameters body) scope g.here) g')
    (found : g'.functions.get? id = some f) : f.start = g.here + 1 := by
  have placed := code.functions
  rw [layout, Fragment.placements_append, List.foldl_append] at placed
  rw [placed] at found
  exact start_of_place found

/-- Wherever the generated code of a statement stands in a program, a run from its first address on
does what the statement does.  It ends right behind the code, at the end or the continue point of
the loop around it or in a return, with nothing left on the stack.  A function is skipped; a run
that enters it returns what its body returns, and null if the body ends. -/
theorem generated_statement_executes (H : Host) (node : Node) (top scope : Scope)
    {g g' : Generator} (ready : g.Ready top scope) (generated : emit node top g = .ok ⟨⟩ g')
    {program : List Instruction} {breakTo continueTo : Option Nat}
    (held : Holds program breakTo continueTo g g') (stack : List H.Value) (remembered : List Nat) :
    (∀ s o s', Executes H scope (.one node) s o s' →
      ∀ state ∈ o.arrival? breakTo continueTo g'.here stack remembered s',
        Reaches program (.running g.here stack remembered s) state) ∧
    (∀ l id name parameters body f, node = .function l id name parameters body →
      g'.functions.get? id = some f → ∀ s o s',
      Executes H { scope with parameters } (.one body) s o s' → ∀ v ∈ o.result?,
        Reaches program (.running f.start stack remembered s) (.returned v stack s')) := by
  have code := emit_extends node ready generated
  have carries := held.carries code
  constructor
  · intro s o s' run state arrives
    rw [code.here] at arrives
    exact executes_simulates run program breakTo continueTo g.here carries stack remembered state
      arrives
  · rintro l id name parameters body f rfl found s o s' run v result
    rw [start_of_extends code found]
    exact function_reaches carries run result stack remembered

/-- `switch (b) { case 1: break; default: d(); }` -/
def leavingSwitch : Node :=
  .switch default .switch (.identifier default "b")
    [.mk (.number default .one) (.block default [.leave default])]
    (some (.block default [.discard default (.call default "d" [])]))

/-- `while (a) { switch (b) { case 1: break; default: d(); } return c; }` -/
def returningLoop : Node :=
  .whileLoop default (.identifier default "a")
    (.block default [leavingSwitch, .returns default (some (.identifier default "c"))])

theorem returningLoop_executes :
    Executes .recorder ⟨{}, []⟩ (.one returningLoop) [] (.returned (1 : Nat)) ["c", "b", "a"] := by
  have inner : Executes .recorder ⟨{}, []⟩ (.one leavingSwitch) ["a"] (Outcome.pastBreak .broke)
      ["b", "a"] :=
    .switch rfl rfl (.stop (.block (.stop .leave nofun)) nofun)
  exact .whileLeave (o := .returned (1 : Nat)) rfl rfl
    (.block (.cons inner (.stop (.returnValue rfl) nofun))) rfl

/-- The case agrees, so that the fallback is not run, and its break leaves only the switch. -/
theorem generated_statement_executes_return :
    ∃ g', emit returningLoop ⟨{}, []⟩ {} = .ok ⟨⟩ g' ∧
      Reaches (H := .recorder) g'.listing (.running 0 [] [] [])
        (.returned (1 : Nat) [] ["c", "b", "a"]) :=
  ⟨_, rfl, (generated_statement_executes .recorder returningLoop ⟨{}, []⟩ ⟨{}, []⟩
    (Generator.ready_empty _) rfl (holds_listing {} _) [] []).1 _ _ _ returningLoop_executes _
      rfl⟩

end HostScript
