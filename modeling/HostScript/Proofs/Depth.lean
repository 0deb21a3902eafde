import HostScript.Proofs.Confinement
import HostScript.Proofs.Machine

/-!
# HostScript.Proofs.Depth

How deep the stack is at each address of generated code.  `Balanced D address i` says that the
depths `D` agree with what the instruction `i` at `address` does: it finds the values that it takes,
and wherever the machine goes from there, the depth is what it leaves.

A layout has such depths whatever stands around it: a statement starts and ends with nothing on the
stack, and an expression leaves one value more than it found.  `Levels` says this of a fragment.  As
jumps go back and forth, a piece of code may need to know the depth at addresses outside of it, and
may tell others the depth at addresses inside.
-/

namespace HostScript

/-- The depth where a jump goes.  At the targets that are still open nothing is on the stack. -/
def JumpTarget.depth (D : Nat → Nat) : JumpTarget → Nat
  | .address target => D target
  | _ => 0

/-- What the instructions ask for after which the next one does not follow in order, when the depth
is `here` at their address and `next` behind it: what is remembered and gone back to is depth zero,
and a return finds its result and nothing else. -/
def Instruction.Leaves (here next : Nat) : Instruction → Prop
  | .jumpPush _ => here = 0 ∧ next = 0
  | .jumpPop => here = 0
  | .ret => here = 1
  | _ => True

/-- The depths around the instruction at `address` are those that it makes. -/
structure Balanced (D : Nat → Nat) (address : Nat) (i : Instruction) : Prop where
  enough : i.inputs ≤ D address
  next : i.goesOn = true → D (address + 1) = D address - i.inputs + i.outputs
  jump : ∀ target, i.target? = some target →
    target.depth D = D address - i.inputs + i.jumpOutputs
  leaves : i.Leaves (D address) (D (address + 1))

/-- Another target of the same depth makes no difference. -/
theorem Balanced.mapTarget {D : Nat → Nat} {address : Nat} {i : Instruction}
    (h : Balanced D address i) {f : JumpTarget → JumpTarget}
    (same : ∀ target, i.target? = some target → (f target).depth D = target.depth D) :
    Balanced D address (i.mapTarget f) where
  enough := by
    have := h.enough
    cases i <;> exact this
  next := by
    have := h.next
    cases i <;> exact this
  jump target found := by
    obtain ⟨old, there, rfl⟩ : ∃ old, i.target? = some old ∧ f old = target := by
      simpa using found
    rw [same old there, h.jump old there]
    cases i <;> rfl
  leaves := by
    have := h.leaves
    cases i <;> exact this

/-! ## straight code -/

/-- The depth behind straight code that starts at depth `d`, unless it jumps, returns or takes a
value that is not there. -/
def depthAfter : Nat → List Instruction → Option Nat
  | d, [] => some d
  | d, i :: code =>
    if i.goesOn = true ∧ i.target? = none ∧ i.inputs ≤ d then
      depthAfter (d - i.inputs + i.outputs) code
    else none

/-- Values further down are left alone. -/
theorem depthAfter_add {d d' : Nat} {code : List Instruction} (h : depthAfter d code = some d')
    (below : Nat) : depthAfter (d + below) code = some (d' + below) := by
  induction code generalizing d with
  | nil => simpa [depthAfter] using h
  | cons i code ih =>
      simp only [depthAfter] at h ⊢
      split at h
      next straight =>
        obtain ⟨on, plain, enough⟩ := straight
        rw [if_pos ⟨on, plain, by omega⟩]
        have shift : d + below - i.inputs + i.outputs = d - i.inputs + i.outputs + below := by omega
        rw [shift]
        exact ih h
      next => cases h

/-- Every expansion of a system macro is straight code that pushes one value. -/
def Environment.MacrosPushOne (env : Environment) : Prop :=
  ∀ name code, env.systemMacro? name = some code → depthAfter 0 code = some 1

/-- Only the expansions that the host has need to be looked at. -/
theorem Environment.macrosPushOne_iff {env : Environment} : env.MacrosPushOne ↔
    ∀ entry ∈ env.systemMacros.entries, depthAfter 0 entry.2 = some 1 :=
  ⟨fun h entry found => h entry.1 entry.2 (NameMap.mem_entries_iff.1 found),
    fun h name code found => h (name, code) (NameMap.mem_entries_iff.2 found)⟩

instance (env : Environment) : Decidable env.MacrosPushOne :=
  decidable_of_iff _ Environment.macrosPushOne_iff.symm

/-- Code with a depth has no jumps. -/
theorem target?_of_depthAfter {d d' : Nat} {code : List Instruction}
    (h : depthAfter d code = some d') : ∀ i ∈ code, i.target? = none := by
  induction code generalizing d with
  | nil => nofun
  | cons i code ih =>
      simp only [depthAfter] at h
      split at h
      next straight => exact List.forall_mem_cons.2 ⟨straight.2.1, ih h⟩
      next => cases h

/-- Expansions that push one value have no jumps. -/
theorem Environment.MacrosPushOne.stayInLine {env : Environment} (h : env.MacrosPushOne) :
    env.MacrosStayInLine :=
  fun name code found => target?_of_depthAfter (h name code found)

/-! ## fragments -/

/-- From `base` on the depths are `ds`. -/
def Marks (D : Nat → Nat) (base : Nat) (ds : List Nat) : Prop :=
  ∀ k d, ds[k]? = some d → D (base + k) = d

/-- Depths of two pieces of code, one behind the other. -/
theorem marks_append {D : Nat → Nat} {base : Nat} {xs ys : List Nat} :
    Marks D base (xs ++ ys) ↔ Marks D base xs ∧ Marks D (base + xs.length) ys :=
  forall_getElem?_append (P := fun address d => D address = d)

/-- The depths fit all of a fragment.  Where it can be entered nothing is on the stack. -/
structure Fits (D : Nat → Nat) (base : Nat) (f : Fragment) : Prop where
  each : f.Each (Balanced D) base
  labels : ∀ label ∈ f.labels, D label.2 = 0
  starts : ∀ p ∈ f.placements, D p.start = 0 ∧ p.start < base + f.size

/-- Depths can be found for the fragment at `base` that lead from depth `p` to depth `q`.  They give
what `gives` says of them, and they fit if they are as `needs` says. -/
def Levels (needs gives : (Nat → Nat) → Prop) (p q base : Nat) (f : Fragment) : Prop :=
  ∃ ds : List Nat, ds.length = f.size ∧ ∀ D, Marks D base ds → D (base + f.size) = q →
    D base = p ∧ gives D ∧ (needs D → Fits D base f)

/-- Depths that depend on nothing outside of the fragment. -/
abbrev Level (p q base : Nat) (f : Fragment) : Prop :=
  Levels (fun _ => True) (fun _ => True) p q base f

namespace Levels

variable {N G N' G' : (Nat → Nat) → Prop} {p q r base : Nat} {a b f : Fragment} {i : Instruction}

/-- Needs are met by what is known of the depths anyway. -/
theorem settle (h : Levels N G p q base f)
    (needs : ∀ D, N' D → G D → D base = p → D (base + f.size) = q → N D)
    (gives : ∀ D, G D → D base = p → D (base + f.size) = q → G' D) : Levels N' G' p q base f := by
  obtain ⟨ds, length, h⟩ := h
  refine ⟨ds, length, fun D marks ends => ?_⟩
  obtain ⟨starts, given, fits⟩ := h D marks ends
  exact ⟨starts, gives D given starts ends, fun known => fits (needs D known given starts ends)⟩

/-- What is known of the addresses around a fragment may be forgotten. -/
theorem forget (h : Levels N G p q base f) : Levels N (fun _ => True) p q base f :=
  h.settle (fun _ known _ _ _ => known) fun _ _ _ _ => trivial

theorem empty (base : Nat) : Level p p base {} :=
  ⟨[], rfl, fun _ _ ends => ⟨ends, trivial, fun _ => ⟨nofun, nofun, nofun⟩⟩⟩

/-- One instruction. -/
theorem one (i : Instruction) (p q : Nat) (enough : i.inputs ≤ p)
    (next : i.goesOn = true → q = p - i.inputs + i.outputs) (leaves : i.Leaves p q) :
    Levels (fun D => ∀ target, i.target? = some target →
      target.depth D = p - i.inputs + i.jumpOutputs) (fun _ => True) p q base (.one i) := by
  refine ⟨[p], rfl, fun D marks ends => ?_⟩
  have start : D base = p := marks 0 p rfl
  have stop : D (base + 1) = q := ends
  refine ⟨start, trivial, fun known => ⟨Fragment.each_one.2 ⟨?_, ?_, ?_, ?_⟩, nofun, nofun⟩⟩
  · rw [start]
    exact enough
  · rw [start, stop]
    exact next
  · rw [start]
    exact known
  · rw [start, stop]
    exact leaves

/-- A jump needs its target to be as deep as it leaves the stack. -/
theorem jump (i : Instruction) (p q : Nat) {target : JumpTarget} (jumps : i.target? = some target)
    (enough : i.inputs ≤ p) (next : i.goesOn = true → q = p - i.inputs + i.outputs)
    (leaves : i.Leaves p q) :
    Levels (fun D => target.depth D = p - i.inputs + i.jumpOutputs) (fun _ => True) p q base
      (.one i) :=
  (one i p q enough next leaves).settle
    (fun D known _ _ _ t found => by
      obtain rfl : target = t := by simpa [jumps] using found
      exact known)
    fun _ _ _ _ => trivial

/-- Two fragments, one behind the other, know of each other and of the depth between them. -/
theorem append {mid : Nat} (first : Levels N G p q base a) (second : Levels N' G' q r mid b)
    (at_ : mid = base + a.size) :
    Levels (fun D => N D ∧ N' D) (fun D => G D ∧ G' D ∧ D mid = q) p r base (a ++ b) := by
  subst at_
  obtain ⟨xs, lengthX, first⟩ := first
  obtain ⟨ys, lengthY, second⟩ := second
  refine ⟨xs ++ ys, by simp [lengthX, lengthY], fun D marks ends => ?_⟩
  obtain ⟨marksX, marksY⟩ := marks_append.1 marks
  rw [lengthX] at marksY
  rw [Fragment.size_append, ← Nat.add_assoc] at ends
  obtain ⟨middle, givenY, fitsY⟩ := second D marksY ends
  obtain ⟨starts, givenX, fitsX⟩ := first D marksX middle
  refine ⟨starts, ⟨givenX, givenY, middle⟩, fun ⟨knownX, knownY⟩ => ?_⟩
  have fitX := fitsX knownX
  have fitY := fitsY knownY
  refine ⟨Fragment.each_append.2 ⟨fitX.each, fitY.each⟩,
    List.forall_mem_append.2 ⟨fitX.labels, fitY.labels⟩,
    List.forall_mem_append.2 ⟨fun p found => ?_, fun p found => ?_⟩⟩
  · obtain ⟨zero, below⟩ := fitX.starts p found
    exact ⟨zero, by rw [Fragment.size_append]; omega⟩
  · obtain ⟨zero, below⟩ := fitY.starts p found
    exact ⟨zero, by rw [Fragment.size_append]; omega⟩

/-- A jump over a fragment, to the depth that the fragment ends with. -/
theorem jumpOver (make : JumpTarget → Instruction) (jumps : ∀ t, (make t).target? = some t)
    (h : Levels N G q r (base + 1) f) (enough : ∀ t, (make t).inputs ≤ p)
    (next : ∀ t, (make t).goesOn = true → q = p - (make t).inputs + (make t).outputs)
    (lands : ∀ t, r = p - (make t).inputs + (make t).jumpOutputs)
    (leaves : ∀ t, (make t).Leaves p q) :
    Levels N (fun D => G D ∧ D (base + 1) = q) p r base (.jumpOver make base f) := by
  refine ((jump (make _) p q (jumps _) (enough _) (next _) (leaves _)).append h rfl).settle
    (fun D known _ _ ends => ⟨?_, known⟩) fun D ⟨_, given, middle⟩ _ _ => ⟨given, middle⟩
  rw [← lands, ← ends, Fragment.size_append, Fragment.size_one, ← Nat.add_assoc]
  rfl

/-- Waiting for a label is nothing that the stack notices. -/
theorem await (h : Levels N G p q base f) (waiting : List (String × Nat)) :
    Levels N G p q base { f with waiting } := by
  obtain ⟨ds, length, h⟩ := h
  refine ⟨ds, length, fun D marks ends => ?_⟩
  obtain ⟨starts, given, fits⟩ := h D marks ends
  exact ⟨starts, given, fun known => ⟨(fits known).each, (fits known).labels, (fits known).starts⟩⟩

/-- A loop or switch resolves breaks and continues to addresses of depth zero. -/
theorem retarget (h : Levels N G p q base f) (x y : Option Nat) :
    Levels (fun D => N D ∧ (∀ stop ∈ x, D stop = 0) ∧ ∀ next ∈ y, D next = 0) G p q base
      (f.retarget x y) := by
  obtain ⟨ds, length, h⟩ := h
  refine ⟨ds, by rwa [Fragment.size_retarget], fun D marks ends => ?_⟩
  rw [Fragment.size_retarget] at ends
  obtain ⟨starts, given, fits⟩ := h D marks ends
  refine ⟨starts, given, fun ⟨known, stops, goesOn⟩ => ?_⟩
  have fit := fits known
  refine ⟨Fragment.each_retarget.2 (fit.each.imp fun address i balanced =>
    balanced.mapTarget fun target _ => ?_), fit.labels, fun p found => ?_⟩
  · cases target with
    | breakPoint => cases x with
      | none => cases y <;> rfl
      | some stop => exact stops stop rfl
    | continuePoint => cases y with
      | none => cases x <;> rfl
      | some next => cases x <;> exact goesOn next rfl
    | _ => cases x <;> cases y <;> rfl
  · rw [Fragment.size_retarget]
    exact fit.starts p found

/-- The test of a loop and its turns, whose breaks go behind the loop. -/
theorem loop {continueTo : Nat} (first : Level 0 1 base a)
    (turn : Levels N G 0 0 (base + a.size + 1) b) :
    Levels (fun D => N D ∧ D continueTo = 0) G 0 0 base
      (a ++ .jumpOver .jumpUnless (base + a.size)
        (b.retarget (some (base + a.size + 1 + b.size)) (some continueTo))) := by
  have turns := (turn.retarget (some (base + a.size + 1 + b.size)) (some continueTo)).jumpOver
    .jumpUnless (fun _ => rfl) (fun _ => Nat.le_refl 1) (fun _ _ => rfl) (fun _ => rfl)
    fun _ => trivial
  refine (Levels.append first turns rfl).settle (fun D ⟨known, goesOn⟩ _ _ ends => ?_)
    fun D ⟨_, ⟨given, _⟩, _⟩ _ _ => given
  have stop : base + a.size + 1 + b.size = base + (a.size + (b.size + 1)) := by omega
  simp only [Fragment.size_append, Fragment.size_jumpOver, Fragment.size_retarget, ← stop] at ends
  exact ⟨trivial, known, by simpa using ends, by simpa using goesOn⟩

end Levels

/-- An instruction that goes on has no need to leave a certain depth. -/
theorem Instruction.leaves_of_goesOn {i : Instruction} (h : i.goesOn = true) (p q : Nat) :
    i.Leaves p q := by
  cases i <;> trivial

namespace Level

variable {p q r base : Nat} {a b f : Fragment} {i : Instruction} {code : List Instruction}

/-- One fragment behind the other, where the depth behind the first is that before the second. -/
theorem append {mid : Nat} (first : Level p q base a) (second : Level q r mid b)
    (at_ : mid = base + a.size) : Level p r base (a ++ b) :=
  (Levels.append first second at_).settle (fun _ _ _ _ _ => ⟨trivial, trivial⟩)
    fun _ _ _ _ => trivial

/-- An instruction without a target. -/
theorem one (i : Instruction) (p q : Nat) (plain : i.target? = none) (enough : i.inputs ≤ p)
    (next : i.goesOn = true → q = p - i.inputs + i.outputs) (leaves : i.Leaves p q) :
    Level p q base (.one i) :=
  (Levels.one i p q enough next leaves).settle
    (fun D _ _ _ _ target found => by
      rw [plain] at found
      cases found)
    fun _ _ _ _ => trivial

/-- An instruction that only works on the stack. -/
theorem straight (on : i.goesOn = true) (plain : i.target? = none) (enough : i.inputs ≤ p)
    (next : q = p - i.inputs + i.outputs) : Level p q base (.one i) :=
  one i p q plain enough (fun _ => next) (Instruction.leaves_of_goesOn on p q)

/-- Behind a return the stack may be as deep as it likes. -/
theorem returns (q : Nat) : Level 1 q base (.one .ret) := one .ret 1 q rfl (Nat.le_refl 1) nofun rfl

/-- A return of null leaves nothing behind, so any depth may follow. -/
theorem returnsNull (q : Nat) : Level 0 q base (.ofCode [.pushNull, .ret]) :=
  (one .pushNull 0 1 rfl (Nat.le_refl 0) (fun _ => rfl) trivial).append (returns q) rfl

/-- Straight code is level if its depth can be computed. -/
theorem ofCode (h : depthAfter p code = some q) : Level p q base (.ofCode code) := by
  induction code generalizing p base with
  | nil =>
      obtain rfl : p = q := by simpa [depthAfter] using h
      exact Levels.empty base
  | cons i code ih =>
      simp only [depthAfter] at h
      split at h
      next can =>
        obtain ⟨on, plain, enough⟩ := can
        exact (straight on plain enough rfl).append (ih h) rfl
      next => cases h

/-- The right side of a short circuit. -/
theorem shortCircuit (make : JumpTarget → Instruction)
    (which : make = .binaryAnd ∨ make = .binaryOr) (h : Level p (p + 1) (base + 1) f) :
    Level (p + 1) (p + 1) base (.jumpOver make base f) := by
  rcases which with rfl | rfl
  · exact (h.jumpOver .binaryAnd (fun _ => rfl) (fun _ => Nat.le_add_left ..) (fun _ _ => rfl)
      (fun _ => rfl) fun _ => trivial).forget
  · exact (h.jumpOver .binaryOr (fun _ => rfl) (fun _ => Nat.le_add_left ..) (fun _ _ => rfl)
      (fun _ => rfl) fun _ => trivial).forget

/-- What is run only if a condition holds. -/
theorem guarded (h : Level 0 0 (base + 1) f) : Level 1 0 base (.jumpOver .jumpUnless base f) :=
  (h.jumpOver .jumpUnless (fun _ => rfl) (fun _ => Nat.le_refl _) (fun _ _ => rfl) (fun _ => rfl)
    fun _ => trivial).forget

/-- A jump whose target is still open. -/
theorem jumpOpen (target : JumpTarget) (open_ : ∀ D, target.depth D = 0) (q : Nat) :
    Level 0 q base (.one (.jump target)) :=
  (Levels.jump (.jump target) 0 q rfl (Nat.le_refl 0) nofun trivial).settle
    (fun D _ _ _ _ => open_ D) fun _ _ _ _ => trivial

/-- Both branches of a condition. -/
theorem branch {c : Fragment} (first : Level 0 1 base a) (second : Level 0 0 (base + a.size + 1) b)
    (third : Level 0 0 (base + a.size + 1 + b.size + 1) c) :
    Level 0 0 base
      (a ++ .one (.jumpUnless (.address (base + a.size + 1 + b.size + 1))) ++ b ++
        .jumpOver .jump (base + a.size + 1 + b.size) c) := by
  have test : Levels (fun D => D (base + a.size + 1 + b.size + 1) = 0) (fun _ => True) 1 0
      (base + a.size) (.one (.jumpUnless (.address (base + a.size + 1 + b.size + 1)))) :=
    .jump (.jumpUnless _) 1 0 rfl (Nat.le_refl 1) (fun _ => rfl) trivial
  have skip := third.jumpOver .jump (fun _ => rfl) (fun _ => Nat.le_refl 0) nofun (fun _ => rfl)
    fun _ => trivial
  refine (((Levels.append first test rfl).append second (by simp [Nat.add_assoc])).append skip
    (by simp [Nat.add_assoc])).settle (fun D _ given _ _ => ?_) fun _ _ _ _ => trivial
  obtain ⟨-, ⟨-, otherwise⟩, -⟩ := given
  exact ⟨⟨⟨trivial, otherwise⟩, trivial⟩, trivial⟩

/-- The value of a switch is gone where its bodies start. -/
theorem switch {c e : Fragment} {start : Nat} {starts : List Nat} (first : Level 0 1 base a)
    (tests : Levels (fun D => ∀ target ∈ starts, D target = 0) (fun _ => True) 1 1
      (base + a.size) b)
    (bodies : Levels (fun _ => True) (fun D => ∀ target ∈ starts, D target = 0) 0 0 start c)
    (last : Level 0 0 (start + c.size) e) (at_ : start = base + a.size + b.size + 2) :
    Level 0 0 base
      (a ++ b ++ .ofCode [.discard, .jump (.address (start + c.size))] ++
        (c ++ e).retarget (some (start + c.size + e.size)) none) := by
  have front : Levels (fun D => D (start + c.size) = 0) (fun _ => True) 1 0
      (base + a.size + b.size) (.ofCode [.discard, .jump (.address (start + c.size))]) :=
    (Levels.append (one .discard 1 0 rfl (Nat.le_refl 1) (fun _ => rfl) trivial)
      (Levels.jump (.jump (.address (start + c.size))) 0 0 rfl (Nat.le_refl 0) nofun trivial)
      rfl).settle (fun _ known _ _ _ => ⟨trivial, known⟩) fun _ _ _ _ => trivial
  have rest := (bodies.append last rfl).retarget (some (start + c.size + e.size)) none
  refine (((Levels.append first tests rfl).append front (by simp [Nat.add_assoc])).append rest
    (by simp [at_, Nat.add_assoc])).settle (fun D _ given _ ends => ?_) fun _ _ _ _ => trivial
  obtain ⟨-, ⟨zero, -, fallback⟩, -⟩ := given
  have stop : base + (a.size + b.size + 2 + (c.size + e.size)) = start + c.size + e.size := by omega
  simp only [Fragment.size_append, Fragment.size_ofCode, Fragment.size_retarget, List.length_cons,
    List.length_nil, Nat.zero_add, Nat.reduceAdd, stop] at ends
  exact ⟨⟨⟨trivial, zero⟩, fallback⟩, ⟨trivial, trivial⟩, by simpa using ends, nofun⟩

/-- A loop whose turns go back to its test. -/
theorem whileLoop (first : Level 0 1 base a) (turn : Level 0 0 (base + a.size + 1) b) :
    Level 0 0 base
      (a ++ .jumpOver .jumpUnless (base + a.size)
        ((b ++ .one (.jump (.address base))).retarget
          (some (base + a.size + 1 + (b ++ .one (.jump (.address base))).size)) (some base))) := by
  have back := Levels.append turn
    (Levels.jump (.jump (.address base)) 0 0 rfl (Nat.le_refl 0) nofun trivial) rfl
  exact (Levels.loop first back).settle (fun D _ _ starts _ => ⟨⟨trivial, starts⟩, starts⟩)
    fun _ _ _ _ => trivial

/-- A loop whose turns go on to the step behind them, and from there to the test. -/
theorem forLoop {c : Fragment} (first : Level 0 1 base a) (turn : Level 0 0 (base + a.size + 1) b)
    (step : Level 0 0 (base + a.size + 1 + b.size) c) :
    Level 0 0 base
      (a ++ .jumpOver .jumpUnless (base + a.size)
        ((b ++ (c ++ .one (.jump (.address base)))).retarget
          (some (base + a.size + 1 + (b ++ (c ++ .one (.jump (.address base)))).size))
          (some (base + a.size + 1 + b.size)))) := by
  have back := Levels.append turn (Levels.append step
    (Levels.jump (.jump (.address base)) 0 0 rfl (Nat.le_refl 0) nofun trivial) rfl) rfl
  exact (Levels.loop first back).settle
    (fun D _ ⟨_, _, goesOn⟩ starts _ => ⟨⟨trivial, trivial, starts⟩, goesOn⟩) fun _ _ _ _ => trivial

/-- The turns of a loop with its test behind them. -/
theorem loopBefore (turn : Level 0 0 base a) (second : Level 0 1 (base + a.size) b) :
    Level 0 0 base
      (a.retarget (some (base + a.size + b.size + 1)) (some (base + a.size)) ++ b ++
        .one (.jumpIf (.address base))) := by
  have test : Levels (fun D => D base = 0) (fun _ => True) 1 0 (base + a.size + b.size)
      (.one (.jumpIf (.address base))) :=
    .jump (.jumpIf _) 1 0 rfl (Nat.le_refl 1) (fun _ => rfl) trivial
  refine (((turn.retarget _ _).append second (by simp)).append test
    (by simp [Nat.add_assoc])).settle (fun D _ given starts ends => ?_) fun _ _ _ _ => trivial
  obtain ⟨⟨-, -, check⟩, -, -⟩ := given
  simp only [Fragment.size_append, Fragment.size_one, Fragment.size_retarget,
    ← Nat.add_assoc] at ends
  exact ⟨⟨⟨trivial, by simpa using ends, by simpa using check⟩, trivial⟩, starts⟩

/-- Code that is closed leaves nothing on the stack, nor does what it is made of. -/
theorem closed (h : Level 0 0 base f) : Level 0 0 base (f.closed base) := by
  unfold Fragment.closed
  split
  · exact h.append (returnsNull 0) rfl
  · exact h

/-- A label stands where nothing is on the stack. -/
theorem label (name : String) : Level 0 0 base { labels := [(name, base)] } :=
  ⟨[], rfl, fun _ _ ends => ⟨ends, trivial, fun _ =>
    ⟨nofun, List.forall_mem_cons.2 ⟨ends, nofun⟩, nofun⟩⟩⟩

/-- A function, with the jump over it and the note where it starts. -/
theorem function (h : Level 0 0 (base + 1) f) (id : Nat) (nonempty : 0 < f.size) :
    Level 0 0 base (.jumpOver .jump base f ++
      ({ placements := [⟨id, base + 1, base + f.size⟩] } : Fragment)) := by
  have skip := h.jumpOver .jump (fun _ => rfl) (fun _ => Nat.le_refl 0) nofun (fun _ => rfl)
    fun _ => trivial
  have note : Levels (fun D => D (base + 1) = 0) (fun _ => True) 0 0
      (base + (Fragment.jumpOver .jump base f).size)
      { placements := [⟨id, base + 1, base + f.size⟩] } :=
    ⟨[], rfl, fun D _ ends => ⟨ends, trivial, fun known =>
      ⟨nofun, nofun, List.forall_mem_cons.2 ⟨⟨known, by simp; omega⟩, nofun⟩⟩⟩⟩
  exact (skip.append note rfl).settle (fun D _ ⟨⟨_, starts⟩, _⟩ _ _ => ⟨trivial, starts⟩)
    fun _ _ _ _ => trivial

end Level

namespace Generate

variable {scope : Scope}

/-! ## expressions -/

/-- A read of a name pushes one value. -/
theorem level_readCode (macros : scope.environment.MacrosPushOne) (name : String) (d base : Nat) :
    Level d (d + 1) base (.ofCode (readCode scope name)) := by
  unfold readCode
  split
  next constant _ => cases constant <;> exact .straight rfl rfl (Nat.zero_le _) rfl
  next code _ expands =>
    have pushes := depthAfter_add (macros name code expands) d
    rw [Nat.zero_add, Nat.add_comm] at pushes
    exact .ofCode pushes
  next => exact .straight rfl rfl (Nat.zero_le _) rfl
  next => exact .straight rfl rfl (Nat.zero_le _) rfl

/-- A call takes its receiver and the arguments on top of it. -/
theorem level_callInstance (name : String) (argc d base : Nat) :
    Level (d + 1 + argc) (d + 1) base (.one (.callInstance name argc)) := by
  refine .straight rfl rfl ?_ ?_
  · show argc + 1 ≤ d + 1 + argc
    omega
  · show d + 1 = d + 1 + argc - (argc + 1) + 1
    omega

/-- How many values stand on the stack below one that is stored into a target. -/
def receivers : Node → Nat
  | .chain .. => 1
  | _ => 0

/-- A store takes the value and the receiver of its target. -/
theorem depthAfter_store (target : Node) (d : Nat) :
    depthAfter (d + receivers target + 1) [storeCode target] = some d := by
  cases target <;>
    simp [depthAfter, storeCode, receivers, Instruction.goesOn, Instruction.target?,
      Instruction.inputs, Instruction.outputs]

/-- An increment or decrement leaves a value unless it stands alone. -/
theorem depthAfter_adjust (kind : AdjustKind) (target : Node) (value : Number) (d : Nat) :
    depthAfter (d + receivers target + 1)
      ((if kind = .after then [.duplicate] else []) ++ [.pushNumber value, .binaryOp .add] ++
        (if kind = .before then [.duplicate] else []) ++ [storeCode target]) =
      some (d + if kind = .statement then 0 else 1) := by
  cases kind <;> cases target <;>
    simp [depthAfter, storeCode, receivers, Instruction.goesOn, Instruction.target?,
      Instruction.inputs, Instruction.outputs]

mutual

/-- An expression pushes one value, by induction on the tree. -/
theorem level_expression (macros : scope.environment.MacrosPushOne) : (node : Node) →
    IsExpression node → (d base : Nat) → Level d (d + 1) base (layout node scope base)
  | .null _, _, _, _ | .number .., _, _, _ | .string .., _, _, _ =>
      .straight rfl rfl (Nat.zero_le _) rfl
  | .identifier _ name, _, d, base => level_readCode macros name d base
  | .chain _ current remaining, h, d, base =>
      (level_expression macros current h.1 d base).append
        (level_links macros remaining h.2 d _) rfl
  | .call _ _ arguments, h, d, base | .staticCall _ _ _ arguments, h, d, base =>
      (level_expressions macros arguments h d base).append
        (.straight rfl rfl (Nat.le_add_left ..)
          (by simp [Instruction.inputs, Instruction.outputs])) rfl
  | .unary _ _ operand, h, d, base =>
      (level_expression macros operand h d base).append
        (.straight rfl rfl (Nat.le_add_left ..) rfl) rfl
  | .binary _ op left right, h, d, base => by
      have first := level_expression macros left h.1 d base
      have second := level_expression macros right h.2 d
        (base + (layout left scope base).size + 1)
      cases op with
      | and => exact first.append (second.shortCircuit _ (.inl rfl)) rfl
      | or => exact first.append (second.shortCircuit _ (.inr rfl)) rfl
      | _ =>
          exact (first.append (level_expression macros right h.2 (d + 1) _) rfl).append
            (.straight rfl rfl (Nat.le_add_left ..) rfl) rfl
  | .adjust _ kind target direction, h, d, base => by
      have adjusted := depthAfter_adjust kind target direction.number d
      rw [if_neg h.1] at adjusted
      exact (level_current macros target h.2 d base).append (.ofCode adjusted) rfl

/-- Expressions push one value each. -/
theorem level_expressions (macros : scope.environment.MacrosPushOne) : (nodes : List Node) →
    AreExpressions nodes → (d base : Nat) →
    Level d (d + nodes.length) base (layoutAll nodes scope base)
  | [], _, _, base => Levels.empty base
  | node :: nodes, h, d, base => by
      have rest := level_expressions macros nodes h.2 (d + 1)
        (base + (layout node scope base).size)
      rw [Nat.add_right_comm] at rest
      exact (level_expression macros node h.1 d base).append rest rfl

/-- A link takes a value and pushes another. -/
theorem level_link (macros : scope.environment.MacrosPushOne) : (node : Node) →
    IsLink node → (d base : Nat) → Level (d + 1) (d + 1) base (layoutLink node scope base)
  | .identifier .., _, _, _ => .straight rfl rfl (Nat.le_add_left ..) rfl
  | .call _ _ arguments, h, d, base =>
      (level_expressions macros arguments h (d + 1) base).append (level_callInstance ..) rfl

/-- The links of a chain take a value and push another. -/
theorem level_links (macros : scope.environment.MacrosPushOne) : (node : Node) →
    AreLinks node → (d base : Nat) → Level (d + 1) (d + 1) base (layoutLinks node scope base)
  | .chain _ current remaining, h, d, base =>
      (level_link macros current h.1 d base).append (level_links macros remaining h.2 d _) rfl
  | .identifier .., _, _, _ => .straight rfl rfl (Nat.le_add_left ..) rfl
  | .call _ _ arguments, h, d, base =>
      (level_expressions macros arguments h (d + 1) base).append (level_callInstance ..) rfl

/-- The links of a chain but the last do so as well. -/
theorem level_receiver (macros : scope.environment.MacrosPushOne) : (node : Node) →
    AreLinks node → (d base : Nat) → Level (d + 1) (d + 1) base (layoutReceiver node scope base)
  | .chain _ current remaining, h, d, base =>
      (level_link macros current h.1 d base).append (level_receiver macros remaining h.2 d _) rfl
  | .identifier .., _, _, base | .call .., _, _, base => Levels.empty base

/-- A target pushes its receiver, if it has one, and its current value. -/
theorem level_current (macros : scope.environment.MacrosPushOne) : (target : Node) →
    IsExpression target → (d base : Nat) →
    Level d (d + receivers target + 1) base (layoutCurrent target scope base)
  | .identifier _ name, _, d, base => level_readCode macros name d base
  | .chain _ current remaining, h, d, base =>
      ((level_expression macros current h.1 d base).append
        (level_receiver macros remaining h.2 d _) rfl).append (.ofCode rfl) rfl
  | .null _, _, _, _ | .number .., _, _, _ | .string .., _, _, _ | .call .., _, _, _
  | .staticCall .., _, _, _ | .unary .., _, _, _ | .binary .., _, _, _ | .adjust .., _, _, _ =>
      .straight rfl rfl (Nat.zero_le _) rfl

end

/-- A target that is only stored into pushes its receiver, if it has one. -/
theorem level_target (macros : scope.environment.MacrosPushOne) : (target : Node) →
    IsExpression target → (d base : Nat) →
    Level d (d + receivers target) base (layoutTarget target scope base)
  | .chain _ current remaining, h, d, base =>
      (level_expression macros current h.1 d base).append
        (level_receiver macros remaining h.2 d _) rfl
  | .identifier .., _, _, base | .null _, _, _, base | .number .., _, _, base
  | .string .., _, _, base | .call .., _, _, base | .staticCall .., _, _, base
  | .unary .., _, _, base | .binary .., _, _, base | .adjust .., _, _, base => Levels.empty base

/-! ## statements -/

/-- Comparisons keep the value of a switch, and take it along to the bodies. -/
theorem level_tests {n : Nat} {allowed : Allowed} (macros : scope.environment.MacrosPushOne) :
    (cases : List SwitchCase) → AreCases n allowed cases → (targets : List Nat) →
    targets.length = cases.length → (base : Nat) →
    Levels (fun D => ∀ target ∈ targets, D target = 0) (fun _ => True) 1 1 base
      (layoutTests cases targets scope base)
  | [], _, _, _, base =>
      (Levels.empty base).settle (fun _ _ _ _ _ => trivial) fun _ _ _ _ => trivial
  | .mk value body :: cases, h, target :: targets, same, base => by
      have first := level_expression macros value h.1 1 base
      have test : Levels (fun D => D target = 0) (fun _ => True) 2 1
          (base + (layout value scope base).size) (.one (.switchJump (.address target))) :=
        .jump (.switchJump _) 2 1 rfl (Nat.le_refl 2) (fun _ => rfl) trivial
      have rest := level_tests macros cases h.2.2 targets (by simpa using same)
        (base + (layout value scope base).size + 1)
      exact ((Levels.append first test rfl).append rest (by simp [Nat.add_assoc])).settle
        (fun D zero _ _ _ => ⟨⟨trivial, zero target List.mem_cons_self⟩,
          fun t found => zero t (List.mem_cons_of_mem _ found)⟩)
        fun _ _ _ _ => trivial

mutual

/-- A statement leaves the stack as it was, by induction on the tree. -/
theorem level_statement {n : Nat} {allowed : Allowed} : (node : Node) → {scope : Scope} →
    scope.environment.MacrosPushOne → IsStatement n allowed node → (base : Nat) →
    Level 0 0 base (layout node scope base)
  | .block _ statements, _, macros, h, base => level_statements statements macros h base
  | .returns _ none, _, _, _, _ => .returnsNull 0
  | .returns _ (some value), _, macros, h, base =>
      (level_expression macros value h 0 base).append (.returns 0) rfl
  | .discard _ value, _, macros, h, base =>
      (level_expression macros value h 0 base).append
        (.straight rfl rfl (Nat.le_refl 1) rfl) rfl
  | .branch _ condition accepted none, _, macros, h, base =>
      (level_expression macros condition h.1 0 base).append
        (level_statement accepted macros h.2.1 _).guarded rfl
  | .branch _ condition accepted (some otherwise), _, macros, h, base =>
      .branch (level_expression macros condition h.1 0 base)
        (level_statement accepted macros h.2.1 _) (level_statement otherwise macros h.2.2 _)
  | .switch _ kind value cases fallback, scope, macros, h, base =>
      .switch (level_expression macros value h.1 0 base)
        (level_tests macros cases h.2.1 _ (length_bodyStarts ..) _)
        (level_bodies cases kind macros h.2.1 _) (level_optional fallback macros h.2.2 _)
        (by simp only [size_layoutTests])
  | .assign _ none target value, _, macros, h, base =>
      ((level_target macros target h.1 0 base).append
        (level_expression macros value h.2 _ _) rfl).append
          (.ofCode (depthAfter_store target 0)) rfl
  | .assign _ (some op) target value, _, macros, h, base =>
      ((level_current macros target h.1 0 base).append
        (level_expression macros value h.2 _ _) rfl).append
          ((Level.straight rfl rfl (Nat.le_add_left ..) rfl).append
            (.ofCode (depthAfter_store target 0)) rfl : Level _ 0 _
              (.one (.binaryOp op) ++ .ofCode [storeCode target])) rfl
  | .adjust _ kind target direction, _, macros, h, base => by
      have adjusted := depthAfter_adjust kind target direction.number 0
      rw [if_pos h.1] at adjusted
      exact (level_current macros target h.2 0 base).append (.ofCode adjusted) rfl
  | .whileLoop _ condition body, _, macros, h, base =>
      .whileLoop (level_expression macros condition h.1 0 base) (level_statement body macros h.2 _)
  | .doLoop _ body condition, _, macros, h, base =>
      .loopBefore (level_statement body macros h.1 base)
        (level_expression macros condition h.2 0 _)
  | .forLoop _ init condition post body, scope, macros, h, base => by
      simp only [layout, Fragment.append_assoc]
      exact (level_statement init macros h.1 base).append
        (.forLoop (level_expression macros condition h.2.1 0 _)
          (level_statement body macros h.2.2.2 _) (level_statement post macros h.2.2.1 _)) rfl
  | .leave _, _, _, _, _ | .proceed _, _, _, _, _ => .jumpOpen _ (fun _ => rfl) 0
  | .label _ name statement, _, macros, h, base =>
      (Level.label name).append (level_statement statement macros h base) rfl
  | .jump _ name, _, _, _, base =>
      (Level.jumpOpen .unresolved (fun _ => rfl) 0).await [(name, base)]
  | .callLabel _ name, _, _, _, base =>
      ((Levels.jump (.jumpPush .unresolved) 0 0 rfl (Nat.le_refl 0) nofun ⟨rfl, rfl⟩).settle
        (fun _ _ _ _ _ => rfl) fun _ _ _ _ => trivial).await [(name, base)]
  | .back _, _, _, _, _ => .one .jumpPop 0 0 rfl (Nat.le_refl 0) nofun rfl
  | .directive .., _, _, ⟨rfl, rfl⟩, base => Levels.empty base
  | .function _ id _ parameters body, scope, macros, h, base => by
      have same : ({ scope with parameters } : Scope).environment.MacrosPushOne := macros
      exact .function (level_statement body same h.2 (base + 1)).closed id
        (Fragment.size_closed_pos _ _)

/-- Statements one after the other leave the stack as it was. -/
theorem level_statements {n : Nat} {allowed : Allowed} : (nodes : List Node) →
    {scope : Scope} → scope.environment.MacrosPushOne → AreStatements n allowed nodes →
    (base : Nat) → Level 0 0 base (layoutAll nodes scope base)
  | [], _, _, _, base => Levels.empty base
  | node :: nodes, _, macros, h, base =>
      (level_statement node macros h.1 base).append (level_statements nodes macros h.2 _) rfl

theorem level_optional {n : Nat} {allowed : Allowed} : (node : Option Node) →
    {scope : Scope} → scope.environment.MacrosPushOne → IsOptional n allowed node →
    (base : Nat) → Level 0 0 base (layoutOptional node scope base)
  | none, _, _, _, base => Levels.empty base
  | some node, _, macros, h, base => level_statement node macros h base

/-- Nothing is on the stack where a body starts. -/
theorem level_bodies {n : Nat} {allowed : Allowed} : (cases : List SwitchCase) →
    (kind : SwitchKind) → {scope : Scope} → scope.environment.MacrosPushOne →
    AreCases n allowed cases → (base : Nat) →
    Levels (fun _ => True) (fun D => ∀ start ∈ bodyStarts cases kind scope base, D start = 0)
      0 0 base (layoutBodies cases kind scope base)
  | [], _, _, _, _, base =>
      (Levels.empty base).settle (fun _ _ _ _ _ => trivial) fun _ _ _ _ => nofun
  | .mk _ body :: cases, kind, scope, macros, h, base => by
      have ends : Level 0 0 (base + (layout body scope base).size)
          (.ofCode (if kind = .select then [.jump .breakPoint] else [])) := by
        split
        · exact .jumpOpen _ (fun _ => rfl) 0
        · exact Levels.empty _
      have first := (level_statement body macros h.2.1 base).append ends rfl
      rw [bodyStarts_cons]
      exact (Levels.append first (level_bodies cases kind macros h.2.2 _) rfl).settle
        (fun _ _ _ _ _ => ⟨trivial, trivial⟩)
        fun D ⟨_, zero, _⟩ starts _ => List.forall_mem_cons.2 ⟨starts, zero⟩

end

end Generate

end HostScript
