import HostScript.Proofs.Confinement
import HostScript.Proofs.Definitions

/-!
# HostScript.Proofs.Isolation

Functions are islands in the code.  The body of a function stands between a jump around it and a
return, the ranges of two functions are nested or have nothing in common, and no jump but those to
labels leads into a function or out of it.

`Housed far env ds base f` says this of a fragment at `base` with the functions `ds` in it.  Jumps
may leave the fragment for an address that is `far`, from a place outside of all functions: this is
how loops and switches are put together from their parts, which jump to each other.  Once all parts
are there, the far addresses turn out to be places between the parts, where no function is.
-/

namespace HostScript

/-- The addresses of the body of a function, from its first one to that of its return. -/
structure Extent where
  start : Nat
  stop : Nat

namespace Extent

/-- The address belongs to the body of the function. -/
def Covers (e : Extent) (address : Nat) : Prop := e.start ≤ address ∧ address ≤ e.stop

/-- Two functions have nothing in common, or one lies inside the body of the other.  The jump around
a function counts as a part of it. -/
def Apart (e e' : Extent) : Prop :=
  e.stop < e'.start - 1 ∨ e'.stop < e.start - 1 ∨
    (e'.start ≤ e.start - 1 ∧ e.stop ≤ e'.stop) ∨ (e.start ≤ e'.start - 1 ∧ e'.stop ≤ e.stop)

end Extent

def Placement.extent (p : Placement) : Extent := ⟨p.start, p.stop⟩

def ScriptFunction.extent (f : ScriptFunction) : Extent := ⟨f.start, f.stop⟩

namespace Fragment

/-- No function of the fragment covers the address. -/
def Exposes (f : Fragment) (address : Nat) : Prop := ∀ p ∈ f.placements, ¬ p.extent.Covers address

/-- A composed fragment has the functions of its parts and no others. -/
@[simp] theorem exposes_append {a b : Fragment} {address : Nat} :
    (a ++ b).Exposes address ↔ a.Exposes address ∧ b.Exposes address :=
  List.forall_mem_append

@[simp] theorem exposes_retarget {f : Fragment} {x y : Option Nat} {address : Nat} :
    (f.retarget x y).Exposes address ↔ f.Exposes address := Iff.rfl

@[simp] theorem exposes_ofCode {code : List Instruction} {address : Nat} :
    (ofCode code).Exposes address := nofun

@[simp] theorem exposes_one {i : Instruction} {address : Nat} : (one i).Exposes address := nofun

/-- A jump around code is no part of a function in it. -/
@[simp] theorem exposes_jumpOver {make : JumpTarget → Instruction} {start : Nat} {f : Fragment}
    {address : Nat} : (jumpOver make start f).Exposes address ↔ f.Exposes address := by
  rw [jumpOver, exposes_append]
  exact and_iff_right exposes_one

/-- In the fragment, which starts at `base`, there is this code from `address` on. -/
def Contains (f : Fragment) (base address : Nat) (code : List Instruction) : Prop :=
  ∃ before after, f.code = before ++ code ++ after ∧ address = base + before.length

section contains

variable {a b f : Fragment} {base address : Nat} {code : List Instruction}

/-- What the first part contains, the whole contains at the same address. -/
theorem Contains.append_left (h : a.Contains base address code) :
    (a ++ b).Contains base address code := by
  obtain ⟨before, after, shape, there⟩ := h
  exact ⟨before, after ++ b.code, by simp [shape], there⟩

/-- What the second part contains, the whole contains at the same address. -/
theorem Contains.append_right (h : b.Contains (base + a.size) address code) :
    (a ++ b).Contains base address code := by
  obtain ⟨before, after, shape, there⟩ := h
  refine ⟨a.code ++ before, after, by simp [shape], ?_⟩
  rw [there, List.length_append, Nat.add_assoc, size]

/-- Code that no loop changes is still there. -/
theorem Contains.retarget {x y : Option Nat} (h : f.Contains base address code)
    (same : ∀ i ∈ code, i.mapTarget (Code.retarget x y) = i) :
    (f.retarget x y).Contains base address code := by
  obtain ⟨before, after, shape, there⟩ := h
  refine ⟨before.map (·.mapTarget (Code.retarget x y)), after.map (·.mapTarget (Code.retarget x y)),
    ?_, by simpa using there⟩
  have kept : code.map (·.mapTarget (Code.retarget x y)) = code :=
    (List.map_congr_left same).trans (List.map_id _)
  simp [Fragment.retarget, shape, kept]

end contains

end Fragment

/-- A break or continue that no loop or switch has resolved. -/
def Instruction.Unsettled (i : Instruction) : Prop :=
  i.target? = some .breakPoint ∨ i.target? = some .continuePoint

/-- An instruction is the same if its target is. -/
theorem Instruction.mapTarget_eq_of_forall {i : Instruction} {f : JumpTarget → JumpTarget}
    (h : ∀ t, i.target? = some t → f t = t) : i.mapTarget f = i := by
  cases i <;> simp_all [target?, mapTarget]

/-- An instruction that waits for no loop is the same behind it. -/
theorem Instruction.mapTarget_retarget {i : Instruction} (h : ¬ i.Unsettled) (x y : Option Nat) :
    i.mapTarget (Code.retarget x y) = i := by
  refine mapTarget_eq_of_forall fun t jumps => ?_
  cases t with
  | breakPoint => exact absurd (.inl jumps) h
  | continuePoint => exact absurd (.inr jumps) h
  | unresolved => cases x <;> cases y <;> rfl
  | address => cases x <;> cases y <;> rfl

/-- Where nothing is allowed, no break and no continue is left. -/
theorem Confined.settled {hi base : Nat} {f : Fragment} (h : Confined hi .nowhere base f) :
    ∀ i ∈ f.code, ¬ i.Unsettled := by
  intro i found unsettled
  obtain ⟨k, there⟩ := List.mem_iff_getElem?.1 found
  rcases unsettled with jumps | jumps
  · cases h.lands k i there _ jumps
  · cases h.lands k i there _ jumps

/-- Where a jump at `address` of the fragment may go. -/
def JumpTarget.Keeps (far : Nat → Prop) (base : Nat) (f : Fragment) (address : Nat) :
    JumpTarget → Prop
  | .address target => far target ∧ f.Exposes address ∨
      base ≤ target ∧ target ≤ base + f.size ∧
        ∀ p ∈ f.placements, p.extent.Covers address ↔ p.extent.Covers target
  | .breakPoint | .continuePoint => f.Exposes address
  | .unresolved => True

/-- The code of the definition `d`, with the jump around it, is where `p` says. -/
structure Lodges (env : Environment) (base : Nat) (f : Fragment) (p : Placement) (d : Definition) :
    Prop where
  id : d.id = p.id
  ends : p.start - 1 + (Generate.layout d.node ⟨env, []⟩ (p.start - 1)).size = p.stop + 1
  code : f.Contains base (p.start - 1) (Generate.layout d.node ⟨env, []⟩ (p.start - 1)).code
  settled : ∀ i ∈ (Generate.layout d.node ⟨env, []⟩ (p.start - 1)).code, ¬ i.Unsettled

structure Housed (far : Nat → Prop) (env : Environment) (ds : List Definition) (base : Nat)
    (f : Fragment) : Prop where
  bounds : ∀ p ∈ f.placements, base < p.start ∧ p.start ≤ p.stop ∧ p.stop < base + f.size
  nested : ∀ p ∈ f.placements, ∀ q ∈ f.placements, p = q ∨ p.extent.Apart q.extent
  jumps : f.Each (fun address i => ∀ target, i.target? = some target →
    target.Keeps far base f address) base
  ids : (f.placements.map (·.id)).Perm (ds.map (·.id))
  code : ∀ p ∈ f.placements, ∃ d ∈ ds, Lodges env base f p d

namespace Lodges

variable {env : Environment} {base : Nat} {a b f : Fragment} {p : Placement} {d : Definition}

/-- A function of the first part is one of the whole. -/
theorem append_left (h : Lodges env base a p d) : Lodges env base (a ++ b) p d :=
  { h with code := h.code.append_left }

/-- A function of the second part is one of the whole. -/
theorem append_right (h : Lodges env (base + a.size) b p d) : Lodges env base (a ++ b) p d :=
  { h with code := h.code.append_right }

/-- A loop around a function leaves it alone. -/
theorem retarget (h : Lodges env base f p d) (x y : Option Nat) :
    Lodges env base (f.retarget x y) p d :=
  { h with code := h.code.retarget fun i found => i.mapTarget_retarget (h.settled i found) x y }

end Lodges

namespace Housed

variable {far far' : Nat → Prop} {env : Environment} {ds es : List Definition} {base : Nat}
  {a b c f : Fragment} {code : List Instruction} {i : Instruction} {t : Nat}

/-! ## where no function is -/

/-- At the start of a fragment there is no function yet. -/
theorem exposes_of_le (h : Housed far env ds base f) (before : t ≤ base) : f.Exposes t :=
  fun p found covers => by
    have bounds := h.bounds p found
    have inside : p.start ≤ t := covers.1
    omega

theorem exposes_of_ge (h : Housed far env ds base f) (behind : base + f.size ≤ t) : f.Exposes t :=
  fun p found covers => by
    have bounds := h.bounds p found
    have inside : t ≤ p.stop := covers.2
    omega

/-! ## small fragments -/

/-- Code without functions, of which each instruction goes where it may. -/
theorem plain (labels waiting : List (String × Nat))
    (h : ∀ i ∈ code, ∀ target, i.target? = some (.address target) → far target) :
    Housed far env [] base { code, labels, waiting } where
  bounds := nofun
  nested := nofun
  jumps k i found target jumps := by
    cases target with
    | address target => exact .inl ⟨h i (List.mem_of_getElem? found) target jumps, nofun⟩
    | unresolved => trivial
    | breakPoint | continuePoint => exact nofun
  ids := .nil
  code := nofun

/-- Code without jumps. -/
theorem ofCode (h : ∀ i ∈ code, i.target? = none) : Housed far env [] base (.ofCode code) :=
  plain [] [] fun i found target jumps => by
    rw [h i found] at jumps
    cases jumps

theorem straight (h : i.target? = none) : Housed far env [] base (.one i) :=
  ofCode (by simpa using h)

theorem empty : Housed far env [] base {} := ofCode nofun

/-- A jump to an address that is far. -/
theorem jump (jumps : i.target? = some (.address t)) (away : far t) :
    Housed far env [] base (.one i) :=
  plain [] [] fun j found target there => by
    obtain rfl := List.mem_singleton.1 found
    rw [jumps] at there
    cases there
    exact away

/-- A jump that is left to a loop or switch to resolve. -/
theorem unsettled (h : i.Unsettled) : Housed far env [] base (.one i) :=
  plain [] [] fun j found t there => by
    obtain rfl := List.mem_singleton.1 found
    unfold Instruction.Unsettled at h
    simp [there] at h

/-- A jump to a label. -/
theorem await (jumps : i.target? = some .unresolved) (name : String) (address : Nat) :
    Housed far env [] base { code := [i], waiting := [(name, address)] } :=
  plain [] [(name, address)] fun j found t there => by
    obtain rfl := List.mem_singleton.1 found
    simp [jumps] at there

/-! ## composition -/

/-- Every definition stays the same under another list of them. -/
theorem perm (h : Housed far env ds base f) (same : ds.Perm es) : Housed far env es base f where
  bounds := h.bounds
  nested := h.nested
  jumps := h.jumps
  ids := h.ids.trans (same.map _)
  code p found := by
    obtain ⟨d, known, lodges⟩ := h.code p found
    exact ⟨d, same.mem_iff.1 known, lodges⟩

/-- Addresses that are reached from outside of functions and lie between them are not far. -/
theorem settle (h : Housed far env ds base f)
    (reach : ∀ t, far t → far' t ∨ base ≤ t ∧ t ≤ base + f.size ∧ f.Exposes t) :
    Housed far' env ds base f where
  bounds := h.bounds
  nested := h.nested
  jumps := h.jumps.imp fun address i keeps target jumps => by
    have before := keeps target jumps
    cases target with
    | address t =>
        rcases before with ⟨away, exposed⟩ | stays
        · rcases reach t away with away' | ⟨low, high, there⟩
          · exact .inl ⟨away', exposed⟩
          · exact .inr ⟨low, high, fun p found => iff_of_false (exposed p found) (there p found)⟩
        · exact .inr stays
    | _ => exact before
  ids := h.ids
  code := h.code

/-- Two fragments have the functions of both, which are apart since the fragments are. -/
theorem append {mid : Nat} (first : Housed far env ds base a) (second : Housed far env es mid b)
    (at_ : mid = base + a.size) : Housed far env (ds ++ es) base (a ++ b) where
  bounds := by
    subst at_
    rw [Fragment.size_append]
    refine List.forall_mem_append.2 ⟨fun p found => ?_, fun p found => ?_⟩
    · have bounds := first.bounds p found
      omega
    · have bounds := second.bounds p found
      omega
  nested := by
    have across (p : Placement) (left : p ∈ a.placements) (q : Placement)
        (right : q ∈ b.placements) : p.stop < q.start - 1 := by
      subst at_
      have bounds := first.bounds p left
      have bounds' := second.bounds q right
      omega
    intro p left q right
    rcases List.mem_append.1 left with left | left <;>
      rcases List.mem_append.1 right with right | right
    · exact first.nested p left q right
    · exact .inr (.inl (across p left q right))
    · exact .inr (.inr (.inl (across q right p left)))
    · exact second.nested p left q right
  jumps := by
    subst at_
    refine Fragment.each_append.2
      ⟨fun k i found target jumps => ?_, fun k i found target jumps => ?_⟩
    · have inside := (List.getElem?_eq_some_iff.1 found).1
      have here := second.exposes_of_le (t := base + k) (by rw [Fragment.size]; omega)
      have before := first.jumps k i found target jumps
      cases target with
      | address t =>
          rcases before with ⟨away, exposed⟩ | ⟨low, high, same⟩
          · exact .inl ⟨away, Fragment.exposes_append.2 ⟨exposed, here⟩⟩
          · have there := second.exposes_of_le high
            refine .inr ⟨low, by rw [Fragment.size_append]; omega, ?_⟩
            exact List.forall_mem_append.2
              ⟨same, fun p found => iff_of_false (here p found) (there p found)⟩
      | unresolved => trivial
      | breakPoint | continuePoint => exact Fragment.exposes_append.2 ⟨before, here⟩
    · have here := first.exposes_of_ge (Nat.le_add_right (base + a.size) k)
      have before := second.jumps k i found target jumps
      cases target with
      | address t =>
          rcases before with ⟨away, exposed⟩ | ⟨low, high, same⟩
          · exact .inl ⟨away, Fragment.exposes_append.2 ⟨here, exposed⟩⟩
          · have there := first.exposes_of_ge low
            refine .inr ⟨by omega, by rw [Fragment.size_append]; omega, ?_⟩
            exact List.forall_mem_append.2
              ⟨fun p found => iff_of_false (here p found) (there p found), same⟩
      | unresolved => trivial
      | breakPoint | continuePoint => exact Fragment.exposes_append.2 ⟨here, before⟩
  ids := by
    rw [Fragment.placements_append, List.map_append, List.map_append]
    exact first.ids.append second.ids
  code := by
    subst at_
    refine List.forall_mem_append.2 ⟨fun p found => ?_, fun p found => ?_⟩
    · obtain ⟨d, known, lodges⟩ := first.code p found
      exact ⟨d, List.mem_append_left _ known, lodges.append_left⟩
    · obtain ⟨d, known, lodges⟩ := second.code p found
      exact ⟨d, List.mem_append_right _ known, lodges.append_right⟩

/-- A loop or switch resolves what its body leaves open to addresses that are far. -/
theorem retarget {x y : Option Nat} (h : Housed far env ds base f) (leave : ∀ stop ∈ x, far stop)
    (proceed : ∀ next ∈ y, far next) : Housed far env ds base (f.retarget x y) where
  bounds := by
    rw [Fragment.size_retarget]
    exact h.bounds
  nested := h.nested
  jumps := Fragment.each_retarget.2 (h.jumps.imp fun address i keeps target found => by
    obtain ⟨old, there, rfl⟩ : ∃ old, i.target? = some old ∧ Code.retarget x y old = target := by
      simpa using found
    have before := keeps old there
    have same (t : JumpTarget) (h : t.Keeps far base f address) :
        t.Keeps far base (f.retarget x y) address := by
      cases t with
      | address t => exact h.imp_right fun ⟨low, high, same⟩ => ⟨low, by simpa using high, same⟩
      | _ => exact h
    cases old with
    | unresolved => trivial
    | address t => cases x <;> cases y <;> exact same _ before
    | breakPoint =>
        cases x with
        | none => exact before
        | some stop => exact .inl ⟨leave stop rfl, before⟩
    | continuePoint =>
        cases y with
        | none => cases x <;> exact before
        | some next => cases x <;> exact .inl ⟨proceed next rfl, before⟩)
  ids := h.ids
  code p found := by
    obtain ⟨d, known, lodges⟩ := h.code p found
    exact ⟨d, known, lodges.retarget x y⟩

/-! ## composed shapes -/

/-- More addresses may be far. -/
theorem mono (h : Housed far env ds base f) (more : ∀ t, far t → far' t) :
    Housed far' env ds base f :=
  h.settle fun t away => .inl (more t away)

/-- Code without functions behind others. -/
theorem appendPlain {mid : Nat} (first : Housed far env ds base a)
    (second : Housed far env [] mid b) (at_ : mid = base + a.size) :
    Housed far env ds base (a ++ b) :=
  (first.append second at_).perm (by simp)

/-- Where there are no functions, none covers anything. -/
theorem exposes_of_plain (h : Housed far env [] base f) (t : Nat) : f.Exposes t := by
  have none : f.placements = [] := by simpa using h.ids
  intro p found
  rw [none] at found
  cases found

/-- A jump lands right behind the fragment that it jumps over. -/
theorem jumpOver {make : JumpTarget → Instruction} (jumps : ∀ t, (make t).target? = some t)
    (h : Housed far env ds (base + 1) f) : Housed far env ds base (.jumpOver make base f) := by
  have first : Housed (fun t => far t ∨ t = base + 1 + f.size) env [] base
      (.one (make (.address (base + 1 + f.size)))) := jump (jumps _) (.inr rfl)
  have behind := h.exposes_of_ge (Nat.le_refl _)
  refine (first.append (h.mono fun _ => .inl) rfl).settle fun t away => ?_
  refine away.imp_right fun same => ?_
  subst same
  simp only [Fragment.size_append, Fragment.size_one, Fragment.exposes_append]
  exact ⟨by omega, by omega, Fragment.exposes_one, behind⟩

/-- Both branches of a condition, with a jump over the second one. -/
theorem branch (first : Housed far env [] base a) (second : Housed far env ds (base + a.size + 1) b)
    (third : Housed far env es (base + a.size + 1 + b.size + 1) c) :
    Housed far env (ds ++ es) base
      (a ++ .one (.jumpUnless (.address (base + a.size + 1 + b.size + 1))) ++ b ++
        .jumpOver .jump (base + a.size + 1 + b.size) c) := by
  have more (t : Nat) (away : far t) : far t ∨ t = base + a.size + 1 + b.size + 1 := .inl away
  have front := (first.mono more).append
    (jump (i := .jumpUnless (.address (base + a.size + 1 + b.size + 1))) rfl (.inr rfl)) rfl
  have skip : Housed _ env es _ (.jumpOver .jump (base + a.size + 1 + b.size) c) :=
    (third.mono more).jumpOver fun _ => rfl
  have all := (front.append (second.mono more) (by simp [Nat.add_assoc])).append skip
    (by simp [Nat.add_assoc])
  refine all.settle fun t away => away.imp_right fun same => ?_
  subst same
  simp only [Fragment.size_append, Fragment.size_one, Fragment.size_jumpOver,
    Fragment.exposes_append, Fragment.exposes_jumpOver]
  exact ⟨by omega, by omega, ⟨⟨first.exposes_of_plain _, Fragment.exposes_one⟩,
    second.exposes_of_ge (by omega)⟩, third.exposes_of_le (Nat.le_refl _)⟩

/-- The test of a loop and its turns.  They go back to the test, and on at `next`. -/
theorem loop {next : Nat} (first : Housed far env [] base a)
    (turn : Housed (fun t => far t ∨ t = base ∨ t = next) env ds (base + a.size + 1) b)
    (low : base ≤ next) (high : next ≤ base + a.size + 1 + b.size) (between : b.Exposes next) :
    Housed far env ds base
      (a ++ .jumpOver .jumpUnless (base + a.size)
        (b.retarget (some (base + a.size + 1 + b.size)) (some next))) := by
  have more (t : Nat) (away : far t) : far t ∨ t = base ∨ t = next ∨
      t = base + a.size + 1 + b.size := .inl away
  have body : Housed (fun t => far t ∨ t = base ∨ t = next ∨ t = base + a.size + 1 + b.size) env ds
      (base + a.size + 1) (b.retarget (some (base + a.size + 1 + b.size)) (some next)) :=
    (turn.mono fun t away => by grind).retarget (by simp) (by simp)
  have skip : Housed _ env ds _ (.jumpOver .jumpUnless (base + a.size) _) :=
    body.jumpOver fun _ => rfl
  have all := (first.mono more).append skip rfl
  refine all.settle fun t away => away.imp_right fun same => ?_
  simp only [Fragment.size_append, Fragment.size_jumpOver, Fragment.size_retarget,
    Fragment.exposes_append, Fragment.exposes_jumpOver, Fragment.exposes_retarget]
  rcases same with rfl | rfl | rfl
  · exact ⟨by omega, by omega, first.exposes_of_plain _, turn.exposes_of_le (by omega)⟩
  · exact ⟨by omega, by omega, first.exposes_of_plain _, between⟩
  · exact ⟨by omega, by omega, first.exposes_of_plain _, turn.exposes_of_ge (Nat.le_refl _)⟩

/-- The test of a loop, its turns and the step between them, where it goes on. -/
theorem loopWithStep (first : Housed far env [] base a)
    (turn : Housed far env ds (base + a.size + 1) b)
    (step : Housed far env es (base + a.size + 1 + b.size) c) :
    Housed far env (ds ++ es) base
      (a ++ .jumpOver .jumpUnless (base + a.size)
        ((b ++ c ++ .one (.jump (.address base))).retarget
          (some (base + a.size + 1 + (b ++ c ++ .one (.jump (.address base))).size))
          (some (base + a.size + 1 + b.size)))) := by
  have more (t : Nat) (away : far t) : far t ∨ t = base ∨ t = base + a.size + 1 + b.size :=
    .inl away
  have all := ((turn.mono more).append (step.mono more) rfl).appendPlain
    (jump (i := .jump (.address base)) rfl (.inr (.inl rfl))) rfl
  refine first.loop all (by omega) (by simp only [Fragment.size_append]; omega) ?_
  simp only [Fragment.exposes_append]
  exact ⟨⟨turn.exposes_of_ge (Nat.le_refl _), step.exposes_of_le (Nat.le_refl _)⟩,
    Fragment.exposes_one⟩

/-- The turns of a loop with its test behind them. -/
theorem loopBefore (turn : Housed far env ds base a)
    (second : Housed far env [] (base + a.size) b) :
    Housed far env ds base
      (a.retarget (some (base + a.size + b.size + 1)) (some (base + a.size)) ++ b ++
        .one (.jumpIf (.address base))) := by
  have more (t : Nat) (away : far t) : far t ∨ t = base ∨ t = base + a.size ∨
      t = base + a.size + b.size + 1 := .inl away
  have body := (turn.mono more).retarget (x := some (base + a.size + b.size + 1))
    (y := some (base + a.size)) (by simp) (by simp)
  have all := (body.appendPlain (second.mono more) (by simp)).appendPlain
    (jump (i := .jumpIf (.address base)) rfl (by simp)) rfl
  refine all.settle fun t away => away.imp_right fun same => ?_
  simp only [Fragment.size_append, Fragment.size_one, Fragment.size_retarget,
    Fragment.exposes_append, Fragment.exposes_retarget]
  have plain := second.exposes_of_plain t
  rcases same with rfl | rfl | rfl
  · exact ⟨by omega, by omega, ⟨turn.exposes_of_le (Nat.le_refl _), plain⟩, Fragment.exposes_one⟩
  · exact ⟨by omega, by omega, ⟨turn.exposes_of_ge (Nat.le_refl _), plain⟩, Fragment.exposes_one⟩
  · exact ⟨by omega, by omega, ⟨turn.exposes_of_ge (by omega), plain⟩, Fragment.exposes_one⟩

/-- The value of a switch and the comparisons with it, then the bodies and the fallback. -/
theorem switch {d : Fragment} {starts : List Nat} {start : Nat} (first : Housed far env [] base a)
    (tests : Housed (fun t => far t ∨ t ∈ starts) env [] (base + a.size) b)
    (bodies : Housed far env ds start c) (last : Housed far env es (start + c.size) d)
    (at_ : start = base + a.size + b.size + 2)
    (inside : ∀ t ∈ starts, start ≤ t ∧ t ≤ start + c.size ∧ c.Exposes t) :
    Housed far env (ds ++ es) base
      (a ++ b ++ .ofCode [.discard, .jump (.address (start + c.size))] ++
        (c ++ d).retarget (some (start + c.size + d.size)) none) := by
  have more (t : Nat) (away : far t) : far t ∨ t ∈ starts ∨ t = start + c.size ∨
      t = start + c.size + d.size := .inl away
  have front := (first.mono more).append (tests.mono fun t away => away.imp_right .inl) rfl
  have falls := front.append (b := .ofCode [.discard, .jump (.address (start + c.size))])
    (plain [] [] (by simp [Instruction.target?])) rfl
  have rest := ((bodies.mono more).append (last.mono more) rfl).retarget
    (x := some (start + c.size + d.size)) (y := none) (by simp) (by simp)
  have all := falls.append rest (by simp [at_, Nat.add_assoc])
  refine all.settle fun t away => away.imp_right fun same => ?_
  simp only [Fragment.size_append, Fragment.size_ofCode, Fragment.size_retarget,
    Fragment.exposes_append, Fragment.exposes_retarget, List.length_cons, List.length_nil]
  have outside : (a.Exposes t ∧ b.Exposes t) ∧ (Fragment.ofCode
      [.discard, .jump (.address (start + c.size))]).Exposes t :=
    ⟨⟨first.exposes_of_plain t, tests.exposes_of_plain t⟩, Fragment.exposes_ofCode⟩
  rcases same with found | rfl | rfl
  · obtain ⟨low, high, exposed⟩ := inside t found
    exact ⟨by omega, by omega, outside, exposed, last.exposes_of_le high⟩
  · exact ⟨by omega, by omega, outside, bodies.exposes_of_ge (Nat.le_refl _),
      last.exposes_of_le (Nat.le_refl _)⟩
  · exact ⟨by omega, by omega, outside, bodies.exposes_of_ge (by omega),
      last.exposes_of_ge (Nat.le_refl _)⟩

/-! ## functions -/

/-- A return behind the code is in no function of it. -/
theorem closed (h : Housed far env ds base f) : Housed far env ds base (f.closed base) := by
  unfold Fragment.closed
  split
  · exact h.appendPlain (ofCode (by simp [Instruction.target?])) rfl
  · exact h

/-- Nothing in closed code goes right behind it. -/
theorem closed_ends (h : Housed (fun _ => False) env ds base f) :
    ∀ i ∈ (f.closed base).code, i.target? ≠ some (.address (base + (f.closed base).size)) := by
  intro i found jumps
  unfold Fragment.closed at found jumps
  split at found
  next falls =>
    rw [if_pos falls, Fragment.size_append] at jumps
    rcases List.mem_append.1 found with old | new
    · obtain ⟨k, there⟩ := List.mem_iff_getElem?.1 old
      obtain ⟨-, high, -⟩ := (h.jumps k i there _ jumps).resolve_left fun away => away.1
      simp only [Fragment.size_ofCode, List.length_cons, List.length_nil] at high
      omega
    · obtain rfl | rfl : i = .pushNull ∨ i = .ret := by simpa using new
      all_goals cases jumps
  next ends =>
    rw [if_neg ends] at jumps
    simp only [Fragment.fallsOff, Bool.or_eq_true, List.any_eq_true, not_or, not_exists] at ends
    exact ends.1.2 i ⟨found, by simp [jumps]⟩

/-- One more function in a fragment, around some of those that are there.  No jump leads into it or
out of it. -/
theorem place {d : Definition} {q : Placement} (h : Housed (fun _ => False) env ds base f)
    (bounds : base < q.start ∧ q.start ≤ q.stop ∧ q.stop < base + f.size)
    (around : ∀ p ∈ f.placements, q.start ≤ p.start - 1 ∧ p.stop ≤ q.stop)
    (isolated : f.Each (fun address i =>
      (∀ t, i.target? = some (.address t) → (q.extent.Covers address ↔ q.extent.Covers t)) ∧
        ¬ i.Unsettled) base)
    (lodges : Lodges env base f q d) :
    Housed (fun _ => False) env (ds ++ [d]) base (f ++ ({ placements := [q] } : Fragment)) := by
  refine ⟨?_, fun p first r second => ?_, fun k i found target jumps => ?_, ?_, ?_⟩
  · rw [Fragment.size_append_placements]
    exact List.forall_mem_append.2 ⟨h.bounds, by simpa using bounds⟩
  · rcases List.mem_append.1 first with left | left <;>
      rcases List.mem_append.1 second with right | right
    · exact h.nested p left r right
    · obtain rfl := List.mem_singleton.1 right
      exact .inr (.inr (.inr (.inl (around p left))))
    · obtain rfl := List.mem_singleton.1 left
      exact .inr (.inr (.inr (.inr (around r right))))
    · exact .inl ((List.mem_singleton.1 left).trans (List.mem_singleton.1 right).symm)
  · rw [Fragment.code_append_placements] at found
    obtain ⟨same, settled⟩ := isolated k i found
    cases target with
    | address t =>
        obtain ⟨low, high, others⟩ :=
          (h.jumps k i found _ jumps).resolve_left fun away => away.1
        refine .inr ⟨low, by rwa [Fragment.size_append_placements], ?_⟩
        exact List.forall_mem_append.2 ⟨others, by simpa using same t jumps⟩
    | unresolved => trivial
    | breakPoint => exact absurd (.inl jumps) settled
    | continuePoint => exact absurd (.inr jumps) settled
  · rw [Fragment.placements_append, List.map_append, List.map_append]
    exact h.ids.append (by simp [lodges.id])
  · refine List.forall_mem_append.2 ⟨fun p found => ?_, ?_⟩
    · obtain ⟨e, known, there⟩ := h.code p found
      exact ⟨e, List.mem_append_left _ known, there.append_left⟩
    · simp only [List.mem_singleton, forall_eq]
      exact ⟨d, by simp, lodges.append_left⟩

/-- A function around its body.  The body leaves nothing open, and nothing in it goes right behind
it. -/
theorem function {d : Definition} (inner : Housed (fun _ => False) env ds (base + 1) f)
    (ends : ∀ i ∈ f.code, i.target? ≠ some (.address (base + 1 + f.size)))
    (settled : ∀ i ∈ f.code, ¬ i.Unsettled) (nonempty : 0 < f.size)
    (shape : Generate.layout d.node ⟨env, []⟩ base =
      .jumpOver .jump base f ++ ({ placements := [⟨d.id, base + 1, base + f.size⟩] } : Fragment)) :
    Housed far env (ds ++ [d]) base (Generate.layout d.node ⟨env, []⟩ base) := by
  have code : (Generate.layout d.node ⟨env, []⟩ base).code =
      (Fragment.jumpOver .jump base f).code := by
    rw [shape]
    simp
  have around : Housed (fun _ => False) env ds base (.jumpOver .jump base f) :=
    inner.jumpOver fun _ => rfl
  rw [shape]
  refine (around.place (d := d) ?_ (fun p found => ?_) ?_ ⟨rfl, ?_, ?_, ?_⟩).mono
    fun _ => False.elim
  · rw [Fragment.size_jumpOver]
    simp only
    omega
  · have bounds := inner.bounds p (by simpa [Fragment.jumpOver] using found)
    simp only
    omega
  · refine Fragment.each_append.2 ⟨Fragment.each_one.2 ⟨fun t jumps => ?_, ?_⟩,
      fun k i found => ⟨fun t jumps => ?_, settled i (List.mem_of_getElem? found)⟩⟩
    · cases jumps
      simp only [Extent.Covers, Placement.extent]
      omega
    · simp [Instruction.Unsettled, Instruction.target?]
    · have inside : k < f.size := (List.getElem?_eq_some_iff.1 found).1
      obtain ⟨low, high, -⟩ := (inner.jumps k i found _ jumps).resolve_left fun away => away.1
      have other : t ≠ base + 1 + f.size := by
        rintro rfl
        exact ends i (List.mem_of_getElem? found) jumps
      simp only [Extent.Covers, Placement.extent, Fragment.size_one]
      omega
  · show base + 1 - 1 + (Generate.layout d.node ⟨env, []⟩ (base + 1 - 1)).size = base + f.size + 1
    rw [Nat.add_sub_cancel, Fragment.size, code, ← Fragment.size, Fragment.size_jumpOver]
    omega
  · show Fragment.Contains _ base (base + 1 - 1)
      (Generate.layout d.node ⟨env, []⟩ (base + 1 - 1)).code
    rw [Nat.add_sub_cancel, code]
    exact ⟨[], [], by simp, rfl⟩
  · show ∀ i ∈ (Generate.layout d.node ⟨env, []⟩ (base + 1 - 1)).code, ¬ i.Unsettled
    rw [Nat.add_sub_cancel, code]
    exact List.forall_mem_cons.2 ⟨by simp [Instruction.Unsettled, Instruction.target?], settled⟩

end Housed

namespace Generate

variable {far : Nat → Prop} {scope : Scope}

/-! ## expressions -/

mutual

/-- An expression has no functions, and its jumps stay in it, by induction on the tree. -/
theorem housed_expression (macros : scope.environment.MacrosStayInLine) : (node : Node) →
    IsExpression node → (base : Nat) →
    Housed far scope.environment [] base (layout node scope base)
  | .null _, _, _ | .number .., _, _ | .string .., _, _ => .straight rfl
  | .identifier _ name, _, base => .ofCode (target?_readCode macros name)
  | .chain _ current remaining, h, base =>
      (housed_expression macros current h.1 base).append (housed_links macros remaining h.2 _) rfl
  | .call _ _ arguments, h, base | .staticCall _ _ _ arguments, h, base =>
      (housed_expressions macros arguments h base).append (.straight rfl) rfl
  | .unary _ _ operand, h, base =>
      (housed_expression macros operand h base).append (.straight rfl) rfl
  | .binary _ op left right, h, base => by
      cases op with
      | and | or =>
          exact (housed_expression macros left h.1 base).append
            (.jumpOver (fun _ => rfl) (housed_expression macros right h.2 _)) rfl
      | _ =>
          exact ((housed_expression macros left h.1 base).append
            (housed_expression macros right h.2 _) rfl).append (.straight rfl) rfl
  | .adjust _ kind target direction, h, base =>
      (housed_current macros target h.2 base).append
        (.ofCode (target?_adjust kind target direction.number)) rfl

theorem housed_expressions (macros : scope.environment.MacrosStayInLine) : (nodes : List Node) →
    AreExpressions nodes → (base : Nat) →
    Housed far scope.environment [] base (layoutAll nodes scope base)
  | [], _, _ => .empty
  | node :: nodes, h, base =>
      (housed_expression macros node h.1 base).append (housed_expressions macros nodes h.2 _) rfl

theorem housed_link (macros : scope.environment.MacrosStayInLine) : (node : Node) →
    IsLink node → (base : Nat) →
    Housed far scope.environment [] base (layoutLink node scope base)
  | .identifier .., _, _ => .straight rfl
  | .call _ _ arguments, h, base =>
      (housed_expressions macros arguments h base).append (.straight rfl) rfl

theorem housed_links (macros : scope.environment.MacrosStayInLine) : (node : Node) →
    AreLinks node → (base : Nat) →
    Housed far scope.environment [] base (layoutLinks node scope base)
  | .chain _ current remaining, h, base =>
      (housed_link macros current h.1 base).append (housed_links macros remaining h.2 _) rfl
  | .identifier .., _, _ => .straight rfl
  | .call _ _ arguments, h, base =>
      (housed_expressions macros arguments h base).append (.straight rfl) rfl

theorem housed_receiver (macros : scope.environment.MacrosStayInLine) : (node : Node) →
    AreLinks node → (base : Nat) →
    Housed far scope.environment [] base (layoutReceiver node scope base)
  | .chain _ current remaining, h, base =>
      (housed_link macros current h.1 base).append (housed_receiver macros remaining h.2 _) rfl
  | .identifier .., _, _ | .call .., _, _ => .empty

theorem housed_current (macros : scope.environment.MacrosStayInLine) : (target : Node) →
    IsExpression target → (base : Nat) →
    Housed far scope.environment [] base (layoutCurrent target scope base)
  | .identifier _ name, _, base => .ofCode (target?_readCode macros name)
  | .chain _ current remaining, h, base =>
      ((housed_expression macros current h.1 base).append (housed_receiver macros remaining h.2 _)
        rfl).append (.ofCode (by simp [Instruction.target?])) rfl
  | .null _, _, _ | .number .., _, _ | .string .., _, _ | .call .., _, _ | .staticCall .., _, _
  | .unary .., _, _ | .binary .., _, _ | .adjust .., _, _ => .straight rfl

end

theorem housed_target (macros : scope.environment.MacrosStayInLine) : (target : Node) →
    IsExpression target → (base : Nat) →
    Housed far scope.environment [] base (layoutTarget target scope base)
  | .chain _ current remaining, h, base =>
      (housed_expression macros current h.1 base).append
        (housed_receiver macros remaining h.2 _) rfl
  | .identifier .., _, _ | .null _, _, _ | .number .., _, _ | .string .., _, _ | .call .., _, _
  | .staticCall .., _, _ | .unary .., _, _ | .binary .., _, _ | .adjust .., _, _ => .empty

/-! ## statements -/

/-- Comparisons that all have a body to jump to. -/
theorem housed_tests {n : Nat} {inner : Allowed} (macros : scope.environment.MacrosStayInLine) :
    (cases : List SwitchCase) → AreCases n inner cases → (targets : List Nat) →
    targets.length = cases.length → (∀ target ∈ targets, far target) → (base : Nat) →
    Housed far scope.environment [] base (layoutTests cases targets scope base)
  | [], _, _, _, _, _ => .empty
  | .mk value body :: cases, h, target :: targets, same, away, base => by
      have rest := housed_tests macros cases h.2.2 targets (by simpa using same)
        (fun t found => away t (List.mem_cons_of_mem _ found))
        (base + (layout value scope base).size + 1)
      exact ((housed_expression macros value h.1 base).append
        (.jump rfl (away target (by simp))) rfl).append rest (by simp [Nat.add_assoc])

/-- The body of a function, with a return behind it if it needs one, keeps what is in it from
outside. -/
theorem housed_function {n : Nat} {l : Location} {id : Nat} {name : String}
    {parameters : List String} {body : Node} (macros : scope.environment.MacrosStayInLine)
    (good : IsStatement n .nowhere body) (base : Nat)
    (inner : Housed (fun _ => False) scope.environment body.definitions (base + 1)
      (layout body { scope with parameters } (base + 1))) :
    Housed far scope.environment (Node.function l id name parameters body).definitions base
      (layout (.function l id name parameters body) scope base) := by
  let d : Definition := ⟨l, id, name, parameters, body⟩
  have nonempty := Fragment.size_closed_pos (layout body { scope with parameters } (base + 1))
    (base + 1)
  have same : ({ scope with parameters } : Scope).environment.MacrosStayInLine := macros
  have confined := (confined_statement body same good (base + 1) (Nat.le_refl _)).closed
  exact inner.closed.function (d := d) inner.closed_ends confined.settled nonempty rfl

mutual

/-- A statement has its functions housed, by induction on the tree. -/
theorem housed_statement {n : Nat} {allowed : Allowed} : (node : Node) → {far : Nat → Prop} →
    {scope : Scope} → scope.environment.MacrosStayInLine → IsStatement n allowed node →
    (base : Nat) → Housed far scope.environment node.definitions base (layout node scope base)
  | .block _ statements, _, _, macros, h, base => housed_statements statements macros h base
  | .returns _ none, _, _, _, _, _ => .ofCode (by simp [Instruction.target?])
  | .returns _ (some value), _, _, macros, h, base | .discard _ value, _, _, macros, h, base =>
      (housed_expression macros value h base).append (.straight rfl) rfl
  | .branch _ condition accepted none, _, _, macros, h, base =>
      (housed_expression macros condition h.1 base).append
        ((Housed.jumpOver (fun _ => rfl) (housed_statement accepted macros h.2.1 _)).perm
          (by simp [definitionsOfOptional])) rfl
  | .branch _ condition accepted (some otherwise), _, _, macros, h, base =>
      .branch (housed_expression macros condition h.1 base)
        (housed_statement accepted macros h.2.1 _) (housed_statement otherwise macros h.2.2 _)
  | .switch _ kind value cases fallback, far, scope, macros, h, base => by
      obtain ⟨bodies, starts⟩ := housed_bodies cases kind far macros h.2.1
        (base + (layout value scope base).size +
          (layoutTests cases [] scope (base + (layout value scope base).size)).size + 2)
      exact .switch (housed_expression macros value h.1 base)
        (housed_tests macros cases h.2.1 _ (length_bodyStarts ..) (fun _ => .inr) _) bodies
        (housed_optional fallback macros h.2.2 _) (by simp only [size_layoutTests]) starts
  | .assign _ none target value, _, _, macros, h, base =>
      ((housed_target macros target h.1 base).append (housed_expression macros value h.2 _)
        rfl).append (.straight (target?_storeCode target)) rfl
  | .assign _ (some op) target value, _, _, macros, h, base => by
      refine ((housed_current macros target h.1 base).append (housed_expression macros value h.2 _)
        rfl).append (.ofCode ?_) rfl
      exact List.forall_mem_cons.2 ⟨rfl, by simpa using target?_storeCode target⟩
  | .adjust _ kind target direction, _, _, macros, h, base =>
      (housed_current macros target h.2 base).append
        (.ofCode (target?_adjust kind target direction.number)) rfl
  | .whileLoop _ condition body, far, scope, macros, h, base => by
      have turn : Housed (fun t => far t ∨ t = base ∨ t = base) scope.environment body.definitions
          (base + (layout condition scope base).size + 1)
          (layout body scope _ ++ .one (.jump (.address base))) :=
        (housed_statement body macros h.2 _).appendPlain (.jump rfl (.inr (.inl rfl))) rfl
      exact .loop (housed_expression macros condition h.1 base) turn (Nat.le_refl _) (by omega)
        (turn.exposes_of_le (by omega))
  | .doLoop _ body condition, _, _, macros, h, base =>
      .loopBefore (housed_statement body macros h.1 base) (housed_expression macros condition h.2 _)
  | .forLoop _ init condition post body, far, scope, macros, h, base => by
      have loop : Housed far scope.environment (body.definitions ++ post.definitions)
          (base + (layout init scope base).size) _ :=
        .loopWithStep (housed_expression macros condition h.2.1 _)
          (housed_statement body macros h.2.2.2 _) (housed_statement post macros h.2.2.1 _)
      have all := (housed_statement init macros h.1 base).append loop rfl
      rw [← Fragment.append_assoc] at all
      refine all.perm ?_
      rw [Node.definitions, List.append_assoc]
      exact List.perm_append_comm.append_left _
  | .leave _, _, _, _, _, _ => .unsettled (.inl rfl)
  | .proceed _, _, _, _, _, _ => .unsettled (.inr rfl)
  | .label _ name statement, _, _, macros, h, base =>
      (Housed.plain [(name, base)] [] nofun).append (housed_statement statement macros h base) rfl
  | .jump _ name, _, _, _, _, base | .callLabel _ name, _, _, _, _, base =>
      .await rfl name base
  | .back _, _, _, _, _, _ => .straight rfl
  | .directive .., _, _, _, ⟨rfl, rfl⟩, _ => .empty
  | .function _ _ _ parameters body, _, scope, macros, h, base =>
      have same : ({ scope with parameters } : Scope).environment.MacrosStayInLine := macros
      housed_function macros h.2 base (housed_statement body same h.2 _)

theorem housed_statements {n : Nat} {allowed : Allowed} : (nodes : List Node) →
    {far : Nat → Prop} → {scope : Scope} → scope.environment.MacrosStayInLine →
    AreStatements n allowed nodes → (base : Nat) →
    Housed far scope.environment (definitionsOf nodes) base (layoutAll nodes scope base)
  | [], _, _, _, _, _ => .empty
  | node :: nodes, _, _, macros, h, base =>
      (housed_statement node macros h.1 base).append (housed_statements nodes macros h.2 _) rfl

theorem housed_optional {n : Nat} {allowed : Allowed} : (node : Option Node) →
    {far : Nat → Prop} → {scope : Scope} → scope.environment.MacrosStayInLine →
    IsOptional n allowed node → (base : Nat) →
    Housed far scope.environment (definitionsOfOptional node) base (layoutOptional node scope base)
  | none, _, _, _, _, _ => .empty
  | some node, _, _, macros, h, base => housed_statement node macros h base

/-- The bodies of the cases.  They start where no function is. -/
theorem housed_bodies {n : Nat} {allowed : Allowed} : (cases : List SwitchCase) →
    (kind : SwitchKind) → (far : Nat → Prop) → {scope : Scope} →
    scope.environment.MacrosStayInLine → AreCases n allowed cases → (base : Nat) →
    Housed far scope.environment (definitionsOfCases cases) base
        (layoutBodies cases kind scope base) ∧
      ∀ t ∈ bodyStarts cases kind scope base,
        base ≤ t ∧ t ≤ base + (layoutBodies cases kind scope base).size ∧
          (layoutBodies cases kind scope base).Exposes t
  | [], _, _, _, _, _, _ => ⟨.empty, nofun⟩
  | .mk _ body :: cases, kind, far, scope, macros, h, base => by
      have ends : Housed far scope.environment [] (base + (layout body scope base).size)
          (.ofCode (if kind = .select then [.jump .breakPoint] else [])) := by
        split
        · exact .unsettled (.inl rfl)
        · exact .empty
      have first := (housed_statement body macros h.2.1 base).appendPlain ends rfl
      obtain ⟨rest, starts⟩ := housed_bodies cases kind far macros h.2.2
        (base + (layout body scope base ++
          .ofCode (if kind = .select then [.jump .breakPoint] else [])).size)
      have all := first.append rest rfl
      refine ⟨all, ?_⟩
      rw [bodyStarts_cons]
      refine List.forall_mem_cons.2 ⟨⟨Nat.le_refl _, Nat.le_add_right .., ?_⟩, fun t found => ?_⟩
      · exact all.exposes_of_le (Nat.le_refl _)
      obtain ⟨low, high, exposed⟩ := starts t found
      refine ⟨by omega, ?_, Fragment.exposes_append.2 ⟨first.exposes_of_ge low, exposed⟩⟩
      simp only [layoutBodies, Fragment.size_append] at low high ⊢
      omega

end

end Generate

end HostScript
