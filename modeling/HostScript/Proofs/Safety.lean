import HostScript.Proofs.Depth
import HostScript.Proofs.Resolution

/-!
# HostScript.Proofs.Safety

Compiled programs are safe to run.  Every address has a depth of the stack that all ways to it agree
on, and everything in a program stays inside of it; a run can therefore neither take a value that is
not there nor leave the code.
-/

namespace HostScript

/-! ## where a program can be entered -/

/-- A run starts at the beginning, at a function or at a label. -/
def Program.IsEntry (program : Program) (address : Nat) : Prop :=
  address = 0 ∨
    (∃ name functions f, program.functions.find? name = some functions ∧ f ∈ functions ∧
      f.start = address) ∨
    ∃ name, program.labels.find? name = some address

theorem FunctionTable.mem_of_addToGroup {m : NameMap (List ScriptFunction)}
    {seen : List ScriptFunction}
    (h : ∀ name group, m.find? name = some group → ∀ f ∈ group, f ∈ seen) (f : ScriptFunction) :
    ∀ name group, (addToGroup m f).find? name = some group → ∀ f' ∈ group, f' ∈ seen ++ [f] := by
  intro name group found f' member
  rw [addToGroup, NameMap.find?_insert] at found
  split at found
  next =>
    obtain rfl : (m.find? f.name).getD [] ++ [f] = group := by simpa using found
    rcases List.mem_append.1 member with old | new
    · cases known : m.find? f.name with
      | none => simp [known] at old
      | some group => exact List.mem_append_left _ (h _ group known f' (by simpa [known] using old))
    · exact List.mem_append_right _ new
  next => exact List.mem_append_left _ (h name group found f' member)

/-- Grouping by name adds no function. -/
theorem FunctionTable.mem_of_grouped {t : FunctionTable} {name : String}
    {group : List ScriptFunction} (found : t.grouped.find? name = some group) {f : ScriptFunction}
    (member : f ∈ group) : f ∈ t.functions := by
  have fold (functions seen : List ScriptFunction) (m : NameMap (List ScriptFunction))
      (h : ∀ name group, m.find? name = some group → ∀ f ∈ group, f ∈ seen) :
      ∀ name group, (functions.foldl addToGroup m).find? name = some group →
        ∀ f ∈ group, f ∈ seen ++ functions := by
    induction functions generalizing seen m with
    | nil => simpa using h
    | cons f functions ih =>
        rw [List.foldl_cons, List.append_cons]
        exact ih _ _ (mem_of_addToGroup h f)
  obtain ⟨entry, there, same⟩ := List.mem_map.1 (NameMap.mem_entries_iff.2 found)
  cases same
  have all := fold t.functions.toList [] .empty nofun _ _ (NameMap.mem_entries_iff.1 there) f
    ((List.mergeSort_perm ..).mem_iff.1 member)
  simpa using all

theorem FunctionTable.mem_place {t : FunctionTable} {id start stop : Nat} {f : ScriptFunction}
    (h : f ∈ (t.place id start stop).functions) : f.start = start ∨ f ∈ t.functions := by
  obtain ⟨k, found⟩ := Array.mem_iff_getElem?.1 h
  simp only [place, Array.getElem?_modify] at found
  split at found
  next =>
    obtain ⟨old, -, rfl⟩ := Option.map_eq_some_iff.1 found
    exact .inl rfl
  next => exact .inr (Array.mem_of_getElem? found)

theorem FunctionTable.mem_placeAt {t : FunctionTable} (placements : List Placement)
    {f : ScriptFunction} (h : f ∈ (placements.foldl placeAt t).functions) :
    (∃ p ∈ placements, f.start = p.start) ∨ f ∈ t.functions := by
  induction placements generalizing t with
  | nil => exact .inr h
  | cons p placements ih =>
      rcases ih h with ⟨p', found, starts⟩ | old
      · exact .inl ⟨p', List.mem_cons_of_mem _ found, starts⟩
      · exact (mem_place old).imp_left fun starts => ⟨p, List.mem_cons_self, starts⟩

/-! ## programs as a whole -/

/-- The depths `D` hold throughout a program, and a run starts with nothing on the stack. -/
structure Program.Levelled (program : Program) (D : Nat → Nat) : Prop where
  entries : ∀ address, program.IsEntry address → D address = 0
  balanced : ∀ address i, program.instructions[address]? = some i → Balanced D address i

/-- Nothing in a program goes past its end. -/
structure Program.Enclosed (program : Program) : Prop where
  returns : program.instructions.getLast? = some .ret
  entries : ∀ address, program.IsEntry address → address < program.instructions.length
  targets : ∀ (i : Instruction) target, i ∈ program.instructions → i.target? = some target →
    ∃ a < program.instructions.length, target = .address a
  next : ∀ address i, program.instructions[address]? = some i → i ≠ .ret →
    address + 1 < program.instructions.length

/-! ## finding the depths -/

section depths

variable {scope : Scope} {root : Node} {g₀ g : Generator} {program : Program} {D : Nat → Nat}

/-- Where a run starts nothing is on the stack, and there is code. -/
theorem entry_of_finished (blank : g₀.Blank)
    (extends_ : Extends g₀ (Generate.layout root scope 0) g)
    (finished : Finished g program) (fits : Fits D 0 (Generate.layout root scope 0))
    (start : D 0 = 0) {address : Nat} (entry : program.IsEntry address) :
    D address = 0 ∧ address < program.instructions.length := by
  obtain ⟨g₁, g₂, linked, closed, instructions⟩ := finished.instructions
  have nonempty : 0 < g₂.listing.length := by
    cases shape : g₂.listing with
    | nil => simpa [shape] using closed.getLast?_eq
    | cons => simp
  rw [instructions]
  rcases entry with rfl | ⟨name, group, f, found, member, rfl⟩ | ⟨name, found⟩
  · exact ⟨start, nonempty⟩
  · rw [finished.functions] at found
    have known := FunctionTable.mem_of_grouped found member
    rw [extends_.functions] at known
    rcases FunctionTable.mem_placeAt _ known with ⟨p, placed, same⟩ | old
    · obtain ⟨zero, below⟩ := fits.starts p placed
      have inside := Nat.le_trans (Nat.le_of_eq linked.here.symm) closed.here_le
      rw [extends_.here, blank.here_eq, ← g₂.length_listing] at inside
      exact ⟨by rw [same, zero], by omega⟩
    · rw [blank.unplaced f old]
      exact ⟨start, nonempty⟩
  · rw [finished.labels] at found
    have below := extends_.below blank.labelsBelow name address found
    rw [← linked.here] at below
    rw [g₂.length_listing]
    exact ⟨fits.labels _ ((blank.labels_iff extends_).1 found),
      closed.lt_here below (.inr ⟨name, by rw [linked.labels, found]⟩)⟩

/-- Linking points jumps to labels, where nothing is on the stack, and leaves the rest alone. -/
theorem balanced_of_relinked {g₁ : Generator} (blank : g₀.Blank)
    (extends_ : Extends g₀ (Generate.layout root scope 0) g) (settled : g.Settled)
    (linked : Relinked g.Waits g g₁)
    (fits : Fits D 0 (Generate.layout root scope 0)) {address : Nat} {i : Instruction}
    (found : g₁.listing[address]? = some i) : Balanced D address i := by
  have generated {j : Instruction} (there : g.listing[address]? = some j) :
      Balanced D address j := by
    rw [blank.listing_eq extends_] at there
    have balanced := fits.each address j there
    rwa [Nat.zero_add] at balanced
  by_cases waits : ∃ name, g.Waits name address
  · obtain ⟨name, label, -, known, moved⟩ := linked.moved address waits
    obtain ⟨j, there, rfl⟩ : ∃ j, g.listing[address]? = some j ∧
        j.mapTarget (fun _ => .address label) = i := by simpa [found] using moved.symm
    refine (generated there).mapTarget fun target jumps => ?_
    obtain ⟨other, waits⟩ := waits
    obtain ⟨j', there', open_⟩ := settled.waits other address waits
    obtain rfl : j' = j := by simpa [there] using there'.symm
    obtain rfl : JumpTarget.unresolved = target := by simpa [open_] using jumps
    exact fits.labels _ ((blank.labels_iff extends_).1 known)
  · exact generated ((linked.kept address waits).symm.trans found)

/-- The code of a whole script has depths, and so has the return that may stand behind it. -/
theorem levelled_of_finished (macros : scope.environment.MacrosPushOne)
    (generated : Generated scope g) (finished : Finished g program) :
    ∃ D, program.Levelled D ∧
      ∀ address, program.IsEntry address → address < program.instructions.length := by
  have settled := generated.settled macros.stayInLine
  obtain ⟨root, g₀, blank, good, extends_⟩ := generated
  obtain ⟨ds, length, level⟩ := Generate.level_statement root macros good 0
  let D (address : Nat) : Nat := (ds ++ [0, 1])[address]?.getD 0
  have marks : Marks D 0 (ds ++ [0, 1]) := by
    intro k d found
    show (ds ++ [0, 1])[0 + k]?.getD 0 = d
    rw [Nat.zero_add, found]
    rfl
  obtain ⟨within, behind⟩ := marks_append.1 marks
  rw [length] at behind
  obtain ⟨start, -, fits⟩ := level D within (behind 0 0 rfl)
  have fits := fits trivial
  have entries (address : Nat) (entry : program.IsEntry address) :=
    entry_of_finished blank extends_ finished fits start entry
  refine ⟨D, ⟨fun address entry => (entries address entry).1, fun address i found => ?_⟩,
    fun address entry => (entries address entry).2⟩
  obtain ⟨g₁, g₂, linked, closed, instructions⟩ := finished.instructions
  have size : g₁.listing.length = (Generate.layout root scope 0).size := by
    rw [g₁.length_listing, linked.here, extends_.here, blank.here_eq, Nat.zero_add]
  rw [← size] at behind
  have empty : D (0 + g₁.listing.length) = 0 := behind 0 0 rfl
  have result : D (0 + g₁.listing.length + 1) = 1 := behind 1 1 rfl
  have null : Balanced D (0 + g₁.listing.length) .pushNull :=
    ⟨Nat.zero_le _, fun _ => by rw [empty, result]; rfl, nofun, trivial⟩
  have ret : Balanced D (0 + g₁.listing.length + 1) .ret :=
    ⟨Nat.le_of_eq result.symm, nofun, nofun, result⟩
  have all : (Fragment.ofCode g₁.listing ++ .ofCode
      (if g₁.fallsOffEnd 0 then [.pushNull, .ret] else [])).Each (Balanced D) 0 := by
    refine Fragment.each_append.2 ⟨fun k j there => ?_, ?_⟩
    · rw [Nat.zero_add]
      exact balanced_of_relinked blank extends_ settled linked fits there
    · split
      · exact Fragment.each_ofCode_cons.2 ⟨null, Fragment.each_one.2 ret⟩
      · exact Fragment.each_empty
  have balanced := all address i (by rw [← found, instructions, closed.listing]; rfl)
  rwa [Nat.zero_add] at balanced

end depths

theorem Finished.enclosed {g : Generator} {program : Program} (finished : Finished g program)
    (entries : ∀ address, program.IsEntry address → address < program.instructions.length) :
    program.Enclosed := by
  have returns : program.instructions.getLast? = some .ret := by
    obtain ⟨g₁, g₂, -, closed, instructions⟩ := finished.instructions
    rw [instructions]
    exact closed.getLast?_eq
  refine ⟨returns, entries, finished.targets, fun address i found other => ?_⟩
  obtain ⟨inside, -⟩ := List.getElem?_eq_some_iff.1 found
  by_cases last : address = program.instructions.length - 1
  · rw [List.getLast?_eq_getElem?, ← last, found] at returns
    exact absurd (by simpa using returns) other
  · omega

/-! ## runs -/

namespace Machine

variable {H : Host} {program : Program} {D : Nat → Nat}

/-- There is an instruction to run, it finds the values that it takes, and nothing but its result is
left when a run has returned. -/
def State.Safe (program : Program) (D : Nat → Nat) : State H → Prop
  | .running address stack _ _ => stack.length = D address ∧
    ∃ i, program.instructions[address]? = some i ∧ i.inputs ≤ stack.length
  | .returned _ stack _ => stack = []

/-- The machine is inside of the program, the stack is as deep as it should be there, and so it will
be when the machine goes back. -/
def State.Sound (program : Program) (D : Nat → Nat) : State H → Prop
  | .running address stack remembered _ => address < program.instructions.length ∧
    stack.length = D address ∧
    ∀ back ∈ remembered, back < program.instructions.length ∧ D back = 0
  | .returned _ stack _ => stack = []

theorem perform_returned {i : Instruction} {address : Nat} {stack stack' : List H.Value}
    {remembered : List Nat} {s s' : H.Store} {v : H.Value}
    (h : perform i address stack remembered s = some (.returned v stack' s')) :
    i = .ret ∧ stack = v :: stack' := by
  unfold perform at h
  split at h
  next => split at h <;> cases h
  next => split at h <;> cases h
  next => cases h
  next => cases h
  next => cases h
  next => cases h
  next => cases h
  next => split at h <;> cases h
  next =>
    cases h
    exact ⟨rfl, rfl⟩
  next =>
    obtain ⟨_, _, same⟩ := Option.map_eq_some_iff.1 h
    cases same

/-- One instruction keeps a sound machine sound. -/
theorem step_sound (levelled : program.Levelled D) (enclosed : program.Enclosed) (a b : State H)
    (sound : a.Sound program D) (taken : step program.instructions a = some b) :
    b.Sound program D := by
  cases a with
  | returned => cases taken
  | running address stack remembered s =>
      obtain ⟨inside, depth, backs⟩ := sound
      obtain ⟨i, found, performs⟩ := Option.bind_eq_some_iff.1 taken
      have balanced := levelled.balanced address i found
      cases b with
      | returned v stack' s' =>
          obtain ⟨rfl, rfl⟩ := perform_returned performs
          have one : D address = 1 := balanced.leaves
          rw [one, List.length_cons] at depth
          exact List.length_eq_zero_iff.1 (by omega)
      | running address' stack' remembered' s' =>
          obtain ⟨-, ⟨on, rfl, rfl, size⟩ | ⟨jumps, size, remembers⟩ | ⟨rfl, rfl, rfl⟩⟩ :=
            perform_cases performs
          · have other : i ≠ .ret := by
              rintro rfl
              cases on
            exact ⟨enclosed.next address i found other, by rw [size, depth, balanced.next on],
              backs⟩
          · obtain ⟨_, there, same⟩ := enclosed.targets i _ (List.mem_of_getElem? found) jumps
            cases same
            refine ⟨there, by rw [size, depth]; exact (balanced.jump _ jumps).symm, ?_⟩
            rcases remembers with rfl | ⟨⟨target, rfl⟩, rfl⟩
            · exact backs
            · exact List.forall_mem_cons.2
                ⟨⟨enclosed.next address _ found nofun, balanced.leaves.2⟩, backs⟩
          · obtain ⟨⟨there, zero⟩, backs⟩ := List.forall_mem_cons.1 backs
            have here : D address = 0 := balanced.leaves
            exact ⟨there, by rw [depth, here, zero], backs⟩

theorem State.Sound.safe (levelled : program.Levelled D) {state : State H}
    (sound : state.Sound program D) : state.Safe program D := by
  cases state with
  | returned => exact sound
  | running address stack remembered s =>
      obtain ⟨inside, depth, -⟩ := sound
      have found := List.getElem?_eq_getElem inside
      exact ⟨depth, _, found, depth ▸ (levelled.balanced address _ found).enough⟩

end Machine

/-- A compiled program has a depth of the stack for every address, on which all ways to it agree;
nothing in it goes past its end; and so every run, whatever the host makes of its values, finds an
instruction and the values for it wherever it comes. -/
theorem compile_is_safe {env : Environment} {options : Options} {text : String} {program : Program}
    (plain : env.hostDirectives = []) (macros : env.MacrosPushOne)
    (compiled : compile env options text = .ok program) :
    ∃ D, program.Levelled D ∧ program.Enclosed ∧
      ∀ (H : Host) (entry : Nat) (store : H.Store) (state : Machine.State H),
        program.IsEntry entry →
        Machine.Reaches program.instructions (.running entry [] [] store) state →
        state.Safe program D := by
  obtain ⟨g, generated, finished⟩ := compile_eq_ok plain macros.stayInLine compiled
  obtain ⟨D, levelled, entries⟩ := levelled_of_finished macros generated finished
  have enclosed := finished.enclosed entries
  refine ⟨D, levelled, enclosed, fun H entry store state starts run => ?_⟩
  have sound := Machine.reaches_invariant (Machine.step_sound levelled enclosed) run
    ⟨entries entry starts, (levelled.entries entry starts).symm, nofun⟩
  exact sound.safe levelled

/-- A script with a function, a label and a loop. -/
def againScript : String :=
  "function f(n) \x7b return n && now; \x7d label again: while f(x) call again;"

theorem compile_is_safe_again :
    (compile clockHost {} againScript).isOk = true ∧
    ∀ program, compile clockHost {} againScript = .ok program →
      ∃ D, program.Levelled D ∧ program.Enclosed ∧
        ∀ (H : Host) (entry : Nat) (store : H.Store) (state : Machine.State H),
          program.IsEntry entry →
          Machine.Reaches program.instructions (.running entry [] [] store) state →
          state.Safe program D :=
  ⟨by decide +kernel, fun _ compiled => compile_is_safe rfl (by decide) compiled⟩

end HostScript
