import HostScript.Program.Link
import HostScript.Proofs.Confinement

/-!
# HostScript.Proofs.Linking

From generated code to a program.  A generator is `Settled` when the only targets that are missing
are those of jumps to labels; then linking finds a jump at every address that waits for a label, and
afterwards every jump has an address.  Closing the program puts a return behind every address that
a jump or a label goes to, so that the checks at the end have nothing to complain about but calls of
unknown functions.
-/

namespace HostScript

namespace Generator

/-- There is a jump at `address`. -/
def Jumps (g : Generator) (address : Nat) : Prop :=
  ∃ i, g.listing[address]? = some i ∧ i.target?.isSome

/-- A jump that waits has a target to be set. -/
theorem hasTarget_of_jumps {g : Generator} {address : Nat} (h : g.Jumps address) :
    g.code.hasTarget address = true := by
  obtain ⟨i, found, jumps⟩ := h
  have there : g.code.instructions[address]? = some i := by
    simpa [listing] using found
  simp [Code.hasTarget, there, jumps]

/-- The jump at `address` has no target yet. -/
def Open (g : Generator) (address : Nat) : Prop :=
  ∃ i, g.listing[address]? = some i ∧ i.target? = some .unresolved

/-- What waits for a label is a jump. -/
theorem Open.jumps {g : Generator} {address : Nat} (h : g.Open address) : g.Jumps address := by
  obtain ⟨i, found, target⟩ := h
  exact ⟨i, found, by rw [target]; rfl⟩

/-- Only the jumps to labels are without a target. -/
structure Settled (g : Generator) : Prop where
  lands : ∀ address (i : Instruction) (target : JumpTarget), g.listing[address]? = some i →
    i.target? = some target →
    target.Lands g.here .nowhere (∃ name, g.Waits name address)
  waits : ∀ name address, g.Waits name address → g.Open address
  below : g.LabelsBelow

end Generator

/-- `g'` is `g` with jumps pointed to labels.  Each of them is `linked` to its label. -/
structure Relinked (linked : String → Nat → Prop) (g g' : Generator) : Prop where
  labels : g'.labels = g.labels
  functions : g'.functions = g.functions
  here : g'.here = g.here
  kept : ∀ address, ¬ (∃ name, linked name address) →
    g'.listing[address]? = g.listing[address]?
  moved : ∀ address, (∃ name, linked name address) → ∃ name target, linked name address ∧
    g.labels.find? name = some target ∧
    g'.listing[address]? = g.listing[address]?.map (·.mapTarget fun _ => .address target)

namespace Relinked

variable {g g' g'' : Generator} {p q : String → Nat → Prop}

theorem refl (g : Generator) : Relinked (fun _ _ => False) g g :=
  ⟨rfl, rfl, rfl, fun _ _ => rfl, nofun⟩

/-- Jumps are linked one set after the other. -/
theorem trans (first : Relinked p g g') (second : Relinked q g' g'') :
    Relinked (fun name address => p name address ∨ q name address) g g'' where
  labels := second.labels.trans first.labels
  functions := second.functions.trans first.functions
  here := second.here.trans first.here
  kept address h := by
    rw [second.kept address fun hq => h (hq.imp fun _ => .inr),
      first.kept address fun hp => h (hp.imp fun _ => .inl)]
  moved address h := by
    by_cases hq : ∃ name, q name address
    · obtain ⟨name, target, member, found, there⟩ := second.moved address hq
      refine ⟨name, target, .inr member, first.labels ▸ found, ?_⟩
      by_cases hp : ∃ name, p name address
      -- A jump that is linked twice keeps the second target.
      · obtain ⟨_, _, -, -, before⟩ := first.moved address hp
        rw [there, before, Option.map_map]
        congr 1
        funext i
        exact Instruction.mapTarget_mapTarget _ _ i
      · rw [there, first.kept address hp]
    · have hp : ∃ name, p name address := h.imp fun name => (·.resolve_right fun hq' => hq ⟨_, hq'⟩)
      obtain ⟨name, target, member, found, there⟩ := first.moved address hp
      exact ⟨name, target, .inl member, found, (second.kept address hq).trans there⟩

/-- The set of linked jumps may be described differently. -/
theorem congr (h : Relinked p g g') (same : ∀ name address, q name address ↔ p name address) :
    Relinked q g g' := by
  have : q = p := funext fun name => funext fun address => propext (same name address)
  exact this ▸ h

/-- Linking makes no jump of anything and leaves every jump one. -/
theorem jumps (h : Relinked p g g') {address : Nat} (before : g.Jumps address) :
    g'.Jumps address := by
  obtain ⟨i, found, jumps⟩ := before
  by_cases hp : ∃ name, p name address
  · obtain ⟨_, target, -, -, there⟩ := h.moved address hp
    exact ⟨_, by rw [there, found]; rfl, by simpa using jumps⟩
  · exact ⟨i, (h.kept address hp).trans found, jumps⟩

end Relinked

/-! ## linking -/

namespace Generate

variable {g : Generator}

/-- Linking a jump gives it the address of its label, or the script is to blame. -/
theorem linkJump_relinks (name : String) {address : Nat} (l : Location) (jumps : g.Jumps address) :
    Faultless (linkJump name address l) g fun _ g' =>
      Relinked (fun n a => n = name ∧ a = address) g g' := by
  unfold linkJump
  refine .bind (.get ?_)
  cases found : g.labels.find? name with
  | none => exact .throw rfl
  | some target =>
      refine .bind (.modify ?_)
      rw [if_pos (Generator.hasTarget_of_jumps jumps)]
      have listing (other : Nat) :
          (g.code.setTarget address (.address target)).instructions.toList[other]? =
          if address = other then g.listing[other]?.map (·.mapTarget fun _ => .address target)
          else g.listing[other]? := by
        simp only [Code.setTarget, Array.toList_modify, List.getElem?_modify, Generator.listing]
        split <;> simp
      refine .modify ⟨rfl, rfl, g.code.size_setTarget address _, fun other h => ?_, ?_⟩
      · exact (listing other).trans (if_neg fun same => h ⟨name, rfl, same.symm⟩)
      · rintro other ⟨_, rfl, rfl⟩
        exact ⟨_, target, ⟨rfl, rfl⟩, found, (listing other).trans (if_pos rfl)⟩

/-- All jumps that wait for one label. -/
theorem linkJumps_relinks (name : String) (jumps : List (Nat × Location))
    (there : ∀ jump ∈ jumps, g.Jumps jump.1) :
    Faultless (linkJumps name jumps) g fun _ g' =>
      Relinked (fun n a => n = name ∧ ∃ l, (a, l) ∈ jumps) g g' := by
  induction jumps generalizing g with
  | nil => exact .pure ((Relinked.refl g).congr (by simp))
  | cons jump jumps ih =>
      obtain ⟨address, l⟩ := jump
      refine .bind ((linkJump_relinks name l (there _ List.mem_cons_self)).imp fun _ g₁ first => ?_)
      refine (ih fun jump found =>
        first.jumps (there jump (List.mem_cons_of_mem _ found))).imp fun _ g₂ second => ?_
      exact (first.trans second).congr (by simp [exists_or, and_or_left])

/-- All jumps that wait, label by label. -/
theorem linkEntries_relinks (entries : List (String × List (Nat × Location)))
    (there : ∀ entry ∈ entries, ∀ jump ∈ entry.2, g.Jumps jump.1) :
    Faultless (linkEntries entries) g fun _ g' =>
      Relinked (fun n a => ∃ jumps l, (n, jumps) ∈ entries ∧ (a, l) ∈ jumps) g g' := by
  induction entries generalizing g with
  | nil => exact .pure ((Relinked.refl g).congr (by simp))
  | cons entry entries ih =>
      obtain ⟨name, jumps⟩ := entry
      refine .bind ((linkJumps_relinks name jumps (there _ List.mem_cons_self)).imp
        fun _ g₁ first => ?_)
      refine (ih fun entry found jump in_ =>
        first.jumps (there entry (List.mem_cons_of_mem _ found) jump in_)).imp fun _ g₂ second => ?_
      exact (first.trans second).congr (by simp [or_and_right, exists_or, and_assoc])

/-- Linking finds a jump wherever one waits, and points it to its label. -/
theorem linkLabels_relinks (waits : ∀ name address, g.Waits name address → g.Jumps address) :
    Faultless linkLabels g fun _ g' => Relinked g.Waits g g' := by
  have pending (name : String) (address : Nat) : g.Waits name address ↔
      ∃ jumps l, (name, jumps) ∈ g.pending.entries ∧ (address, l) ∈ jumps := by
    simp [Generator.Waits, NameMap.mem_entries_iff]
  unfold linkLabels
  refine .bind (.get (.bind (.modify ?_)))
  refine (linkEntries_relinks _ fun entry found jump in_ => ?_).imp fun _ g' linked => ?_
  · exact waits entry.1 jump.1 ((pending entry.1 jump.1).2 ⟨entry.2, jump.2, found, in_⟩)
  · have same := linked.congr pending
    exact ⟨same.labels, same.functions, same.here, same.kept, same.moved⟩

end Generate

/-- After linking, every jump goes to an address, at most right behind the code. -/
theorem Generator.Settled.address_of_relinked {g g' : Generator} (h : g.Settled)
    (linked : Relinked g.Waits g g') {i : Instruction} {target : JumpTarget}
    (found : i ∈ g'.listing) (jumps : i.target? = some target) :
    ∃ a ≤ g'.here, target = .address a := by
  obtain ⟨address, there⟩ := List.mem_iff_getElem?.1 found
  rw [linked.here]
  by_cases waits : ∃ name, g.Waits name address
  · obtain ⟨name, label, -, known, moved⟩ := linked.moved address waits
    obtain ⟨j, -, rfl⟩ : ∃ j, g.listing[address]? = some j ∧
        j.mapTarget (fun _ => .address label) = i := by simpa [there] using moved.symm
    obtain ⟨_, -, rfl⟩ : ∃ old, j.target? = some old ∧ JumpTarget.address label = target := by
      simpa using jumps
    exact ⟨label, h.below name label known, rfl⟩
  · have lands := h.lands address i target ((linked.kept address waits).symm.trans there) jumps
    cases target with
    | address a => exact ⟨a, lands, rfl⟩
    | unresolved => exact absurd lands waits
    | breakPoint | continuePoint => cases lands

/-! ## closing -/

/-- `g'` is `g` with a return behind it if it needs one. -/
structure Closed (g g' : Generator) : Prop where
  labels : g'.labels = g.labels
  functions : g'.functions = g.functions
  listing : g'.listing = g.listing ++ if g.fallsOffEnd 0 then [.pushNull, .ret] else []

/-- A return is put behind the code if it needs one. -/
theorem Generate.closeProgram_closes (stop : Location) (g : Generator) :
    Faultless (closeProgram stop) g fun _ g' => Closed g g' := by
  unfold closeProgram
  refine .bind (.get ?_)
  split
  next falls =>
    refine .bind (.modify (.modify ⟨rfl, rfl, ?_⟩))
    rw [if_pos falls]
    simp
  next ends =>
    refine .pure ⟨rfl, rfl, ?_⟩
    rw [if_neg ends, List.append_nil]

/-- Code that needs no return has one at its end, and nothing goes right behind it. -/
theorem Generator.of_fallsOffEnd_eq_false {g : Generator} (h : g.fallsOffEnd 0 = false) :
    g.listing.getLast? = some .ret ∧
      (∀ i ∈ g.listing, i.target? ≠ some (.address g.here)) ∧
      ∀ name, g.labels.find? name ≠ some g.here := by
  simp only [fallsOffEnd, Code.fallsOffEnd, Bool.or_eq_false_iff, Bool.not_eq_false',
    List.any_eq_false, List.drop_zero] at h
  obtain ⟨⟨⟨-, returns⟩, targets⟩, labels⟩ := h
  refine ⟨?_, fun i found same => ?_, fun name found => ?_⟩
  · obtain ⟨i, last, isReturn⟩ := (Option.any_eq_true ..).1 returns
    rw [listing, Array.getLast?_toList, last, Instruction.isReturn_iff.1 isReturn]
  · exact targets i found (by simp [same, here])
  · exact labels g.here (NameMap.mem_values_iff.2 ⟨name, found⟩) (by simp)

namespace Closed

variable {g g' : Generator}

/-- Behind that the code ends with a return. -/
theorem getLast?_eq (h : Closed g g') : g'.listing.getLast? = some .ret := by
  rw [h.listing]
  split
  next => simp
  next ends =>
    rw [List.append_nil]
    exact (Generator.of_fallsOffEnd_eq_false (by simpa using ends)).1

/-- The code only gets longer. -/
theorem here_le (h : Closed g g') : g.here ≤ g'.here := by
  rw [← g.length_listing, ← g'.length_listing, h.listing, List.length_append]
  exact Nat.le_add_right _ _

/-- What goes at most right behind the code goes into the closed code. -/
theorem lt_here (h : Closed g g') {a : Nat} (le : a ≤ g.here)
    (goesThere : (∃ i ∈ g.listing, i.target? = some (.address a)) ∨
      ∃ name, g.labels.find? name = some a) : a < g'.here := by
  rw [← g'.length_listing, h.listing, List.length_append, g.length_listing]
  split
  next =>
    simp only [List.length_cons, List.length_nil]
    omega
  next ends =>
    obtain ⟨-, targets, labels⟩ := Generator.of_fallsOffEnd_eq_false (by simpa using ends)
    have other : a ≠ g.here := by
      rintro rfl
      rcases goesThere with ⟨i, found, jumps⟩ | ⟨name, found⟩
      · exact targets i found jumps
      · exact labels name found
    simp only [List.length_nil]
    omega

end Closed

/-! ## checking -/

/-- Without a fault every instruction passes the check. -/
theorem Generator.firstFault_eq_none {check : Nat → Instruction → Option Cause} {start : Nat}
    {code : List Instruction} (h : firstFault check start code = none) :
    ∀ k i, code[k]? = some i → check (start + k) i = none := by
  induction code generalizing start with
  | nil => nofun
  | cons first code ih =>
      intro k i found
      unfold firstFault at h
      split at h
      next => cases h
      next passed =>
        cases k with
        | zero =>
            obtain rfl : first = i := by simpa using found
            exact passed
        | succ k =>
            have rest := ih h k i (by simpa using found)
            rwa [Nat.add_right_comm] at rest

/-- The first fault is that of some instruction. -/
theorem Generator.firstFault_eq_some {check : Nat → Instruction → Option Cause}
    {start address : Nat} {cause : Cause} {code : List Instruction}
    (h : firstFault check start code = some (address, cause)) :
    ∃ k i, code[k]? = some i ∧ check (start + k) i = some cause := by
  induction code generalizing start with
  | nil => cases h
  | cons first code ih =>
      unfold firstFault at h
      split at h
      next failed =>
        cases h
        exact ⟨0, first, rfl, failed⟩
      next =>
        obtain ⟨k, i, found, failed⟩ := ih h
        exact ⟨k + 1, i, by simpa using found, by rwa [Nat.add_right_comm] at failed⟩

/-- A check blames the script at most if all faults that it finds do, and it passes if there are
none. -/
theorem Generate.check_faultless {g : Generator} (stop : Location)
    {fault? : Generator → Nat → Instruction → Option Cause}
    (h : ∀ address i cause, g.listing[address]? = some i → fault? g address i = some cause →
      cause.isFault = false) :
    Faultless (check stop fault?) g fun _ g' =>
      g' = g ∧ ∀ address i, g.listing[address]? = some i → fault? g address i = none := by
  unfold check
  refine .bind (.get ?_)
  cases first : Generator.firstFault (fault? g) 0 g.code.instructions.toList with
  | none =>
      refine .pure ⟨rfl, fun address i found => ?_⟩
      have passed := Generator.firstFault_eq_none first address i found
      rwa [Nat.zero_add] at passed
  | some fault =>
      obtain ⟨address, cause⟩ := fault
      obtain ⟨k, i, found, failed⟩ := Generator.firstFault_eq_some first
      exact .throw (h k i cause found (by rwa [Nat.zero_add] at failed))

/-- A call of an unknown function is the script's own fault. -/
theorem isFault_of_callFault? {g : Generator} {env : Environment} {i : Instruction} {cause : Cause}
    (h : g.callFault? env i = some cause) : cause.isFault = false := by
  cases i with
  | call name argc =>
      simp only [Generator.callFault?] at h
      split at h
      next => cases h
      next =>
        cases h
        rfl
  | _ => cases h

/-! ## finishing -/

/-- The program that a generator makes: its jumps to labels are linked, it is closed, and everything
in it goes to one of its addresses. -/
structure Finished (g : Generator) (program : Program) : Prop where
  instructions : ∃ g₁ g₂, Relinked g.Waits g g₁ ∧ Closed g₁ g₂ ∧
    program.instructions = g₂.listing
  labels : program.labels = g.labels
  functions : program.functions = g.functions.grouped
  targets : ∀ (i : Instruction) target, i ∈ program.instructions → i.target? = some target →
    ∃ a < program.instructions.length, target = .address a

section closed

variable {g g₁ g₂ : Generator} {i : Instruction}

/-- In the closed code every jump goes to an instruction. -/
theorem Generator.Settled.address_of_closed (settled : g.Settled)
    (linked : Relinked g.Waits g g₁) (closed : Closed g₁ g₂) {target : JumpTarget}
    (found : i ∈ g₂.listing) (jumps : i.target? = some target) :
    ∃ a < g₂.here, target = .address a := by
  rw [closed.listing] at found
  rcases List.mem_append.1 found with old | new
  · obtain ⟨a, le, rfl⟩ := settled.address_of_relinked linked old jumps
    exact ⟨a, closed.lt_here le (.inl ⟨i, old, jumps⟩), rfl⟩
  · split at new
    next =>
      obtain rfl | rfl : i = .pushNull ∨ i = .ret := by simpa using new
      all_goals cases jumps
    next => cases new

/-- Settled code has all its targets once its jumps are linked. -/
theorem Generator.Settled.targetFault?_eq_none (settled : g.Settled)
    (linked : Relinked g.Waits g g₁) (closed : Closed g₁ g₂) (found : i ∈ g₂.listing)
    {address : Nat} : g₂.targetFault? address i = none := by
  cases jumps : i.target? with
  | none => simp [Generator.targetFault?, jumps]
  | some target =>
      obtain ⟨a, inside, rfl⟩ := settled.address_of_closed linked closed found jumps
      simp [Generator.targetFault?, jumps, inside]

end closed

/-- Finishing settled code gives a finished program, or the script is to blame. -/
theorem Generate.finish_faultless {g : Generator} (settled : g.Settled) (env : Environment)
    (stop : Location) : Faultless (finish env stop) g fun program _ => Finished g program := by
  unfold finish
  have jumps (name : String) (address : Nat) (waits : g.Waits name address) : g.Jumps address :=
    (settled.waits name address waits).jumps
  refine .bind ((linkLabels_relinks jumps).imp fun _ g₁ linked => ?_)
  refine .bind ((closeProgram_closes stop g₁).imp fun _ g₂ closed => ?_)
  refine .bind ((check_faultless stop fun address i cause found failed => ?_).imp
    fun _ _ ⟨same, _⟩ => ?_)
  · rw [settled.targetFault?_eq_none linked closed (List.mem_of_getElem? found)] at failed
    cases failed
  subst same
  refine .bind ((check_faultless stop fun address i cause found failed => ?_).imp
    fun _ _ ⟨same, _⟩ => ?_)
  · exact isFault_of_callFault? failed
  subst same
  refine .bind (.get (.bind (.modify (.pure ?_))))
  exact {
    instructions := ⟨g₁, _, linked, closed, rfl⟩
    labels := closed.labels.trans linked.labels
    functions := congrArg FunctionTable.grouped (closed.functions.trans linked.functions)
    targets := fun i target found jumps => by
      obtain ⟨a, inside, same⟩ := settled.address_of_closed linked closed found jumps
      exact ⟨a, by rwa [← Generator.length_listing] at inside, same⟩ }

end HostScript
