import HostScript.Code.Basic

/-!
# HostScript.Proofs.Patches

What becomes of code while it is built.  Instructions are added at its end and targets of jumps are
changed, one at a time or those of a whole range, and this is all: whatever the calls, all else
about an instruction stays as it was added, and so does its place.

Loops and switches each patch the range of their bodies when they are complete, so inner ranges come
before the ranges around them.  A range only takes the breaks and continues that no range before it
has taken; in this order a placeholder therefore goes to the innermost range around it that has an
address for it.
-/

namespace HostScript

namespace Instruction

/-- The instruction but for its target. -/
def shape (i : Instruction) : Instruction := i.mapTarget fun _ => .unresolved

@[simp] theorem shape_mapTarget (i : Instruction) (f : JumpTarget → JumpTarget) :
    (i.mapTarget f).shape = i.shape :=
  mapTarget_mapTarget f _ i

theorem mapTarget_id (i : Instruction) : (i.mapTarget fun target => target) = i := by
  cases i <;> rfl

end Instruction

namespace Code

/-! ## calls -/

/-- The range of a loop or switch, with the addresses of its break and continue points. -/
structure Patch where
  start : Nat
  stop : Nat
  breakTo : Option Nat
  continueTo : Option Nat
deriving DecidableEq, Repr

def patch (c : Code) (p : Patch) : Code := c.patchLoop p.start p.stop p.breakTo p.continueTo

/-- A call that changes code. -/
inductive Change where
  | push (i : Instruction) (l : CodeLocation)
  | setTarget (address : Nat) (target : JumpTarget)
  | patch (p : Patch)
deriving DecidableEq, Repr

namespace Change

/-- The instruction that is added. -/
def instruction? : Change → Option Instruction
  | push i _ => some i
  | _ => none

/-- The place of the instruction that is added. -/
def location? : Change → Option CodeLocation
  | push _ l => some l
  | _ => none

/-- As many places as instructions are added. -/
theorem length_instruction? (changes : List Change) :
    (changes.filterMap (·.instruction?)).length =
      (changes.filterMap (·.location?)).length := by
  induction changes with
  | nil => rfl
  | cons x changes ih =>
      cases x with
      | push i l => simpa [instruction?, location?] using ih
      | setTarget | patch => exact ih

end Change

def change (c : Code) : Change → Code
  | .push i l => c.push i l
  | .setTarget address target => c.setTarget address target
  | .patch p => c.patch p

/-- The addresses that are returned for the instructions that are added. -/
def addresses (c : Code) : List Change → List Nat
  | [] => []
  | .push i l :: changes => c.size :: (c.push i l).addresses changes
  | .setTarget address target :: changes => (c.setTarget address target).addresses changes
  | .patch p :: changes => (c.patch p).addresses changes

/-- From `c` to `c'` instructions were added, and nothing but targets has changed. -/
structure Retargeted (c : Code) (changes : List Change) (c' : Code) : Prop where
  instructions : c'.instructions.toList.map (·.shape) =
    (c.instructions.toList ++ changes.filterMap (·.instruction?)).map (·.shape)
  locations : c'.locations.toList = c.locations.toList ++ changes.filterMap (·.location?)

namespace Retargeted

variable {c c' c'' : Code} {xs ys : List Change}

theorem refl (c : Code) : c.Retargeted [] c := ⟨by simp, by simp⟩

theorem trans (first : c.Retargeted xs c') (second : c'.Retargeted ys c'') :
    c.Retargeted (xs ++ ys) c'' where
  instructions := by
    rw [second.instructions, List.map_append, first.instructions, List.filterMap_append,
      ← List.map_append, List.append_assoc]
  locations := by
    rw [second.locations, first.locations, List.filterMap_append, List.append_assoc]

theorem sizes (h : c.Retargeted xs c') (same : c.instructions.size = c.locations.size) :
    c'.instructions.size = c'.locations.size := by
  have added := Change.length_instruction? xs
  have instructions := congrArg List.length h.instructions
  have locations := congrArg List.length h.locations
  simp only [List.length_map, List.length_append, Array.length_toList] at instructions locations
  omega

end Retargeted

/-- Every single call is of this kind. -/
theorem retargeted_change (c : Code) (x : Change) : c.Retargeted [x] (c.change x) := by
  cases x with
  | push i l => constructor <;> simp [change, push, Change.instruction?, Change.location?]
  | setTarget address target =>
      refine ⟨List.ext_getElem? fun k => ?_, by simp [change, setTarget, Change.location?]⟩
      simp only [change, setTarget, Array.toList_modify, List.getElem?_map, List.getElem?_modify,
        Change.instruction?, List.filterMap_cons_none, List.filterMap_nil, List.append_nil]
      cases c.instructions.toList[k]? with
      | none => rfl
      | some i => by_cases here : address = k <;> simp [here]
  | patch p =>
      refine ⟨List.ext_getElem? fun k => ?_, by simp [change, patch, patchLoop, Change.location?]⟩
      simp only [change, patch, patchLoop, Array.toList_mapIdx, List.getElem?_map,
        List.getElem?_mapIdx, Change.instruction?, List.filterMap_cons_none, List.filterMap_nil,
        List.append_nil]
      cases c.instructions.toList[k]? with
      | none => rfl
      | some i => by_cases inside : p.start ≤ k ∧ k < p.stop <;> simp [inside]

theorem retargeted_foldl (c : Code) (changes : List Change) :
    c.Retargeted changes (changes.foldl change c) := by
  induction changes generalizing c with
  | nil => exact .refl c
  | cons x changes ih => exact (c.retargeted_change x).trans (ih (c.change x))

/-- The addresses count the instructions. -/
theorem addresses_eq_range' (c : Code) (changes : List Change) :
    c.addresses changes = List.range' c.size (changes.filterMap (·.instruction?)).length := by
  induction changes generalizing c with
  | nil => rfl
  | cons x changes ih =>
      cases x with
      | push i l => simp [addresses, ih, Change.instruction?, List.range'_succ]
      | setTarget address target => simp [addresses, ih, Change.instruction?]
      | patch p => simp [addresses, ih, Change.instruction?, patch]

theorem hasTarget_iff (c : Code) (address : Nat) : c.hasTarget address = true ↔
    ∃ i target, c.instructions[address]? = some i ∧ i.target? = some target := by
  unfold hasTarget
  cases c.instructions[address]? with
  | none => simp
  | some i => simp [Option.isSome_iff_exists]

theorem getElem?_setTarget (c : Code) (address : Nat) (target : JumpTarget) (k : Nat) :
    (c.setTarget address target).instructions[k]? =
      if k = address then c.instructions[k]?.map (·.mapTarget fun _ => target)
      else c.instructions[k]? := by
  by_cases here : address = k <;> simp [setTarget, Array.getElem?_modify, here, eq_comm]

/-! ## nested ranges -/

namespace Patch

/-- The address lies in the range. -/
def Covers (p : Patch) (address : Nat) : Prop := p.start ≤ address ∧ address < p.stop

instance (p : Patch) (address : Nat) : Decidable (p.Covers address) :=
  inferInstanceAs (Decidable (_ ∧ _))

/-- The range lies in another one, or is the same. -/
def Within (p q : Patch) : Prop := q.start ≤ p.start ∧ p.stop ≤ q.stop

instance (p q : Patch) : Decidable (p.Within q) := inferInstanceAs (Decidable (_ ∧ _))

/-- What the patch makes of a target at some address. -/
def retargetAt (p : Patch) (address : Nat) (target : JumpTarget) : JumpTarget :=
  if p.Covers address then retarget p.breakTo p.continueTo target else target

end Patch

/-- Ranges that lie inside each other or have nothing in common, the inner ones before the outer
ones. -/
def InsideOut (ps : List Patch) : Prop :=
  ps.Pairwise fun p q => p.Within q ∨ ∀ address, p.Covers address → ¬ q.Covers address

/-- The ranges around an address that have a goal. -/
def around (goal : Patch → Option Nat) (address : Nat) (ps : List Patch) : List Patch :=
  ps.filter fun p => decide (p.Covers address) && (goal p).isSome

/-- The range around an address with a goal that lies within all others; of several that are the
same it is the first. -/
def innermost? (goal : Patch → Option Nat) (address : Nat) (ps : List Patch) : Option Patch :=
  (around goal address ps).find? fun p => (around goal address ps).all fun q => p.Within q

/-- A placeholder at some address goes to the innermost range around it that has a goal for it, and
stays if there is none; all other targets stay. -/
def resolve (ps : List Patch) (address : Nat) : JumpTarget → JumpTarget
  | .breakPoint =>
    ((innermost? (·.breakTo) address ps).bind (·.breakTo)).elim .breakPoint .address
  | .continuePoint =>
    ((innermost? (·.continueTo) address ps).bind (·.continueTo)).elim .continuePoint .address
  | target => target

section ranges

variable {goal : Patch → Option Nat} {ps : List Patch} {address : Nat}

theorem covers_of_mem_around {p : Patch} (found : p ∈ around goal address ps) :
    p.Covers address := by
  have holds := (List.mem_filter.1 found).2
  rw [Bool.and_eq_true, decide_eq_true_eq] at holds
  exact holds.1

/-- Of ranges that are patched from the inside out, the first one around an address is the
innermost. -/
theorem innermost?_eq_head? (nested : InsideOut ps) (goal : Patch → Option Nat) (address : Nat) :
    innermost? goal address ps = (around goal address ps).head? := by
  have within : (around goal address ps).Pairwise Patch.Within := by
    refine (nested.filter _).imp_of_mem fun {p q} hp hq apart => ?_
    exact apart.resolve_right fun disjoint =>
      disjoint address (covers_of_mem_around hp) (covers_of_mem_around hq)
  unfold innermost?
  cases shape : around goal address ps with
  | nil => rfl
  | cons p rest =>
      rw [shape] at within
      have first := (List.pairwise_cons.1 within).1
      have self : p.Within p := ⟨Nat.le_refl _, Nat.le_refl _⟩
      have all : ((p :: rest).all fun q => decide (p.Within q)) = true := by
        simpa [self] using first
      exact List.find?_cons_of_pos all

/-- A target that no patch takes stays. -/
theorem foldl_retargetAt_settled {target : JumpTarget}
    (stays : ∀ p : Patch, retarget p.breakTo p.continueTo target = target) (ps : List Patch)
    (address : Nat) : ps.foldl (fun t p => p.retargetAt address t) target = target := by
  induction ps with
  | nil => rfl
  | cons p ps ih =>
      have same : p.retargetAt address target = target := by
        unfold Patch.retargetAt
        split
        · exact stays p
        · rfl
      rw [List.foldl_cons, same, ih]

/-- A placeholder for a goal is taken by the first range around it that has this goal. -/
theorem foldl_retargetAt_placeholder {placeholder : JumpTarget}
    (takes : ∀ p : Patch, retarget p.breakTo p.continueTo placeholder =
      (goal p).elim placeholder .address) (ps : List Patch) (address : Nat) :
    ps.foldl (fun t p => p.retargetAt address t) placeholder =
      ((around goal address ps).head?.bind goal).elim placeholder .address := by
  induction ps with
  | nil => rfl
  | cons p ps ih =>
      rw [List.foldl_cons, Patch.retargetAt, takes]
      by_cases covers : p.Covers address
      · cases given : goal p with
        | none => simpa [covers, given, around] using ih
        | some target =>
            have stays (p : Patch) :
                retarget p.breakTo p.continueTo (.address target) = .address target := rfl
            have taken := foldl_retargetAt_settled stays ps address
            simpa [covers, given, around] using taken
      · simpa [covers, around] using ih

theorem foldl_retargetAt (nested : InsideOut ps) (address : Nat) (target : JumpTarget) :
    ps.foldl (fun t p => p.retargetAt address t) target = resolve ps address target := by
  cases target with
  | breakPoint =>
      rw [resolve, innermost?_eq_head? nested]
      exact foldl_retargetAt_placeholder (fun p => by cases p.breakTo <;> rfl) ps address
  | continuePoint =>
      rw [resolve, innermost?_eq_head? nested]
      exact foldl_retargetAt_placeholder (fun p => by cases p.continueTo <;> rfl) ps address
  | address | unresolved => exact foldl_retargetAt_settled (fun _ => rfl) ps address

/-- A patch changes the targets in its range. -/
theorem getElem?_patch (c : Code) (p : Patch) (k : Nat) :
    (c.patch p).instructions[k]? = c.instructions[k]?.map (·.mapTarget (p.retargetAt k)) := by
  rw [patch, patchLoop, Array.getElem?_mapIdx]
  cases c.instructions[k]? with
  | none => rfl
  | some i =>
      by_cases inside : p.Covers k
      · have covers : p.start ≤ k ∧ k < p.stop := inside
        have takes : p.retargetAt k = retarget p.breakTo p.continueTo :=
          funext fun _ => if_pos inside
        simp [covers, takes]
      · have outside : ¬ (p.start ≤ k ∧ k < p.stop) := inside
        have leaves : p.retargetAt k = fun target => target := funext fun _ => if_neg inside
        simp only [Option.map_some, if_neg outside, leaves, Instruction.mapTarget_id]

theorem getElem?_foldl_patch (c : Code) (ps : List Patch) (k : Nat) :
    (ps.foldl patch c).instructions[k]? =
      c.instructions[k]?.map (·.mapTarget fun t => ps.foldl (fun t p => p.retargetAt k t) t) := by
  induction ps generalizing c with
  | nil => simp [Instruction.mapTarget_id]
  | cons p ps ih =>
      rw [List.foldl_cons, ih, getElem?_patch, Option.map_map]
      exact congrArg (c.instructions[k]?.map ·)
        (funext fun i => Instruction.mapTarget_mapTarget _ _ i)

/-- Patching from the inside out resolves every placeholder by the innermost range around it. -/
theorem foldl_patch (c : Code) {ps : List Patch} (nested : InsideOut ps) :
    (ps.foldl patch c).instructions =
      c.instructions.mapIdx fun k i => i.mapTarget (resolve ps k) := by
  apply Array.ext_getElem?
  intro k
  rw [getElem?_foldl_patch, Array.getElem?_mapIdx, funext (foldl_retargetAt nested k)]

end ranges

end Code

/-- Code can be changed in any way, and only targets of jumps change: the instructions are those
that were added, in this order and with the places they came with, each at the address that was
returned for it.  A target can be set where there is a jump and only there.  Ranges that are patched
from the inside out take each placeholder to the innermost range around it that has an address for
it, and leave all else alone. -/
theorem changes_only_retarget :
    (∀ (c : Code) (changes : List Code.Change),
      let c' := changes.foldl Code.change c
      c.Retargeted changes c' ∧
      (c.instructions.size = c.locations.size → c'.instructions.size = c'.locations.size) ∧
      c.addresses changes =
        List.range' c.size (changes.filterMap (·.instruction?)).length) ∧
    (∀ (c : Code) (address : Nat) (target : JumpTarget),
      (c.hasTarget address = true ↔
        ∃ i old, c.instructions[address]? = some i ∧ i.target? = some old) ∧
      ∀ k, (c.setTarget address target).instructions[k]? =
        if k = address then c.instructions[k]?.map (·.mapTarget fun _ => target)
        else c.instructions[k]?) ∧
    ∀ (c : Code) (ps : List Code.Patch), Code.InsideOut ps →
      (ps.foldl Code.patch c).instructions =
        c.instructions.mapIdx fun k i => i.mapTarget (Code.resolve ps k) := by
  refine ⟨fun c changes => ?_, fun c address target => ?_, fun c ps nested => ?_⟩
  · have retargeted := c.retargeted_foldl changes
    exact ⟨retargeted, retargeted.sizes, c.addresses_eq_range' changes⟩
  · exact ⟨c.hasTarget_iff address, c.getElem?_setTarget address target⟩
  · exact c.foldl_patch nested

/-- Breaks and continues inside and outside of inner ranges. -/
def openJumps : Code where
  instructions := #[.jump .breakPoint, .jumpIf .continuePoint, .jump .breakPoint,
    .jump .continuePoint, .jump .continuePoint, .switchJump .unresolved, .jump .breakPoint]

/-- A switch, a range that only has a continue point, and a loop around both. -/
def innerRanges : List Code.Patch :=
  [⟨1, 3, some 3, none⟩, ⟨4, 5, none, some 4⟩, ⟨0, 6, some 8, some 7⟩]

/-- The switch takes its break and leaves its continue to the loop; the last break is in no
range. -/
theorem changes_only_retarget_innerRanges :
    Code.InsideOut innerRanges ∧
    (innerRanges.foldl Code.patch openJumps).instructions =
      #[.jump (.address 8), .jumpIf (.address 7), .jump (.address 3), .jump (.address 7),
        .jump (.address 4), .switchJump .unresolved, .jump .breakPoint] := by
  have nested : Code.InsideOut innerRanges := by
    have apart (address : Nat) (first : (⟨1, 3, some 3, none⟩ : Code.Patch).Covers address) :
        ¬ (⟨4, 5, none, some 4⟩ : Code.Patch).Covers address := fun second =>
      absurd (Nat.le_trans second.1 (Nat.le_of_lt_succ first.2)) (by decide)
    refine List.pairwise_cons.2 ⟨List.forall_mem_cons.2 ⟨.inr apart, ?_⟩, ?_⟩
    · exact List.forall_mem_singleton.2 (.inl (by decide))
    · exact List.pairwise_pair.2 (.inl (by decide))
  refine ⟨nested, ?_⟩
  rw [changes_only_retarget.2.2 openJumps innerRanges nested]
  decide

end HostScript
