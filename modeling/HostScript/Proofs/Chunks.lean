import HostScript.Proofs.Fragment

/-!
# HostScript.Proofs.Chunks

Code without a place.  A `Chunk` holds what one piece of a script adds to the code, as a `Fragment`
does, but its addresses are counted from its own start, so that it can stand behind any other code.
`Grows g c g'` says that the generator `g'` is `g` and the chunk `c` behind it, with all addresses
moved by the size of the code before.

Every step of code generation has its counterpart on chunks.  Whether code falls off its end is seen
from the chunk alone.
-/

namespace HostScript

/-! ## moving addresses -/

/-- The same target when all addresses are `n` higher. -/
def JumpTarget.shift (n : Nat) : JumpTarget → JumpTarget
  | address a => address (n + a)
  | other => other

/-- The same placement when all addresses are `n` higher. -/
def Placement.shift (n : Nat) (p : Placement) : Placement := ⟨p.id, n + p.start, n + p.stop⟩

/-- Exits can be settled before or behind a shift of the addresses. -/
theorem Code.retarget_shift (n : Nat) (breakTo continueTo : Option Nat) (target : JumpTarget) :
    retarget (breakTo.map (n + ·)) (continueTo.map (n + ·)) (target.shift n) =
      (retarget breakTo continueTo target).shift n := by
  cases target <;> cases breakTo <;> cases continueTo <;> rfl

namespace Instruction

/-- The same instruction when all addresses are `n` higher. -/
def shift (n : Nat) (i : Instruction) : Instruction := i.mapTarget (·.shift n)

/-- Code without targets has no addresses to shift. -/
theorem shift_of_straight {i : Instruction} (straight : i.target? = none) (n : Nat) :
    i.shift n = i :=
  mapTarget_eq_self straight

/-- A return is one at any address. -/
theorem isReturn_shift (n : Nat) (i : Instruction) : (i.shift n).isReturn = i.isReturn := by
  cases i <;> rfl

/-- A jump goes behind the moved code if it goes behind the code. -/
theorem target?_shift_iff {n a : Nat} {i : Instruction} :
    (i.shift n).target? = some (.address (n + a)) ↔ i.target? = some (.address a) := by
  rw [shift, target?_mapTarget]
  cases i.target? with
  | none => simp
  | some target => cases target <;> simp [JumpTarget.shift]

end Instruction

/-! ## chunks -/

/-- A jump that waits for its label. -/
structure LabelJump where
  label : String
  address : Nat
  location : Location

structure Chunk where
  code : List Instruction := []
  labels : List (String × Nat) := []
  jumps : List LabelJump := []
  placements : List Placement := []

namespace Chunk

def size (c : Chunk) : Nat := c.code.length

def push (c : Chunk) (i : Instruction) : Chunk := { c with code := c.code ++ [i] }

/-- Changes instructions according to where they stand. -/
def mapCode (f : Nat → Instruction → Instruction) (c : Chunk) : Chunk :=
  { c with code := c.code.mapIdx f }

def patchHere (c : Chunk) (offset : Nat) : Chunk :=
  c.mapCode fun k i => if offset = k then i.mapTarget fun _ => .address c.size else i

def patchLoop (c : Chunk) (start stop : Nat) (breakTo continueTo : Option Nat) : Chunk :=
  c.mapCode fun k i =>
    if start ≤ k ∧ k < stop then i.mapTarget (Code.retarget breakTo continueTo) else i

def declare (c : Chunk) (name : String) : Chunk :=
  { c with labels := c.labels ++ [(name, c.size)] }

def await (c : Chunk) (jump : LabelJump) : Chunk := { c with jumps := c.jumps ++ [jump] }

def place (c : Chunk) (p : Placement) : Chunk := { c with placements := c.placements ++ [p] }

/-- Whether the code from `start` on can run past its end, by itself or through a label there. -/
def fallsOff (c : Chunk) (start : Nat) : Bool :=
  c.size ≤ start || !(c.code.getLast?.any Instruction.isReturn) ||
    (c.code.drop start).any (fun i => i.target? == some (.address c.size)) ||
    c.labels.any fun label => start ≤ label.2 && label.2 == c.size

theorem size_push (c : Chunk) (i : Instruction) : (c.push i).size = c.size + 1 := by
  simp [size, push]

/-- Code that does not fall off its end is there. -/
theorem size_pos_of_not_fallsOff {c : Chunk} {start : Nat} (closed : c.fallsOff start = false) :
    0 < c.size := by
  simp only [fallsOff, Bool.or_eq_false_iff, decide_eq_false_iff_not] at closed
  exact Nat.lt_of_le_of_lt (Nat.zero_le start) (Nat.lt_of_not_le closed.1.1.1)

end Chunk

/-! ## generators that grow -/

/-- The jumps that wait, by their labels, with another one behind them. -/
def addJump (n : Nat) (m : NameMap (List (Nat × Location))) (jump : LabelJump) :
    NameMap (List (Nat × Location)) :=
  m.insert jump.label ((m.find? jump.label).getD [] ++ [(n + jump.address, jump.location)])

namespace Generator

/-- `g'` is `g` with the chunk `c` behind it. -/
structure Grows (g : Generator) (c : Chunk) (g' : Generator) : Prop where
  listing : g'.listing = g.listing ++ c.code.map (·.shift g.here)
  labels : ∀ name address, g'.labels.find? name = some address ↔
    g.labels.find? name = some address ∨
      ∃ offset, (name, offset) ∈ c.labels ∧ g.here + offset = address
  pending : g'.pending = c.jumps.foldl (addJump g.here) g.pending
  functions : g'.functions =
    c.placements.foldl (fun t p => t.placeAt (p.shift g.here)) g.functions

namespace Grows

variable {g g' : Generator} {c : Chunk}

theorem refl (g : Generator) : g.Grows {} g := ⟨by simp, by simp, rfl, rfl⟩

/-- The code has grown by the size of the chunk. -/
theorem here (h : g.Grows c g') : g'.here = g.here + c.size := by
  rw [← g'.length_listing, h.listing, List.length_append, List.length_map, g.length_listing,
    Chunk.size]

/-- A new instruction is one more in the chunk. -/
theorem push (h : g.Grows c g') (i : Instruction) (l : Location) :
    g.Grows (c.push i) (g'.push (i.shift g.here) l) where
  listing := by simp [h.listing, Chunk.push]
  labels := h.labels
  pending := h.pending
  functions := h.functions

/-! ### patches -/

/-- A change that leaves one part of a list alone and does the same to the other part, whether that
is moved before or after. -/
theorem mapIdx_append_map {α β : Type} {xs : List α} {ys : List β} {move : β → α}
    {f : Nat → α → α} {f' : Nat → β → β} (old : ∀ k x, k < xs.length → f k x = x)
    (new : ∀ k y, f (xs.length + k) (move y) = move (f' k y)) :
    (xs ++ ys.map move).mapIdx f = xs ++ (ys.mapIdx f').map move := by
  apply List.ext_getElem?
  intro k
  rw [List.getElem?_mapIdx]
  by_cases inside : k < xs.length
  · rw [List.getElem?_append_left inside, List.getElem?_append_left inside,
      List.getElem?_eq_getElem inside, Option.map_some, old k _ inside]
  · obtain ⟨offset, rfl⟩ := Nat.exists_eq_add_of_le (Nat.le_of_not_lt inside)
    rw [List.getElem?_append_right (Nat.le_add_right _ _),
      List.getElem?_append_right (Nat.le_add_right _ _), Nat.add_sub_cancel_left,
      List.getElem?_map, List.getElem?_map, List.getElem?_mapIdx]
    cases ys[offset]? with
    | none => rfl
    | some y => exact congrArg some (new offset y)

/-- A change of instructions of the chunk. -/
theorem mapCode (h : g.Grows c g') {code : Code} {f f' : Nat → Instruction → Instruction}
    (listing : code.instructions.toList = g'.listing.mapIdx f)
    (old : ∀ k i, k < g.here → f k i = i)
    (new : ∀ k i, f (g.here + k) (i.shift g.here) = (f' k i).shift g.here) :
    g.Grows (c.mapCode f') { g' with code } where
  listing := by
    rw [← g.length_listing] at old new
    show code.instructions.toList = _
    rw [listing, h.listing, ← g.length_listing, mapIdx_append_map old new]
    rfl
  labels := h.labels
  pending := h.pending
  functions := h.functions

/-- A jump of the chunk is patched to lead to the end of the chunk. -/
theorem patchHere (h : g.Grows c g') (offset : Nat) :
    g.Grows (c.patchHere offset) (g'.patchHere (g.here + offset)) := by
  have listing : (g'.patchHere (g.here + offset)).code.instructions.toList =
      g'.listing.mapIdx fun k i =>
        if g.here + offset = k then i.mapTarget fun _ => .address g'.here else i := by
    have modified := g'.listing_patchHere (g.here + offset)
    rw [Generator.listing] at modified
    rw [modified]
    apply List.ext_getElem?
    intro k
    rw [List.getElem?_modify, List.getElem?_mapIdx]
    rfl
  refine h.mapCode listing (fun k i low => if_neg (by omega)) fun k i => ?_
  by_cases here : offset = k
  · rw [if_pos (by rw [here]), if_pos here, h.here]
    show (i.mapTarget _).mapTarget _ = (i.mapTarget _).mapTarget _
    rw [Instruction.mapTarget_mapTarget, Instruction.mapTarget_mapTarget]
    rfl
  · rw [if_neg (by omega), if_neg here]

/-- A range of the chunk is patched. -/
theorem patchLoop (h : g.Grows c g') (start stop : Nat) (breakTo continueTo : Option Nat) :
    g.Grows (c.patchLoop start stop breakTo continueTo)
      (g'.patchLoop (g.here + start) (g.here + stop) (breakTo.map (g.here + ·))
        (continueTo.map (g.here + ·))) := by
  refine h.mapCode (g'.listing_patchLoop ..) (fun k i low => if_neg (by omega)) fun k i => ?_
  by_cases inside : start ≤ k ∧ k < stop
  · rw [if_pos (by omega), if_pos inside]
    show (i.mapTarget _).mapTarget _ = (i.mapTarget _).mapTarget _
    rw [Instruction.mapTarget_mapTarget, Instruction.mapTarget_mapTarget]
    exact congrArg i.mapTarget (funext fun target => Code.retarget_shift ..)
  · rw [if_neg (by omega), if_neg inside]

/-! ### labels and functions -/

/-- A label that is new is declared at the end of the chunk. -/
theorem declare (h : g.Grows c g') {name : String} (new : g'.labels.find? name = none) :
    g.Grows (c.declare name) { g' with labels := g'.labels.insert name g'.here } where
  listing := h.listing
  labels other address := by
    have added : (∃ offset, (other, offset) ∈ (c.declare name).labels ∧ g.here + offset = address) ↔
        (∃ offset, (other, offset) ∈ c.labels ∧ g.here + offset = address) ∨
          other = name ∧ g'.here = address := by
      simp only [Chunk.declare, List.mem_append, List.mem_singleton, Prod.mk.injEq, or_and_right,
        exists_or, h.here]
      grind
    rw [added, ← or_assoc, ← h.labels, NameMap.find?_insert]
    by_cases same : name = other
    · subst same
      simp [new]
    · simp [same, Ne.symm same]
  pending := h.pending
  functions := h.functions

theorem await (h : g.Grows c g') (jump : LabelJump) :
    g.Grows (c.await jump) { g' with pending := addJump g.here g'.pending jump } where
  listing := h.listing
  labels := h.labels
  pending := by rw [h.pending, Chunk.await, List.foldl_append]; rfl
  functions := h.functions

theorem place (h : g.Grows c g') (p : Placement) :
    g.Grows (c.place p) { g' with functions := g'.functions.placeAt (p.shift g.here) } where
  listing := h.listing
  labels := h.labels
  pending := h.pending
  functions := by rw [h.functions, Chunk.place, List.foldl_append]; rfl

/-! ### the end of the code -/

/-- Behind the old code there is that of the chunk. -/
theorem drop_listing (h : g.Grows c g') (start : Nat) :
    g'.listing.drop (g.here + start) = (c.code.drop start).map (·.shift g.here) := by
  rw [h.listing, ← g.length_listing, List.drop_append, List.map_drop]
  simp

/-- The end of a chunk that is not empty is the end of the code. -/
theorem back?_isReturn (h : g.Grows c g') (nonempty : c.code ≠ []) :
    g'.code.instructions.back?.any Instruction.isReturn =
      c.code.getLast?.any Instruction.isReturn := by
  have back : g'.code.instructions.back? = (c.code.getLast?).map (·.shift g.here) := by
    rw [← Array.getLast?_toList]
    have listing := h.listing
    rw [Generator.listing] at listing
    rw [listing, List.getLast?_append, List.getLast?_map]
    cases last : c.code.getLast? with
    | none => exact absurd (List.getLast?_eq_none_iff.1 last) nonempty
    | some i => rfl
  rw [back]
  cases c.code.getLast? with
  | none => rfl
  | some i => exact Instruction.isReturn_shift ..

/-- Older labels lie no further than the start of the chunk, so that a label behind a chunk that is
not empty is one of its own. -/
theorem labels_at_end (h : g.Grows c g') (below : g.LabelsBelow) (nonempty : 0 < c.size)
    (start : Nat) :
    (g'.labels.values.any fun address => g.here + start ≤ address && address == g'.here) =
      c.labels.any fun label => start ≤ label.2 && label.2 == c.size := by
  rw [Bool.eq_iff_iff]
  simp only [List.any_eq_true, Bool.and_eq_true, decide_eq_true_eq, beq_iff_eq,
    NameMap.mem_values_iff, h.labels, h.here]
  constructor
  · rintro ⟨address, ⟨name, old | ⟨offset, declared, rfl⟩⟩, above, last⟩
    · have low := below name address old
      omega
    · exact ⟨(name, offset), declared, by omega, by omega⟩
  · rintro ⟨⟨name, offset⟩, declared, above, last⟩
    exact ⟨g.here + offset, ⟨name, .inr ⟨offset, declared, rfl⟩⟩, Nat.add_le_add_left above _,
      congrArg (g.here + ·) last⟩

/-- Whether code falls off its end does not depend on the code before it. -/
theorem fallsOffEnd (h : g.Grows c g') (below : g.LabelsBelow) (start : Nat) :
    g'.fallsOffEnd (g.here + start) = c.fallsOff start := by
  have size : g'.code.size = g.here + c.size := h.here
  by_cases empty : c.size ≤ start
  · simp [Generator.fallsOffEnd, Code.fallsOffEnd, Chunk.fallsOff, size, empty]
  · have some_ : 0 < c.size := by omega
    have nonempty : c.code ≠ [] := List.length_pos_iff.1 some_
    have longer : ¬ g.here + c.size ≤ g.here + start := by omega
    have drop : g'.code.instructions.toList.drop (g.here + start) =
        (c.code.drop start).map (·.shift g.here) := h.drop_listing start
    have targets (i : Instruction) :
        ((i.shift g.here).target? == some (.address (g.here + c.size))) =
          (i.target? == some (.address c.size)) := by
      rw [Bool.eq_iff_iff, beq_iff_eq, beq_iff_eq, Instruction.target?_shift_iff]
    rw [Generator.fallsOffEnd, h.labels_at_end below some_, Code.fallsOffEnd, Chunk.fallsOff,
      h.back?_isReturn nonempty, size, drop, List.any_map]
    simp only [Function.comp_def, targets, longer, empty]

end Grows

end Generator

end HostScript
