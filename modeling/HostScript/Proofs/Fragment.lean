import HostScript.Code.Generator
import HostScript.Proofs.NameMap
import HostScript.Proofs.Steps

/-!
# HostScript.Proofs.Fragment

What one piece of a script adds to the code.  A `Fragment` holds the instructions with the labels,
label jumps and functions among them; its addresses are those of the whole program.
`Extends g f g'` says that the generator `g'` is `g` and the fragment `f` behind it.

Back-patching changes instructions long after they were added.  The lemmas at the end say what it
does to a fragment: a patched jump is a fragment with another target in the same place, so the
history of a generator can be forgotten and only the finished fragment stays.
-/

namespace HostScript

/-- There is only one instruction that returns. -/
theorem Instruction.isReturn_iff {i : Instruction} : i.isReturn = true ↔ i = .ret := by
  cases i <;> simp [isReturn]

/-- Where the code of a script function stands. -/
structure Placement where
  id : Nat
  start : Nat
  stop : Nat
deriving DecidableEq, Repr

def FunctionTable.placeAt (t : FunctionTable) (p : Placement) : FunctionTable :=
  t.place p.id p.start p.stop

structure Fragment where
  code : List Instruction := []
  /-- The labels that are declared in it. -/
  labels : List (String × Nat) := []
  /-- The jumps in it that wait for a label. -/
  waiting : List (String × Nat) := []
  /-- The functions whose bodies are in it. -/
  placements : List Placement := []
deriving DecidableEq, Repr

/-- What holds of every item of a list and its place, counted from `base`, holds so of the parts of
the list. -/
theorem forall_getElem?_append {α : Type} {P : Nat → α → Prop} {base : Nat} {xs ys : List α} :
    (∀ k x, (xs ++ ys)[k]? = some x → P (base + k) x) ↔
      (∀ k x, xs[k]? = some x → P (base + k) x) ∧
        ∀ k y, ys[k]? = some y → P (base + xs.length + k) y := by
  constructor
  · refine fun h => ⟨fun k x found => h k x ?_, fun k y found => ?_⟩
    · rw [List.getElem?_append_left (List.getElem?_eq_some_iff.1 found).1, found]
    · rw [Nat.add_assoc]
      refine h (xs.length + k) y ?_
      rw [List.getElem?_append_right (Nat.le_add_right _ _), Nat.add_sub_cancel_left, found]
  · rintro ⟨first, second⟩ k x found
    by_cases inside : k < xs.length
    · exact first k x (by rwa [List.getElem?_append_left inside] at found)
    · rw [List.getElem?_append_right (Nat.le_of_not_lt inside)] at found
      have there := second _ x found
      rwa [Nat.add_assoc, Nat.add_sub_cancel' (Nat.le_of_not_lt inside)] at there

namespace Fragment

def size (f : Fragment) : Nat := f.code.length

protected def append (a b : Fragment) : Fragment :=
  ⟨a.code ++ b.code, a.labels ++ b.labels, a.waiting ++ b.waiting, a.placements ++ b.placements⟩

instance : Append Fragment := ⟨Fragment.append⟩

def ofCode (code : List Instruction) : Fragment := { code }

def one (i : Instruction) : Fragment := ofCode [i]

/-- The fragment as a loop or switch around it leaves it. -/
def retarget (breakTo continueTo : Option Nat) (f : Fragment) : Fragment :=
  { f with code := f.code.map (·.mapTarget (Code.retarget breakTo continueTo)) }

/-- An instruction at `start` that may jump over the fragment behind it. -/
def jumpOver (make : JumpTarget → Instruction) (start : Nat) (f : Fragment) : Fragment :=
  one (make (.address (start + 1 + f.size))) ++ f

/-- Whether the fragment, which starts at `start`, can run past its end. -/
def fallsOff (f : Fragment) (start : Nat) : Bool :=
  !(f.code.getLast?.any Instruction.isReturn) ||
    f.code.any (fun i => i.target? == some (.address (start + f.size))) ||
    f.labels.any fun label => label.2 == start + f.size

/-- The fragment with a return behind it if it needs one. -/
def closed (f : Fragment) (start : Nat) : Fragment :=
  if f.fallsOff start then f ++ ofCode [.pushNull, .ret] else f

/-! ## the parts of composed fragments -/

section parts

variable (a b c : Fragment) (i : Instruction) (code : List Instruction)

/-- A composed fragment has the code, the labels, the jumps and the functions of its parts. -/
@[simp] theorem code_append : (a ++ b).code = a.code ++ b.code := rfl
@[simp] theorem labels_append : (a ++ b).labels = a.labels ++ b.labels := rfl
@[simp] theorem waiting_append : (a ++ b).waiting = a.waiting ++ b.waiting := rfl
@[simp] theorem placements_append : (a ++ b).placements = a.placements ++ b.placements := rfl
/-- Code alone has nothing but its instructions. -/
@[simp] theorem code_ofCode : (ofCode code).code = code := rfl
@[simp] theorem labels_ofCode : (ofCode code).labels = [] := rfl
@[simp] theorem waiting_ofCode : (ofCode code).waiting = [] := rfl
@[simp] theorem placements_ofCode : (ofCode code).placements = [] := rfl
@[simp] theorem code_one : (one i).code = [i] := rfl
@[simp] theorem labels_one : (one i).labels = [] := rfl
@[simp] theorem waiting_one : (one i).waiting = [] := rfl
@[simp] theorem placements_one : (one i).placements = [] := rfl

/-- Sizes add up. -/
@[simp] theorem size_append : (a ++ b).size = a.size + b.size := by simp [size]
@[simp] theorem size_ofCode : (ofCode code).size = code.length := rfl
@[simp] theorem size_one : (one i).size = 1 := rfl
@[simp] theorem size_empty : ({} : Fragment).size = 0 := rfl

/-- Where a jump goes does not change how long the code is. -/
@[simp] theorem size_retarget (breakTo continueTo : Option Nat) :
    (a.retarget breakTo continueTo).size = a.size := by simp [size, retarget]

/-- A jump around code is one instruction more. -/
@[simp] theorem size_jumpOver (make : JumpTarget → Instruction) (start : Nat) :
    (jumpOver make start a).size = a.size + 1 := by simp [jumpOver, Nat.add_comm]

/-- The address right behind the fragment that is jumped over. -/
theorem add_size_jumpOver (make : JumpTarget → Instruction) (start : Nat) :
    start + (jumpOver make start a).size = start + 1 + a.size := by
  rw [size_jumpOver]
  omega

/-- A fragment only gets longer when a return is put behind it. -/
theorem size_le_closed (start : Nat) : a.size ≤ (a.closed start).size := by
  unfold closed
  split
  · simp
  · exact Nat.le_refl _

/-- Closed code ends in a return, so there is some. -/
theorem size_closed_pos (start : Nat) : 0 < (a.closed start).size := by
  unfold closed
  split
  · simp
  next returns =>
    cases shape : a.code with
    | nil => simp [fallsOff, shape] at returns
    | cons => simp [size, shape]

/-- How fragments are grouped does not matter. -/
theorem append_assoc : a ++ b ++ c = a ++ (b ++ c) := by
  show Fragment.append (Fragment.append a b) c = Fragment.append a (Fragment.append b c)
  simp [Fragment.append]

@[simp] theorem append_empty : a ++ ({} : Fragment) = a := by
  show Fragment.append a {} = a
  simp [Fragment.append]

@[simp] theorem empty_append : ({} : Fragment) ++ a = a := rfl

@[simp] theorem ofCode_nil : ofCode [] = {} := rfl

/-- A note where functions are adds no code and no jumps. -/
theorem code_append_placements (ps : List Placement) :
    (a ++ ({ placements := ps } : Fragment)).code = a.code := List.append_nil _

theorem size_append_placements (ps : List Placement) :
    (a ++ ({ placements := ps } : Fragment)).size = a.size := by
  rw [size, size, code_append_placements]

theorem waiting_append_placements (ps : List Placement) :
    (a ++ ({ placements := ps } : Fragment)).waiting = a.waiting := List.append_nil _

/-- Instructions that follow each other are one piece of code. -/
theorem append_ofCode_one : a ++ ofCode code ++ one i = a ++ ofCode (code ++ [i]) :=
  append_assoc a (ofCode code) (one i)

end parts

/-! ## every instruction in its place -/

/-- `P` holds of every instruction of the fragment and its address when the fragment starts at
`base`. -/
def Each (P : Nat → Instruction → Prop) (base : Nat) (f : Fragment) : Prop :=
  ∀ k i, f.code[k]? = some i → P (base + k) i

section each

variable {P Q : Nat → Instruction → Prop} {base : Nat} {a b : Fragment} {i : Instruction}
  {code : List Instruction}

/-- A condition on addresses and instructions holds of a whole if it holds of its parts, the second
of which starts behind the first. -/
theorem each_append : (a ++ b).Each P base ↔ a.Each P base ∧ b.Each P (base + a.size) :=
  forall_getElem?_append

theorem each_empty : ({} : Fragment).Each P base := nofun

/-- A single instruction stands at the start. -/
theorem each_one : (one i).Each P base ↔ P base i := by
  refine ⟨fun h => h 0 i rfl, fun h k j found => ?_⟩
  obtain ⟨rfl, rfl⟩ : k = 0 ∧ j = i := by
    cases k <;> simp_all
  exact h

/-- Behind the first instruction addresses go up by one. -/
theorem each_ofCode_cons :
    (ofCode (i :: code)).Each P base ↔ P base i ∧ (ofCode code).Each P (base + 1) := by
  have split : ofCode (i :: code) = one i ++ ofCode code := rfl
  rw [split, each_append, each_one, size_one]

/-- A condition on retargeted code is a condition on the code before. -/
theorem each_retarget {u v : Option Nat} :
    (a.retarget u v).Each P base ↔
      a.Each (fun address i => P address (i.mapTarget (Code.retarget u v))) base := by
  constructor
  · exact fun h k i found => h k _ (by simp [retarget, found])
  · intro h k i found
    obtain ⟨j, there, rfl⟩ : ∃ j, a.code[k]? = some j ∧ j.mapTarget (Code.retarget u v) = i := by
      simpa [retarget] using found
    exact h k j there

/-- A condition on addresses and instructions may be weakened. -/
theorem Each.imp (h : a.Each P base) (step : ∀ address i, P address i → Q address i) :
    a.Each Q base :=
  fun k i found => step _ i (h k i found)

end each

end Fragment

/-! ## what a generator holds -/

namespace Generator

/-- The jump at `address` waits for the label `name`. -/
def Waits (g : Generator) (name : String) (address : Nat) : Prop :=
  ∃ jumps location, g.pending.find? name = some jumps ∧ (address, location) ∈ jumps

/-- No label lies behind the next instruction. -/
def LabelsBelow (g : Generator) : Prop :=
  ∀ name address, g.labels.find? name = some address → address ≤ g.here

/-- A generator without labels has none beyond its code. -/
theorem labelsBelow_empty : ({} : Generator).LabelsBelow := nofun

/-- Code can be generated at this point: labels lie no further than here, and what can be seen in a
script with the names of `top` are the names of `scope`. -/
structure Ready (g : Generator) (top scope : Scope) : Prop where
  below : g.LabelsBelow
  names : top.inside g.parameters = scope

/-- A generator that has just started sees what the script sees. -/
theorem ready_empty (scope : Scope) : ({} : Generator).Ready scope scope :=
  ⟨labelsBelow_empty, rfl⟩

/-- Whatever the parameters around, some names can be seen. -/
theorem LabelsBelow.ready {g : Generator} (below : g.LabelsBelow) (top : Scope) :
    g.Ready top (top.inside g.parameters) := ⟨below, rfl⟩

/-- The instructions in order. -/
def listing (g : Generator) : List Instruction := g.code.instructions.toList

/-- There are as many instructions as the next address says. -/
theorem length_listing (g : Generator) : g.listing.length = g.here := by
  simp [listing, here, Code.size]

/-- A new instruction takes one address; patches take none. -/
@[simp] theorem here_push (g : Generator) (i : Instruction) (l : Location) :
    (g.push i l).here = g.here + 1 := by simp [here, push]

@[simp] theorem here_patchHere (g : Generator) (address : Nat) :
    (g.patchHere address).here = g.here := by simp [here, patchHere]

@[simp] theorem here_patchLoop (g : Generator) (start stop : Nat) (x y : Option Nat) :
    (g.patchLoop start stop x y).here = g.here := by simp [here, patchLoop]

@[simp] theorem here_withParameters (g : Generator) (parameters : Option (List String)) :
    (g.withParameters parameters).here = g.here := rfl

/-- Inside of a function its parameters can be seen. -/
theorem Ready.inFunction {g : Generator} {top scope : Scope} (h : g.Ready top scope)
    (parameters : List String) :
    (g.withParameters (some parameters)).Ready top { scope with parameters } where
  below := h.below
  names := by
    rw [← h.names]
    cases g.parameters <;> rfl

/-- A patch changes neither labels nor what can be seen. -/
theorem Ready.patchHere {g : Generator} {top scope : Scope} (h : g.Ready top scope)
    (address : Nat) : (g.patchHere address).Ready top scope where
  below name a found := by
    rw [here_patchHere]
    exact h.below name a found
  names := h.names

/-- A new instruction comes last. -/
@[simp] theorem listing_push (g : Generator) (i : Instruction) (l : Location) :
    (g.push i l).listing = g.listing ++ [i] := by
  simp [listing, push, Code.push]

/-- A jump is patched where it stands, to lead to the end of the code so far. -/
theorem listing_patchHere (g : Generator) (address : Nat) :
    (g.patchHere address).listing =
      g.listing.modify address (·.mapTarget fun _ => .address g.here) := by
  simp [listing, patchHere, Code.setTarget]

/-- A loop patches all breaks and continues in its range. -/
theorem listing_patchLoop (g : Generator) (start stop : Nat) (x y : Option Nat) :
    (g.patchLoop start stop x y).listing =
      g.listing.mapIdx fun address i =>
        if start ≤ address ∧ address < stop then i.mapTarget (Code.retarget x y) else i := by
  simp [listing, patchLoop, Code.patchLoop]

end Generator

/-! ## extending a generator -/

/-- `g'` is `g` with the fragment `f` behind it. -/
structure Extends (g : Generator) (f : Fragment) (g' : Generator) : Prop where
  listing : g'.listing = g.listing ++ f.code
  labels : ∀ name address, g'.labels.find? name = some address ↔
    g.labels.find? name = some address ∨ (name, address) ∈ f.labels
  waits : ∀ name address, g'.Waits name address ↔
    g.Waits name address ∨ (name, address) ∈ f.waiting
  functions : g'.functions = f.placements.foldl FunctionTable.placeAt g.functions
  parameters : g'.parameters = g.parameters
  below : g.LabelsBelow → g'.LabelsBelow

namespace Extends

variable {g g' g'' : Generator} {a b c f : Fragment} {top scope : Scope}

/-- Nothing extends a generator by the empty fragment. -/
theorem refl (g : Generator) : Extends g {} g where
  listing := by simp
  labels := by simp
  waits := by simp
  functions := rfl
  parameters := rfl
  below := id

/-- One extension after the other is an extension by both fragments. -/
theorem trans (first : Extends g a g') (second : Extends g' b g'') : Extends g (a ++ b) g'' where
  listing := by rw [second.listing, first.listing, Fragment.code_append, List.append_assoc]
  labels name address := by
    rw [second.labels, first.labels, Fragment.labels_append, List.mem_append, or_assoc]
  waits name address := by
    rw [second.waits, first.waits, Fragment.waiting_append, List.mem_append, or_assoc]
  functions := by
    rw [second.functions, first.functions, Fragment.placements_append, List.foldl_append]
  parameters := second.parameters.trans first.parameters
  below := second.below ∘ first.below

/-- The same names can be seen behind a fragment as before it. -/
theorem ready (h : Extends g f g') (ready : g.Ready top scope) : g'.Ready top scope where
  below := h.below ready.below
  names := by rw [h.parameters, ready.names]

/-- The next address lies as many instructions further on as the fragment has. -/
theorem here (h : Extends g f g') : g'.here = g.here + f.size := by
  rw [← g'.length_listing, h.listing, List.length_append, g.length_listing, Fragment.size]

/-- One more instruction at the end of the fragment. -/
theorem push (h : Extends g f g') (i : Instruction) (l : Location) :
    Extends g (f ++ .one i) (g'.push i l) :=
  h.trans {
    listing := by simp
    labels := by simp [Generator.push]
    waits := by simp [Generator.push, Generator.Waits]
    functions := rfl
    parameters := rfl
    below := fun below name address found =>
      Nat.le_trans (below name address found) (by simp) }

/-- One more step, whose fragment starts where the last one ended. -/
theorem andThen {run : Nat → Fragment} (first : Extends g f g') (ready : g.Ready top scope)
    (second : g'.Ready top scope → Extends g' (run g'.here) g'') :
    Extends g (f ++ run (g.here + f.size)) g'' := by
  rw [← first.here]
  exact first.trans (second (first.ready ready))

/-! ## patches -/

/-- A change of the instructions only. -/
theorem withCode {code : Code} (h : Extends g f g')
    (listing : code.instructions.toList = g.listing ++ c.code) (size : c.size = f.size)
    (labels : c.labels = f.labels) (waiting : c.waiting = f.waiting)
    (placements : c.placements = f.placements) : Extends g c { g' with code } where
  listing := listing
  labels := labels ▸ h.labels
  waits := waiting ▸ h.waits
  functions := placements ▸ h.functions
  parameters := h.parameters
  below below name address found := by
    have same : ({ g' with code } : Generator).here = g'.here := by
      rw [h.here, ← size, ← g.length_listing, ← Generator.length_listing]
      simp [Generator.listing, listing, Fragment.size]
    exact same ▸ h.below below name address found

/-- In the middle of a list only that item changes. -/
theorem modify_append_cons {α : Type} (xs ys : List α) (y : α) (f : α → α) :
    (xs ++ y :: ys).modify xs.length f = xs ++ f y :: ys := by
  induction xs with
  | nil => rfl
  | cons x xs ih => simp [ih]

/-- Patching a jump replaces one instruction of the fragment. -/
theorem patchHere {i : Instruction} (address : Nat) (h : Extends g (a ++ .one i ++ b) g')
    (at_ : address = g.here + a.size) :
    Extends g (a ++ .one (i.mapTarget fun _ => .address g'.here) ++ b) (g'.patchHere address) := by
  refine h.withCode ?_ (by simp) rfl rfl rfl
  have listing := g'.listing_patchHere address
  have shape : g'.listing = (g.listing ++ a.code) ++ i :: b.code := by simp [h.listing]
  have length : address = (g.listing ++ a.code).length := by
    rw [List.length_append, g.length_listing, at_, Fragment.size]
  rw [shape, length, modify_append_cons] at listing
  rw [← length] at listing
  simpa [Generator.listing, Generator.patchHere] using listing

/-- In the middle of a list only that range changes. -/
theorem mapIdx_append_range {α : Type} (xs ys zs : List α) (f : α → α) :
    ((xs ++ ys ++ zs).mapIdx fun k x =>
      if xs.length ≤ k ∧ k < xs.length + ys.length then f x else x) = xs ++ ys.map f ++ zs := by
  apply List.ext_getElem
  · simp
  intro k _ _
  simp only [List.getElem_mapIdx, List.getElem_append, List.length_append, List.length_map]
  split <;> grind

/-- Patching the range of a loop or switch retargets that part of the fragment. -/
theorem patchLoop (start stop : Nat) (x y : Option Nat) (h : Extends g (a ++ b ++ c) g')
    (first : start = g.here + a.size) (last : stop = start + b.size) :
    Extends g (a ++ b.retarget x y ++ c) (g'.patchLoop start stop x y) := by
  refine h.withCode ?_ (by simp) rfl rfl rfl
  have listing := g'.listing_patchLoop start stop x y
  have shape : g'.listing = (g.listing ++ a.code) ++ b.code ++ c.code := by simp [h.listing]
  have length : start = (g.listing ++ a.code).length := by
    rw [List.length_append, g.length_listing, first, Fragment.size]
  rw [shape, last, length, Fragment.size, mapIdx_append_range] at listing
  rw [← length] at listing
  simpa [Generator.listing, Generator.patchLoop, Fragment.retarget, last, Fragment.size]
    using listing

/-- Patching everything from some point on. -/
theorem patchRest (start : Nat) (x y : Option Nat) (h : Extends g (a ++ b) g')
    (first : start = g.here + a.size) :
    Extends g (a ++ b.retarget x y) (g'.patchLoop start g'.here x y) := by
  have last : g'.here = start + b.size := by
    rw [h.here, first, Fragment.size_append]
    omega
  have all : Extends g (a ++ b ++ {}) g' := by rwa [Fragment.append_empty]
  simpa using all.patchLoop start g'.here x y first last

/-- A jump that is patched once the code it jumps over is there. -/
theorem jumpOver {make : JumpTarget → Instruction} {l : Location}
    (jumps : ∀ t u, (make t).mapTarget (fun _ => u) = make u) (first : Extends g a g')
    (second : Extends (g'.push (make .unresolved) l) b g'') :
    Extends g (a ++ .jumpOver make (g.here + a.size) b) (g''.patchHere g'.here) := by
  have all : Extends g (a ++ .one (make .unresolved) ++ b) g'' := (first.push _ l).trans second
  have patched := all.patchHere g'.here first.here
  rw [jumps, all.here] at patched
  simpa [Fragment.jumpOver, Fragment.append_assoc, Nat.add_assoc] using patched

/-! ## patched shapes

One lemma for each construct whose jumps are patched late: from the fragments of its parts to the
fragment of the whole. -/

variable {g₁ g₂ g₃ : Generator} {l : Location}

/-- Both branches of a condition, with a jump over the second one. -/
theorem branch (first : Extends g a g₁)
    (second : Extends (g₁.push (.jumpUnless .unresolved) l) b g₂)
    (third : Extends ((g₂.push (.jump .unresolved) l).patchHere g₁.here) c g₃) :
    Extends g
      (a ++ .one (.jumpUnless (.address (g.here + a.size + 1 + b.size + 1))) ++ b ++
        .jumpOver .jump (g.here + a.size + 1 + b.size) c)
      (g₃.patchHere g₂.here) := by
  have both := first.jumpOver (fun _ _ => rfl) (second.push (.jump .unresolved) l)
  have skip : g₂.here = g.here + a.size + 1 + b.size := by
    rw [second.here, Generator.here_push, first.here]
  have all : Extends g
      (a ++ .one (.jumpUnless (.address (g.here + a.size + 1 + b.size + 1))) ++ b ++
        .one (.jump .unresolved) ++ c) g₃ := by
    simpa [Fragment.jumpOver, Fragment.append_assoc, Nat.add_assoc] using both.trans third
  have patched := all.patchHere g₂.here (by simp [skip, Nat.add_assoc])
  rw [all.here] at patched
  simpa [Fragment.jumpOver, Fragment.append_assoc, Instruction.mapTarget, Nat.add_assoc,
    Nat.add_comm, Nat.add_left_comm] using patched

/-- The test of a loop and its turns, whose breaks go behind the loop. -/
theorem loop (continueTo : Nat) (first : Extends g a g₁)
    (turn : Extends (g₁.push (.jumpUnless .unresolved) l) b g₂) :
    Extends g
      (a ++ .jumpOver .jumpUnless (g.here + a.size)
        (b.retarget (some (g.here + a.size + 1 + b.size)) (some continueTo)))
      ((g₂.patchHere g₁.here).patchLoop (g₁.here + 1) g₂.here (some g₂.here)
        (some continueTo)) := by
  have all := first.jumpOver (fun _ _ => rfl) turn
  have stop : g₂.here = g.here + a.size + 1 + b.size := by
    rw [turn.here, Generator.here_push, first.here]
  rw [Fragment.jumpOver, ← Fragment.append_assoc] at all
  have patched := all.patchRest (g₁.here + 1) (some g₂.here) (some continueTo)
    (by simp [first.here, Nat.add_assoc])
  rw [Generator.here_patchHere, Fragment.append_assoc] at patched
  simpa [Fragment.jumpOver, stop] using patched

/-- The turns of a loop with its test behind them. -/
theorem loopBefore (turn : Extends g a g₁) (second : Extends g₁ b g₂) :
    Extends g
      (a.retarget (some (g.here + a.size + b.size)) (some (g.here + a.size)) ++ b)
      (g₂.patchLoop g.here g₁.here (some g₂.here) (some g₁.here)) := by
  have all : Extends g ({} ++ a ++ b) g₂ := turn.trans second
  have patched := all.patchLoop g.here g₁.here (some g₂.here) (some g₁.here) rfl turn.here
  rw [second.here, turn.here] at patched
  simpa [second.here, turn.here] using patched

/-- The bodies of a switch behind its comparisons, and the fallback behind them. -/
theorem bodies {jump start : Nat}
    (front : Extends g (a ++ .ofCode [.discard, .jump .unresolved] ++ b) g₁)
    (last : Extends (g₁.patchHere jump) c g₂) (jumps : jump = g.here + a.size + 1)
    (starts : start = g.here + a.size + 2) :
    Extends g
      (a ++ .ofCode [.discard, .jump (.address (start + b.size))] ++
        (b ++ c).retarget (some (start + b.size + c.size)) none)
      (g₂.patchLoop start g₂.here (some g₂.here) none) := by
  have split : Extends g (a ++ .one .discard ++ .one (.jump .unresolved) ++ b) g₁ := by
    rwa [Fragment.one, Fragment.append_ofCode_one]
  have patched := split.patchHere jump (by simp [jumps, Nat.add_assoc])
  rw [Fragment.one, Instruction.mapTarget, Fragment.append_ofCode_one] at patched
  have all := patched.trans last
  rw [Fragment.append_assoc] at all
  have ends := all.patchRest start (some g₂.here) none (by simp [starts, Nat.add_assoc])
  have target : g₁.here = start + b.size := by simp [front.here, starts, Nat.add_assoc]
  have stop : g₂.here = start + b.size + c.size := by
    rw [last.here, Generator.here_patchHere, target]
  rw [target, stop] at ends
  rw [stop]
  exact ends

/-! ## labels and functions -/

/-- A label that is new is declared at the end of the code so far. -/
theorem declare (h : Extends g f g') {name : String} (log : Log)
    (new : g'.labels.find? name = none) :
    Extends g (f ++ { labels := [(name, g'.here)] })
      { g' with log, labels := g'.labels.insert name g'.here } :=
  h.trans {
    listing := by simp [Generator.listing]
    labels := fun other address => by
      simp only [NameMap.find?_insert, List.mem_singleton, Prod.mk.injEq]
      by_cases same : name = other
      · subst same
        simp [new, eq_comm]
      · simp [same, Ne.symm same]
    waits := by simp [Generator.Waits]
    functions := rfl
    parameters := rfl
    below := fun below other address found => by
      simp only [NameMap.find?_insert] at found
      split at found
      · obtain rfl : g'.here = address := by simpa using found
        exact Nat.le_refl _
      · exact below other address found }

/-- A jump waits for a label. -/
theorem await (h : Extends g f g') (name : String) (address : Nat) (location : Location) :
    Extends g (f ++ { waiting := [(name, address)] })
      { g' with
        pending := g'.pending.insert name
          ((g'.pending.find? name).getD [] ++ [(address, location)]) } :=
  h.trans {
    listing := by simp [Generator.listing]
    labels := by simp
    waits := fun other target => by
      simp only [Generator.Waits, NameMap.find?_insert, List.mem_singleton, Prod.mk.injEq]
      by_cases same : name = other
      · subst same
        cases g'.pending.find? name with
        | none => simp
        | some jumps => simp [exists_or]
      · simp [same, Ne.symm same]
    functions := rfl
    parameters := rfl
    below := id }

/-- A function is given its place. -/
theorem place (h : Extends g f g') (id start stop : Nat) :
    Extends g (f ++ { placements := [⟨id, start, stop⟩] })
      { g' with functions := g'.functions.place id start stop } :=
  h.trans {
    listing := by simp [Generator.listing]
    labels := by simp
    waits := by simp [Generator.Waits]
    functions := rfl
    parameters := rfl
    below := fun below => below }

/-- The parameters of a function do not outlast its body. -/
theorem inFunction {parameters : Option (List String)}
    (h : Extends (g.withParameters parameters) f g') :
    Extends g f (g'.withParameters g.parameters) where
  listing := h.listing
  labels := h.labels
  waits := h.waits
  functions := h.functions
  parameters := rfl
  below := h.below

/-- Whether code falls off its end is seen from what was added since its start: older labels lie
no further than there. -/
theorem fallsOffEnd (h : Extends g f g') (below : g.LabelsBelow) :
    g'.fallsOffEnd g.here = f.fallsOff g.here := by
  have here := h.here
  have size : g'.code.size = g.here + f.size := here
  have drop : g'.code.instructions.toList.drop g.here = f.code := by
    have listing := h.listing
    rw [Generator.listing] at listing
    rw [listing, ← g.length_listing, List.drop_left]
  have last : (g.here + f.size ≤ g.here ∨
      ¬ g'.code.instructions.back?.any Instruction.isReturn) ↔
        ¬ f.code.getLast?.any Instruction.isReturn := by
    have back : g'.code.instructions.back? = (g.listing ++ f.code).getLast? := by
      rw [← h.listing, Generator.listing, Array.getLast?_toList]
    rw [back, List.getLast?_append]
    cases code : f.code.getLast? with
    | none => simp [List.getLast?_eq_none_iff.1 code, Fragment.size]
    | some i =>
        have nonempty : f.code ≠ [] := fun empty => by simp [empty] at code
        have length := List.length_pos_iff.2 nonempty
        exact or_iff_right (by rw [Fragment.size]; omega)
  rw [Bool.eq_iff_iff]
  simp only [Generator.fallsOffEnd, Code.fallsOffEnd, Fragment.fallsOff, Bool.or_eq_true,
    decide_eq_true_eq, Bool.not_eq_true', ← Bool.not_eq_true, last, drop, size, here,
    List.any_eq_true, NameMap.mem_values_iff, Bool.and_eq_true, beq_iff_eq, h.labels]
  constructor
  · rintro (returns | ⟨address, ⟨name, old | new⟩, _, same⟩)
    · exact .inl returns
    · have empty : f.code = [] := by
        have := below name address old
        exact List.length_eq_zero_iff.1 (by rw [Fragment.size] at same; omega)
      exact .inl (.inl (by simp [empty]))
    · exact .inr ⟨(name, address), new, same⟩
  · rintro (returns | ⟨⟨name, address⟩, new, same⟩)
    · exact .inl returns
    · exact .inr ⟨address, ⟨name, .inr new⟩, by omega, same⟩

end Extends

end HostScript
