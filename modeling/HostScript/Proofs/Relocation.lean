import HostScript.Proofs.Chunks
import HostScript.Proofs.Confinement
import HostScript.Proofs.Occurrences

/-!
# HostScript.Proofs.Relocation

Generated code can stand anywhere.  Two generators that know the same labels and functions may hold
quite different code; the code of a tree that is added to them is the same but for its addresses.
`Relocation` is such a pair of generators.

`Relocates` relates a step on the one side to a step on the other: from states that have grown by
the same chunk since the start, both succeed or both fail with the same error, and they have grown
by the same chunk again.  Addresses that are passed from step to step have the same offset on both
sides.
-/

namespace HostScript

/-! ## generators at work -/

namespace Generator

/-- A state that code generation can be in, between two trees or in the middle of one, also after a
failure or behind the end of a program.  Code only becomes longer, and a label is only declared
where it ends.  Everything else, such as to patch or link a jump, to place a function or to read
another script, changes neither the length of the code nor the labels. -/
inductive Reachable : Generator → Prop
  | start : Reachable {}
  | push {g : Generator} (h : Reachable g) (i : Instruction) (l : Location) :
    Reachable (g.push i l)
  | declare {g : Generator} (h : Reachable g) (name : String) :
    Reachable { g with labels := g.labels.insert name g.here }
  | other {g g' : Generator} (h : Reachable g) (here : g'.here = g.here)
    (labels : g'.labels = g.labels) : Reachable g'

namespace Reachable

variable {g : Generator}

/-- A generator at work is still one when a jump is patched. -/
theorem patchHere (h : g.Reachable) (address : Nat) : (g.patchHere address).Reachable :=
  h.other (here_patchHere ..) rfl

/-- A generator at work is still one when a loop is patched. -/
theorem patchLoop (h : g.Reachable) (start stop : Nat) (breakTo continueTo : Option Nat) :
    (g.patchLoop start stop breakTo continueTo).Reachable :=
  h.other (here_patchLoop ..) rfl

/-- A generator at work declares labels only at addresses that it has reached. -/
theorem labelsBelow (h : g.Reachable) : g.LabelsBelow := by
  induction h with
  | start => exact labelsBelow_empty
  | push _ i l ih =>
      intro name address found
      rw [here_push]
      exact Nat.le_succ_of_le (ih name address found)
  | declare _ name ih =>
      intro other address found
      rw [NameMap.find?_insert] at found
      split at found
      · exact Nat.le_of_eq (Option.some.inj found).symm
      · exact ih other address found
  | other _ here labels ih =>
      intro name address found
      rw [here]
      exact ih name address (labels ▸ found)

end Reachable

end Generator

/-- Placing functions adds none. -/
theorem FunctionTable.size_foldl_placeAt {α : Type} (place : α → Placement) (ps : List α)
    (t : FunctionTable) : (ps.foldl (fun t p => t.placeAt (place p)) t).size = t.size := by
  induction ps generalizing t with
  | nil => rfl
  | cons p ps ih =>
      rw [List.foldl_cons, ih]
      simp [placeAt, FunctionTable.place, size]

/-! ## two generators -/

/-- Two generators that code is added to.  They know the same labels and equally many functions and
are inside of functions with the same parameters; where the labels and functions are, and what code
there is, may differ. -/
structure Relocation where
  first : Generator
  second : Generator
  reached : first.Reachable
  reached' : second.Reachable
  labels : ∀ name, second.labels.contains name = first.labels.contains name
  functions : second.functions.size = first.functions.size
  parameters : second.parameters = first.parameters

namespace Relocation

variable {r : Relocation} {c : Chunk} {g g' : Generator}

/-- Both generators have grown by the same chunk. -/
structure Alike (r : Relocation) (c : Chunk) (g g' : Generator) : Prop where
  first : r.first.Grows c g
  second : r.second.Grows c g'
  reached : g.Reachable
  reached' : g'.Reachable
  parameters : g'.parameters = g.parameters

/-- Two addresses in what has been added, at the same distance from its start. -/
def Offset (r : Relocation) (a b : Nat) : Prop :=
  ∃ k, r.first.here + k = a ∧ r.second.here + k = b

/-- Two such addresses, or none on both sides. -/
def OptionalOffset (r : Relocation) (x y : Option Nat) : Prop :=
  ∃ k : Option Nat, k.map (r.first.here + ·) = x ∧ k.map (r.second.here + ·) = y

/-- Two lists of such addresses. -/
def Offsets (r : Relocation) (as bs : List Nat) : Prop :=
  ∃ ks : List Nat, ks.map (r.first.here + ·) = as ∧ ks.map (r.second.here + ·) = bs

/-- The same instruction on both sides. -/
def Twins (r : Relocation) (i j : Instruction) : Prop :=
  ∃ k : Instruction, k.shift r.first.here = i ∧ k.shift r.second.here = j

theorem Offset.optional {a b : Nat} (h : r.Offset a b) : r.OptionalOffset (some a) (some b) := by
  obtain ⟨k, rfl, rfl⟩ := h
  exact ⟨some k, rfl, rfl⟩

/-- One more pair of addresses. -/
theorem Offset.cons {a b : Nat} {as bs : List Nat} (h : r.Offset a b) (hs : r.Offsets as bs) :
    r.Offsets (a :: as) (b :: bs) := by
  obtain ⟨k, rfl, rfl⟩ := h
  obtain ⟨ks, rfl, rfl⟩ := hs
  exact ⟨k :: ks, rfl, rfl⟩

/-- The first pair of addresses and the others. -/
theorem Offsets.of_cons {a b : Nat} {as bs : List Nat} (h : r.Offsets (a :: as) (b :: bs)) :
    r.Offset a b ∧ r.Offsets as bs := by
  obtain ⟨ks, first, second⟩ := h
  cases ks with
  | nil => cases first
  | cons k ks =>
      obtain ⟨rfl, rfl⟩ := List.cons.inj first
      obtain ⟨rfl, rfl⟩ := List.cons.inj second
      exact ⟨⟨k, rfl, rfl⟩, ks, rfl, rfl⟩

/-- As many addresses on both sides. -/
theorem Offsets.length_eq {as bs : List Nat} (h : r.Offsets as bs) : as.length = bs.length := by
  obtain ⟨ks, rfl, rfl⟩ := h
  rw [List.length_map, List.length_map]

/-- A jump to addresses at the same distance. -/
theorem Offset.twins {a b : Nat} (h : r.Offset a b) (jump : JumpTarget → Instruction)
    (carries : ∀ n target, (jump target).shift n = jump (target.shift n)) :
    r.Twins (jump (.address a)) (jump (.address b)) := by
  obtain ⟨k, rfl, rfl⟩ := h
  exact ⟨jump (.address k), carries .., carries ..⟩

theorem OptionalOffset.none : r.OptionalOffset none none := ⟨Option.none, rfl, rfl⟩

namespace Alike

/-- At the start neither generator has added anything. -/
theorem start (r : Relocation) : r.Alike {} r.first r.second :=
  ⟨.refl _, .refl _, r.reached, r.reached', r.parameters⟩

/-- The next addresses belong together. -/
theorem here (h : r.Alike c g g') : r.Offset g.here g'.here :=
  ⟨c.size, h.first.here.symm, h.second.here.symm⟩

/-- Both generators take the same instruction, each with its own addresses. -/
theorem push (h : r.Alike c g g') (i : Instruction) (l : Location) :
    r.Alike (c.push i) (g.push (i.shift r.first.here) l) (g'.push (i.shift r.second.here) l) :=
  ⟨h.first.push i l, h.second.push i l, h.reached.push _ l, h.reached'.push _ l, h.parameters⟩

/-- Both sides come to the same function. -/
theorem withParameters (h : r.Alike c g g') {parameters parameters' : Option (List String)}
    (same : parameters' = parameters) :
    r.Alike c (g.withParameters parameters) (g'.withParameters parameters') :=
  ⟨{ h.first with }, { h.second with }, h.reached.other rfl rfl, h.reached'.other rfl rfl, same⟩

/-- What is declared on one side is declared on the other. -/
theorem contains (h : r.Alike c g g') (name : String) :
    g'.labels.contains name = g.labels.contains name := by
  have side {o s : Generator} (grown : o.Grows c s) : s.labels.contains name = true ↔
      o.labels.contains name = true ∨ ∃ offset, (name, offset) ∈ c.labels := by
    simp only [NameMap.contains, Option.isSome_iff_exists, grown.labels]
    grind
  rw [Bool.eq_iff_iff, side h.second, side h.first, r.labels]

/-- Both sides have equally many functions, so an id is known on both sides or on none. -/
theorem get?_isSome (h : r.Alike c g g') (id : Nat) :
    (g'.functions.get? id).isSome = (g.functions.get? id).isSome := by
  have size : g'.functions.size = g.functions.size := by
    rw [h.second.functions, h.first.functions, FunctionTable.size_foldl_placeAt,
      FunctionTable.size_foldl_placeAt, r.functions]
  have known (t : FunctionTable) : (t.get? id).isSome = true ↔ id < t.size := by
    simp [FunctionTable.get?, FunctionTable.size]
  rw [Bool.eq_iff_iff, known, known, size]

/-- Both run off the end of their code or none of them does. -/
theorem fallsOffEnd (h : r.Alike c g g') (start : Nat) :
    g.fallsOffEnd (r.first.here + start) = c.fallsOff start ∧
      g'.fallsOffEnd (r.second.here + start) = c.fallsOff start :=
  ⟨h.first.fallsOffEnd r.reached.labelsBelow start,
    h.second.fallsOffEnd r.reached'.labelsBelow start⟩

end Alike

/-- Both runs succeed or fail with the same error, and have grown by the same chunk. -/
inductive Outcomes (r : Relocation) {α β : Type} (post : α → β → Prop) :
    EStateM.Result CompileError Generator α → EStateM.Result CompileError Generator β → Prop
  | ok {a : α} {b : β} {c : Chunk} {g g' : Generator} (result : post a b)
    (state : r.Alike c g g') : Outcomes r post (.ok a g) (.ok b g')
  | error {e : CompileError} {c : Chunk} {g g' : Generator} (state : r.Alike c g g') :
    Outcomes r post (.error e g) (.error e g')

end Relocation

namespace Generate

variable {α β γ δ : Type} {r : Relocation} {top scope : Scope}

/-- Two steps that do the same on both sides. -/
def Relocates (r : Relocation) (post : α → β → Prop) (x : Generate α) (y : Generate β) : Prop :=
  ∀ c g g', r.Alike c g g' → r.Outcomes post (x g) (y g')

/-- Nothing is said of what steps return. -/
def Done (_ _ : Unit) : Prop := True

/-! ## steps that look at the state -/

/-- Declaring a label, with the state at hand. -/
theorem declareLabel_eq (name : String) (l : Location) (g : Generator) :
    declareLabel name l g =
      if g.labels.contains name then .error ⟨l, .secondLabel name⟩ g
      else .ok () { g with
        log := g.log.push (.labelled name g.here)
        labels := g.labels.insert name g.here } := by
  unfold declareLabel
  rw [get_bind]
  split <;> rfl

/-- How a function ends whose code is complete. -/
def settle (l : Location) (id : Nat) (name : String) (skip start : Nat) (g : Generator) :
    EStateM.Result CompileError Generator Unit :=
  if (g.functions.get? id).isSome then
    .ok () { g.patchHere skip with functions := g.functions.place id start (g.here - 1) }
  else .error ⟨l, .unregisteredFunction name⟩ (g.patchHere skip)

/-- What is done at the end of a function, with the state at hand. -/
theorem settle_eq (l : Location) (id : Nat) (name : String) (skip start : Nat) (g : Generator) :
    (do
      let stop := (← here) - 1
      patchHere skip
      match (← get).functions.get? id with
      | none => fail l (.unregisteredFunction name)
      | some _ => modify fun g => { g with functions := g.functions.place id start stop } :
        Generate Unit) g = settle l id name skip start g := by
  have reads : here g = .ok g.here g := rfl
  have patches : patchHere skip g = .ok () (g.patchHere skip) := rfl
  unfold settle
  rw [bind_of_ok reads, bind_of_ok patches, get_bind]
  have same : (g.patchHere skip).functions.get? id = g.functions.get? id := rfl
  cases found : g.functions.get? id with
  | none =>
      rw [same, found]
      rfl
  | some f =>
      rw [same, found]
      rfl

/-- A function that runs off its end is given a return before it is settled. -/
theorem closeFunction_eq (l : Location) (id : Nat) (name : String) (skip start : Nat)
    (g : Generator) :
    closeFunction l id name skip start g =
      settle l id name skip start
        (if g.fallsOffEnd start then (g.push .pushNull l).push .ret l else g) := by
  unfold closeFunction
  rw [get_bind]
  cases g.fallsOffEnd start with
  | true => exact settle_eq l id name skip start ((g.push .pushNull l).push .ret l)
  | false => exact settle_eq l id name skip start g

namespace Relocates

/-- Two sequences run side by side if their first parts do and lead to where their second parts
do. -/
theorem bind {x : Generate α} {y : Generate β} {f : α → Generate γ} {f' : β → Generate δ}
    {post : α → β → Prop} {post' : γ → δ → Prop} (first : Relocates r post x y)
    (rest : ∀ a b, post a b → Relocates r post' (f a) (f' b)) :
    Relocates r post' (x >>= f) (y >>= f') := by
  intro c g g' alike
  have outcomes := first c g g' alike
  generalize run : x g = result at outcomes
  generalize run' : y g' = result' at outcomes
  cases outcomes with
  | @ok a b c₁ g₁ g₁' result state =>
      rw [bind_of_ok run, bind_of_ok run']
      exact rest a b result c₁ g₁ g₁' state
  | error state =>
      rw [bind_of_error run, bind_of_error run']
      exact .error state

/-- The same where nothing is returned first. -/
theorem andThen {x x' : Generate Unit} {y : Generate α} {y' : Generate β} {post : α → β → Prop}
    (first : Relocates r Done x x') (rest : Relocates r post y y') :
    Relocates r post (x >>= fun _ => y) (x' >>= fun _ => y') :=
  first.bind fun _ _ _ => rest

theorem ofPure {a : α} {b : β} {post : α → β → Prop} (h : post a b) :
    Relocates r post (pure a) (pure b) := fun _ _ _ alike => .ok h alike

theorem done : Relocates r Done (pure ()) (pure ()) := ofPure trivial

/-- Both fail for the same reason, with what they have added so far. -/
theorem fail {post : α → β → Prop} (l : Location) (cause : Cause) :
    Relocates r post (fail l cause) (fail l cause) := fun _ _ _ alike => .error alike

/-- What stands behind a failure is never reached. -/
theorem failBefore {f : α → Generate γ} {f' : β → Generate δ} {post : γ → δ → Prop} (l : Location)
    (cause : Cause) :
    Relocates r post (Generate.fail l cause >>= f) (Generate.fail l cause >>= f') := by
  have never : Relocates r (fun (_ : α) (_ : β) => False) (Generate.fail l cause)
    (Generate.fail l cause) := fail l cause
  exact never.bind fun _ _ reached => reached.elim

/-- Two changes of the generators keep them alike. -/
theorem ofModify {f f' : Generator → Generator}
    (h : ∀ c g g', r.Alike c g g' → ∃ c', r.Alike c' (f g) (f' g')) :
    Relocates r Done (modify f) (modify f') := by
  intro c g g' alike
  obtain ⟨c', state⟩ := h c g g' alike
  exact .ok trivial state

/-! ### elementary steps -/

theorem here : Relocates r r.Offset here here := fun _ _ _ alike => .ok alike.here alike

/-- Two instructions that belong together. -/
theorem putTwins {i j : Instruction} (twins : r.Twins i j) (l : Location) :
    Relocates r Done (put i l) (put j l) := by
  obtain ⟨k, rfl, rfl⟩ := twins
  exact ofModify fun c g g' alike => ⟨c.push k, alike.push k l⟩

/-- An instruction without an address. -/
theorem put {i : Instruction} (l : Location)
    (fixed : ∀ n, i.shift n = i := by exact fun _ => rfl) :
    Relocates r Done (put i l) (put i l) :=
  putTwins ⟨i, fixed _, fixed _⟩ l

/-- The addresses of a new instruction belong together. -/
theorem push {i : Instruction} (l : Location)
    (fixed : ∀ n, i.shift n = i := by exact fun _ => rfl) :
    Relocates r r.Offset (push i l) (push i l) :=
  here.bind fun _ _ offset => (put l fixed).andThen (ofPure offset)

/-- Code without targets is the same for both. -/
theorem putAll {code : List Instruction} (straight : ∀ i ∈ code, i.target? = none)
    (l : Location) : Relocates r Done (putAll code l) (putAll code l) := by
  induction code with
  | nil => exact done
  | cons i code ih =>
      obtain ⟨first, others⟩ := List.forall_mem_cons.1 straight
      exact (put l (Instruction.shift_of_straight first)).andThen (ih others)

/-- Two jumps that belong together are patched to where both generators are. -/
theorem patchHere {a b : Nat} (offset : r.Offset a b) :
    Relocates r Done (patchHere a) (patchHere b) := by
  obtain ⟨k, rfl, rfl⟩ := offset
  exact ofModify fun c g g' alike => ⟨c.patchHere k, alike.first.patchHere k,
    alike.second.patchHere k, alike.reached.patchHere _, alike.reached'.patchHere _,
    alike.parameters⟩

/-- Two ranges that belong together are patched. -/
theorem patchLoop {start start' stop stop' : Nat} {x x' y y' : Option Nat}
    (starts : r.Offset start start') (stops : r.Offset stop stop') (breaks : r.OptionalOffset x x')
    (continues : r.OptionalOffset y y') :
    Relocates r Done (patchLoop start stop x y) (patchLoop start' stop' x' y') := by
  obtain ⟨i, rfl, rfl⟩ := starts
  obtain ⟨j, rfl, rfl⟩ := stops
  obtain ⟨b, rfl, rfl⟩ := breaks
  obtain ⟨k, rfl, rfl⟩ := continues
  exact ofModify fun c g g' alike => ⟨c.patchLoop i j b k, alike.first.patchLoop i j b k,
    alike.second.patchLoop i j b k, alike.reached.patchLoop .., alike.reached'.patchLoop ..,
    alike.parameters⟩

/-- A label that is new for both, since both declare the same ones. -/
theorem declareLabel (name : String) (l : Location) :
    Relocates r Done (declareLabel name l) (declareLabel name l) := by
  intro c g g' alike
  rw [declareLabel_eq, declareLabel_eq, alike.contains]
  cases old : g.labels.contains name with
  | true => exact .error alike
  | false =>
      have new : g.labels.find? name = none := NameMap.contains_eq_false_iff.1 old
      have new' : g'.labels.find? name = none :=
        NameMap.contains_eq_false_iff.1 ((alike.contains name).trans old)
      exact .ok (c := c.declare name) trivial ⟨{ alike.first.declare new with },
        { alike.second.declare new' with }, (alike.reached.declare name).other rfl rfl,
        (alike.reached'.declare name).other rfl rfl, alike.parameters⟩

/-- Two jumps that belong together wait for the same label. -/
theorem awaitLabel (name : String) {a b : Nat} (offset : r.Offset a b) (l : Location) :
    Relocates r Done (awaitLabel name a l) (awaitLabel name b l) := by
  obtain ⟨k, rfl, rfl⟩ := offset
  exact ofModify fun c g g' alike => ⟨c.await ⟨name, k, l⟩, alike.first.await ⟨name, k, l⟩,
    alike.second.await ⟨name, k, l⟩, alike.reached.other rfl rfl, alike.reached'.other rfl rfl,
    alike.parameters⟩

/-- Both sides see the same names, with the expansions of the same host. -/
theorem visible : Relocates r (fun names names' => names' = names ∧
    names.environment = top.environment) (visible top) (visible top) := by
  intro c g g' alike
  refine .ok ⟨?_, top.environment_inside g.parameters⟩ alike
  rw [alike.parameters]

/-- Both generators see the parameters of the function while they generate its body. -/
theorem inFunction {x : Generate α} {y : Generate β} {post : α → β → Prop}
    (parameters : List String) (body : Relocates r post x y) :
    Relocates r post (inFunction parameters x) (inFunction parameters y) := by
  intro c g g' alike
  have inner := body c (g.withParameters (some parameters)) (g'.withParameters (some parameters))
    (alike.withParameters rfl)
  unfold Generate.inFunction
  generalize x (g.withParameters (some parameters)) = result at inner ⊢
  generalize y (g'.withParameters (some parameters)) = result' at inner ⊢
  cases inner with
  | ok result state => exact .ok result (state.withParameters alike.parameters)
  | error state => exact .error (state.withParameters alike.parameters)

/-- A read of a name is straight code, so it has no addresses. -/
theorem readName (macros : scope.environment.MacrosStayInLine) (l : Location) (name : String) :
    Relocates r Done (readName scope l name) (readName scope l name) := by
  unfold Generate.readName
  split
  next constant _ => cases constant <;> exact put l
  next code _ found => exact putAll (macros name code found) l
  · exact put l
  · exact put l

/-- What stores into a name has no address. -/
theorem nameSetter (l : Location) (name : String) :
    Relocates r r.Twins (nameSetter scope l name) (nameSetter scope l name) := by
  unfold Generate.nameSetter
  split
  · exact fail l _
  · exact ofPure ⟨.setIdentifier name, rfl, rfl⟩

/-- Whether a static function exists does not depend on the generator. -/
theorem checkStaticCall (l : Location) (template name : String) (argc : Nat) :
    Relocates r Done (checkStaticCall scope l template name argc)
      (checkStaticCall scope l template name argc) := by
  unfold Generate.checkStaticCall
  split
  · exact fail l _
  · split
    · exact fail l _
    · exact done

/-- A function is settled behind code that is not empty, so that its last address lies in it. -/
theorem settle {c : Chunk} {g g' : Generator} (alike : r.Alike c g g') (nonempty : 0 < c.size)
    (l : Location) (id : Nat) (name : String) {skip skip' start start' : Nat}
    (skips : r.Offset skip skip') (starts : r.Offset start start') :
    r.Outcomes Done (settle l id name skip start g) (settle l id name skip' start' g') := by
  obtain ⟨i, rfl, rfl⟩ := skips
  obtain ⟨k, rfl, rfl⟩ := starts
  unfold Generate.settle
  rw [alike.get?_isSome id]
  have stop : g.here - 1 = r.first.here + (c.size - 1) := by
    rw [alike.first.here]
    omega
  have stop' : g'.here - 1 = r.second.here + (c.size - 1) := by
    rw [alike.second.here]
    omega
  have patched := alike.first.patchHere i
  have patched' := alike.second.patchHere i
  have reached := alike.reached.patchHere (r.first.here + i)
  have reached' := alike.reached'.patchHere (r.second.here + i)
  cases (g.functions.get? id).isSome with
  | false => exact .error ⟨patched, patched', reached, reached', alike.parameters⟩
  | true =>
      rw [stop, stop']
      exact .ok trivial ⟨patched.place ⟨id, k, c.size - 1⟩, patched'.place ⟨id, k, c.size - 1⟩,
        reached.other rfl rfl, reached'.other rfl rfl, alike.parameters⟩

/-- Two functions are closed around ranges that belong together. -/
theorem closeFunction (l : Location) (id : Nat) (name : String) {skip skip' start start' : Nat}
    (skips : r.Offset skip skip') (starts : r.Offset start start') :
    Relocates r Done (closeFunction l id name skip start)
      (closeFunction l id name skip' start') := by
  intro c g g' alike
  obtain ⟨k, rfl, rfl⟩ := starts
  obtain ⟨falls, falls'⟩ := alike.fallsOffEnd k
  rw [closeFunction_eq, closeFunction_eq, falls, falls']
  have starts : r.Offset (r.first.here + k) (r.second.here + k) := ⟨k, rfl, rfl⟩
  cases ends : c.fallsOff k with
  | true =>
      have closed := (alike.push .pushNull l).push .ret l
      refine settle closed ?_ l id name skips starts
      rw [Chunk.size_push]
      exact Nat.succ_pos _
  | false => exact settle alike (Chunk.size_pos_of_not_fallsOff ends) l id name skips starts

end Relocates

/-! ## trees -/

theorem fieldSetter_relocates (node : Node) :
    Relocates r r.Twins (fieldSetter node) (fieldSetter node) := by
  cases node with
  | identifier _ name => exact .ofPure ⟨.setField name, rfl, rfl⟩
  | _ => exact .fail _ _

/-- A field is read and stored by name. -/
theorem fieldGetterAndSetter_relocates (node : Node) :
    Relocates r r.Twins (fieldGetterAndSetter node) (fieldGetterAndSetter node) := by
  cases node with
  | identifier l name =>
      exact (Relocates.put l).andThen <| (Relocates.put l).andThen <|
        .ofPure ⟨.setField name, rfl, rfl⟩
  | _ => exact .fail _ _

/-- An increment or decrement, wherever its value is left. -/
theorem adjust_relocates {target : Node}
    (both : Relocates r r.Twins (emitGetterAndSetter target scope)
      (emitGetterAndSetter target scope)) (l : Location) (kind : AdjustKind)
    (direction : Direction) :
    Relocates r Done (emit (.adjust l kind target direction) scope)
      (emit (.adjust l kind target direction) scope) := by
  have twice : Relocates r Done (put .duplicate l) (put .duplicate l) := .put l
  have sum {rest rest' : Generate Unit} (h : Relocates r Done rest rest') : Relocates r Done (do
      put (.pushNumber direction.number) l
      put (.binaryOp .add) l
      rest) (do
      put (.pushNumber direction.number) l
      put (.binaryOp .add) l
      rest') := (Relocates.put l).andThen <| (Relocates.put l).andThen h
  -- The value of a field cannot be stepped on the way.
  cases kind with
  | before =>
      have rest := both.bind fun _ _ setter => sum (twice.andThen (.putTwins setter l))
      cases target with
      | chain => exact .failBefore l _
      | _ => exact rest
  | after =>
      have rest := both.bind fun _ _ setter => twice.andThen (sum (.putTwins setter l))
      cases target with
      | chain => exact .failBefore l _
      | _ => exact rest
  | statement => exact both.bind fun _ _ setter => sum (.putTwins setter l)

end Generate

/-- The instructions that a directive brings along do not jump; where it is nothing but its name
there are none. -/
def Occurrence.Straight (o : Occurrence) : Prop :=
  match o.node with
  | .directive _ _ code _ => ∀ i ∈ code, i.target? = none
  | _ => True

/-- No directive in a tree brings jumps along. -/
def Straight (os : List Occurrence) : Prop := ∀ o ∈ os, o.Straight

namespace Straight

variable {o : Occurrence} {os os' : List Occurrence}

theorem top (h : Straight (o :: os)) : o.Straight := h o List.mem_cons_self

theorem inner (h : Straight (o :: os)) : Straight os := (List.forall_mem_cons.1 h).2

theorem left (h : Straight (os ++ os')) : Straight os := (List.forall_mem_append.1 h).1

theorem right (h : Straight (os ++ os')) : Straight os' := (List.forall_mem_append.1 h).2

end Straight

namespace Generate

variable {r : Relocation} {top : Scope}

-- The addresses that are patched come from `push` and `here`, so they are offsets.

mutual

/-- The code of a node is the same but for its addresses, by induction on the tree.  Each address in
it is one that both generators have counted in the same way. -/
theorem emit_relocates (macros : top.environment.MacrosStayInLine) :
    (node : Node) → (ps : List String) → Straight (node.occurrences ps) →
    Relocates r Done (emit node top) (emit node top)
  | .null l, _, _ | .number l _, _, _ | .string l _, _, _ => .put l
  | .identifier l name, _, _ => by
      refine Relocates.visible.bind ?_
      rintro names _ ⟨rfl, host⟩
      exact .readName (host ▸ macros) l name
  | .chain _ current remaining, ps, h =>
      (emit_relocates macros current ps h.inner.left).andThen
        (emitLinks_relocates macros remaining ps h.inner.right)
  | .call l _ arguments, ps, h =>
      (emitAll_relocates macros arguments ps h.inner).andThen (.put l)
  | .staticCall l template name arguments, ps, h =>
      (Relocates.checkStaticCall l template name _).andThen <|
        (emitAll_relocates macros arguments ps h.inner).andThen (.put l)
  | .unary l _ operand, ps, h => (emit_relocates macros operand ps h.inner).andThen (.put l)
  | .binary l op left right, ps, h => by
      refine (emit_relocates macros left ps h.inner.left).andThen ?_
      have second := emit_relocates macros right ps h.inner.right
      cases op with
      | and | or =>
          exact (Relocates.push l).bind fun _ _ skip => second.andThen (.patchHere skip)
      | _ => exact second.andThen (.put l)
  | .block _ statements, ps, h => emitAll_relocates macros statements ps h.inner
  | .returns l none, _, _ => (Relocates.put l).andThen (.put l)
  | .returns l (some value), ps, h => (emit_relocates macros value ps h.inner).andThen (.put l)
  | .discard l value, ps, h => (emit_relocates macros value ps h.inner).andThen (.put l)
  | .branch l condition accepted none, ps, h =>
      (emit_relocates macros condition ps h.inner.left.left).andThen <|
        (Relocates.push l).bind fun _ _ skip =>
          (emit_relocates macros accepted ps h.inner.left.right).andThen (.patchHere skip)
  | .branch l condition accepted (some otherwise), ps, h =>
      (emit_relocates macros condition ps h.inner.left.left).andThen <|
        (Relocates.push l).bind fun _ _ skipAccepted =>
          (emit_relocates macros accepted ps h.inner.left.right).andThen <|
            (Relocates.push l).bind fun _ _ skipOtherwise =>
              (Relocates.patchHere skipAccepted).andThen <|
                (emit_relocates macros otherwise ps h.inner.right).andThen
                  (.patchHere skipOtherwise)
  | .switch l kind value cases fallback, ps, h =>
      (emit_relocates macros value ps h.inner.left.left.left).andThen <|
        (emitTests_relocates macros cases ps h.inner.left.left.right).bind fun _ _ tests =>
          (Relocates.put l).andThen <| (Relocates.push l).bind fun _ _ toFallback =>
            Relocates.here.bind fun _ _ start =>
              (emitBodies_relocates macros cases kind tests ps h.inner.left.right).andThen <|
                (Relocates.patchHere toFallback).andThen <|
                  (emitOptional_relocates macros fallback ps h.inner.right).andThen <|
                    Relocates.here.bind fun _ _ stop => .patchLoop start stop stop.optional .none
  | .assign l none target value, ps, h =>
      (emitSetter_relocates macros target ps h.inner.left).bind fun _ _ setter =>
        (emit_relocates macros value ps h.inner.right).andThen (.putTwins setter l)
  | .assign l (some op) target value, ps, h =>
      (emitGetterAndSetter_relocates macros target ps h.inner.left).bind fun _ _ setter =>
        (emit_relocates macros value ps h.inner.right).andThen <|
          (Relocates.put l).andThen (.putTwins setter l)
  | .adjust l kind target direction, ps, h =>
      adjust_relocates (emitGetterAndSetter_relocates macros target ps h.inner) l kind direction
  | .whileLoop l condition body, ps, h =>
      Relocates.here.bind fun _ _ start =>
        (emit_relocates macros condition ps h.inner.left).andThen <|
          (Relocates.push l).bind fun _ _ exit => Relocates.here.bind fun _ _ bodyStart =>
            (emit_relocates macros body ps h.inner.right).andThen <|
              (Relocates.putTwins (start.twins .jump fun _ _ => rfl) l).andThen <|
                Relocates.here.bind fun _ _ stop => (Relocates.patchHere exit).andThen <|
                  .patchLoop bodyStart stop stop.optional start.optional
  | .doLoop l body condition, ps, h =>
      Relocates.here.bind fun _ _ start =>
        (emit_relocates macros body ps h.inner.left).andThen <|
          Relocates.here.bind fun _ _ check =>
            (emit_relocates macros condition ps h.inner.right).andThen <|
              (Relocates.putTwins (start.twins .jumpIf fun _ _ => rfl) l).andThen <|
                Relocates.here.bind fun _ _ stop =>
                  .patchLoop start check stop.optional check.optional
  | .forLoop l init condition post body, ps, h =>
      (emit_relocates macros init ps h.inner.left.left.left).andThen <|
        Relocates.here.bind fun _ _ start =>
          (emit_relocates macros condition ps h.inner.left.left.right).andThen <|
            (Relocates.push l).bind fun _ _ exit => Relocates.here.bind fun _ _ bodyStart =>
              (emit_relocates macros body ps h.inner.left.right).andThen <|
                Relocates.here.bind fun _ _ postStart =>
                  (emit_relocates macros post ps h.inner.right).andThen <|
                    (Relocates.putTwins (start.twins .jump fun _ _ => rfl) l).andThen <|
                      Relocates.here.bind fun _ _ stop => (Relocates.patchHere exit).andThen <|
                        .patchLoop bodyStart stop stop.optional postStart.optional
  | .leave l, _, _ | .proceed l, _, _ | .back l, _, _ => .put l
  | .label l name statement, ps, h =>
      (Relocates.declareLabel name l).andThen (emit_relocates macros statement ps h.inner)
  | .jump l name, _, _ | .callLabel l name, _, _ =>
      (Relocates.push l).bind fun _ _ address => .awaitLabel name address l
  | .directive l _ code statements, ps, h =>
      (Relocates.putAll h.top l).andThen (emitAll_relocates macros statements ps h.inner)
  | .function l id name parameters body, _, h =>
      (Relocates.push l).bind fun _ _ skip => Relocates.here.bind fun _ _ start =>
        (Relocates.inFunction parameters (emit_relocates macros body parameters h.inner)).andThen
          (.closeFunction l id name skip start)

theorem emitAll_relocates (macros : top.environment.MacrosStayInLine) : (nodes : List Node) →
    (ps : List String) → Straight (occurrencesOfAll ps nodes) →
    Relocates r Done (emitAll nodes top) (emitAll nodes top)
  | [], _, _ => .done
  | node :: nodes, ps, h =>
      (emit_relocates macros node ps h.left).andThen (emitAll_relocates macros nodes ps h.right)

theorem emitOptional_relocates (macros : top.environment.MacrosStayInLine) : (node : Option Node) →
    (ps : List String) → Straight (occurrencesOfOptional ps node) →
    Relocates r Done (emitOptional node top) (emitOptional node top)
  | none, _, _ => .done
  | some node, ps, h => emit_relocates macros node ps h

/-- A link is an instruction behind its arguments. -/
theorem emitLink_relocates (macros : top.environment.MacrosStayInLine) (node : Node)
    (ps : List String) (h : Straight (node.occurrencesOfLink ps)) :
    Relocates r Done (emitLink node top) (emitLink node top) := by
  cases node with
  | identifier l _ => exact .put l
  | call l _ arguments => exact (emitAll_relocates macros arguments ps h.inner).andThen (.put l)
  | _ => exact .fail _ _

theorem emitLinks_relocates (macros : top.environment.MacrosStayInLine) (node : Node)
    (ps : List String) (h : Straight (node.occurrencesOfLinks ps)) :
    Relocates r Done (emitLinks node top) (emitLinks node top) := by
  cases node with
  | chain _ current remaining =>
      exact (emitLink_relocates macros current ps h.left).andThen
        (emitLinks_relocates macros remaining ps h.right)
  | identifier l _ => exact .put l
  | call l _ arguments => exact (emitAll_relocates macros arguments ps h.inner).andThen (.put l)
  | _ => exact .fail _ _

theorem emitReceiver_relocates (macros : top.environment.MacrosStayInLine) (node : Node)
    (ps : List String) (h : Straight (node.occurrencesOfLinks ps)) :
    Relocates r Done (emitReceiver node top) (emitReceiver node top) := by
  cases node with
  | chain _ current remaining =>
      exact (emitLink_relocates macros current ps h.left).andThen
        (emitReceiver_relocates macros remaining ps h.right)
  | _ => exact .done

/-- A store has its receiver put before it. -/
theorem emitSetter_relocates (macros : top.environment.MacrosStayInLine) (target : Node)
    (ps : List String) (h : Straight (target.occurrences ps)) :
    Relocates r r.Twins (emitSetter target top) (emitSetter target top) := by
  cases target with
  | identifier l name =>
      refine Relocates.visible.bind ?_
      rintro names _ ⟨rfl, -⟩
      exact .nameSetter l name
  | chain _ current remaining =>
      exact (emit_relocates macros current ps h.inner.left).andThen <|
        (emitReceiver_relocates macros remaining ps h.inner.right).andThen
          (fieldSetter_relocates _)
  | _ => exact .fail _ _

/-- A target is read before it is stored into. -/
theorem emitGetterAndSetter_relocates (macros : top.environment.MacrosStayInLine) (target : Node)
    (ps : List String) (h : Straight (target.occurrences ps)) :
    Relocates r r.Twins (emitGetterAndSetter target top)
      (emitGetterAndSetter target top) := by
  cases target with
  | identifier l name =>
      refine Relocates.visible.bind ?_
      rintro names _ ⟨rfl, host⟩
      exact (Relocates.nameSetter l name).bind fun _ _ setter =>
        (Relocates.readName (host ▸ macros) l name).andThen (.ofPure setter)
  | chain _ current remaining =>
      exact (emit_relocates macros current ps h.inner.left).andThen <|
        (emitReceiver_relocates macros remaining ps h.inner.right).andThen
          (fieldGetterAndSetter_relocates _)
  | _ => exact .fail _ _

/-- The jumps behind the comparisons belong together. -/
theorem emitTests_relocates (macros : top.environment.MacrosStayInLine) :
    (cases : List SwitchCase) → (ps : List String) → Straight (occurrencesOfValues ps cases) →
    Relocates r r.Offsets (emitTests cases top) (emitTests cases top)
  | [], _, _ => .ofPure ⟨[], rfl, rfl⟩
  | .mk value _ :: cases, ps, h =>
      (emit_relocates macros value ps h.left).andThen <|
        (Relocates.push _).bind fun _ _ test =>
          (emitTests_relocates macros cases ps h.right).bind fun _ _ tests =>
            .ofPure (test.cons tests)

/-- Bodies patch the jumps of their comparisons, which belong together. -/
theorem emitBodies_relocates (macros : top.environment.MacrosStayInLine) :
    (cases : List SwitchCase) → (kind : SwitchKind) → {tests tests' : List Nat} →
    r.Offsets tests tests' → (ps : List String) → Straight (occurrencesOfBodies ps cases) →
    Relocates r Done (emitBodies cases kind tests top)
      (emitBodies cases kind tests' top)
  | .mk _ body :: cases, kind, test :: tests, test' :: tests', offsets, ps, h => by
      obtain ⟨here, others⟩ := offsets.of_cons
      have rest := emitBodies_relocates macros cases kind others ps h.right
      refine (Relocates.patchHere here).andThen <|
        (emit_relocates macros body ps h.left).andThen ?_
      cases kind with
      | select => exact (Relocates.put _).andThen rest
      | switch => exact rest
  | [], _, _, _, _, _, _ => .done
  | .mk .. :: _, _, [], [], _, _, _ => .done
  | .mk .. :: _, _, [], _ :: _, offsets, _, _ => absurd offsets.length_eq (by simp)
  | .mk .. :: _, _, _ :: _, [], offsets, _, _ => absurd offsets.length_eq (by simp)

end

end Generate

/-- The code of a tree does not depend on what stands before it.  If neither the system macros nor
the directives in the tree bring jumps along, it is added to both generators or refused on both
sides with the same error.  Either way they have grown by one chunk: the instructions, new labels,
jumps to labels and placed functions are the same on both sides when addresses are counted from the
start of the chunk. -/
theorem generated_code_relocates (r : Relocation) {scope : Scope}
    (macros : scope.environment.MacrosStayInLine) {node : Node}
    (straight : ∀ o ∈ node.occurrences scope.parameters, o.Straight) :
    ∃ c g g', r.first.Grows c g ∧ r.second.Grows c g' ∧ g.Reachable ∧ g'.Reachable ∧
      (Generate.emit node scope r.first = .ok () g ∧
          Generate.emit node scope r.second = .ok () g' ∨
        ∃ e, Generate.emit node scope r.first = .error e g ∧
          Generate.emit node scope r.second = .error e g') := by
  have outcomes := Generate.emit_relocates macros node scope.parameters straight _ _ _ (.start r)
  generalize run : Generate.emit node scope r.first = result at outcomes ⊢
  generalize run' : Generate.emit node scope r.second = result' at outcomes ⊢
  cases outcomes with
  | @ok _ _ c g g' _ state =>
      exact ⟨c, g, g', state.first, state.second, state.reached, state.reached', .inl ⟨rfl, rfl⟩⟩
  | @error e c g g' state =>
      exact ⟨c, g, g', state.first, state.second, state.reached, state.reached',
        .inr ⟨e, rfl, rfl⟩⟩

/-- A generator that knows the function `f` and has reached the label `top`. -/
def atTop (g : Generator) : Generator :=
  { g with
    labels := g.labels.insert "top" g.here
    functions := FunctionTable.register {} "f" ["x"] }

/-- The label at the start of the code, and behind two instructions. -/
def behindTop : Relocation where
  first := atTop {}
  second := atTop ((Generator.push {} .pushNull default).push .discard default)
  reached := (Generator.Reachable.start.declare "top").other rfl rfl
  reached' := (((Generator.Reachable.start.push .pushNull default).push .discard default).declare
    "top").other rfl rfl
  labels name := by
    simp only [atTop, Generator.push, NameMap.contains, NameMap.find?_insert]
    split <;> rfl
  functions := rfl
  parameters := rfl

/-- The system macro `now`. -/
def clockScope : Scope where
  environment := { systemMacros := NameMap.empty.insert "now" [.pushIdentifier "clock"] }
  parameters := []

/-- `#fast function f(x) { while x break; } label end: if now jump top;` -/
def loopBehindTop (l : Location) : Node :=
  .block l [.directive l "fast" [] [],
    .function l 0 "f" ["x"] (.whileLoop l (.identifier l "x") (.leave l)),
    .label l "end" (.branch l (.identifier l "now") (.jump l "top") none)]

/-- The function and the branch behind it, at the start of the code and two instructions later.  The
loop can leave the function at its end, which is therefore closed by a return on both sides. -/
theorem generated_code_relocates_behindTop :
    ∃ c g g', behindTop.first.Grows c g ∧ behindTop.second.Grows c g' ∧
      Generate.emit (loopBehindTop default) clockScope behindTop.first = .ok () g ∧
      Generate.emit (loopBehindTop default) clockScope behindTop.second = .ok () g' ∧
      g.listing = [.jump (.address 7), .pushArgument 0, .jumpUnless (.address 5),
        .jump (.address 5), .jump (.address 1), .pushNull, .ret, .pushIdentifier "clock",
        .jumpUnless (.address 10), .jump .unresolved] ∧
      g'.listing.drop 2 = [.jump (.address 9), .pushArgument 0, .jumpUnless (.address 7),
        .jump (.address 7), .jump (.address 3), .pushNull, .ret, .pushIdentifier "clock",
        .jumpUnless (.address 12), .jump .unresolved] ∧
      g.labels.entries = [("end", 7), ("top", 0)] ∧
      g'.labels.entries = [("end", 9), ("top", 2)] := by
  have macros : clockScope.environment.MacrosStayInLine := by decide
  have straight : ∀ o ∈ (loopBehindTop default).occurrences clockScope.parameters, o.Straight := by
    simp [loopBehindTop, Node.occurrences, occurrencesOfAll, occurrencesOfOptional,
      Occurrence.Straight]
  obtain ⟨c, g, g', grown, grown', -, -, ⟨run, run'⟩ | ⟨e, failed, -⟩⟩ :=
    generated_code_relocates behindTop macros straight
  · obtain ⟨-, rfl⟩ := EStateM.Result.ok.inj run
    obtain ⟨-, rfl⟩ := EStateM.Result.ok.inj run'
    exact ⟨c, _, _, grown, grown', run, run', rfl, rfl, rfl, rfl⟩
  · cases failed

end HostScript
