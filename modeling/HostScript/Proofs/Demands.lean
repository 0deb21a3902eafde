import HostScript.Proofs.Emission
import HostScript.Proofs.Occurrences
import HostScript.Proofs.Tree

/-!
# HostScript.Proofs.Demands

When code generation succeeds.  `Demands n top scope os x` says of a step that it succeeds exactly
if the occurrences `os` are valid and declare no label twice, and that the generator then holds the
labels, jumps and calls of `os` in addition.  It is said of generators with `n` functions at points
where a script with the names of `top` sees those of `scope`.  Steps in sequence demand the
occurrences of both, so the demands of a tree are found by going through the functions of `emit`.
-/

namespace HostScript

variable {env : Environment} {os os' : List Occurrence} {g g' g'' : Generator}

/-! ## what a generator holds -/

namespace Generator

/-- The functions that are called by their names. -/
def calls (g : Generator) : List Signature := g.listing.filterMap (·.callee?)

/-- A label of this name is declared. -/
def Declares (g : Generator) (name : String) : Prop := (g.labels.find? name).isSome

/-- A jump to this label waits to be linked. -/
def Wants (g : Generator) (name : String) : Prop := ∃ address, g.Waits name address

/-- Where a jump goes is no call. -/
theorem callee?_mapTarget (i : Instruction) (f : JumpTarget → JumpTarget) :
    (i.mapTarget f).callee? = i.callee? := by
  cases i <;> rfl

/-- A new label is declared in addition to the others. -/
theorem declares_insert {g : Generator} {name : String} {address : Nat} {log : Log}
    (other : String) :
    ({ g with log, labels := g.labels.insert name address } : Generator).Declares other ↔
      g.Declares other ∨ other = name := by
  unfold Declares
  rw [NameMap.find?_insert]
  split
  next same => simp [same]
  next different => simp [Ne.symm different]

/-- A new instruction may be one more call. -/
@[simp] theorem calls_push (g : Generator) (i : Instruction) (l : Location) :
    (g.push i l).calls = g.calls ++ i.callee?.toList := by
  rw [calls, listing_push, List.filterMap_append]
  cases i <;> rfl

/-- What items have in common with their changed selves is found in both lists. -/
theorem filterMap_mapIdx {α β : Type} {c : α → Option β} {f : Nat → α → α}
    (same : ∀ k x, c (f k x) = c x) (xs : List α) : (xs.mapIdx f).filterMap c = xs.filterMap c := by
  induction xs generalizing f with
  | nil => rfl
  | cons x xs ih =>
      rw [List.mapIdx_cons, List.filterMap_cons, List.filterMap_cons, same,
        ih fun k => same (k + 1)]

/-- The same where one item changes. -/
theorem filterMap_modify {α β : Type} {c : α → Option β} {f : α → α} (same : ∀ x, c (f x) = c x)
    (xs : List α) (k : Nat) : (xs.modify k f).filterMap c = xs.filterMap c := by
  induction xs generalizing k with
  | nil => simp
  | cons x xs ih =>
      cases k with
      | zero => rw [List.modify_zero_cons, List.filterMap_cons, List.filterMap_cons, same]
      | succ k => rw [List.modify_succ_cons, List.filterMap_cons, List.filterMap_cons, ih]

/-- A patch adds no call. -/
@[simp] theorem calls_patchHere (g : Generator) (address : Nat) :
    (g.patchHere address).calls = g.calls := by
  rw [calls, listing_patchHere]
  exact filterMap_modify (fun i => callee?_mapTarget i _) _ _

@[simp] theorem calls_patchLoop (g : Generator) (start stop : Nat) (x y : Option Nat) :
    (g.patchLoop start stop x y).calls = g.calls := by
  rw [calls, listing_patchLoop]
  refine filterMap_mapIdx (fun k i => ?_) _
  split
  · exact callee?_mapTarget i _
  · rfl

end Generator

/-- `g'` holds what `g` does, and the labels, jumps and calls of `os`. -/
structure Adds (env : Environment) (os : List Occurrence) (g g' : Generator) : Prop where
  functions : g'.functions.signatures = g.functions.signatures
  parameters : g'.parameters = g.parameters
  labels : ∀ name, g'.Declares name ↔ g.Declares name ∨ name ∈ labelsOf os
  wants : ∀ name, g'.Wants name ↔ g.Wants name ∨ name ∈ wantedOf os
  calls : ∀ call, call ∈ g'.calls ↔ call ∈ g.calls ∨ call ∈ callsOf env os

namespace Adds

/-- No function is added. -/
theorem size (h : Adds env os g g') : g'.functions.size = g.functions.size := by
  rw [← FunctionTable.length_signatures, h.functions, FunctionTable.length_signatures]

/-- What can be seen is the same. -/
theorem names {top scope : Scope} (h : Adds env os g g') (names : top.inside g.parameters = scope) :
    top.inside g'.parameters = scope := by
  rw [h.parameters, names]

/-- One step after the other adds what both add. -/
theorem trans (first : Adds env os g g') (second : Adds env os' g' g'') :
    Adds env (os ++ os') g g'' where
  functions := second.functions.trans first.functions
  parameters := second.parameters.trans first.parameters
  labels name := by
    rw [second.labels, first.labels, labelsOf, labelsOf, labelsOf, List.filterMap_append,
      List.mem_append, or_assoc]
  wants name := by
    rw [second.wants, first.wants, wantedOf, wantedOf, wantedOf, List.filterMap_append,
      List.mem_append, or_assoc]
  calls call := by
    rw [second.calls, first.calls, callsOf, callsOf, callsOf, List.flatMap_append,
      List.mem_append, or_assoc]

/-- The order of the occurrences does not matter. -/
theorem perm (h : Adds env os g g') (same : os.Perm os') : Adds env os' g g' where
  functions := h.functions
  parameters := h.parameters
  labels name := by rw [h.labels, labelsOf, labelsOf, (same.filterMap _).mem_iff]
  wants name := by rw [h.wants, wantedOf, wantedOf, (same.filterMap _).mem_iff]
  calls call := by rw [h.calls, callsOf, callsOf, (same.flatMap_right _).mem_iff]

/-- What a single node adds. -/
theorem single {o : Occurrence} (functions : g'.functions.signatures = g.functions.signatures)
    (parameters : g'.parameters = g.parameters)
    (labels : ∀ name, g'.Declares name ↔ g.Declares name ∨ o.label? = some name)
    (wants : ∀ name, g'.Wants name ↔ g.Wants name ∨ o.wanted? = some name)
    (calls : g'.calls = g.calls ++ o.calls env) : Adds env [o] g g' where
  functions := functions
  parameters := parameters
  labels name := by simp [labels, labelsOf]
  wants name := by simp [wants, wantedOf]
  calls call := by simp [calls, callsOf]

end Adds

/-- The labels of `os` are all different, and none of them is declared yet. -/
def Fresh (os : List Occurrence) (g : Generator) : Prop :=
  (labelsOf os).Nodup ∧ ∀ name ∈ labelsOf os, ¬ g.Declares name

/-- Labels are new in a sequence if those of its first part are, and then those of its second. -/
theorem fresh_append (first : Adds env os g g') :
    Fresh (os ++ os') g ↔ Fresh os g ∧ Fresh os' g' := by
  unfold Fresh
  rw [labelsOf, List.filterMap_append, List.nodup_append, List.forall_mem_append]
  simp only [first.labels, labelsOf]
  grind

/-- The labels of the first part of a sequence are new. -/
theorem Fresh.of_append (h : Fresh (os ++ os') g) : Fresh os g := by
  unfold Fresh at h ⊢
  rw [labelsOf, List.filterMap_append, List.nodup_append, List.forall_mem_append] at h
  exact ⟨h.1.1, h.2.1⟩

/-- A node that is in order and neither declares, wants nor calls anything. -/
structure Occurrence.Idle (env : Environment) (o : Occurrence) : Prop where
  valid : o.Valid env
  label : o.label? = none
  wanted : o.wanted? = none
  calls : o.calls env = []

namespace Generate

/-- A step succeeds exactly if `os` are in order, and then adds what is in them. -/
structure Demands {α : Type} (n : Nat) (top scope : Scope) (os : List Occurrence)
    (x : Generate α) : Prop where
  succeeds : ∀ g, g.functions.size = n → top.inside g.parameters = scope →
    (Succeeds x g ↔ (∀ o ∈ os, o.Valid scope.environment) ∧ Fresh os g)
  adds : ∀ g a g', top.inside g.parameters = scope → x g = .ok a g' →
    Adds scope.environment os g g'

namespace Demands

variable {α β : Type} {n : Nat} {top scope : Scope} {x : Generate α} {f : α → Generate β}

/-- A sequence demands what both parts demand, where the second part may rely on the success of the
first. -/
theorem bindOk (first : Demands n top scope os x)
    (rest : ∀ a g g', top.inside g.parameters = scope → x g = .ok a g' →
      Demands n top scope os' (f a)) :
    Demands n top scope (os ++ os') (x >>= f) where
  succeeds g size names := by
    rw [List.forall_mem_append]
    constructor
    · rintro ⟨b, g'', run⟩
      obtain ⟨a, g', run₁, run₂⟩ := bind_eq_ok.1 run
      have added := first.adds g a g' names run₁
      obtain ⟨valid, fresh⟩ := (first.succeeds g size names).1 ⟨a, g', run₁⟩
      obtain ⟨valid', fresh'⟩ := ((rest a g g' names run₁).succeeds g' (added.size.trans size)
        (added.names names)).1 ⟨b, g'', run₂⟩
      exact ⟨⟨valid, valid'⟩, (fresh_append added).2 ⟨fresh, fresh'⟩⟩
    · rintro ⟨⟨valid, valid'⟩, fresh⟩
      obtain ⟨a, g', run₁⟩ := (first.succeeds g size names).2 ⟨valid, fresh.of_append⟩
      have added := first.adds g a g' names run₁
      obtain ⟨b, g'', run₂⟩ := ((rest a g g' names run₁).succeeds g' (added.size.trans size)
        (added.names names)).2 ⟨valid', ((fresh_append added).1 fresh).2⟩
      exact ⟨b, g'', bind_eq_ok.2 ⟨a, g', run₁, run₂⟩⟩
  adds g b g'' names run := by
    obtain ⟨a, g', run₁, run₂⟩ := bind_eq_ok.1 run
    have added := first.adds g a g' names run₁
    exact added.trans ((rest a g g' names run₁).adds g' b g'' (added.names names) run₂)

/-- The usual form of `bindOk`. -/
theorem bind (first : Demands n top scope os x) (rest : ∀ a, Demands n top scope os' (f a)) :
    Demands n top scope (os ++ os') (x >>= f) :=
  first.bindOk fun a _ _ _ _ => rest a

/-- The last step demands nothing. -/
theorem bindLast (first : Demands n top scope os x) (rest : ∀ a, Demands n top scope [] (f a)) :
    Demands n top scope os (x >>= f) := by
  have both := first.bind rest
  rwa [List.append_nil] at both

/-- The order of the occurrences does not matter. -/
theorem perm (h : Demands n top scope os x) (same : os.Perm os') : Demands n top scope os' x where
  succeeds g size names := by
    have fresh : Fresh os g ↔ Fresh os' g := by
      unfold Fresh
      rw [labelsOf, labelsOf, (same.filterMap _).nodup_iff]
      simp only [(same.filterMap _).mem_iff]
    rw [h.succeeds g size names, fresh]
    simp only [same.mem_iff]
  adds g a g' names run := (h.adds g a g' names run).perm same

/-! ## steps that demand nothing -/

/-- A step that always succeeds and leaves labels, jumps and calls as they are. -/
theorem free (h : ∀ g, Succeeds x g)
    (adds : ∀ g a g', x g = .ok a g' → Adds scope.environment [] g g') :
    Demands n top scope [] x where
  succeeds g _ _ := by simp [h g, Fresh, labelsOf]
  adds g a g' _ := adds g a g'

theorem ofPure (a : α) : Demands n top scope [] (pure a : Generate α) :=
  free (fun g => ⟨a, g, rfl⟩) fun g b g' run => by
    obtain ⟨-, rfl⟩ := pure_eq_ok.1 run
    exact ⟨rfl, rfl, by simp [labelsOf], by simp [wantedOf], by simp [callsOf]⟩

/-- A change of the generator that leaves functions, parameters, labels, jumps and calls alone. -/
theorem ofModify {f : Generator → Generator}
    (functions : ∀ g, (f g).functions.signatures = g.functions.signatures)
    (parameters : ∀ g, (f g).parameters = g.parameters)
    (labels : ∀ g, (f g).labels = g.labels) (pending : ∀ g, (f g).pending = g.pending)
    (calls : ∀ g, (f g).calls = g.calls) : Demands n top scope [] (modify f : Generate Unit) :=
  free (fun g => ⟨⟨⟩, f g, rfl⟩) fun g _ g' run => by
    obtain rfl := modify_eq_ok.1 run
    exact ⟨functions g, parameters g, by simp [Generator.Declares, labels, labelsOf],
      by simp [Generator.Wants, Generator.Waits, pending, wantedOf], by simp [calls, callsOf]⟩

/-- An instruction that is no call demands nothing. -/
theorem put {i : Instruction} (h : i.callee? = none) (l : Location) :
    Demands n top scope [] (put i l) :=
  ofModify (fun _ => rfl) (fun _ => rfl) (fun _ => rfl) (fun _ => rfl) fun g => by
    rw [Generator.calls_push, h, Option.toList_none, List.append_nil]

theorem here : Demands n top scope [] here :=
  free (fun g => ⟨g.here, g, rfl⟩) fun g _ g' run => by
    obtain ⟨-, rfl⟩ := here_eq_ok.1 run
    exact ⟨rfl, rfl, by simp [labelsOf], by simp [wantedOf], by simp [callsOf]⟩

theorem push {i : Instruction} (h : i.callee? = none) (l : Location) :
    Demands n top scope [] (push i l) :=
  here.bind fun _ => (put h l).bind fun _ => ofPure _

theorem patchHere (address : Nat) : Demands n top scope [] (patchHere address) :=
  ofModify (fun _ => rfl) (fun _ => rfl) (fun _ => rfl) (fun _ => rfl) fun g =>
    g.calls_patchHere address

theorem patchLoop (start stop : Nat) (x y : Option Nat) :
    Demands n top scope [] (patchLoop start stop x y) :=
  ofModify (fun _ => rfl) (fun _ => rfl) (fun _ => rfl) (fun _ => rfl) fun g =>
    g.calls_patchLoop start stop x y

/-- An occurrence that is valid anyway, with no label and no call, demands nothing. -/
theorem idle {o : Occurrence} (idle : o.Idle scope.environment) (h : Demands n top scope os x) :
    Demands n top scope (o :: os) x where
  succeeds g size names := by
    have labels : labelsOf (o :: os) = labelsOf os := List.filterMap_cons_none idle.label
    rw [h.succeeds g size names, List.forall_mem_cons, Fresh, Fresh, labels]
    simp only [idle.valid, true_and]
  adds g a g' names run := by
    have added := h.adds g a g' names run
    refine ⟨added.functions, added.parameters, fun name => ?_, fun name => ?_, fun call => ?_⟩
    · rw [added.labels, labelsOf, labelsOf, List.filterMap_cons_none idle.label]
    · rw [added.wants, wantedOf, wantedOf, List.filterMap_cons_none idle.wanted]
    · rw [added.calls, callsOf, callsOf, List.flatMap_cons, idle.calls, List.nil_append]

/-- A step that never succeeds, as one of the occurrences is not in order. -/
theorem never {o : Occurrence} (found : o ∈ os) (invalid : ¬ o.Valid scope.environment)
    (fails : ∀ g a g', top.inside g.parameters = scope → x g ≠ .ok a g') :
    Demands n top scope os x where
  succeeds g _ names :=
    ⟨fun ⟨a, g', run⟩ => absurd run (fails g a g' names),
      fun ⟨valid, _⟩ => absurd (valid o found) invalid⟩
  adds g a g' names run := absurd run (fails g a g' names)

/-! ## single occurrences -/

variable {parameters : List String}

/-- A step that carries out what one node stands for. -/
theorem single {o : Occurrence}
    (succeeds : ∀ g, top.inside g.parameters = scope → (Succeeds x g ↔
      o.Valid scope.environment ∧ ∀ name, o.label? = some name → ¬ g.Declares name))
    (adds : ∀ g a g', top.inside g.parameters = scope → x g = .ok a g' →
      Adds scope.environment [o] g g') : Demands n top scope [o] x where
  succeeds g _ names := by
    rw [succeeds g names, List.forall_mem_singleton]
    unfold Fresh labelsOf
    cases label : o.label? with
    | none => simp [label]
    | some name => simp [label]
  adds := adds

/-- A call to what the node calls, if it calls anything. -/
theorem putCall {i : Instruction} {o : Occurrence} (valid : o.Valid scope.environment)
    (label : o.label? = none) (wanted : o.wanted? = none)
    (calls : o.calls scope.environment = i.callee?.toList) (l : Location) :
    Demands n top scope [o] (Generate.put i l) :=
  single (fun g _ => by simp [Succeeds, valid, label, put_eq_ok]) fun g _ g' _ run => by
    obtain rfl := put_eq_ok.1 run
    refine .single rfl rfl (fun name => ?_) (fun name => ?_) ?_
    · simp [label, Generator.Declares, Generator.push]
    · simp [wanted, Generator.Wants, Generator.Waits, Generator.push]
    · rw [Generator.calls_push, calls]

/-- An expansion always succeeds and adds its calls. -/
theorem putAll_eq_ok (code : List Instruction) (l : Location) (g : Generator) :
    ∃ g', Generate.putAll code l g = .ok ⟨⟩ g' ∧ g'.functions = g.functions ∧
      g'.labels = g.labels ∧ g'.pending = g.pending ∧
      g'.calls = g.calls ++ code.filterMap (·.callee?) := by
  induction code generalizing g with
  | nil => exact ⟨g, rfl, rfl, rfl, rfl, by simp⟩
  | cons i code ih =>
      obtain ⟨g', run, functions, labels, pending, calls⟩ := ih (g.push i l)
      refine ⟨g', ?_, functions, labels, pending, ?_⟩
      · rw [putAll_cons]
        exact bind_eq_ok.2 ⟨⟨⟩, _, put_eq_ok.2 rfl, run⟩
      · rw [calls, Generator.calls_push, List.append_assoc, List.filterMap_cons]
        cases i.callee? <;> rfl

/-- The only calls of a read are those of the expansion of its name. -/
theorem callees_readCode (scope : Scope) (name : String) :
    (readCode scope name).filterMap (·.callee?) =
      (scope.environment.expansion name).filterMap (·.callee?) := by
  unfold readCode Environment.expansion
  cases scope.environment.constant? name with
  | some constant => cases constant <;> simp [Constant.instruction, Instruction.callee?]
  | none =>
      cases scope.environment.systemMacro? name with
      | some code => rfl
      | none => cases scope.parameters.idxOf? name <;> simp [Instruction.callee?]

/-- Reading a name calls what it expands to. -/
theorem readName (l : Location) (name : String) :
    Demands n top scope [⟨.identifier l name, false, scope.parameters⟩]
      (Generate.readName scope l name) := by
  rw [readName_eq]
  refine single (fun g _ => ?_) fun g u g' _ run => ?_
  · obtain ⟨g', run, -⟩ := putAll_eq_ok (readCode scope name) l g
    simp [Succeeds, run, Occurrence.Valid, Occurrence.label?]
  · obtain ⟨g₁, run₁, functions, labels, pending, calls⟩ :=
      putAll_eq_ok (readCode scope name) l g
    have extends_ := putAll_extends run₁
    rw [run₁] at run
    cases run
    refine .single (by rw [functions]) extends_.parameters (fun other => ?_) (fun other => ?_) ?_
    · simp [Generator.Declares, labels, Occurrence.label?]
    · simp [Generator.Wants, Generator.Waits, pending, Occurrence.wanted?]
    · rw [calls, callees_readCode]
      rfl

/-- A label demands to be new. -/
theorem declareLabel {statement : Node} (l : Location) (name : String) :
    Demands n top scope [⟨.label l name statement, false, parameters⟩]
      (Generate.declareLabel name l) := by
  have run (g : Generator) : Generate.declareLabel name l g =
      if g.labels.contains name then .error ⟨l, .secondLabel name⟩ g
      else .ok ⟨⟩ { g with
        log := g.log.push (.labelled name g.here), labels := g.labels.insert name g.here } := by
    show (if g.labels.contains name then _ else _ : Generate Unit) g = _
    split <;> rfl
  have known (g : Generator) : g.labels.contains name = true ↔ g.Declares name := by
    rw [← Bool.not_eq_false, NameMap.contains_eq_false_iff]
    exact Option.isSome_iff_ne_none.symm
  refine single (fun g _ => ?_) fun g u g' _ ok => ?_
  · rw [Succeeds, run]
    by_cases old : g.Declares name
    · simp [(known g).2 old, old, Occurrence.label?]
    · simp [mt (known g).1 old, old, Occurrence.label?, Occurrence.Valid]
  · rw [run] at ok
    split at ok
    · cases ok
    · cases ok
      refine .single rfl rfl (fun other => ?_) (fun other => ?_) ?_
      · simp [Generator.declares_insert, Occurrence.label?, eq_comm]
      · simp [Generator.Wants, Generator.Waits, Occurrence.wanted?]
      · simp [Generator.calls, Generator.listing, Occurrence.calls]

/-- A jump to a label adds its wish, which is looked at when the program is finished. -/
theorem awaitLabel {o : Occurrence} {name : String} (valid : o.Valid scope.environment)
    (label : o.label? = none) (wanted : o.wanted? = some name)
    (calls : o.calls scope.environment = []) (address : Nat) (l : Location) :
    Demands n top scope [o] (Generate.awaitLabel name address l) :=
  single (fun g _ => by simp [Succeeds, valid, label, Generate.awaitLabel, modify_eq_ok])
    fun g _ g' _ run => by
    have waits := (awaitLabel_extends run).waits
    obtain rfl := modify_eq_ok.1 run
    refine .single rfl rfl (fun other => ?_) (fun other => ?_) ?_
    · simp [label, Generator.Declares]
    · simp [wanted, Generator.Wants, waits, exists_or, eq_comm]
    · rw [calls, List.append_nil]
      rfl

/-- A static call demands that its function exists. -/
theorem checkStaticCall (l : Location) (template name : String) (arguments : List Node) :
    Demands n top scope [⟨.staticCall l template name arguments, false, scope.parameters⟩]
      (Generate.checkStaticCall top l template name arguments.length) := by
  refine single (fun g names => ?_) fun g u g' _ run => ?_
  · rw [← names, Scope.environment_inside]
    unfold Generate.checkStaticCall
    simp only [Succeeds, Occurrence.Valid, Occurrence.label?, Environment.HasStatic]
    cases top.environment.template? template with
    | none => simp [fail_ne_ok]
    | some t =>
        cases found : t.staticFunction? name arguments.length with
        | none => simp [found, fail_ne_ok]
        | some _ => simp [found, pure_eq_ok]
  · obtain rfl := checkStaticCall_eq_ok run
    exact .single rfl rfl (by simp [Occurrence.label?]) (by simp [Occurrence.wanted?])
      (by simp [Occurrence.calls])

/-- A registered function finds its place in the table. -/
theorem place {id : Nat} (registered : id < n) (l : Location) (name : String) (start stop : Nat) :
    Demands n top scope [] (do
      match (← get).functions.get? id with
      | none => Generate.fail l (.unregisteredFunction name)
      | some _ => modify fun g => { g with functions := g.functions.place id start stop }) where
  succeeds g size _ := by
    subst size
    have found : g.functions.get? id = some g.functions.functions[id] :=
      Array.getElem?_eq_getElem registered
    refine ⟨fun _ => ⟨nofun, List.nodup_nil, nofun⟩, fun _ => ?_⟩
    refine ⟨⟨⟩, { g with functions := g.functions.place id start stop }, bind_eq_ok.2 ?_⟩
    refine ⟨g, g, rfl, ?_⟩
    rw [found]
    rfl
  adds g u g' _ run := by
    simp only [bind_eq_ok, get_eq_ok] at run
    obtain ⟨_, _, ⟨rfl, rfl⟩, run⟩ := run
    cases found : g.functions.get? id with
    | none => exact absurd (by simpa [found] using run) fail_ne_ok
    | some f =>
        simp only [found, modify_eq_ok] at run
        subst run
        exact ⟨FunctionTable.signatures_place .., rfl, by simp [Generator.Declares, labelsOf],
          by simp [Generator.Wants, Generator.Waits, wantedOf],
          by simp [Generator.calls, Generator.listing, callsOf]⟩

/-- A step that goes on with the names that can be seen. -/
theorem seeing {f : Scope → Generate β} (h : Demands n top scope os (f scope)) :
    Demands n top scope os (visible top >>= f) := by
  have run (g : Generator) (names : top.inside g.parameters = scope) :
      (visible top >>= f) g = f scope g := by
    rw [← names]
    rfl
  refine ⟨fun g size names => ?_, fun g a g' names ok => ?_⟩
  · rw [Succeeds, run g names]
    exact h.succeeds g size names
  · rw [run g names] at ok
    exact h.adds g a g' names ok

/-- A function demands what its body does with the parameters of the function. -/
theorem inFunction (h : Demands n top { scope with parameters } os x) :
    Demands n top scope os (Generate.inFunction parameters x) := by
  have inside {g : Generator} (names : top.inside g.parameters = scope) :
      top.inside (g.withParameters (some parameters)).parameters = { scope with parameters } := by
    rw [← names]
    exact congrArg (Scope.mk · parameters) (top.environment_inside g.parameters).symm
  refine ⟨fun g size names => ?_, fun g a g' names ok => ?_⟩
  · refine Iff.trans ?_ (h.succeeds (g.withParameters (some parameters)) size (inside names))
    simp only [Succeeds, inFunction_eq_ok]
    constructor
    · rintro ⟨a, _, g₁, run, -⟩
      exact ⟨a, g₁, run⟩
    · rintro ⟨a, g₁, run⟩
      exact ⟨a, _, g₁, run, rfl⟩
  · obtain ⟨g₁, run, rfl⟩ := inFunction_eq_ok.1 ok
    have added := h.adds _ a g₁ (inside names) run
    exact ⟨added.functions, rfl, added.labels, added.wants, added.calls⟩

/-- A function whose id is in the table can be closed. -/
theorem closeFunction {id : Nat} (registered : id < n) (l : Location) (name : String)
    (skip start : Nat) : Demands n top scope [] (Generate.closeFunction l id name skip start) := by
  have get : Demands n top scope [] (get : Generate Generator) :=
    free (fun g => ⟨g, g, rfl⟩) fun g _ g' run => by
      obtain ⟨-, rfl⟩ := get_eq_ok.1 run
      exact ⟨rfl, rfl, by simp [labelsOf], by simp [wantedOf], by simp [callsOf]⟩
  have place (stop : Nat) := (place registered l name start (stop - 1) : Demands n top scope [] _)
  have rest := here.bind fun stop => (patchHere skip).bind fun _ => place stop
  unfold Generate.closeFunction
  refine get.bind fun g => ?_
  split
  · exact (put rfl l).bind fun _ => (put rfl l).bind fun _ => rest
  · exact rest

end Demands

/-! ## assignments -/

variable {n : Nat} {top scope : Scope}

/-- A name can be stored into unless it is a constant, an expansion or a parameter. -/
theorem readOnly?_eq_none_iff {name : String} : readOnly? scope name = none ↔
    scope.environment.constant? name = none ∧ scope.environment.systemMacro? name = none ∧
      name ∉ scope.parameters := by
  unfold readOnly?
  cases scope.environment.constant? name with
  | some constant => simp
  | none =>
      cases scope.environment.systemMacro? name with
      | some code => simp
      | none => by_cases known : name ∈ scope.parameters <;> simp [known]

/-- What a setter can be found for is assignable, and the setter calls nothing. -/
theorem nameSetter_assignable {l : Location} {name : String} {i : Instruction} {g g' : Generator}
    (run : nameSetter scope l name g = .ok i g') :
    Assignable scope.environment scope.parameters (.identifier l name) ∧ i.callee? = none := by
  obtain ⟨variable_, rfl, -⟩ := nameSetter_eq_ok.1 run
  exact ⟨readOnly?_eq_none_iff.1 variable_, rfl⟩

/-- A name that can be stored into demands nothing. -/
theorem nameSetter_demands (l : Location) {name : String}
    (assignable : Assignable scope.environment scope.parameters (.identifier l name)) :
    Demands n top scope [] (nameSetter scope l name) := by
  unfold nameSetter
  rw [readOnly?_eq_none_iff.2 assignable]
  exact .ofPure _

/-- A target that is stored into is one that can be, and the store is no call. -/
theorem emitSetter_assignable {target : Node} {i : Instruction} {g g' : Generator}
    (names : top.inside g.parameters = scope) (run : emitSetter target top g = .ok i g') :
    Assignable scope.environment scope.parameters target ∧ i.callee? = none := by
  cases target with
  | identifier l name =>
      simp only [emitSetter, bind_eq_ok, visible_eq_ok, names] at run
      obtain ⟨_, _, ⟨rfl, rfl⟩, setter⟩ := run
      exact nameSetter_assignable setter
  | chain l current remaining =>
      simp only [emitSetter, bind_eq_ok] at run
      obtain ⟨_, _, -, _, _, -, last⟩ := run
      cases field : remaining.lastLink with
      | identifier l name =>
          rw [field] at last
          obtain ⟨rfl, -⟩ := pure_eq_ok.1 last
          exact ⟨⟨l, name, field⟩, rfl⟩
      | _ =>
          rw [field] at last
          exact absurd last fail_ne_ok
  | _ => exact absurd run fail_ne_ok

/-- A target that is read and stored into is one that can be, and the store is no call. -/
theorem emitGetterAndSetter_assignable {target : Node} {i : Instruction} {g g' : Generator}
    (names : top.inside g.parameters = scope)
    (run : emitGetterAndSetter target top g = .ok i g') :
    Assignable scope.environment scope.parameters target ∧ i.callee? = none := by
  cases target with
  | identifier l name =>
      simp only [emitGetterAndSetter, bind_eq_ok, visible_eq_ok, names, pure_eq_ok] at run
      obtain ⟨_, _, ⟨rfl, rfl⟩, _, _, setter, _, _, -, rfl, -⟩ := run
      exact nameSetter_assignable setter
  | chain l current remaining =>
      simp only [emitGetterAndSetter, bind_eq_ok] at run
      obtain ⟨_, _, -, _, _, -, last⟩ := run
      cases field : remaining.lastLink with
      | identifier l name =>
          rw [field] at last
          simp only [fieldGetterAndSetter, bind_eq_ok, pure_eq_ok] at last
          obtain ⟨_, _, -, _, _, -, rfl, -⟩ := last
          exact ⟨⟨l, name, field⟩, rfl⟩
      | _ =>
          rw [field] at last
          exact absurd last fail_ne_ok
  | _ => exact absurd run fail_ne_ok

/-- A node that sets its target demands that it is assignable. -/
theorem Demands.setting {β : Type} {o : Occurrence} {target : Node} {x : Generate Instruction}
    {f : Instruction → Generate β}
    (label : o.label? = none) (wanted : o.wanted? = none) (calls : o.calls scope.environment = [])
    (valid : o.Valid scope.environment ↔ Assignable scope.environment scope.parameters target)
    (setter : ∀ g i g', top.inside g.parameters = scope → x g = .ok i g' →
      Assignable scope.environment scope.parameters target ∧ i.callee? = none)
    (first : Assignable scope.environment scope.parameters target → Demands n top scope os x)
    (rest : ∀ i, i.callee? = none → Demands n top scope os' (f i)) :
    Demands n top scope (o :: (os ++ os')) (x >>= f) := by
  by_cases assignable : Assignable scope.environment scope.parameters target
  · refine .idle ⟨valid.2 assignable, label, wanted, calls⟩ ?_
    exact (first assignable).bindOk fun i g g' names run => rest i (setter g i g' names run).2
  · refine .never (List.mem_cons_self ..) (mt valid.1 assignable) fun g b g' names run => ?_
    obtain ⟨i, g₁, run₁, -⟩ := bind_eq_ok.1 run
    exact assignable (setter g i g₁ names run₁).1

/-- An increment or decrement demands that its target is assignable, and no field if its value is
used. -/
theorem adjust_demands {target : Node}
    (both : Assignable scope.environment scope.parameters target →
      Demands n top scope (target.occurrences scope.parameters)
        (emitGetterAndSetter target top)) (l : Location) (kind : AdjustKind)
    (direction : Direction) :
    Demands n top scope ((Node.adjust l kind target direction).occurrences scope.parameters)
      (emit (.adjust l kind target direction) top) := by
  have rest (i : Instruction) (h : i.callee? = none) : Demands n top scope [] (do
      if kind = .after then put .duplicate l
      put (.pushNumber direction.number) l
      put (.binaryOp .add) l
      if kind = .before then put .duplicate l
      put i l) := by
    have twice : Demands n top scope [] (put .duplicate l) := .put rfl l
    have sum {next : Generate Unit} (h : Demands n top scope [] next) :
        Demands n top scope [] (do
          put (.pushNumber direction.number) l
          put (.binaryOp .add) l
          next) := (Demands.put rfl l).bind fun _ => (Demands.put rfl l).bind fun _ => h
    cases kind with
    | before => exact sum (twice.bind fun _ => .put h l)
    | after => exact twice.bind fun _ => sum (.put h l)
    | statement => exact sum (.put h l)
  have step (free : kind ≠ .statement → ¬ target.IsChain) :=
    Demands.setting (o := ⟨.adjust l kind target direction, false, scope.parameters⟩) rfl rfl rfl
      (and_iff_left free) (fun _ _ _ names run => emitGetterAndSetter_assignable names run) both
      rest
  have never (used : kind ≠ .statement) (chain : target.IsChain) {x : Unit → Generate Unit} :
      Demands n top scope
        ((Node.adjust l kind target direction).occurrences scope.parameters)
        (fail l .fieldIncrement >>= x) :=
    .never (List.mem_cons_self ..) (fun valid => valid.2 used chain) fun g a g' _ run => by
      obtain ⟨_, _, failed, -⟩ := bind_eq_ok.1 run
      exact fail_ne_ok failed
  rw [List.append_nil] at step
  simp only [emit]
  split
  · exact never (by decide) trivial
  · exact never (by decide) trivial
  · refine step fun used chain => ?_
    cases target with
    | chain => cases kind <;> simp_all
    | _ => exact chain

/-! ## expressions -/

mutual

/-- Code for an expression demands what its occurrences demand, by induction on the tree. -/
theorem expression_demands : (node : Node) → IsExpression node →
    Demands n top scope (node.occurrences scope.parameters) (emit node top)
  | .null l, _ | .number l _, _ | .string l _, _ => .idle ⟨trivial, rfl, rfl, rfl⟩ (.put rfl l)
  | .identifier l name, _ => .seeing (.readName l name)
  | .chain l current remaining, h =>
      .idle ⟨trivial, rfl, rfl, rfl⟩
        ((expression_demands current h.1).bind fun _ => links_demands remaining h.2)
  | .call l name arguments, h => by
      have call : Demands n top scope [⟨.call l name arguments, false, scope.parameters⟩]
          (put (.call name arguments.length) l) :=
        .putCall (o := ⟨.call l name arguments, false, scope.parameters⟩) trivial rfl rfl rfl l
      exact ((expressions_demands arguments h).bind fun _ => call).perm List.perm_append_comm
  | .staticCall l template name arguments, h =>
      (Demands.checkStaticCall l template name arguments).bind fun _ =>
        (expressions_demands arguments h).bindLast fun _ => .put rfl l
  | .unary l op operand, h =>
      .idle ⟨trivial, rfl, rfl, rfl⟩ ((expression_demands operand h).bindLast fun _ => .put rfl l)
  | .binary l op left right, h => by
      refine .idle ⟨trivial, rfl, rfl, rfl⟩ ((expression_demands left h.1).bind fun _ => ?_)
      have second := expression_demands right h.2
      cases op with
      | and | or =>
          exact (Demands.push rfl l).bind fun skip => second.bindLast fun _ => .patchHere skip
      | _ => exact second.bindLast fun _ => .put rfl l
  | .adjust l kind target direction, h =>
      adjust_demands (getterAndSetter_demands target h.2) l kind direction

theorem expressions_demands : (nodes : List Node) → AreExpressions nodes →
    Demands n top scope (occurrencesOfAll scope.parameters nodes) (emitAll nodes top)
  | [], _ => .ofPure _
  | node :: nodes, h => (expression_demands node h.1).bind fun _ => expressions_demands nodes h.2

/-- A link demands what its arguments demand. -/
theorem link_demands : (node : Node) → IsLink node →
    Demands n top scope (node.occurrencesOfLink scope.parameters) (emitLink node top)
  | .identifier l _, _ => .idle ⟨trivial, rfl, rfl, rfl⟩ (.put rfl l)
  | .call l _ arguments, h =>
      .idle ⟨trivial, rfl, rfl, rfl⟩
        ((expressions_demands arguments h).bindLast fun _ => .put rfl l)

theorem links_demands : (node : Node) → AreLinks node →
    Demands n top scope (node.occurrencesOfLinks scope.parameters) (emitLinks node top)
  | .chain _ current remaining, h =>
      (link_demands current h.1).bind fun _ => links_demands remaining h.2
  | .identifier l _, _ => .idle ⟨trivial, rfl, rfl, rfl⟩ (.put rfl l)
  | .call l _ arguments, h =>
      .idle ⟨trivial, rfl, rfl, rfl⟩
        ((expressions_demands arguments h).bindLast fun _ => .put rfl l)

/-- The links of a chain but the last, which is a field and demands nothing. -/
theorem receiver_demands {l : Location} {name : String} : (node : Node) → AreLinks node →
    node.lastLink = .identifier l name →
    Demands n top scope (node.occurrencesOfLinks scope.parameters) (emitReceiver node top)
  | .chain _ current remaining, h, field =>
      (link_demands current h.1).bind fun _ => receiver_demands remaining h.2 field
  | .identifier .., _, _ => .idle ⟨trivial, rfl, rfl, rfl⟩ (.ofPure _)

/-- A target that can be stored into demands what its receiver demands. -/
theorem getterAndSetter_demands : (target : Node) → IsExpression target →
    Assignable scope.environment scope.parameters target →
    Demands n top scope (target.occurrences scope.parameters)
      (emitGetterAndSetter target top)
  | .identifier l name, _, assignable =>
      .seeing ((nameSetter_demands l assignable).bind fun _ =>
        (Demands.readName l name).bindLast fun _ => .ofPure _)
  | .chain _ current remaining, h, ⟨l, name, field⟩ => by
      refine .idle ⟨trivial, rfl, rfl, rfl⟩ ((expression_demands current h.1).bind fun _ => ?_)
      refine (receiver_demands remaining h.2 field).bindLast fun _ => ?_
      rw [field]
      exact (Demands.put rfl l).bind fun _ => (Demands.put rfl l).bind fun _ => .ofPure _

end

theorem setter_demands : (target : Node) → IsExpression target →
    Assignable scope.environment scope.parameters target →
    Demands n top scope (target.occurrences scope.parameters) (emitSetter target top)
  | .identifier l name, _, assignable => by
      refine .idle ⟨trivial, rfl, rfl, ?_⟩ (.seeing (nameSetter_demands l assignable))
      simp [Occurrence.calls, Environment.expansion, assignable.1, assignable.2.1]
  | .chain _ current remaining, h, ⟨l, name, field⟩ => by
      refine .idle ⟨trivial, rfl, rfl, rfl⟩ ((expression_demands current h.1).bind fun _ => ?_)
      refine (receiver_demands remaining h.2 field).bindLast fun _ => ?_
      rw [field]
      exact .ofPure _

/-! ## statements -/

/-- The comparisons demand what the case values demand. -/
theorem tests_demands {allowed : Allowed} (cases : List SwitchCase) (h : AreCases n allowed cases) :
    Demands n top scope (occurrencesOfValues scope.parameters cases)
      (emitTests cases top) := by
  induction cases with
  | nil => exact .ofPure _
  | cons first cases ih =>
      obtain ⟨value, body⟩ := first
      refine (expression_demands value h.1).bind fun _ => ?_
      exact (Demands.push rfl _).bind fun _ => (ih h.2.2).bindLast fun _ => .ofPure _

/-- There is one comparison for each case. -/
theorem length_tests {cases : List SwitchCase} {g g' : Generator} {tests : List Nat}
    (run : emitTests cases top g = .ok tests g') : tests.length = cases.length := by
  induction cases generalizing g g' tests with
  | nil =>
      obtain ⟨rfl, -⟩ := pure_eq_ok.1 run
      rfl
  | cons first cases ih =>
      obtain ⟨value, body⟩ := first
      simp only [emitTests, bind_eq_ok, pure_eq_ok] at run
      obtain ⟨_, _, -, _, _, -, rest, _, run, rfl, -⟩ := run
      rw [List.length_cons, List.length_cons, ih run]

mutual

/-- Code for a statement demands what its occurrences demand, by induction on the tree. -/
theorem statement_demands {allowed : Allowed} : (node : Node) → (scope : Scope) →
    IsStatement n allowed node →
    Demands n top scope (node.occurrences scope.parameters) (emit node top)
  | .block _ statements, _, h => .idle ⟨trivial, rfl, rfl, rfl⟩ (statements_demands statements _ h)
  | .returns l none, _, _ =>
      .idle ⟨trivial, rfl, rfl, rfl⟩ ((Demands.put rfl l).bind fun _ => .put rfl l)
  | .returns l (some value), _, h | .discard l value, _, h =>
      .idle ⟨trivial, rfl, rfl, rfl⟩ ((expression_demands value h).bindLast fun _ => .put rfl l)
  | .branch l condition accepted otherwise, scope, h => by
      refine .idle ⟨trivial, rfl, rfl, rfl⟩ ?_
      show Demands n top scope (_ ++ _ ++ _) _
      rw [List.append_assoc]
      cases otherwise with
      | none =>
          refine (expression_demands condition h.1).bind fun _ => ?_
          refine (Demands.push rfl l).bind fun skip => ?_
          exact (statement_demands accepted _ h.2.1).bind fun _ => .patchHere skip
      | some otherwise =>
          refine (expression_demands condition h.1).bind fun _ => ?_
          refine (Demands.push rfl l).bind fun skipAccepted => ?_
          refine (statement_demands accepted _ h.2.1).bind fun _ => ?_
          refine (Demands.push rfl l).bind fun skipOtherwise => ?_
          refine (Demands.patchHere skipAccepted).bind fun _ => ?_
          exact (statement_demands otherwise _ h.2.2).bindLast fun _ => .patchHere skipOtherwise
  | .switch l kind value cases fallback, scope, h => by
      refine .idle ⟨trivial, rfl, rfl, rfl⟩ ?_
      show Demands n top scope (_ ++ _ ++ _ ++ _) _
      rw [List.append_assoc, List.append_assoc]
      refine (expression_demands value h.1).bind fun _ => ?_
      refine (tests_demands cases h.2.1).bindOk fun tests g g' _ run => ?_
      refine (Demands.put rfl l).bind fun _ => (Demands.push rfl l).bind fun toFallback => ?_
      refine Demands.here.bind fun start => ?_
      refine (bodies_demands cases kind tests _ h.2.1 (length_tests run)).bind fun _ => ?_
      refine (Demands.patchHere toFallback).bind fun _ => ?_
      exact (optional_demands fallback _ h.2.2).bindLast fun _ => Demands.here.bind fun stop =>
        .patchLoop ..
  | .assign l none target value, _, h =>
      .setting rfl rfl rfl Iff.rfl (fun _ _ _ names run => emitSetter_assignable names run)
        (setter_demands target h.1) fun setter calls =>
          (expression_demands value h.2).bindLast fun _ => .put calls l
  | .assign l (some op) target value, _, h =>
      .setting rfl rfl rfl Iff.rfl (fun _ _ _ names run => emitGetterAndSetter_assignable names run)
        (getterAndSetter_demands target h.1) fun setter calls =>
          (expression_demands value h.2).bindLast fun _ =>
            (Demands.put rfl l).bind fun _ => .put calls l
  | .adjust l kind target direction, _, h =>
      adjust_demands (getterAndSetter_demands target h.2) l kind direction
  | .whileLoop l condition body, _, h => by
      refine .idle ⟨trivial, rfl, rfl, rfl⟩ (Demands.here.bind fun start => ?_)
      refine (expression_demands condition h.1).bind fun _ => ?_
      refine (Demands.push rfl l).bind fun exit => Demands.here.bind fun bodyStart => ?_
      refine (statement_demands body _ h.2).bindLast fun _ => (Demands.put rfl l).bind fun _ => ?_
      exact Demands.here.bind fun stop => (Demands.patchHere exit).bind fun _ => .patchLoop ..
  | .doLoop l body condition, _, h => by
      refine .idle ⟨trivial, rfl, rfl, rfl⟩ (Demands.here.bind fun start => ?_)
      refine (statement_demands body _ h.1).bind fun _ => Demands.here.bind fun check => ?_
      refine (expression_demands condition h.2).bindLast fun _ =>
        (Demands.put rfl l).bind fun _ => ?_
      exact Demands.here.bind fun stop => .patchLoop ..
  | .forLoop l init condition post body, scope, h => by
      refine .idle ⟨trivial, rfl, rfl, rfl⟩ ?_
      show Demands n top scope (_ ++ _ ++ _ ++ _) _
      rw [List.append_assoc, List.append_assoc]
      refine (statement_demands init _ h.1).bind fun _ => Demands.here.bind fun start => ?_
      refine (expression_demands condition h.2.1).bind fun _ => ?_
      refine (Demands.push rfl l).bind fun exit => Demands.here.bind fun bodyStart => ?_
      refine (statement_demands body _ h.2.2.2).bind fun _ => Demands.here.bind fun postStart => ?_
      refine (statement_demands post _ h.2.2.1).bindLast fun _ =>
        (Demands.put rfl l).bind fun _ => ?_
      exact Demands.here.bind fun stop => (Demands.patchHere exit).bind fun _ => .patchLoop ..
  | .leave l, _, _ | .proceed l, _, _ | .back l, _, _ =>
      .idle ⟨trivial, rfl, rfl, rfl⟩ (.put rfl l)
  | .label l name statement, _, h =>
      (Demands.declareLabel l name).bind fun _ => statement_demands statement _ h
  | .jump l name, scope, _ =>
      (Demands.push rfl l).bind fun address =>
        .awaitLabel (o := ⟨.jump l name, false, scope.parameters⟩) trivial rfl rfl rfl address l
  | .callLabel l name, scope, _ =>
      (Demands.push rfl l).bind fun address =>
        .awaitLabel (o := ⟨.callLabel l name, false, scope.parameters⟩) trivial rfl rfl rfl address
          l
  | .directive .., _, ⟨rfl, rfl⟩ =>
      .idle ⟨trivial, rfl, rfl, rfl⟩ (.ofPure _)
  | .function l _ name inner body, scope, h => by
      refine .idle ⟨trivial, rfl, rfl, rfl⟩ ?_
      refine (Demands.push rfl l).bind fun skip => Demands.here.bind fun start => ?_
      have code := statement_demands body { scope with parameters := inner } h.2
      exact code.inFunction.bindLast fun _ => .closeFunction h.1 l name skip start

theorem statements_demands {allowed : Allowed} : (nodes : List Node) → (scope : Scope) →
    AreStatements n allowed nodes →
    Demands n top scope (occurrencesOfAll scope.parameters nodes) (emitAll nodes top)
  | [], _, _ => .ofPure _
  | node :: nodes, _, h =>
      (statement_demands node _ h.1).bind fun _ => statements_demands nodes _ h.2

theorem optional_demands {allowed : Allowed} : (node : Option Node) → (scope : Scope) →
    IsOptional n allowed node →
    Demands n top scope (occurrencesOfOptional scope.parameters node)
      (emitOptional node top)
  | none, _, _ => .ofPure _
  | some node, _, h => statement_demands node _ h

/-- Each body has its comparison, so the bodies demand no more than their statements do. -/
theorem bodies_demands {allowed : Allowed} : (cases : List SwitchCase) → (kind : SwitchKind) →
    (tests : List Nat) → (scope : Scope) → AreCases n allowed cases →
    tests.length = cases.length →
    Demands n top scope (occurrencesOfBodies scope.parameters cases)
      (emitBodies cases kind tests top)
  | .mk _ body :: cases, kind, test :: tests, scope, h, same => by
      refine (Demands.patchHere test).bind fun _ =>
        (statement_demands body _ h.2.1).bind fun _ => ?_
      have rest := bodies_demands cases kind tests scope h.2.2 (Nat.succ.inj same)
      split
      · exact (Demands.put rfl _).bind fun _ => rest
      · exact rest
  | [], _, _, _, _, _ => .ofPure _

end

end Generate

end HostScript
