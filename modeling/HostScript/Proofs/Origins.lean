import HostScript.Proofs.Completion
import HostScript.Substitution

/-!
# HostScript.Proofs.Origins

Where the instructions of a program come from.  `Generate.emissions` lists the instructions that a
tree gives rise to in the order in which they are emitted, each as it is first written and with the
location it is emitted at.  `Generator.Traces g es` says that the code of `g` was emitted by `es`:
its instructions are those of `es` up to the targets of jumps, its locations are the compact forms
of those of `es`, and its sources are the names in `es`, each where it first occurs.

Emitting one more instruction keeps this up, since a name that is among the sources keeps its index
when other names are added.  Patching and linking keep it up as well, since they change nothing but
targets.
-/

namespace HostScript

/-! ## sources -/

/-- A location as it can be told from its compact form, which does not know scripts without a name
from scripts that bear the name for those. -/
def Location.shown (l : Location) : Location := { l with source := l.source.filter (· != unnamed) }

/-- A location is shown with the name of its source. -/
theorem Location.sourceName_shown (l : Location) : l.shown.sourceName = l.sourceName := by
  obtain ⟨_ | name, line, column⟩ := l
  · rfl
  · by_cases same : name = unnamed <;> simp [shown, sourceName, Option.filter, same]

/-- Only a source whose name is the one for none is not shown as it is. -/
theorem Location.shown_eq_self_iff {l : Location} : l.shown = l ↔ l.source ≠ some unnamed := by
  obtain ⟨_ | name, line, column⟩ := l
  · simp [shown]
  · simp [shown, Option.filter_eq_some_iff]

namespace CodeSources

variable {s s' : CodeSources} {l : Location}

/-- A source that is new is added behind the others. -/
theorem names_prefix_insert (s : CodeSources) (name : String) :
    s.names <+: (s.insert name).names := by
  unfold insert
  split
  · exact List.prefix_refl _
  · exact List.prefix_append _ _

/-- A source that was added is there. -/
theorem mem_names_insert (s : CodeSources) (name : String) : name ∈ (s.insert name).names := by
  unfold insert
  split <;> simp [*]

/-- Names are listed where they first occur. -/
theorem names_insert {names : List String} {name : String} (h : s.names = names.eraseDups) :
    (s.insert name).names = (names ++ [name]).eraseDups := by
  have known : name ∈ s.names ↔ name ∈ names := by rw [h, List.mem_eraseDups]
  rw [List.eraseDups_append, ← h, insert]
  by_cases old : name ∈ names <;> simp [known, old, List.removeAll, List.eraseDups_cons]

/-- No source is there twice. -/
theorem nodup_insert (h : s.names.Nodup) (name : String) : (s.insert name).names.Nodup := by
  unfold insert
  split
  · exact h
  next new =>
    refine List.nodup_append.2 ⟨h, by simp, fun a found b same => ?_⟩
    rw [List.mem_singleton.1 same]
    exact ne_of_mem_of_not_mem found new

/-- What a compact location stands for does not change when there are more sources. -/
theorem compact_eq_of_more (more : s.names <+: s'.names) (known : l.sourceName ∈ s.names) :
    s'.compact l = s.compact l := by
  obtain ⟨rest, all⟩ := more
  rw [compact, compact, index, index, ← all, List.idxOf_append, if_pos known]

/-- The compact form of a location is read back. -/
theorem location_compact (known : l.sourceName ∈ s.names) : s.location (s.compact l) = l.shown := by
  have there : s.names[s.index l.sourceName]? = some l.sourceName := by
    rw [index, List.getElem?_eq_getElem (List.idxOf_lt_length_of_mem known), List.getElem_idxOf]
  rw [location, compact, there]
  obtain ⟨_ | name, line, column⟩ := l
  · rfl
  · rfl

/-- The sources when the locations are compacted one after the other. -/
def after (s : CodeSources) (ls : List Location) : CodeSources :=
  ls.foldl (fun s l => s.insert l.sourceName) s

/-- Sources keep their numbers when others follow. -/
theorem names_prefix_after (s : CodeSources) (ls : List Location) :
    s.names <+: (s.after ls).names := by
  induction ls generalizing s with
  | nil => exact List.prefix_refl _
  | cons l ls ih => exact (s.names_prefix_insert _).trans (ih _)

end CodeSources

/-! ## emissions -/

/-- An instruction as it is first written and the location it is emitted at. -/
structure Emission where
  instruction : Instruction
  location : Location
deriving DecidableEq, Repr

/-- Instructions that are emitted one after the other at the same location. -/
def Emission.allAt (l : Location) (code : List Instruction) : List Emission := code.map (⟨·, l⟩)

/-- The instruction without its target. -/
def Instruction.bare (i : Instruction) : Instruction := i.mapTarget fun _ => .unresolved

/-- Where a jump goes is no part of what is emitted. -/
@[simp] theorem Instruction.bare_mapTarget (i : Instruction) (f : JumpTarget → JumpTarget) :
    (i.mapTarget f).bare = i.bare :=
  i.mapTarget_mapTarget _ _

/-- So a patched jump is emitted as it was. -/
theorem Instruction.map_bare_modify (code : List Instruction) (address : Nat)
    (f : JumpTarget → JumpTarget) :
    (code.modify address (·.mapTarget f)).map bare = code.map bare := by
  refine List.ext_getElem? fun k => ?_
  cases found : code[k]? with
  | none => simp [List.getElem?_modify, found]
  | some i =>
      simp only [List.getElem?_map, List.getElem?_modify, found, Option.map_some]
      split <;> simp

namespace Generate

mutual

/-- What is emitted for a node whose code starts at `base`. -/
def emissions : Node → Scope → Nat → List Emission
  | .null l, _, _ => [⟨.pushNull, l⟩]
  | .number l value, _, _ => [⟨.pushNumber value, l⟩]
  | .string l value, _, _ => [⟨.pushString value, l⟩]
  | .identifier l name, scope, _ => Emission.allAt l (readCode scope name)
  | .chain _ current remaining, scope, base =>
    let first := emissions current scope base
    first ++ emissionsOfLinks remaining scope (base + first.length)
  | .call l name arguments, scope, base =>
    emissionsOfAll arguments scope base ++ [⟨.call name arguments.length, l⟩]
  | .staticCall l template name arguments, scope, base =>
    emissionsOfAll arguments scope base ++ [⟨.callStatic template name arguments.length, l⟩]
  | .unary l op operand, scope, base => emissions operand scope base ++ [⟨.unaryOp op, l⟩]
  | .binary l op left right, scope, base =>
    let first := emissions left scope base
    match op with
    | .and =>
      let test := first ++ [⟨.binaryAnd .unresolved, l⟩]
      test ++ emissions right scope (base + test.length)
    | .or =>
      let test := first ++ [⟨.binaryOr .unresolved, l⟩]
      test ++ emissions right scope (base + test.length)
    | op => first ++ emissions right scope (base + first.length) ++ [⟨.binaryOp op, l⟩]
  | .block _ statements, scope, base => emissionsOfAll statements scope base
  | .returns l none, _, _ => [⟨.pushNull, l⟩, ⟨.ret, l⟩]
  | .returns l (some value), scope, base => emissions value scope base ++ [⟨.ret, l⟩]
  | .discard l value, scope, base => emissions value scope base ++ [⟨.discard, l⟩]
  | .branch l condition accepted none, scope, base =>
    let first := emissions condition scope base ++ [⟨.jumpUnless .unresolved, l⟩]
    first ++ emissions accepted scope (base + first.length)
  | .branch l condition accepted (some otherwise), scope, base =>
    let first := emissions condition scope base ++ [⟨.jumpUnless .unresolved, l⟩]
    let second :=
      first ++ emissions accepted scope (base + first.length) ++ [⟨.jump .unresolved, l⟩]
    second ++ emissions otherwise scope (base + second.length)
  | .switch l kind value cases fallback, scope, base =>
    let first := emissions value scope base
    let tests := first ++ emissionsOfTests cases scope (base + first.length) ++
      [⟨.discard, l⟩] ++ [⟨.jump .unresolved, l⟩]
    let bodies := tests ++ emissionsOfBodies cases kind scope (base + tests.length)
    bodies ++ emissionsOfOptional fallback scope (base + bodies.length)
  | .assign l none target value, scope, base =>
    let first := emissionsOfTarget target scope base
    first ++ emissions value scope (base + first.length) ++ [⟨storeCode target, l⟩]
  | .assign l (some op) target value, scope, base =>
    let first := emissionsOfCurrent target scope base
    first ++ emissions value scope (base + first.length) ++ [⟨.binaryOp op, l⟩] ++
      [⟨storeCode target, l⟩]
  | .adjust l kind target direction, scope, base =>
    emissionsOfCurrent target scope base ++
      Emission.allAt l ((if kind = .after then [.duplicate] else []) ++
        [.pushNumber direction.number, .binaryOp .add] ++
        (if kind = .before then [.duplicate] else []) ++ [storeCode target])
  | .whileLoop l condition body, scope, base =>
    let first := emissions condition scope base ++ [⟨.jumpUnless .unresolved, l⟩]
    first ++ emissions body scope (base + first.length) ++ [⟨.jump (.address base), l⟩]
  | .doLoop l body condition, scope, base =>
    let first := emissions body scope base
    first ++ emissions condition scope (base + first.length) ++ [⟨.jumpIf (.address base), l⟩]
  | .forLoop l init condition post body, scope, base =>
    let before := emissions init scope base
    let first := before ++ emissions condition scope (base + before.length) ++
      [⟨.jumpUnless .unresolved, l⟩]
    let turn := first ++ emissions body scope (base + first.length)
    turn ++ emissions post scope (base + turn.length) ++
      [⟨.jump (.address (base + before.length)), l⟩]
  | .leave l, _, _ => [⟨.jump .breakPoint, l⟩]
  | .proceed l, _, _ => [⟨.jump .continuePoint, l⟩]
  | .label _ _ statement, scope, base => emissions statement scope base
  | .jump l _, _, _ => [⟨.jump .unresolved, l⟩]
  | .callLabel l _, _, _ => [⟨.jumpPush .unresolved, l⟩]
  | .back l, _, _ => [⟨.jumpPop, l⟩]
  | .directive l _ code statements, scope, base =>
    let first := Emission.allAt l code
    first ++ emissionsOfAll statements scope (base + first.length)
  | .function l _ _ parameters body, scope, base =>
    let inner := { scope with parameters }
    [⟨.jump .unresolved, l⟩] ++ emissions body inner (base + 1) ++
      if (layout body inner (base + 1)).fallsOff (base + 1) then [⟨.pushNull, l⟩, ⟨.ret, l⟩] else []

def emissionsOfAll : List Node → Scope → Nat → List Emission
  | [], _, _ => []
  | node :: nodes, scope, base =>
    let first := emissions node scope base
    first ++ emissionsOfAll nodes scope (base + first.length)

def emissionsOfOptional : Option Node → Scope → Nat → List Emission
  | none, _, _ => []
  | some node, scope, base => emissions node scope base

/-- What is emitted for one link of a chain. -/
def emissionsOfLink : Node → Scope → Nat → List Emission
  | .identifier l name, _, _ => [⟨.pushField name, l⟩]
  | .call l name arguments, scope, base =>
    emissionsOfAll arguments scope base ++ [⟨.callInstance name arguments.length, l⟩]
  | _, _, _ => []

/-- What is emitted for the links of a chain from here on. -/
def emissionsOfLinks : Node → Scope → Nat → List Emission
  | .chain _ current remaining, scope, base =>
    let first := emissionsOfLink current scope base
    first ++ emissionsOfLinks remaining scope (base + first.length)
  | .identifier l name, _, _ => [⟨.pushField name, l⟩]
  | .call l name arguments, scope, base =>
    emissionsOfAll arguments scope base ++ [⟨.callInstance name arguments.length, l⟩]
  | _, _, _ => []

/-- What is emitted for the links of a chain from here on but the last. -/
def emissionsOfReceiver : Node → Scope → Nat → List Emission
  | .chain _ current remaining, scope, base =>
    let first := emissionsOfLink current scope base
    first ++ emissionsOfReceiver remaining scope (base + first.length)
  | _, _, _ => []

/-- What is emitted below a value that is stored into a target. -/
def emissionsOfTarget : Node → Scope → Nat → List Emission
  | .chain _ current remaining, scope, base =>
    let first := emissions current scope base
    first ++ emissionsOfReceiver remaining scope (base + first.length)
  | _, _, _ => []

/-- Like `emissionsOfTarget`, and a read of the target.  A field is read where the last link of its
chain stands. -/
def emissionsOfCurrent : Node → Scope → Nat → List Emission
  | .identifier l name, scope, _ => Emission.allAt l (readCode scope name)
  | .chain _ current remaining, scope, base =>
    let first := emissions current scope base
    first ++ emissionsOfReceiver remaining scope (base + first.length) ++
      Emission.allAt remaining.lastLink.location [.duplicate, .pushField (lastName remaining)]
  | _, _, _ => []

/-- What is emitted for the comparisons with the case values. -/
def emissionsOfTests : List SwitchCase → Scope → Nat → List Emission
  | [], _, _ => []
  | .mk value _ :: cases, scope, base =>
    let first := emissions value scope base ++ [⟨.switchJump .unresolved, value.location⟩]
    first ++ emissionsOfTests cases scope (base + first.length)

/-- What is emitted for the bodies of the cases. -/
def emissionsOfBodies : List SwitchCase → SwitchKind → Scope → Nat → List Emission
  | [], _, _, _ => []
  | .mk _ body :: cases, kind, scope, base =>
    let first := emissions body scope base ++
      if kind = .select then [⟨.jump .breakPoint, body.location⟩] else []
    first ++ emissionsOfBodies cases kind scope (base + first.length)

end

end Generate

/-! ## what a generator knows of its emissions -/

namespace Generator

/-- The code was emitted by `es`. -/
structure Traces (g : Generator) (es : List Emission) : Prop where
  code : g.listing.map Instruction.bare = es.map (·.instruction.bare)
  sources : g.sources.names = (es.map (·.location.sourceName)).eraseDups
  distinct : g.sources.names.Nodup
  locations : g.code.locations.toList = es.map fun e => g.sources.compact e.location

/-- The code is the same up to the targets of jumps. -/
structure Retargeted (g g' : Generator) : Prop where
  code : g'.listing.map Instruction.bare = g.listing.map Instruction.bare
  sources : g'.sources = g.sources
  locations : g'.code.locations = g.code.locations

namespace Traces

variable {g g' : Generator} {es : List Emission} {e : Emission}

/-- The source of every emission is known. -/
theorem known (h : g.Traces es) (found : e ∈ es) : e.location.sourceName ∈ g.sources.names := by
  rw [h.sources, List.mem_eraseDups]
  exact List.mem_map_of_mem found

/-- Old locations keep their compact forms when a name is added. -/
theorem push (h : g.Traces es) (i : Instruction) (l : Location) :
    (g.push i l).Traces (es ++ [⟨i, l⟩]) where
  code := by simp [h.code]
  sources := by
    rw [List.map_append]
    exact CodeSources.names_insert h.sources
  distinct := CodeSources.nodup_insert h.distinct _
  locations := by
    have old : es.map (fun e => g.sources.compact e.location) =
        es.map fun e => (g.sources.insert l.sourceName).compact e.location :=
      List.map_congr_left fun e found => (CodeSources.compact_eq_of_more
        (g.sources.names_prefix_insert _) (h.known found)).symm
    simp [Generator.push, Code.push, h.locations, old]

/-- Patches have no effect on what was emitted. -/
theorem retargeted (h : g.Traces es) (same : g.Retargeted g') : g'.Traces es where
  code := same.code.trans h.code
  sources := by rw [same.sources, h.sources]
  distinct := same.sources ▸ h.distinct
  locations := by rw [same.locations, same.sources, h.locations]

end Traces

end Generator

/-- `g'` has the code of `g` and behind it what `es` emit. -/
structure Emits (g : Generator) (es : List Emission) (g' : Generator) : Prop where
  here : g'.here = g.here + es.length
  ready : ∀ {top scope : Scope}, g.Ready top scope → g'.Ready top scope
  traces : ∀ before, g.Traces before → g'.Traces (before ++ es)

namespace Emits

variable {g g' g'' : Generator} {as bs es : List Emission} {top scope : Scope}

/-- A step that only patches emits nothing. -/
theorem quiet (same : g.Retargeted g')
    (ready : ∀ {top scope : Scope}, g.Ready top scope → g'.Ready top scope) :
    Emits g [] g' where
  here := by
    have sizes := congrArg List.length same.code
    simpa [Generator.length_listing] using sizes
  ready := ready
  traces before h := by
    rw [List.append_nil]
    exact h.retargeted same

theorem refl (g : Generator) : Emits g [] g := quiet ⟨rfl, rfl, rfl⟩ id

/-- One step after the other emits what both emit. -/
theorem trans (first : Emits g as g') (second : Emits g' bs g'') : Emits g (as ++ bs) g'' where
  here := by rw [second.here, first.here, List.length_append, Nat.add_assoc]
  ready := second.ready ∘ first.ready
  traces before h := by
    rw [← List.append_assoc]
    exact second.traces _ (first.traces before h)

/-- A new instruction is one more emission. -/
theorem push (h : Emits g es g') (i : Instruction) (l : Location) :
    Emits g (es ++ [⟨i, l⟩]) (g'.push i l) :=
  h.trans ⟨g'.here_push i l, ((Extends.refl g').push i l).ready, fun _ traces => traces.push i l⟩

/-- One more step, whose emissions start where those before it end. -/
theorem andThen {run : Nat → List Emission} (first : Emits g as g') (ready : g.Ready top scope)
    (second : g'.Ready top scope → Emits g' (run g'.here) g'') :
    Emits g (as ++ run (g.here + as.length)) g'' := by
  rw [← first.here]
  exact first.trans (second (first.ready ready))

/-- The parameters of a function do not outlast its body. -/
theorem inFunction {parameters : Option (List String)}
    (h : Emits (g.withParameters parameters) es g') :
    Emits g es (g'.withParameters g.parameters) where
  here := h.here
  ready {top _} ready :=
    have below : (g.withParameters parameters).LabelsBelow := ready.below
    ⟨(h.ready (below.ready top)).below, ready.names⟩
  traces before traces :=
    have inner := h.traces before ⟨traces.code, traces.sources, traces.distinct, traces.locations⟩
    ⟨inner.code, inner.sources, inner.distinct, inner.locations⟩

/-- A quiet step may follow. -/
theorem andThenQuiet (first : Emits g es g') (second : Emits g' [] g'') : Emits g es g'' := by
  have both := first.trans second
  rwa [List.append_nil] at both

theorem patchHere (h : Emits g es g') (address : Nat) : Emits g es (g'.patchHere address) := by
  refine h.andThenQuiet (quiet ⟨?_, rfl, rfl⟩ (·.patchHere address))
  rw [Generator.listing_patchHere, Instruction.map_bare_modify]

/-- A loop that patches its range is quiet. -/
theorem patchLoop (h : Emits g es g') (start stop : Nat) (x y : Option Nat) :
    Emits g es (g'.patchLoop start stop x y) := by
  refine h.andThenQuiet
    (quiet ⟨?_, rfl, rfl⟩ fun ready => ⟨fun name address found => ?_, ready.names⟩)
  · rw [Generator.listing_patchLoop]
    refine List.ext_getElem? fun k => ?_
    cases found : g'.listing[k]? with
    | none => simp [found]
    | some i =>
        simp only [List.getElem?_map, List.getElem?_mapIdx, found, Option.map_some]
        split <;> simp
  · rw [Generator.here_patchLoop]
    exact ready.below name address found

end Emits

namespace Generate

/-! ## steps -/

section steps

variable {g g' : Generator} {i : Instruction} {l : Location} {scope : Scope} {name : String}
  {u : Unit}

/-- An instruction is emitted at the location that it is put for. -/
theorem put_emits (h : put i l g = .ok u g') : Emits g [⟨i, l⟩] g' := by
  obtain rfl := put_eq_ok.1 h
  exact (Emits.refl g).push i l

/-- An expansion is emitted at one location. -/
theorem putAll_emits {code : List Instruction} (h : putAll code l g = .ok u g') :
    Emits g (Emission.allAt l code) g' := by
  induction code generalizing g with
  | nil =>
      obtain ⟨-, rfl⟩ := pure_eq_ok.1 h
      exact .refl g
  | cons i code ih =>
      simp only [putAll_cons, bind_eq_ok] at h
      obtain ⟨_, g₁, first, rest⟩ := h
      exact (put_emits first).trans (ih rest)

/-- A read of a name is emitted at the location of the name. -/
theorem readName_emits (h : readName scope l name g = .ok u g') :
    Emits g (Emission.allAt l (readCode scope name)) g' :=
  putAll_emits (readName_eq ▸ h)

/-- A label emits nothing. -/
theorem declareLabel_emits (h : declareLabel name l g = .ok u g') : Emits g [] g' := by
  refine .quiet ?_ (declareLabel_extends h).ready
  simp only [declareLabel, bind_eq_ok, get_eq_ok] at h
  obtain ⟨_, _, ⟨rfl, rfl⟩, h⟩ := h
  split at h
  · obtain ⟨_, _, failed, -⟩ := bind_eq_ok.1 h
    exact absurd failed fail_ne_ok
  · simp only [record, bind_eq_ok, modify_eq_ok] at h
    obtain ⟨_, _, rfl, rfl⟩ := h
    exact ⟨rfl, rfl, rfl⟩

theorem awaitLabel_emits {address : Nat} (h : awaitLabel name address l g = .ok u g') :
    Emits g [] g' := by
  refine .quiet ?_ (awaitLabel_extends h).ready
  obtain rfl := modify_eq_ok.1 h
  exact ⟨rfl, rfl, rfl⟩

/-- A field is read at the location of its link. -/
theorem fieldGetterAndSetter_emits {node : Node} (h : fieldGetterAndSetter node g = .ok i g') :
    .setField (lastName node) = i ∧
      Emits g (Emission.allAt node.location [.duplicate, .pushField (lastName node)]) g' := by
  cases node with
  | identifier location name =>
      simp only [fieldGetterAndSetter, bind_eq_ok, put_eq_ok, pure_eq_ok] at h
      obtain ⟨_, _, rfl, _, _, rfl, rfl, rfl⟩ := h
      exact ⟨rfl, ((Emits.refl g).push _ _).push _ _⟩
  | _ => exact absurd h fail_ne_ok

/-- The place of a function and the jump over it are settled without any more code. -/
theorem settleFunction_emits {id skip start : Nat}
    (h : (do
      let stop := (← here) - 1
      patchHere skip
      match (← get).functions.get? id with
      | none => fail l (.unregisteredFunction name)
      | some _ =>
        modify fun s => { s with functions := s.functions.place id start stop } :
          Generate Unit) g = .ok u g') : Emits g [] g' := by
  simp only [bind_eq_ok, here_eq_ok, patchHere_eq_ok, get_eq_ok] at h
  obtain ⟨_, _, ⟨rfl, rfl⟩, _, _, rfl, _, _, ⟨rfl, rfl⟩, h⟩ := h
  have patched := (Emits.refl g).patchHere skip
  cases found : (g.patchHere skip).functions.get? id with
  | none => exact absurd (by simpa [found] using h) fail_ne_ok
  | some f =>
      simp only [found, modify_eq_ok] at h
      subst h
      exact patched.andThenQuiet (.quiet ⟨rfl, rfl, rfl⟩ fun ready => ⟨ready.below, ready.names⟩)

/-- Closing a function adds a return if that is needed. -/
theorem closeFunction_emits {id skip start : Nat}
    (h : closeFunction l id name skip start g = .ok u g') :
    Emits g (if g.fallsOffEnd start then [⟨.pushNull, l⟩, ⟨.ret, l⟩] else []) g' := by
  simp only [closeFunction, bind_eq_ok (x := get), get_eq_ok] at h
  obtain ⟨_, _, ⟨rfl, rfl⟩, h⟩ := h
  split at h
  next open_ =>
    simp only [bind_eq_ok (x := put _ _), put_eq_ok] at h
    obtain ⟨_, _, rfl, _, _, rfl, h⟩ := h
    rw [if_pos open_]
    exact (((Emits.refl g).push .pushNull l).push .ret l).andThenQuiet (settleFunction_emits h)
  next done =>
    rw [if_neg done]
    exact settleFunction_emits h

end steps

/-! ## trees -/

mutual

/-- The code of a node is what its emissions emit. -/
theorem emit_emits : (node : Node) → {top scope : Scope} → {g g' : Generator} → {u : Unit} →
    g.Ready top scope → emit node top g = .ok u g' → Emits g (emissions node scope g.here) g'
  | .null _, _, _, _, _, _, _, h | .number .., _, _, _, _, _, _, h
  | .string .., _, _, _, _, _, _, h | .leave _, _, _, _, _, _, _, h
  | .proceed _, _, _, _, _, _, _, h | .back _, _, _, _, _, _, _, h => put_emits h
  | .identifier .., top, scope, g, g', _, ready, h => by
      simp only [emit, bind_eq_ok, visible_eq_ok, ready.names] at h
      obtain ⟨_, _, ⟨rfl, rfl⟩, h⟩ := h
      exact readName_emits h
  | .chain _ current remaining, top, scope, g, g', _, ready, h => by
      simp only [emit, bind_eq_ok] at h
      obtain ⟨_, g₁, h₁, h₂⟩ := h
      exact (emit_emits current ready h₁).andThen ready (emitLinks_emits remaining · h₂)
  | .call _ _ arguments, top, scope, g, g', _, ready, h => by
      simp only [emit, bind_eq_ok, put_eq_ok] at h
      obtain ⟨_, g₁, h₁, rfl⟩ := h
      exact (emitAll_emits arguments ready h₁).push _ _
  | .staticCall _ _ _ arguments, top, scope, g, g', _, ready, h => by
      simp only [emit, bind_eq_ok, put_eq_ok] at h
      obtain ⟨_, _, checked, _, g₁, h₁, rfl⟩ := h
      obtain rfl := checkStaticCall_eq_ok checked
      exact (emitAll_emits arguments ready h₁).push _ _
  | .unary _ _ operand, top, scope, g, g', _, ready, h => by
      simp only [emit, bind_eq_ok, put_eq_ok] at h
      obtain ⟨_, g₁, h₁, rfl⟩ := h
      exact (emit_emits operand ready h₁).push _ _
  | .binary l op left right, top, scope, g, g', _, ready, h => by
      simp only [emit, bind_eq_ok] at h
      obtain ⟨_, g₁, h₁, h₂⟩ := h
      have first := emit_emits left ready h₁
      cases op with
      | and | or =>
          simp only [bind_eq_ok, push_eq_ok, patchHere_eq_ok] at h₂
          obtain ⟨_, _, ⟨rfl, rfl⟩, _, g₂, h₂, rfl⟩ := h₂
          exact ((first.push _ l).andThen ready (emit_emits right · h₂)).patchHere _
      | _ =>
          simp only [bind_eq_ok, put_eq_ok] at h₂
          obtain ⟨_, g₂, h₂, rfl⟩ := h₂
          exact (first.andThen ready (emit_emits right · h₂)).push _ _
  | .block _ statements, top, scope, g, g', _, ready, h => emitAll_emits statements ready h
  | .returns _ none, top, scope, g, g', _, ready, h => by
      simp only [emit, bind_eq_ok, put_eq_ok] at h
      obtain ⟨_, g₁, rfl, rfl⟩ := h
      exact ((Emits.refl g).push _ _).push _ _
  | .returns _ (some value), top, scope, g, g', _, ready, h
  | .discard _ value, top, scope, g, g', _, ready, h => by
      simp only [emit, bind_eq_ok, put_eq_ok] at h
      obtain ⟨_, g₁, h₁, rfl⟩ := h
      exact (emit_emits value ready h₁).push _ _
  | .branch l condition accepted none, top, scope, g, g', _, ready, h => by
      simp only [emit, bind_eq_ok, push_eq_ok, patchHere_eq_ok] at h
      obtain ⟨_, g₁, h₁, _, _, ⟨rfl, rfl⟩, _, g₂, h₂, rfl⟩ := h
      have first := (emit_emits condition ready h₁).push (.jumpUnless .unresolved) l
      exact (first.andThen ready (emit_emits accepted · h₂)).patchHere _
  | .branch l condition accepted (some otherwise), top, scope, g, g', _, ready, h => by
      simp only [emit, bind_eq_ok, push_eq_ok, patchHere_eq_ok] at h
      obtain ⟨_, g₁, h₁, _, _, ⟨rfl, rfl⟩, _, g₂, h₂, _, _, ⟨rfl, rfl⟩, _, _, rfl, _, g₃, h₃,
        rfl⟩ := h
      have first := (emit_emits condition ready h₁).push (.jumpUnless .unresolved) l
      have second := ((first.andThen ready (emit_emits accepted · h₂)).push
        (.jump .unresolved) l).patchHere g₁.here
      exact (second.andThen ready (emit_emits otherwise · h₃)).patchHere _
  | .switch l kind value cases fallback, top, scope, g, g', _, ready, h => by
      simp only [emit, bind_eq_ok, push_eq_ok, put_eq_ok, here_eq_ok, patchHere_eq_ok,
        patchLoop_eq_ok] at h
      obtain ⟨_, g₁, h₁, _, g₂, h₂, _, _, rfl, _, _, ⟨rfl, rfl⟩, _, _, ⟨rfl, rfl⟩, _, g₃, h₃, _, _,
        rfl, _, g₄, h₄, _, _, ⟨rfl, rfl⟩, rfl⟩ := h
      have first := emit_emits value ready h₁
      obtain ⟨length, tests⟩ := emitTests_emits cases (first.ready ready) h₂
      have front := ((first.andThen ready fun _ => tests).push .discard l).push
        (.jump .unresolved) l
      have bodies := (front.andThen ready (emitBodies_emits cases length · h₃)).patchHere
        (g₂.push .discard l).here
      exact (bodies.andThen ready (emitOptional_emits fallback · h₄)).patchLoop _ _ _ _
  | .assign l none target value, top, scope, g, g', _, ready, h => by
      simp only [emit, bind_eq_ok, put_eq_ok] at h
      obtain ⟨setter, g₁, h₁, _, g₂, h₂, rfl⟩ := h
      obtain ⟨rfl, receiver⟩ := emitSetter_emits target ready h₁
      exact (receiver.andThen ready (emit_emits value · h₂)).push _ _
  | .assign l (some op) target value, top, scope, g, g', _, ready, h => by
      simp only [emit, bind_eq_ok, put_eq_ok] at h
      obtain ⟨setter, g₁, h₁, _, g₂, h₂, _, _, rfl, rfl⟩ := h
      obtain ⟨rfl, current⟩ := emitGetterAndSetter_emits target ready h₁
      exact ((current.andThen ready (emit_emits value · h₂)).push _ l).push _ l
  | .adjust l kind target direction, top, scope, g, g', _, ready, h => by
      simp only [emit] at h
      split at h
      · obtain ⟨_, _, failed, -⟩ := bind_eq_ok.1 h
        exact absurd failed fail_ne_ok
      · obtain ⟨_, _, failed, -⟩ := bind_eq_ok.1 h
        exact absurd failed fail_ne_ok
      obtain ⟨setter, g₁, h₁, h⟩ := bind_eq_ok.1 h
      obtain ⟨rfl, current⟩ := emitGetterAndSetter_emits target ready h₁
      refine current.trans ?_
      cases kind <;> simp only [reduceCtorEq, if_false, if_true, bind_eq_ok, put_eq_ok] at h
      case before | after =>
        obtain ⟨_, _, rfl, _, _, rfl, _, _, rfl, rfl⟩ := h
        exact ((((Emits.refl g₁).push _ l).push _ l).push _ l).push _ l
      case statement =>
        obtain ⟨_, _, rfl, _, _, rfl, rfl⟩ := h
        exact (((Emits.refl g₁).push _ l).push _ l).push _ l
  | .whileLoop l condition body, top, scope, g, g', _, ready, h => by
      simp only [emit, bind_eq_ok, here_eq_ok, push_eq_ok, put_eq_ok, patchHere_eq_ok,
        patchLoop_eq_ok] at h
      obtain ⟨_, _, ⟨rfl, rfl⟩, _, g₁, h₁, _, _, ⟨rfl, rfl⟩, _, _, ⟨rfl, rfl⟩, _, g₂, h₂, _, _, rfl,
        _, _, ⟨rfl, rfl⟩, _, _, rfl, rfl⟩ := h
      have first := (emit_emits condition ready h₁).push (.jumpUnless .unresolved) l
      have turn := (first.andThen ready (emit_emits body · h₂)).push (.jump (.address g.here)) l
      exact (turn.patchHere _).patchLoop _ _ _ _
  | .doLoop l body condition, top, scope, g, g', _, ready, h => by
      simp only [emit, bind_eq_ok, here_eq_ok, put_eq_ok, patchLoop_eq_ok] at h
      obtain ⟨_, _, ⟨rfl, rfl⟩, _, g₁, h₁, _, _, ⟨rfl, rfl⟩, _, g₂, h₂, _, _, rfl, _, _, ⟨rfl, rfl⟩,
        rfl⟩ := h
      have turn := emit_emits body ready h₁
      exact ((turn.andThen ready (emit_emits condition · h₂)).push _ l).patchLoop _ _ _ _
  | .forLoop l init condition post body, top, scope, g, g', _, ready, h => by
      simp only [emit, bind_eq_ok, here_eq_ok, push_eq_ok, put_eq_ok, patchHere_eq_ok,
        patchLoop_eq_ok] at h
      obtain ⟨_, g₀, h₀, _, _, ⟨rfl, rfl⟩, _, g₁, h₁, _, _, ⟨rfl, rfl⟩, _, _, ⟨rfl, rfl⟩, _, g₂, h₂,
        _, _, ⟨rfl, rfl⟩, _, g₃, h₃, _, _, rfl, _, _, ⟨rfl, rfl⟩, _, _, rfl, rfl⟩ := h
      have before := emit_emits init ready h₀
      have first := (before.andThen ready (emit_emits condition · h₁)).push
        (.jumpUnless .unresolved) l
      have turn := first.andThen ready (emit_emits body · h₂)
      have rest := (turn.andThen ready (emit_emits post · h₃)).push (.jump (.address g₀.here)) l
      rw [before.here] at rest ⊢
      exact (rest.patchHere _).patchLoop _ _ _ _
  | .label l name statement, top, scope, g, g', _, ready, h => by
      simp only [emit, bind_eq_ok] at h
      obtain ⟨_, g₁, h₁, h₂⟩ := h
      exact (declareLabel_emits h₁).andThen ready (emit_emits statement · h₂)
  | .jump .., top, scope, g, g', _, ready, h | .callLabel .., top, scope, g, g', _, ready, h => by
      simp only [emit, bind_eq_ok, push_eq_ok] at h
      obtain ⟨_, _, ⟨rfl, rfl⟩, h₁⟩ := h
      exact ((Emits.refl g).push _ _).andThenQuiet (awaitLabel_emits h₁)
  | .directive l name code statements, top, scope, g, g', _, ready, h => by
      simp only [emit, bind_eq_ok] at h
      obtain ⟨_, g₁, h₁, h₂⟩ := h
      exact (putAll_emits h₁).andThen ready (emitAll_emits statements · h₂)
  | .function l id name parameters body, top, scope, g, g', _, ready, h => by
      simp only [emit, bind_eq_ok, push_eq_ok, here_eq_ok, inFunction_eq_ok] at h
      obtain ⟨_, _, ⟨rfl, rfl⟩, _, _, ⟨rfl, rfl⟩, _, _, ⟨g₁, h₁, rfl⟩, h₂⟩ := h
      have jump := (Emits.refl g).push (.jump .unresolved) l
      have within := (jump.ready ready).inFunction parameters
      have falls := (emit_extends body within h₁).inFunction.fallsOffEnd (jump.ready ready).below
      have inner := jump.andThen ready fun _ => (emit_emits body within h₁).inFunction
      have closed := closeFunction_emits h₂
      rw [falls, Generator.here_withParameters, Generator.here_push] at closed
      exact inner.trans closed

theorem emitAll_emits : (nodes : List Node) → {top scope : Scope} → {g g' : Generator} →
    {u : Unit} → g.Ready top scope → emitAll nodes top g = .ok u g' →
    Emits g (emissionsOfAll nodes scope g.here) g'
  | [], _, _, g, _, _, _, h => by
      obtain ⟨-, rfl⟩ := pure_eq_ok.1 h
      exact .refl g
  | node :: nodes, top, scope, g, g', _, ready, h => by
      simp only [emitAll, bind_eq_ok] at h
      obtain ⟨_, g₁, h₁, h₂⟩ := h
      exact (emit_emits node ready h₁).andThen ready (emitAll_emits nodes · h₂)

theorem emitOptional_emits : (node : Option Node) → {top scope : Scope} → {g g' : Generator} →
    {u : Unit} → g.Ready top scope → emitOptional node top g = .ok u g' →
    Emits g (emissionsOfOptional node scope g.here) g'
  | none, _, _, g, _, _, _, h => by
      obtain ⟨-, rfl⟩ := pure_eq_ok.1 h
      exact .refl g
  | some node, top, scope, g, g', _, ready, h => emit_emits node ready h

/-- A call is emitted behind its arguments. -/
theorem emitLink_emits (node : Node) {top scope : Scope} {g g' : Generator} {u : Unit}
    (ready : g.Ready top scope) (h : emitLink node top g = .ok u g') :
    Emits g (emissionsOfLink node scope g.here) g' := by
  cases node with
  | identifier _ _ => exact put_emits h
  | call _ _ arguments =>
      simp only [emitLink, bind_eq_ok, put_eq_ok] at h
      obtain ⟨_, g₁, h₁, rfl⟩ := h
      exact (emitAll_emits arguments ready h₁).push _ _
  | _ => exact absurd h fail_ne_ok

theorem emitLinks_emits (node : Node) {top scope : Scope} {g g' : Generator} {u : Unit}
    (ready : g.Ready top scope) (h : emitLinks node top g = .ok u g') :
    Emits g (emissionsOfLinks node scope g.here) g' := by
  cases node with
  | chain _ current remaining =>
      simp only [emitLinks, bind_eq_ok] at h
      obtain ⟨_, g₁, h₁, h₂⟩ := h
      exact (emitLink_emits current ready h₁).andThen ready (emitLinks_emits remaining · h₂)
  | identifier _ _ => exact put_emits h
  | call _ _ arguments =>
      simp only [emitLinks, bind_eq_ok, put_eq_ok] at h
      obtain ⟨_, g₁, h₁, rfl⟩ := h
      exact (emitAll_emits arguments ready h₁).push _ _
  | _ => exact absurd h fail_ne_ok

theorem emitReceiver_emits (node : Node) {top scope : Scope} {g g' : Generator} {u : Unit}
    (ready : g.Ready top scope) (h : emitReceiver node top g = .ok u g') :
    Emits g (emissionsOfReceiver node scope g.here) g' := by
  cases node with
  | chain _ current remaining =>
      simp only [emitReceiver, bind_eq_ok] at h
      obtain ⟨_, g₁, h₁, h₂⟩ := h
      exact (emitLink_emits current ready h₁).andThen ready (emitReceiver_emits remaining · h₂)
  | _ =>
      obtain ⟨-, rfl⟩ := pure_eq_ok.1 h
      exact .refl g

/-- A target that is stored into emits its receiver. -/
theorem emitSetter_emits (node : Node) {top scope : Scope} {g g' : Generator} {i : Instruction}
    (ready : g.Ready top scope) (h : emitSetter node top g = .ok i g') :
    storeCode node = i ∧ Emits g (emissionsOfTarget node scope g.here) g' := by
  cases node with
  | identifier _ _ =>
      simp only [emitSetter, bind_eq_ok, visible_eq_ok, nameSetter_eq_ok] at h
      obtain ⟨_, _, ⟨-, rfl⟩, -, rfl, rfl⟩ := h
      exact ⟨rfl, .refl g⟩
  | chain _ current remaining =>
      simp only [emitSetter, bind_eq_ok] at h
      obtain ⟨_, g₁, h₁, _, g₂, h₂, h₃⟩ := h
      obtain ⟨-, rfl, rfl⟩ := fieldSetter_eq_ok h₃
      rw [lastName_lastLink]
      exact ⟨rfl, (emit_emits current ready h₁).andThen ready (emitReceiver_emits remaining · h₂)⟩
  | _ => exact absurd h fail_ne_ok

/-- A target that is read and stored into emits its receiver and its value. -/
theorem emitGetterAndSetter_emits (node : Node) {top scope : Scope} {g g' : Generator}
    {i : Instruction} (ready : g.Ready top scope) (h : emitGetterAndSetter node top g = .ok i g') :
    storeCode node = i ∧ Emits g (emissionsOfCurrent node scope g.here) g' := by
  cases node with
  | identifier _ _ =>
      simp only [emitGetterAndSetter, bind_eq_ok, visible_eq_ok, ready.names, nameSetter_eq_ok,
        pure_eq_ok] at h
      obtain ⟨_, _, ⟨rfl, rfl⟩, _, _, ⟨-, rfl, rfl⟩, _, _, h₁, rfl, rfl⟩ := h
      exact ⟨rfl, readName_emits h₁⟩
  | chain _ current remaining =>
      simp only [emitGetterAndSetter, bind_eq_ok] at h
      obtain ⟨_, g₁, h₁, _, g₂, h₂, h₃⟩ := h
      obtain ⟨rfl, last⟩ := fieldGetterAndSetter_emits h₃
      rw [lastName_lastLink] at last ⊢
      exact ⟨rfl, ((emit_emits current ready h₁).andThen ready
        (emitReceiver_emits remaining · h₂)).trans last⟩
  | _ => exact absurd h fail_ne_ok

/-- Each comparison is emitted at the location of its value. -/
theorem emitTests_emits : (cases : List SwitchCase) → {top scope : Scope} → {g g' : Generator} →
    {tests : List Nat} → g.Ready top scope → emitTests cases top g = .ok tests g' →
    tests.length = cases.length ∧ Emits g (emissionsOfTests cases scope g.here) g'
  | [], _, _, g, _, _, _, h => by
      obtain ⟨rfl, rfl⟩ := pure_eq_ok.1 h
      exact ⟨rfl, .refl g⟩
  | .mk value _ :: cases, top, scope, g, g', _, ready, h => by
      simp only [emitTests, bind_eq_ok, push_eq_ok, pure_eq_ok] at h
      obtain ⟨_, g₁, h₁, _, _, ⟨rfl, rfl⟩, rest, _, h₂, rfl, rfl⟩ := h
      have first := (emit_emits value ready h₁).push (.switchJump .unresolved) value.location
      obtain ⟨length, later⟩ := emitTests_emits cases (first.ready ready) h₂
      exact ⟨congrArg (· + 1) length, first.andThen ready fun _ => later⟩

/-- There is one comparison for each body. -/
theorem emitBodies_emits : (cases : List SwitchCase) → {kind : SwitchKind} → {top scope : Scope} →
    {tests : List Nat} → {g g' : Generator} → {u : Unit} → tests.length = cases.length →
    g.Ready top scope → emitBodies cases kind tests top g = .ok u g' →
    Emits g (emissionsOfBodies cases kind scope g.here) g'
  | [], _, _, _, _, g, _, _, _, _, h => by
      obtain ⟨-, rfl⟩ := pure_eq_ok.1 h
      exact .refl g
  | .mk _ body :: cases, kind, top, scope, test :: tests, g, g', _, length, ready, h => by
      simp only [emitBodies, bind_eq_ok (x := patchHere _), patchHere_eq_ok,
        bind_eq_ok (x := emit _ _)] at h
      obtain ⟨_, _, rfl, _, g₁, h₁, h⟩ := h
      have inner := ((Emits.refl g).patchHere test).andThen ready (emit_emits body · h₁)
      have fewer : tests.length = cases.length := Nat.succ.inj length
      cases kind with
      | switch =>
          have first := inner.trans (.refl g₁)
          exact first.andThen ready (emitBodies_emits cases fewer · h)
      | select =>
          obtain ⟨_, g₂, put, h⟩ := bind_eq_ok.1 h
          exact (inner.trans (put_emits put)).andThen ready (emitBodies_emits cases fewer · h)

end

end Generate

/-! ## finishing -/

namespace Generate

variable {g g' : Generator} {l : Location} {u : Unit}

/-- A jump that is linked is only patched. -/
theorem linkJump_emits {name : String} {address : Nat} (h : linkJump name address l g = .ok u g') :
    Emits g [] g' := by
  unfold linkJump at h
  rw [get_bind] at h
  cases found : g.labels.find? name with
  | none =>
      simp only [found] at h
      exact absurd h fail_ne_ok
  | some target =>
      simp only [found, record] at h
      obtain ⟨_, _, recorded, h⟩ := bind_eq_ok.1 h
      obtain rfl := modify_eq_ok.1 recorded
      split at h
      · obtain rfl := modify_eq_ok.1 h
        refine .quiet ⟨?_, rfl, rfl⟩ fun ready => ⟨fun name a found => ?_, ready.names⟩
        · simp [Generator.listing, Code.setTarget, Instruction.map_bare_modify]
        · have old := ready.below name a found
          simpa [Generator.here] using old
      · exact absurd h fail_ne_ok

theorem linkJumps_emits {name : String} {jumps : List (Nat × Location)}
    (h : linkJumps name jumps g = .ok u g') : Emits g [] g' := by
  induction jumps generalizing g with
  | nil =>
      obtain ⟨-, rfl⟩ := pure_eq_ok.1 h
      exact .refl g
  | cons jump jumps ih =>
      obtain ⟨_, g₁, first, rest⟩ := bind_eq_ok.1 h
      exact (linkJump_emits first).trans (ih rest)

theorem linkEntries_emits {entries : List (String × List (Nat × Location))}
    (h : linkEntries entries g = .ok u g') : Emits g [] g' := by
  induction entries generalizing g with
  | nil =>
      obtain ⟨-, rfl⟩ := pure_eq_ok.1 h
      exact .refl g
  | cons entry entries ih =>
      obtain ⟨_, g₁, first, rest⟩ := bind_eq_ok.1 h
      exact (linkJumps_emits first).trans (ih rest)

/-- Linking emits nothing. -/
theorem linkLabels_emits (h : linkLabels g = .ok u g') : Emits g [] g' := by
  simp only [linkLabels, bind_eq_ok, get_eq_ok, modify_eq_ok] at h
  obtain ⟨_, _, ⟨rfl, rfl⟩, _, _, rfl, h⟩ := h
  have emptied : Emits g [] { g with pending := .empty } :=
    .quiet ⟨rfl, rfl, rfl⟩ fun ready => ⟨ready.below, ready.names⟩
  exact emptied.trans (linkEntries_emits h)

/-- What finishing a program adds to its code, if it can run past its end. -/
def closingEmissions (stop : Location) : List Emission := [⟨.pushNull, stop⟩, ⟨.ret, stop⟩]

/-- The return at the end of a program is emitted at the location of the end. -/
theorem closeProgram_emits {stop : Location} (h : closeProgram stop g = .ok u g') :
    Emits g (if g.fallsOffEnd 0 then closingEmissions stop else []) g' := by
  rw [closeProgram, get_bind] at h
  split at h
  next open_ =>
    simp only [bind_eq_ok, put_eq_ok] at h
    obtain ⟨_, _, rfl, rfl⟩ := h
    rw [if_pos open_]
    exact ((Emits.refl g).push .pushNull stop).push .ret stop
  next done =>
    obtain ⟨-, rfl⟩ := pure_eq_ok.1 h
    rw [if_neg done]
    exact .refl g

/-- The program is the code, linked and closed. -/
theorem finish_emits {env : Environment} {stop : Location} {program : Program}
    (h : finish env stop g = .ok program g') :
    ∃ closed g₁, (closed = [] ∨ closed = closingEmissions stop) ∧ Emits g closed g₁ ∧
      program = g₁.program := by
  obtain ⟨_, g₁, linked, h⟩ := bind_eq_ok.1 h
  obtain ⟨_, g₂, closed, h⟩ := bind_eq_ok.1 h
  obtain ⟨_, _, checked, h⟩ := bind_eq_ok.1 h
  obtain ⟨-, rfl⟩ := check_eq_ok.1 checked
  obtain ⟨_, _, checked, h⟩ := bind_eq_ok.1 h
  obtain ⟨-, rfl⟩ := check_eq_ok.1 checked
  obtain ⟨_, _, got, h⟩ := bind_eq_ok.1 h
  obtain ⟨_, _, recorded, h⟩ := bind_eq_ok.1 h
  refine ⟨_, g₂, ?_, (linkLabels_emits linked).trans (closeProgram_emits closed), ?_⟩
  · rw [List.nil_append]
    split
    · exact .inr rfl
    · exact .inl rfl
  · rw [← (pure_eq_ok.1 h).1, (get_eq_ok.1 got).1]

end Generate

/-! ## main result -/

/-- The program was emitted by `es`, and its tables say so. -/
structure Program.LocatedBy (program : Program) (es : List Emission) : Prop where
  instructions : program.instructions.map Instruction.bare = es.map (·.instruction.bare)
  /-- There is one entry for each instruction. -/
  size : program.locations.length = program.instructions.length
  /-- Every entry has its source. -/
  known : ∀ l ∈ program.locations, l.source < program.sources.names.length
  distinct : program.sources.names.Nodup
  /-- The sources are in the order in which they first gave rise to an instruction. -/
  ordered : program.sources.names = (es.map (·.location.sourceName)).eraseDups
  location : ∀ address, program.location? address = es[address]?.map (·.location.shown)

/-- A program has the locations that its generator has. -/
theorem Generator.Traces.program {g : Generator} {es : List Emission} (h : g.Traces es) :
    g.program.LocatedBy es where
  instructions := h.code
  size := by
    have lengths := congrArg List.length h.code
    simp only [List.length_map] at lengths
    show g.code.locations.toList.length = g.listing.length
    rw [h.locations, List.length_map, lengths]
  known l found := by
    have found : l ∈ g.code.locations.toList := found
    rw [h.locations] at found
    obtain ⟨e, member, rfl⟩ := List.mem_map.1 found
    exact List.idxOf_lt_length_of_mem (h.known member)
  distinct := h.distinct
  ordered := h.sources
  location address := by
    show g.code.locations.toList[address]?.map g.sources.location = _
    rw [h.locations, List.getElem?_map, Option.map_map]
    cases found : es[address]? with
    | none => rfl
    | some e =>
        have known := h.known (List.mem_of_getElem? found)
        exact congrArg some (CodeSources.location_compact known)

namespace Compile

variable {α : Type} {p : Preprocessor} {text : String} {s s' : Session} {u : Unit}

/-- Nothing was done to the code. -/
structure Unemitted (s s' : Session) : Prop where
  scope : s'.scope = s.scope
  code : s'.generator.code = s.generator.code
  sources : s'.generator.sources = s.generator.sources
  labels : s'.generator.labels = s.generator.labels
  parameters : s'.generator.parameters = s.generator.parameters

/-- What has emitted nothing twice has emitted nothing. -/
theorem Unemitted.trans {s'' : Session} (first : Unemitted s s') (second : Unemitted s' s'') :
    Unemitted s s'' :=
  ⟨second.scope.trans first.scope, second.code.trans first.code,
    second.sources.trans first.sources, second.labels.trans first.labels,
    second.parameters.trans first.parameters⟩

/-- Behind steps that emit nothing the generator is still empty. -/
theorem Unemitted.blank {env : Environment} {options : Options}
    (h : Unemitted (.start env options) s) :
    s.generator.Traces [] ∧ s.generator.Ready s.scope s.scope ∧ s.generator.here = 0 := by
  refine ⟨⟨?_, ?_, ?_, ?_⟩, ⟨fun name address found => ?_, ?_⟩, ?_⟩
  · rw [Generator.listing, h.code]
    rfl
  · rw [h.sources]
    rfl
  · rw [h.sources]
    exact List.nodup_nil
  · rw [h.code]
    rfl
  · rw [h.labels] at found
    cases found
  · rw [h.parameters]
    rfl
  · rw [Generator.here, h.code]
    rfl

/-- What is only logged emits nothing. -/
theorem unemitted_of_logging {x : EStateM CompileError Log α} {a : α}
    (h : logging x s = .ok a s') : Unemitted s s' := by
  unfold logging at h
  cases run : x s.generator.log with
  | error e log => simp [run] at h
  | ok b log =>
      obtain ⟨-, rfl⟩ : b = a ∧ _ = s' := by simpa [run] using h
      exact ⟨rfl, rfl, rfl, rfl, rfl⟩

/-- What is only read emits nothing. -/
theorem unemitted_of_parsing {x : Parse α} {a : α} (h : parsing x s = .ok a s') :
    Unemitted s s' := by
  obtain ⟨state, -, rfl⟩ := parsing_eq_ok h
  exact ⟨rfl, rfl, rfl, rfl, rfl⟩

/-- Reading a script leaves everything to do for the code, whatever is done to the tokens. -/
theorem unemitted_of_readWith (h : readWith p text s = .ok u s') : Unemitted s s' := by
  simp only [readWith, tokenize, preprocess, build, bind_eq_ok, get_eq_ok, modify_eq_ok] at h
  obtain ⟨_, _, ⟨_, _, ⟨rfl, rfl⟩, _, s₁, tokenized, rfl⟩, _, _, ⟨_, _, ⟨rfl, rfl⟩, _, s₂,
    preprocessed, rfl⟩, _, s₃, parsed, rfl⟩ := h
  have second := unemitted_of_logging preprocessed
  have third := unemitted_of_parsing parsed
  exact (unemitted_of_logging tokenized).trans (Unemitted.trans
    ⟨second.scope, second.code, second.sources, second.labels, second.parameters⟩
    ⟨third.scope, third.code, third.sources, third.labels, third.parameters⟩)

/-- Generating the code of a tree emits its emissions. -/
theorem compileRoot_emits (ready : s.generator.Ready s.scope s.scope)
    (h : compileRoot s = .ok u s') :
    ∃ root, s.root = some root ∧ s'.eof = s.eof ∧
      Emits s.generator (Generate.emissions root s.scope s.generator.here) s'.generator := by
  rw [compileRoot, get_bind] at h
  cases tree : s.root with
  | none =>
      simp only [tree] at h
      exact absurd h throw_ne_ok
  | some root =>
      simp only [tree] at h
      obtain ⟨_, s₁, generated, recorded⟩ := bind_eq_ok.1 h
      rw [compileNode, get_bind] at generated
      obtain ⟨g₁, emitted, rfl⟩ := generating_eq_ok generated
      obtain ⟨g₂, reported, rfl⟩ := generating_eq_ok recorded
      simp only [bind_eq_ok, Generate.here_eq_ok, Generate.record, modify_eq_ok] at reported
      obtain ⟨_, _, ⟨rfl, rfl⟩, rfl⟩ := reported
      exact ⟨root, rfl, rfl, (Generate.emit_emits root ready emitted).andThenQuiet
        (.quiet ⟨rfl, rfl, rfl⟩ fun ready => ⟨ready.below, ready.names⟩)⟩

end Compile

/-- The tree of a script whose tokens are changed before they are read, and where the script
ends. -/
def readTreeWith (p : Preprocessor) (env : Environment) (options : Options) (text : String) :
    Option (Node × Location) :=
  match Compile.readWith p text (.start env options) with
  | .ok _ s => s.root.map (·, s.eof.location)
  | .error _ _ => none

section main

variable {p : Preprocessor} {env : Environment} {options : Options} {text : String}
  {program : Program}

/-- Whatever a preprocessor does to the tokens of a script, the program was emitted for the tree
that is read from them, and can tell of every instruction where. -/
theorem locatedBy_of_compileWith (compiled : compileWith p env options text = .ok program) :
    ∃ root stop closed, readTreeWith p env options text = some (root, stop) ∧
      (closed = [] ∨ closed = Generate.closingEmissions stop) ∧
      program.LocatedBy (Generate.emissions root ⟨env, options.mainArguments⟩ 0 ++ closed) := by
  obtain ⟨s, s', g, read, generated, ran⟩ := steps_of_compileWith compiled
  have unemitted := Compile.unemitted_of_readWith read
  obtain ⟨blank, ready, here⟩ := unemitted.blank
  obtain ⟨root, tree, eof, emits⟩ := Compile.compileRoot_emits ready generated
  obtain ⟨closed, g₁, shape, closes, rfl⟩ := Generate.finish_emits ran
  refine ⟨root, s.eof.location, closed, ?_, ?_, ?_⟩
  · rw [readTreeWith, read]
    simp [tree]
  · rwa [eof] at shape
  · have traces := (emits.trans closes).traces [] blank
    rw [List.nil_append, here, unemitted.scope] at traces
    exact traces.program

/-- Whatever a preprocessor does to the tokens of a script, the tables of its program are in order:
the program was emitted for the tree that is read from the tokens, and tells of every instruction
the location it was emitted at, up to the name of a script that has none.  So do the sources at any
time of the compilation, with whatever names were added to them before and after. -/
theorem compileWith_locates_instructions
    (compiled : compileWith p env options text = .ok program) :
    (∃ root stop closed, readTreeWith p env options text = some (root, stop) ∧
      (closed = [] ∨ closed = Generate.closingEmissions stop) ∧
      program.LocatedBy (Generate.emissions root ⟨env, options.mainArguments⟩ 0 ++ closed)) ∧
    (∀ (s : CodeSources) (l : Location) (others : List Location),
      let s' := s.insert l.sourceName
      (s'.after others).location (s'.compact l) = l.shown) ∧
    ∀ l : Location, l.shown.line = l.line ∧ l.shown.column = l.column ∧
      l.shown.sourceName = l.sourceName ∧ (l.shown = l ↔ l.source ≠ some Location.unnamed) ∧
      (l.source = some Location.unnamed → l.shown.source = none) := by
  refine ⟨locatedBy_of_compileWith compiled, fun s l others => ?_,
    fun l => ⟨rfl, rfl, l.sourceName_shown, l.shown_eq_self_iff, fun same => ?_⟩⟩
  · have known := s.mem_names_insert l.sourceName
    have more := (s.insert l.sourceName).names_prefix_after others
    dsimp only
    rw [← CodeSources.compact_eq_of_more more known]
    exact CodeSources.location_compact (more.subset known)
  · rw [Location.shown, same]
    rfl

end main

/-- The name `step` stands for a text from another script. -/
def stepText : Substitution := ⟨"step", "total += 1", some "steps"⟩

theorem compileWith_locates_instructions_step :
    ∃ program, compileWith stepText.apply {} { sourceName := some "main" } "while total step" =
        .ok program ∧
      program.location? 1 = some ⟨some "main", 1, 1⟩ ∧
      program.location? 2 = some ⟨some "steps", 1, 1⟩ := by
  have succeeds : (compileWith stepText.apply {} { sourceName := some "main" }
      "while total step").isOk = true := by decide +kernel
  have known : (readTreeWith stepText.apply {} { sourceName := some "main" }
      "while total step").map (fun tree => ((Generate.emissions tree.1 ⟨{}, []⟩ 0).map
        (·.location)).take 3) =
      some [⟨some "main", 1, 7⟩, ⟨some "main", 1, 1⟩, ⟨some "steps", 1, 1⟩] := by decide +kernel
  cases compiled : compileWith stepText.apply {} { sourceName := some "main" }
      "while total step" with
  | error e =>
      rw [compiled] at succeeds
      cases succeeds
  | ok program =>
      obtain ⟨⟨root, stop, closed, read, -, located⟩, -⟩ :=
        compileWith_locates_instructions compiled
      rw [read] at known
      have front := Option.some.inj known
      have place (k : Nat) (l : Location) (inside : k < 3)
          (there : ([⟨some "main", 1, 7⟩, ⟨some "main", 1, 1⟩, ⟨some "steps", 1, 1⟩] :
            List Location)[k]? = some l) : program.location? k = some l.shown := by
        rw [← front, List.getElem?_take_of_lt inside, List.getElem?_map] at there
        obtain ⟨e, found, rfl⟩ := Option.map_eq_some_iff.1 there
        have inside := (List.getElem?_eq_some_iff.1 found).1
        rw [located.location, List.getElem?_append_left inside, found, Option.map_some]
      exact ⟨program, rfl, place 1 _ (by decide) rfl, place 2 _ (by decide) rfl⟩

end HostScript
