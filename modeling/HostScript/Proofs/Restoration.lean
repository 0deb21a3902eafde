import HostScript.Proofs.Brackets
import HostScript.Proofs.Fragment
import HostScript.Proofs.Scripts

/-!
# HostScript.Proofs.Restoration

What the steps of a session put back and what they leave alone.  A step can fail in the middle of a
tree and the session goes on, so what is said here holds of failures as well as of successes
(`endState`).

Reading changes what is allowed in loops, switches and functions, and generating code changes the
parameters in the body of a function; both are put back behind that.  The code takes more:
generating it adds instructions, but also patches jumps, which are found by their addresses and by
ranges of addresses.  `Spares n x` says that all that `x` patches lies from `n` on, and that the
parameters are put back; with the address where the code of a tree starts for `n`, no older
instruction changes.
-/

namespace HostScript

/-! ## code that stays -/

namespace Generator

/-- From `g` to `g'` code was added, none of the first `n` instructions has changed, and the
parameters around are what they were. -/
structure Spared (n : Nat) (g g' : Generator) : Prop where
  parameters : g'.parameters = g.parameters
  longer : g.here ≤ g'.here
  below : ∀ k < n, g'.listing[k]? = g.listing[k]?
  locations : g.code.locations.toList <+: g'.code.locations.toList

namespace Spared

variable {n : Nat} {g g' g'' : Generator}

/-- A change of anything but the code and the parameters. -/
theorem of_code (same : g'.code = g.code) (parameters : g'.parameters = g.parameters) :
    g.Spared n g' where
  parameters := parameters
  longer := Nat.le_of_eq (by rw [here, here, same])
  below k _ := by rw [listing, listing, same]
  locations := same ▸ List.prefix_rfl

/-- What was spared twice was spared. -/
theorem trans (first : g.Spared n g') (second : g'.Spared n g'') : g.Spared n g'' where
  parameters := second.parameters.trans first.parameters
  longer := Nat.le_trans first.longer second.longer
  below k low := (second.below k low).trans (first.below k low)
  locations := first.locations.trans second.locations

/-- A new instruction stands behind all of the old ones. -/
theorem push (long : n ≤ g.here) (i : Instruction) (l : Location) : g.Spared n (g.push i l) where
  parameters := rfl
  longer := by simp
  below k low := by
    have inside : k < g.listing.length := by
      rw [length_listing]
      omega
    rw [listing_push, List.getElem?_append_left inside]
  locations := by simp [Generator.push, Code.push]

/-- A jump that is patched from `n` on is none of the first `n`. -/
theorem patchHere {address : Nat} (above : n ≤ address) : g.Spared n (g.patchHere address) where
  parameters := rfl
  longer := by simp
  below k low := by
    have other : address ≠ k := by omega
    simp [listing_patchHere, other]
  locations := List.prefix_rfl

/-- A loop patches its own range, and no more. -/
theorem patchLoop {start : Nat} (above : n ≤ start) (stop : Nat) (breakTo continueTo : Option Nat) :
    g.Spared n (g.patchLoop start stop breakTo continueTo) where
  parameters := rfl
  longer := by simp
  below k low := by
    have outside : ¬ (start ≤ k ∧ k < stop) := by omega
    simp [listing_patchLoop, outside]
  locations := List.prefix_rfl

/-- Behind the body of a function the parameters around it are put back. -/
theorem inFunction {parameters : Option (List String)}
    (h : (g.withParameters parameters).Spared n g') :
    g.Spared n (g'.withParameters g.parameters) where
  parameters := rfl
  longer := h.longer
  below := h.below
  locations := h.locations

/-- Where all instructions are spared, the code has only grown. -/
theorem listing_prefix (h : g.Spared g.here g') : g.listing <+: g'.listing := by
  refine List.prefix_iff_getElem?.2 fun k inside => ?_
  rw [h.below k (g.length_listing ▸ inside), List.getElem?_eq_getElem inside]

end Spared

end Generator

namespace Generate

variable {α β : Type} {n : Nat}

/-- With at least `n` instructions before it, `x` spares the first `n` of them, and all that it
returns is `good`. -/
def Spares (n : Nat) (x : Generate α) (good : α → Prop := fun _ => True) : Prop :=
  ∀ g, n ≤ g.here →
    match x g with
    | .ok a g' => good a ∧ g.Spared n g'
    | .error _ g' => g.Spared n g'

namespace Spares

variable {good : α → Prop} {good' : β → Prop} {scope : Scope}

/-- A sequence spares what both parts spare.  If the first part fails, the second has no say. -/
theorem bind {x : Generate α} {f : α → Generate β} (first : Spares n x good)
    (rest : ∀ a, good a → Spares n (f a) good') : Spares n (x >>= f) good' := by
  intro g long
  have spares := first g long
  cases run : x g with
  | error e g' =>
      rw [run] at spares
      rw [bind_of_error run]
      exact spares
  | ok a g' =>
      rw [run] at spares
      obtain ⟨fine, spared⟩ := spares
      rw [bind_of_ok run]
      have spares' := rest a fine g' (Nat.le_trans long spared.longer)
      cases run' : f a g' with
      | error e g'' =>
          rw [run'] at spares'
          exact spared.trans spares'
      | ok b g'' =>
          rw [run'] at spares'
          exact ⟨spares'.1, spared.trans spares'.2⟩

/-- So the code is spared wherever the run ends. -/
theorem endState {x : Generate α} (h : Spares n x good) {g : Generator} (long : n ≤ g.here) :
    g.Spared n (endState x g) := by
  have spares := h g long
  cases run : x g with
  | ok a g' =>
      rw [run] at spares
      rw [endState_of_ok run]
      exact spares.2
  | error e g' =>
      rw [run] at spares
      rw [endState_of_error run]
      exact spares

theorem ofPure {a : α} (fine : good a) : Spares n (pure a : Generate α) good :=
  fun _ _ => ⟨fine, .of_code rfl rfl⟩

/-- A failure leaves the generator as it is. -/
theorem fail (l : Location) (cause : Cause) : Spares n (fail l cause : Generate α) good :=
  fun _ _ => .of_code rfl rfl

/-- What stands behind a failure is never reached. -/
theorem failBefore (l : Location) (cause : Cause) {f : α → Generate β} :
    Spares n (Generate.fail l cause >>= f) good' := by
  have never : Spares n (Generate.fail l cause : Generate α) fun _ => False := fail l cause
  exact never.bind fun _ reached => reached.elim

/-- A change of the generator that spares spares as a step. -/
theorem ofModify {f : Generator → Generator} (h : ∀ g : Generator, n ≤ g.here → g.Spared n (f g)) :
    Spares n (modify f : Generate Unit) :=
  fun g long => ⟨trivial, h g long⟩

theorem ofGet : Spares n (get : Generate Generator) := fun _ _ => ⟨trivial, .of_code rfl rfl⟩

/-! ### elementary steps -/

/-- Code that has at least `n` instructions goes on from `n` or later. -/
theorem here : Spares n here (n ≤ ·) := fun _ long => ⟨long, .of_code rfl rfl⟩

theorem put (i : Instruction) (l : Location) : Spares n (put i l) :=
  ofModify fun _ long => .push long i l

/-- The address of a new instruction is one that may be patched. -/
theorem push (i : Instruction) (l : Location) : Spares n (push i l) (n ≤ ·) :=
  here.bind fun _ above => (put i l).bind fun _ _ => ofPure above

/-- Expansions are put instruction by instruction. -/
theorem putAll (code : List Instruction) (l : Location) : Spares n (putAll code l) := by
  induction code with
  | nil => exact ofPure trivial
  | cons i code ih => exact (put i l).bind fun _ _ => ih

theorem patchHere {address : Nat} (above : n ≤ address) : Spares n (patchHere address) :=
  ofModify fun _ _ => .patchHere above

theorem patchLoop {start : Nat} (above : n ≤ start) (stop : Nat) (breakTo continueTo : Option Nat) :
    Spares n (patchLoop start stop breakTo continueTo) :=
  ofModify fun _ _ => .patchLoop above stop breakTo continueTo

theorem record (entry : LogRecord) : Spares n (record entry) := ofModify fun _ _ => .of_code rfl rfl

/-- A label that exists already is an error, and no code depends on it. -/
theorem declareLabel (name : String) (l : Location) : Spares n (declareLabel name l) := by
  unfold Generate.declareLabel
  refine ofGet.bind fun g _ => ?_
  split
  · exact failBefore l _
  · exact (record _).bind fun _ _ => ofModify fun _ _ => .of_code rfl rfl

theorem awaitLabel (name : String) (address : Nat) (l : Location) :
    Spares n (awaitLabel name address l) := ofModify fun _ _ => .of_code rfl rfl

theorem visible : Spares n (visible scope) := fun _ _ => ⟨trivial, .of_code rfl rfl⟩

/-- The body of a function is generated with other parameters, which are not there any more behind
it, whether it was completed or not. -/
theorem inFunction {x : Generate α} (parameters : List String) (body : Spares n x good) :
    Spares n (inFunction parameters x) good := by
  intro g long
  have inner := body (g.withParameters (some parameters)) long
  unfold Generate.inFunction
  cases run : x (g.withParameters (some parameters)) with
  | ok a g' =>
      rw [run] at inner
      exact ⟨inner.1, inner.2.inFunction⟩
  | error e g' =>
      rw [run] at inner
      exact inner.inFunction

/-- A read of a name is an instruction or an expansion, or none at all if the expansion fails. -/
theorem readName (l : Location) (name : String) : Spares n (readName scope l name) := by
  unfold Generate.readName
  split
  · exact put _ l
  · exact putAll _ l
  · exact put _ l
  · exact put _ l

theorem nameSetter (l : Location) (name : String) : Spares n (nameSetter scope l name) := by
  unfold Generate.nameSetter
  split
  · exact fail l _
  · exact ofPure trivial

/-- Whether a static function exists is a question to the host. -/
theorem checkStaticCall (l : Location) (template name : String) (argc : Nat) :
    Spares n (checkStaticCall scope l template name argc) := by
  unfold Generate.checkStaticCall
  split
  · exact fail l _
  · split
    · exact fail l _
    · exact ofPure trivial

/-- Whatever is known of the functions, placing one of them does not touch the code. -/
theorem place (l : Location) (id : Nat) (name : String) (start stop : Nat) :
    Spares n (do
      match (← get).functions.get? id with
      | none => Generate.fail l (.unregisteredFunction name)
      | some _ => modify fun g => { g with functions := g.functions.place id start stop }) := by
  refine ofGet.bind fun g _ => ?_
  cases g.functions.get? id with
  | none => exact fail l _
  | some f => exact ofModify fun _ _ => .of_code rfl rfl

/-- A function patches the jump around it, which it has put itself, and puts its return. -/
theorem closeFunction (l : Location) (id : Nat) (name : String) {skip : Nat} (above : n ≤ skip)
    (start : Nat) : Spares n (closeFunction l id name skip start) := by
  have rest := here.bind fun stop _ => (patchHere above).bind fun _ _ =>
    place l id name start (stop - 1)
  unfold Generate.closeFunction
  refine ofGet.bind fun g _ => ?_
  split
  · exact (put .pushNull l).bind fun _ _ => (put .ret l).bind fun _ _ => rest
  · exact rest

end Spares

/-! ## code for trees -/

theorem fieldSetter_spares (node : Node) : Spares n (fieldSetter node) := by
  cases node with
  | identifier => exact .ofPure trivial
  | _ => exact .fail _ _

/-- A field is read and stored by name. -/
theorem fieldGetterAndSetter_spares (node : Node) : Spares n (fieldGetterAndSetter node) := by
  cases node with
  | identifier l name =>
      exact (Spares.put .duplicate l).bind fun _ _ =>
        (Spares.put (.pushField name) l).bind fun _ _ => .ofPure trivial
  | _ => exact .fail _ _

/-- An increment or decrement, wherever its value is left. -/
theorem adjust_spares {scope : Scope} {target : Node}
    (both : Spares n (emitGetterAndSetter target scope)) (l : Location) (kind : AdjustKind)
    (direction : Direction) : Spares n (emit (.adjust l kind target direction) scope) := by
  simp only [emit]
  split
  · exact .failBefore l _
  · exact .failBefore l _
  refine both.bind fun setter _ => ?_
  have sum {rest : Generate Unit} (h : Spares n rest) : Spares n (do
      put (.pushNumber direction.number) l
      put (.binaryOp .add) l
      rest) := (Spares.put _ l).bind fun _ _ => (Spares.put _ l).bind fun _ _ => h
  have store : Spares n (put setter l) := .put setter l
  have twice : Spares n (put .duplicate l) := .put .duplicate l
  cases kind with
  | before => exact sum (twice.bind fun _ _ => store)
  | after => exact twice.bind fun _ _ => sum store
  | statement => exact sum store

-- The addresses that are patched come from `push` and `here`, which return none below `n`.

mutual

/-- Generating the code of a node spares all that was there before, since each jump that is patched
is one that the node has put. -/
theorem emit_spares : (node : Node) → (scope : Scope) → Spares n (emit node scope)
  | .null l, _ | .number l _, _ | .string l _, _ => .put _ l
  | .identifier l name, _ => Spares.visible.bind fun _ _ => .readName l name
  | .chain _ current remaining, scope =>
      (emit_spares current scope).bind fun _ _ => emitLinks_spares remaining scope
  | .call l _ arguments, scope => (emitAll_spares arguments scope).bind fun _ _ => .put _ l
  | .staticCall l template name arguments, scope =>
      (Spares.checkStaticCall l template name _).bind fun _ _ =>
        (emitAll_spares arguments scope).bind fun _ _ => .put _ l
  | .unary l _ operand, scope => (emit_spares operand scope).bind fun _ _ => .put _ l
  | .binary l op left right, scope => by
      refine (emit_spares left scope).bind fun _ _ => ?_
      have second := emit_spares right scope
      cases op with
      | and | or =>
          exact (Spares.push _ l).bind fun _ above => second.bind fun _ _ => .patchHere above
      | _ => exact second.bind fun _ _ => .put _ l
  | .block _ statements, scope => emitAll_spares statements scope
  | .returns l none, _ => (Spares.put .pushNull l).bind fun _ _ => .put .ret l
  | .returns l (some value), scope => (emit_spares value scope).bind fun _ _ => .put .ret l
  | .discard l value, scope => (emit_spares value scope).bind fun _ _ => .put .discard l
  | .branch l condition accepted none, scope =>
      (emit_spares condition scope).bind fun _ _ => (Spares.push _ l).bind fun _ above =>
        (emit_spares accepted scope).bind fun _ _ => .patchHere above
  | .branch l condition accepted (some otherwise), scope =>
      (emit_spares condition scope).bind fun _ _ => (Spares.push _ l).bind fun _ above =>
        (emit_spares accepted scope).bind fun _ _ => (Spares.push _ l).bind fun _ above' =>
          (Spares.patchHere above).bind fun _ _ =>
            (emit_spares otherwise scope).bind fun _ _ => .patchHere above'
  | .switch l kind value cases fallback, scope =>
      (emit_spares value scope).bind fun _ _ => (emitTests_spares cases scope).bind fun _ tests =>
        (Spares.put .discard l).bind fun _ _ => (Spares.push _ l).bind fun _ above =>
          Spares.here.bind fun _ start => (emitBodies_spares cases kind tests scope).bind fun _ _ =>
            (Spares.patchHere above).bind fun _ _ =>
              (emitOptional_spares fallback scope).bind fun _ _ =>
                Spares.here.bind fun stop _ => .patchLoop start stop (some stop) none
  | .assign l none target value, scope =>
      (emitSetter_spares target scope).bind fun setter _ =>
        (emit_spares value scope).bind fun _ _ => .put setter l
  | .assign l (some op) target value, scope =>
      (emitGetterAndSetter_spares target scope).bind fun setter _ =>
        (emit_spares value scope).bind fun _ _ =>
          (Spares.put (.binaryOp op) l).bind fun _ _ => .put setter l
  | .adjust l kind target direction, scope =>
      adjust_spares (emitGetterAndSetter_spares target scope) l kind direction
  | .whileLoop l condition body, scope =>
      Spares.here.bind fun start _ => (emit_spares condition scope).bind fun _ _ =>
        (Spares.push _ l).bind fun _ above => Spares.here.bind fun _ bodyStart =>
          (emit_spares body scope).bind fun _ _ => (Spares.put _ l).bind fun _ _ =>
            Spares.here.bind fun stop _ => (Spares.patchHere above).bind fun _ _ =>
              .patchLoop bodyStart stop (some stop) (some start)
  | .doLoop l body condition, scope =>
      Spares.here.bind fun _ start => (emit_spares body scope).bind fun _ _ =>
        Spares.here.bind fun check _ => (emit_spares condition scope).bind fun _ _ =>
          (Spares.put _ l).bind fun _ _ => Spares.here.bind fun stop _ =>
            .patchLoop start check (some stop) (some check)
  | .forLoop l init condition post body, scope =>
      (emit_spares init scope).bind fun _ _ => Spares.here.bind fun _ _ =>
        (emit_spares condition scope).bind fun _ _ => (Spares.push _ l).bind fun _ above =>
          Spares.here.bind fun _ bodyStart => (emit_spares body scope).bind fun _ _ =>
            Spares.here.bind fun postStart _ => (emit_spares post scope).bind fun _ _ =>
              (Spares.put _ l).bind fun _ _ => Spares.here.bind fun stop _ =>
                (Spares.patchHere above).bind fun _ _ =>
                  .patchLoop bodyStart stop (some stop) (some postStart)
  | .leave l, _ | .proceed l, _ | .back l, _ => .put _ l
  | .label l name statement, scope =>
      (Spares.declareLabel name l).bind fun _ _ => emit_spares statement scope
  | .jump l name, _ | .callLabel l name, _ =>
      (Spares.push _ l).bind fun address _ => .awaitLabel name address l
  | .directive l _ code statements, scope =>
      (Spares.putAll code l).bind fun _ _ => emitAll_spares statements scope
  | .function l id name parameters body, scope =>
      (Spares.push _ l).bind fun _ above => Spares.here.bind fun start _ =>
        (Spares.inFunction parameters (emit_spares body scope)).bind fun _ _ =>
          .closeFunction l id name above start

/-- Nodes one after the other spare what each of them spares. -/
theorem emitAll_spares : (nodes : List Node) → (scope : Scope) → Spares n (emitAll nodes scope)
  | [], _ => .ofPure trivial
  | node :: nodes, scope =>
      (emit_spares node scope).bind fun _ _ => emitAll_spares nodes scope

theorem emitOptional_spares : (node : Option Node) → (scope : Scope) →
    Spares n (emitOptional node scope)
  | none, _ => .ofPure trivial
  | some node, scope => emit_spares node scope

/-- A link is an instruction behind its arguments. -/
theorem emitLink_spares (node : Node) (scope : Scope) : Spares n (emitLink node scope) := by
  cases node with
  | identifier l name => exact .put (.pushField name) l
  | call l _ arguments => exact (emitAll_spares arguments scope).bind fun _ _ => .put _ l
  | _ => exact .fail _ _

theorem emitLinks_spares (node : Node) (scope : Scope) : Spares n (emitLinks node scope) := by
  cases node with
  | chain _ current remaining =>
      exact (emitLink_spares current scope).bind fun _ _ => emitLinks_spares remaining scope
  | identifier l name => exact .put (.pushField name) l
  | call l _ arguments => exact (emitAll_spares arguments scope).bind fun _ _ => .put _ l
  | _ => exact .fail _ _

theorem emitReceiver_spares (node : Node) (scope : Scope) :
    Spares n (emitReceiver node scope) := by
  cases node with
  | chain _ current remaining =>
      exact (emitLink_spares current scope).bind fun _ _ => emitReceiver_spares remaining scope
  | _ => exact .ofPure trivial

/-- A store has its receiver put before it. -/
theorem emitSetter_spares (target : Node) (scope : Scope) :
    Spares n (emitSetter target scope) := by
  cases target with
  | identifier l name => exact Spares.visible.bind fun _ _ => .nameSetter l name
  | chain _ current remaining =>
      exact (emit_spares current scope).bind fun _ _ =>
        (emitReceiver_spares remaining scope).bind fun _ _ => fieldSetter_spares _
  | _ => exact .fail _ _

theorem emitGetterAndSetter_spares (target : Node) (scope : Scope) :
    Spares n (emitGetterAndSetter target scope) := by
  cases target with
  | identifier l name =>
      exact Spares.visible.bind fun _ _ => (Spares.nameSetter l name).bind fun _ _ =>
        (Spares.readName l name).bind fun _ _ => .ofPure trivial
  | chain _ current remaining =>
      exact (emit_spares current scope).bind fun _ _ =>
        (emitReceiver_spares remaining scope).bind fun _ _ => fieldGetterAndSetter_spares _
  | _ => exact .fail _ _

/-- The jumps behind the comparisons are new, so the bodies may patch them. -/
theorem emitTests_spares : (cases : List SwitchCase) → (scope : Scope) →
    Spares n (emitTests cases scope) fun tests => ∀ test ∈ tests, n ≤ test
  | [], _ => .ofPure (by simp)
  | .mk value _ :: cases, scope =>
      (emit_spares value scope).bind fun _ _ => (Spares.push _ _).bind fun _ above =>
        (emitTests_spares cases scope).bind fun _ others =>
          .ofPure (List.forall_mem_cons.2 ⟨above, others⟩)

/-- Each body patches the jump of its own comparison. -/
theorem emitBodies_spares : (cases : List SwitchCase) → (kind : SwitchKind) →
    {tests : List Nat} → (∀ test ∈ tests, n ≤ test) → (scope : Scope) →
    Spares n (emitBodies cases kind tests scope)
  | .mk _ body :: cases, kind, test :: tests, above, scope => by
      have rest := emitBodies_spares cases kind (List.forall_mem_cons.1 above).2 scope
      refine (Spares.patchHere (above test (by simp))).bind fun _ _ =>
        (emit_spares body scope).bind fun _ _ => ?_
      split
      · exact (Spares.put _ _).bind fun _ _ => rest
      · exact rest
  | [], _, _, _, _ | .mk .. :: _, _, [], _, _ => .ofPure trivial

end

end Generate

/-! ## sessions -/

namespace Session

/-- A step that reads has come from `s` to `s'`: the same is allowed, and what is different is at
most the place in the tokens, the functions that were found and the reports. -/
structure OnlyReads (s s' : Session) : Prop where
  allowed : s'.allowed = s.allowed
  others : s' = { s with
    cursor := s'.cursor
    allowed := s'.allowed
    generator := { s.generator with functions := s'.generator.functions, log := s'.generator.log } }

/-- A step that generates code has come from `s` to `s'`: the parameters are the same, the code
before is still the first part of the code, and nothing outside of code generation has changed. -/
structure OnlyGenerates (s s' : Session) : Prop where
  parameters : s'.generator.parameters = s.generator.parameters
  instructions : s.generator.code.instructions.toList <+: s'.generator.code.instructions.toList
  locations : s.generator.code.locations.toList <+: s'.generator.code.locations.toList
  others : s' = { s with generator := s'.generator }

/-- What the session `s'` still has of `s` after steps of both kinds. -/
structure Keeps (s s' : Session) : Prop where
  allowed : s'.allowed = s.allowed
  parameters : s'.generator.parameters = s.generator.parameters
  scope : s'.scope = s.scope
  tokens : s'.tokens = s.tokens
  eof : s'.eof = s.eof
  instructions : s.generator.code.instructions.toList <+: s'.generator.code.instructions.toList
  locations : s.generator.code.locations.toList <+: s'.generator.code.locations.toList

namespace Keeps

variable {s s' s'' : Session}

theorem refl (s : Session) : s.Keeps s :=
  ⟨rfl, rfl, rfl, rfl, rfl, List.prefix_rfl, List.prefix_rfl⟩

theorem trans (first : s.Keeps s') (second : s'.Keeps s'') : s.Keeps s'' :=
  ⟨second.allowed.trans first.allowed, second.parameters.trans first.parameters,
    second.scope.trans first.scope, second.tokens.trans first.tokens, second.eof.trans first.eof,
    first.instructions.trans second.instructions, first.locations.trans second.locations⟩

/-- A step that reads changes nothing that is kept. -/
theorem of_onlyReads (h : s.OnlyReads s') : s.Keeps s' := by
  obtain ⟨allowed, others⟩ := h
  rw [others]
  exact ⟨allowed, rfl, rfl, rfl, rfl, List.prefix_rfl, List.prefix_rfl⟩

/-- A step that generates code changes nothing that is kept but the end of the code. -/
theorem of_onlyGenerates (h : s.OnlyGenerates s') : s.Keeps s' := by
  obtain ⟨parameters, instructions, locations, others⟩ := h
  rw [others]
  exact ⟨rfl, parameters, rfl, rfl, rfl, instructions, locations⟩

end Keeps

end Session

namespace Compile

variable {α : Type} {s : Session}

/-- A session takes back the state of its reader, also if that has failed. -/
theorem endState_parsing (x : Parse α) (s : Session) :
    endState (parsing x) s = s.withReader (endState (x s.input) s.reader) := by
  unfold endState parsing
  cases x s.input s.reader <;> rfl

/-- A reader that restores the flags is all that a session needs. -/
theorem parsing_onlyReads {x : Parse α} (h : Parse.Restores x) (s : Session) :
    s.OnlyReads (endState (parsing x) s) := by
  rw [endState_parsing]
  exact ⟨h s.input s.reader, rfl⟩

/-- A session takes back its generator, also if that has failed. -/
theorem endState_generating (x : Generate α) (s : Session) :
    endState (generating x) s = { s with generator := endState x s.generator } := by
  unfold endState generating
  cases x s.generator <;> rfl

/-- Code generation that spares the code so far is all that a session needs. -/
theorem generating_onlyGenerates {x : Generate α} (h : Generate.Spares s.generator.here x) :
    s.OnlyGenerates (endState (generating x) s) := by
  -- All that is patched lies from the end of the old code on, so the old code is a first part.
  have spared := h.endState (Nat.le_refl _)
  rw [endState_generating]
  exact ⟨spared.parameters, spared.listing_prefix, spared.locations, rfl⟩

theorem statement_onlyReads (s : Session) : s.OnlyReads (endState statement s) :=
  parsing_onlyReads Parse.statement_restores s

theorem expression_onlyReads (withOperators : Bool) (s : Session) :
    s.OnlyReads (endState (expression withOperators) s) :=
  parsing_onlyReads (Parse.expression_restores withOperators) s

theorem compileNode_onlyGenerates (node : Node) (s : Session) :
    s.OnlyGenerates (endState (compileNode node) s) :=
  generating_onlyGenerates (Generate.emit_spares node s.scope)

/-- A step in a session that is used piece by piece. -/
inductive Step
  | readStatement
  | readExpression (withOperators : Bool)
  | generate (node : Node)

/-- The session behind a step, also behind one that fails. -/
def Step.after (s : Session) : Step → Session
  | readStatement => endState statement s
  | readExpression withOperators => endState (expression withOperators) s
  | generate node => endState (compileNode node) s

/-- One step, of whichever kind. -/
theorem Step.keeps (s : Session) (step : Step) : s.Keeps (step.after s) := by
  cases step with
  | readStatement => exact .of_onlyReads (statement_onlyReads s)
  | readExpression withOperators => exact .of_onlyReads (expression_onlyReads withOperators s)
  | generate node => exact .of_onlyGenerates (compileNode_onlyGenerates node s)

/-- However many steps are taken and whichever of them fail, nothing gets lost. -/
theorem keeps_of_steps (s : Session) (steps : List Step) : s.Keeps (steps.foldl Step.after s) := by
  induction steps generalizing s with
  | nil => exact .refl s
  | cons step steps ih => exact (step.keeps s).trans (ih (step.after s))

/-- A statement holds a break or continue only where its own loops and switches or the flags of the
session allow it. -/
theorem isStatement_of_statement {s' : Session} {node : Node}
    (plain : s.environment.hostDirectives = []) (ends : s.eof.kind = .eof)
    (read : statement s = .ok node s') :
    IsStatement s'.generator.functions.size s.allowed node := by
  have ends : s.input.Ends := ends
  obtain ⟨state, run, rfl⟩ := parsing_eq_ok read
  obtain ⟨moved, good⟩ := (Parse.statement_reads ends plain (s.input.left s.reader + 1) s.reader
    (Nat.lt_succ_self _)).post_of_ok run
  have outside : state.allowed = s.allowed := moved.allowed
  exact outside ▸ good

end Compile

/-- Whether it succeeds or fails, a step that reads leaves the flags of the session as they were,
and one that generates code for a tree leaves the parameters as they were, the older code as the
first part of the code, and everything else alone.  So do any number of steps.  The flags are those
that a statement is read by: what is allowed inside of a loop or a switch of it is not allowed
behind that. -/
theorem steps_restore_session (s : Session) :
    s.OnlyReads (endState Compile.statement s) ∧
    (∀ withOperators, s.OnlyReads (endState (Compile.expression withOperators) s)) ∧
    (∀ node, s.OnlyGenerates (endState (Compile.compileNode node) s)) ∧
    (∀ steps : List Compile.Step, s.Keeps (steps.foldl Compile.Step.after s)) ∧
    (s.environment.hostDirectives = [] → s.eof.kind = .eof → ∀ node s',
      Compile.statement s = .ok node s' →
      IsStatement s'.generator.functions.size s.allowed node) := by
  refine ⟨Compile.statement_onlyReads s, fun b => Compile.expression_onlyReads b s,
    fun node => Compile.compileNode_onlyGenerates node s, Compile.keeps_of_steps s,
    fun plain ends node s' read => ?_⟩
  exact Compile.isStatement_of_statement plain ends read

/-- A session before `break; while a switch b { case c: function f() { break`, where a break may
stand, with one in its code that no loop has taken. -/
def openBreak : Session :=
  endState (Compile.compileNode (.leave ⟨none, 1, 1⟩))
    { Session.start {} {} with
      allowed := .loopPost
      tokens := ⟨[.keyword .breakKw, .semicolon, .keyword .whileKw, .identifier "a",
        .keyword .switchKw, .identifier "b", .braceOpen, .keyword .caseKw, .identifier "c", .colon,
        .keyword .functionKw, .identifier "f", .parenOpen, .parenClose, .braceOpen,
        .keyword .breakKw].map (Token.mk · ⟨none, 2, 1⟩)⟩ }

/-- A function with a break and an assignment that cannot be generated. -/
def brokenFunction (l : Location) : Node :=
  .function l 0 "f" ["n"] (.block l [.leave l, .assign l none (.null l) (.null l)])

/-- The break is read, and the loop behind it is not, since the function in the switch in its body
has nothing to leave.  Behind both of them a break may stand as before.  The function that fails in
the middle of its body leaves no parameters behind, and the break before it is still open. -/
theorem steps_restore_session_openBreak :
    (∃ node s', Compile.statement openBreak = .ok node s' ∧
      IsStatement s'.generator.functions.size .loopPost node ∧ s'.allowed = .loopPost ∧
      Compile.statement.run' s' = none ∧
      (endState Compile.statement s').cursor = 16 ∧
      (endState Compile.statement s').allowed = .loopPost) ∧
    ∃ e s', Compile.compileNode (brokenFunction default) openBreak = .error e s' ∧
      s'.generator.parameters = none ∧
      [.jump .breakPoint] <+: s'.generator.code.instructions.toList := by
  have reading : Succeeds Compile.statement openBreak := ⟨_, _, rfl⟩
  have refused :
      (Compile.statement.run' (endState Compile.statement openBreak)).isNone = true ∧
        (endState Compile.statement (endState Compile.statement openBreak)).cursor = 16 := by
    decide +kernel
  have generating : ∃ e s', Compile.compileNode (brokenFunction default) openBreak = .error e s' :=
    ⟨_, _, rfl⟩
  obtain ⟨node, s', read⟩ := reading
  obtain ⟨e, s'', failed⟩ := generating
  obtain ⟨first, -, generates, -, inside⟩ := steps_restore_session openBreak
  obtain ⟨second, -⟩ := steps_restore_session s'
  rw [endState_of_ok read] at first refused
  have kept := generates (brokenFunction default)
  rw [endState_of_error failed] at kept
  refine ⟨⟨node, s', read, inside rfl rfl node s' read, first.allowed, ?_, refused.2, ?_⟩, e, s'',
    failed, kept.parameters, kept.instructions⟩
  · exact Option.isNone_iff_eq_none.1 refused.1
  · exact second.allowed.trans first.allowed

end HostScript
