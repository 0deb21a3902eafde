import HostScript.Proofs.Demands
import HostScript.Proofs.Parallel.Basic

/-!
# HostScript.Proofs.Parallel.Emission

Generating code twice side by side.  The code for a tree and for the same tree at another place is
the same but for the places of its instructions, and a host is asked about nothing but the names in
the tree.  The calls in the code are those of the tree and of the expansions of system macros; that
both hosts agree on all of them is what the check of the finished code needs.
-/

namespace HostScript

/-! ## maps by name -/

namespace NameMap

variable {α β : Type}

/-- A new entry can be changed before or behind its insertion. -/
theorem mapValues_insert (f : α → β) (m : NameMap α) (name : String) (value : α) :
    (m.insert name value).mapValues f = (m.mapValues f).insert name (f value) := by
  apply NameMap.ext
  show (insertEntry name value m.entries).map _ = insertEntry name (f value) (m.entries.map _)
  induction m.entries with
  | nil => rfl
  | cons entry rest ih =>
      rw [List.map_cons, insertEntry, insertEntry]
      split
      · rfl
      · split
        · rfl
        · rw [List.map_cons, ih]

end NameMap

/-- Where a jump goes is no call. -/
theorem Generator.calls_setTarget (g : Generator) (address : Nat) (target : JumpTarget) :
    ({ g with code := g.code.setTarget address target } : Generator).calls = g.calls := by
  unfold calls listing Code.setTarget
  rw [Array.toList_modify]
  exact filterMap_modify (fun i => callee?_mapTarget i _) _ _

/-! ## two generators -/

namespace Comparison

/-- A jump that waits for its label, at its place. -/
def moveJump (place : Position → Position) (jump : Nat × Location) : Nat × Location :=
  (jump.1, jump.2.move place)

/-- The same code at another place, in which every call means the same to both hosts.  What was
reported on the way does not matter. -/
structure Generators (c : Comparison) (g g' : Generator) : Prop where
  instructions : g'.code.instructions = g.code.instructions
  locations : g'.code.locations = g.code.locations.map (·.move c.place)
  sources : g'.sources = g.sources
  labels : g'.labels = g.labels
  pending : g'.pending = g.pending.mapValues (·.map (moveJump c.place))
  functions : g'.functions = g.functions
  parameters : g'.parameters = g.parameters
  calls : ∀ callee ∈ g.calls, c.first.CallsAlike c.second callee.name

/-- Code generation goes on with the same code, or fails for the same cause. -/
abbrev Generates {α β : Type} (c : Comparison) (post : α → β → Prop) (x : Generate α)
    (y : Generate β) : Prop :=
  Parallel c.place c.Generators post x y

namespace Generators

variable {c : Comparison} {g g' : Generator}

/-- Both generators are at the same address. -/
theorem here (h : c.Generators g g') : g'.here = g.here := by
  unfold Generator.here Code.size
  rw [h.instructions]

/-- Both run off the end of their code or none of them does. -/
theorem fallsOffEnd (h : c.Generators g g') (start : Nat) :
    g'.fallsOffEnd start = g.fallsOffEnd start := by
  unfold Generator.fallsOffEnd Code.fallsOffEnd Code.size
  rw [h.instructions, h.labels, h.here]

/-- Both take the same instruction.  A call must mean the same to both hosts. -/
theorem push (h : c.Generators g g') {i : Instruction} (l : Location)
    (calls : ∀ callee ∈ i.callee?, c.first.CallsAlike c.second callee.name) :
    c.Generators (g.push i l) (g'.push i (l.move c.place)) := by
  constructor
  · show g'.code.instructions.push i = g.code.instructions.push i
    rw [h.instructions]
  · show g'.code.locations.push _ = (g.code.locations.push _).map _
    rw [h.locations, h.sources, Array.map_push]
    rfl
  · show g'.sources.insert _ = g.sources.insert _
    rw [h.sources, Location.sourceName_move]
  · exact h.labels
  · exact h.pending
  · exact h.functions
  · exact h.parameters
  · rw [Generator.calls_push]
    exact List.forall_mem_append.2 ⟨h.calls, by simpa using calls⟩

/-- Both patch the same jump. -/
theorem setTarget (h : c.Generators g g') (address : Nat) (target : JumpTarget) :
    c.Generators { g with code := g.code.setTarget address target }
      { g' with code := g'.code.setTarget address target } := by
  constructor
  · show g'.code.instructions.modify _ _ = g.code.instructions.modify _ _
    rw [h.instructions]
  · exact h.locations
  · exact h.sources
  · exact h.labels
  · exact h.pending
  · exact h.functions
  · exact h.parameters
  · rw [Generator.calls_setTarget]
    exact h.calls

/-- Both patch the same loop. -/
theorem patchLoop (h : c.Generators g g') (start stop : Nat) (x y : Option Nat) :
    c.Generators (g.patchLoop start stop x y) (g'.patchLoop start stop x y) := by
  constructor
  · show g'.code.instructions.mapIdx _ = g.code.instructions.mapIdx _
    rw [h.instructions]
  · exact h.locations
  · exact h.sources
  · exact h.labels
  · exact h.pending
  · exact h.functions
  · exact h.parameters
  · rw [Generator.calls_patchLoop]
    exact h.calls

end Generators

end Comparison

namespace Generate

variable {c : Comparison} {i : Instruction}

/-- The same instruction, which is no call. -/
def SameStraight (i j : Instruction) : Prop := j = i ∧ i.callee? = none

/-! ## single steps -/

/-- Both fail for the same reason. -/
theorem fail_alike {α β : Type} {post : α → β → Prop} (l : Location) (cause : Cause) :
    c.Generates post (fail l cause) (fail (l.move c.place) cause) := .throw ⟨l, cause⟩

/-- What stands behind a failure does not matter. -/
theorem failBefore_alike {α β γ δ : Type} {post : α → β → Prop} (l : Location) (cause : Cause)
    {f : γ → Generate α} {f' : δ → Generate β} :
    c.Generates post (fail l cause >>= f) (fail (l.move c.place) cause >>= f') :=
  fun _ _ _ => .error

/-- Both go on from the same address. -/
theorem here_alike : c.Generates Eq here here := fun _ _ alike => .ok alike.here.symm alike

/-- What is no call is put by both. -/
theorem put_alike (straight : i.callee? = none) (l : Location) :
    c.Generates Eq (put i l) (put i (l.move c.place)) :=
  .modify fun _ _ alike => alike.push l (by simp [straight])

/-- A call is put by both if it means the same to them. -/
theorem putCall_alike {name : String} (calls : c.first.CallsAlike c.second name) (argc : Nat)
    (l : Location) :
    c.Generates Eq (put (.call name argc) l) (put (.call name argc) (l.move c.place)) :=
  .modify fun _ _ alike => alike.push l (by simpa [Instruction.callee?] using calls)

theorem push_alike (straight : i.callee? = none) (l : Location) :
    c.Generates Eq (push i l) (push i (l.move c.place)) :=
  here_alike.bindEq fun _ => (put_alike straight l).bindEq fun _ => .pure rfl

/-- An expansion is put by both if its calls mean the same to them. -/
theorem putAll_alike {code : List Instruction} (l : Location)
    (calls : ∀ name argc, .call name argc ∈ code → c.first.CallsAlike c.second name) :
    c.Generates Eq (putAll code l) (putAll code (l.move c.place)) := by
  induction code with
  | nil => exact .pure rfl
  | cons i code ih =>
      have first : c.Generates Eq (put i l) (put i (l.move c.place)) := by
        cases i with
        | call name argc => exact putCall_alike (calls name argc (by simp)) argc l
        | _ => exact put_alike rfl l
      exact first.bindEq fun _ => ih fun name argc found => calls name argc (by simp [found])

/-- Both patch a jump to lead to where they are, which is the same address. -/
theorem patchHere_alike (address : Nat) :
    c.Generates Eq (patchHere address) (patchHere address) := by
  refine .modify fun g g' alike => ?_
  unfold Generator.patchHere
  rw [alike.here]
  exact alike.setTarget address _

theorem patchLoop_alike (start stop : Nat) (x y : Option Nat) :
    c.Generates Eq (patchLoop start stop x y) (patchLoop start stop x y) :=
  .modify fun _ _ alike => alike.patchLoop start stop x y

theorem record_alike (entry entry' : LogRecord) :
    c.Generates Eq (record entry) (record entry') :=
  .modify fun _ _ alike => { alike with }

/-- A label exists for both or for none. -/
theorem declareLabel_alike (name : String) (l : Location) :
    c.Generates Eq (declareLabel name l) (declareLabel name (l.move c.place)) := by
  refine Parallel.get.bind fun g g' alike => ?_
  rw [alike.labels]
  split
  · exact failBefore_alike _ _
  · refine (record_alike _ _).bindEq fun _ => .modify fun h h' alike => ?_
    rw [alike.here, alike.labels]
    exact { alike with labels := rfl }

/-- A jump waits for the same label in both. -/
theorem awaitLabel_alike (name : String) (address : Nat) (l : Location) :
    c.Generates Eq (awaitLabel name address l) (awaitLabel name address (l.move c.place)) := by
  refine .modify fun g g' alike => { alike with pending := ?_ }
  rw [alike.pending, NameMap.find?_mapValues, NameMap.mapValues_insert]
  cases g.pending.find? name <;> simp [Comparison.moveJump]

/-! ## names -/

section names

variable {name : String} (known : c.known name) (parameters : List String) (l : Location)

include known

/-- A known name is the same constant, expansion, argument or variable for both. -/
theorem readName_alike :
    c.Generates Eq (readName ⟨c.first, parameters⟩ l name)
      (readName ⟨c.second, parameters⟩ (l.move c.place) name) := by
  have agree := c.agree name known
  unfold readName
  rw [agree.constant, agree.systemMacro]
  cases c.first.constant? name with
  | some constant => cases constant <;> exact put_alike rfl l
  | none =>
      cases found : c.first.systemMacro? name with
      | some code => exact putAll_alike l (c.expansions name code known found)
      | none => cases parameters.idxOf? name <;> exact put_alike rfl l

/-- A known name can be stored into by both or by none. -/
theorem nameSetter_alike :
    c.Generates SameStraight (nameSetter ⟨c.first, parameters⟩ l name)
      (nameSetter ⟨c.second, parameters⟩ (l.move c.place) name) := by
  have same : readOnly? ⟨c.second, parameters⟩ name = readOnly? ⟨c.first, parameters⟩ name := by
    unfold readOnly?
    rw [(c.agree name known).constant, (c.agree name known).systemMacro]
  unfold nameSetter
  rw [same]
  cases readOnly? ⟨c.first, parameters⟩ name with
  | some what => exact fail_alike _ _
  | none => exact .pure ⟨rfl, rfl⟩

/-- A known template has the same static functions for both. -/
theorem checkStaticCall_alike (function : String) (argc : Nat) :
    c.Generates Eq (checkStaticCall ⟨c.first, parameters⟩ l name function argc)
      (checkStaticCall ⟨c.second, parameters⟩ (l.move c.place) name function argc) := by
  unfold checkStaticCall
  rw [(c.agree name known).template]
  cases c.first.template? name with
  | none => exact fail_alike _ _
  | some template =>
      cases found : template.staticFunction? function argc with
      | none =>
          simp only [found]
          exact fail_alike _ _
      | some _ =>
          simp only [found]
          exact .pure rfl

end names

/-- The parameters around are the same for both. -/
theorem visible_alike (parameters : List String) :
    c.Generates (fun names names' => ∃ ps, names = ⟨c.first, ps⟩ ∧ names' = ⟨c.second, ps⟩)
      (visible ⟨c.first, parameters⟩) (visible ⟨c.second, parameters⟩) := by
  refine Parallel.get.bind fun g g' alike => .pure ?_
  rw [alike.parameters]
  cases g.parameters with
  | none => exact ⟨parameters, rfl, rfl⟩
  | some ps => exact ⟨ps, rfl, rfl⟩

/-- Both see the parameters of the function while they generate its body. -/
theorem inFunction_alike {α β : Type} {post : α → β → Prop} {x : Generate α} {y : Generate β}
    (parameters : List String) (body : c.Generates post x y) :
    c.Generates post (inFunction parameters x) (inFunction parameters y) := by
  intro g g' alike
  have inner := body (g.withParameters (some parameters)) (g'.withParameters (some parameters))
    { alike with parameters := rfl }
  unfold inFunction
  generalize x (g.withParameters (some parameters)) = r at inner ⊢
  generalize y (g'.withParameters (some parameters)) = r' at inner ⊢
  cases inner with
  | ok same alike' => exact .ok same { alike' with parameters := alike.parameters }
  | error => exact .error

/-- A function finds its place in the table. -/
theorem place_alike (l : Location) (id : Nat) (name : String) (start stop : Nat) :
    c.Generates Eq (do
      match (← get).functions.get? id with
      | none => fail l (.unregisteredFunction name)
      | some _ => modify fun g => { g with functions := g.functions.place id start stop }) (do
      match (← get).functions.get? id with
      | none => fail (l.move c.place) (.unregisteredFunction name)
      | some _ => modify fun g => { g with functions := g.functions.place id start stop }) := by
  refine Parallel.get.bind fun g g' alike => ?_
  rw [alike.functions]
  cases g.functions.get? id with
  | none => exact fail_alike _ _
  | some _ =>
      refine .modify fun h h' alike => ?_
      rw [alike.functions]
      exact { alike with functions := rfl }

/-- Both end a function in the same way. -/
theorem closeFunction_alike (l : Location) (id : Nat) (name : String) (skip start : Nat) :
    c.Generates Eq (closeFunction l id name skip start)
      (closeFunction (l.move c.place) id name skip start) := by
  have rest := (here_alike (c := c)).bindEq fun stop => (patchHere_alike skip).bindEq fun _ =>
    place_alike l id name start (stop - 1)
  refine Parallel.get.bind fun g g' alike => ?_
  rw [alike.fallsOffEnd]
  cases g.fallsOffEnd start with
  | true => exact (put_alike rfl l).bindEq fun _ => (put_alike rfl l).bindEq fun _ => rest
  | false => exact rest

theorem fieldSetter_alike (node : Node) :
    c.Generates SameStraight (fieldSetter node) (fieldSetter (node.move c.place)) := by
  cases node with
  | identifier => exact .pure ⟨rfl, rfl⟩
  | switch _ kind => cases kind <;> exact fail_alike _ _
  | _ => exact fail_alike _ _

/-- A field is read and stored by name, whoever the host is. -/
theorem fieldGetterAndSetter_alike (node : Node) :
    c.Generates SameStraight (fieldGetterAndSetter node)
      (fieldGetterAndSetter (node.move c.place)) := by
  cases node with
  | identifier l =>
      exact (put_alike rfl l).bindEq fun _ => (put_alike rfl l).bindEq fun _ => .pure ⟨rfl, rfl⟩
  | switch _ kind => cases kind <;> exact fail_alike _ _
  | _ => exact fail_alike _ _

/-! ## trees -/

/-- Stepping a target that can be read and set. -/
theorem adjust_alike {target : Node} {parameters : List String} (l : Location)
    (both : c.Generates SameStraight (emitGetterAndSetter target ⟨c.first, parameters⟩)
      (emitGetterAndSetter (target.move c.place) ⟨c.second, parameters⟩))
    (kind : AdjustKind) (direction : Direction) :
    c.Generates Eq (emit (.adjust l kind target direction) ⟨c.first, parameters⟩)
      (emit ((Node.adjust l kind target direction).move c.place) ⟨c.second, parameters⟩) := by
  have twice : c.Generates Eq (put .duplicate l) (put .duplicate (l.move c.place)) :=
    put_alike rfl l
  have sum {rest rest' : Generate Unit} (h : c.Generates Eq rest rest') : c.Generates Eq (do
      put (.pushNumber direction.number) l
      put (.binaryOp .add) l
      rest) (do
      put (.pushNumber direction.number) (l.move c.place)
      put (.binaryOp .add) (l.move c.place)
      rest') :=
    (put_alike rfl l).bindEq fun _ => (put_alike rfl l).bindEq fun _ => h
  have step {rest rest' : Instruction → Generate Unit}
      (h : ∀ {setter}, setter.callee? = none → c.Generates Eq (rest setter) (rest' setter)) :
      c.Generates Eq (emitGetterAndSetter target ⟨c.first, parameters⟩ >>= rest)
        (emitGetterAndSetter (target.move c.place) ⟨c.second, parameters⟩ >>= rest') := by
    refine both.bind ?_
    rintro setter _ ⟨rfl, straight⟩
    exact h straight
  -- The value of a field cannot be stepped on the way.
  cases kind with
  | before =>
      have rest := step fun straight => sum (twice.bindEq fun _ => put_alike straight l)
      cases target with
      | chain => exact failBefore_alike _ _
      | _ => exact rest
  | after =>
      have rest := step fun straight => twice.bindEq fun _ => sum (put_alike straight l)
      cases target with
      | chain => exact failBefore_alike _ _
      | _ => exact rest
  | statement => exact step fun straight => sum (put_alike straight l)

mutual

/-- Both generate the same code for a tree of known names, node by node. -/
theorem emit_alike : (node : Node) → node.Uses c.known → (parameters : List String) →
    c.Generates Eq (emit node ⟨c.first, parameters⟩)
      (emit (node.move c.place) ⟨c.second, parameters⟩)
  | .null l, _, _ | .number l _, _, _ | .string l _, _, _ => put_alike rfl l
  | .identifier l _, uses, ps => by
      refine (visible_alike ps).bind ?_
      rintro _ _ ⟨ps, rfl, rfl⟩
      exact readName_alike uses ps l
  | .chain _ current remaining, uses, ps =>
      (emit_alike current uses.1 ps).bindEq fun _ => emitLinks_alike remaining uses.2 ps
  | .call l name arguments, uses, ps => by
      rw [Node.move, emit, emit, length_moveAll]
      exact (emitAll_alike arguments uses.2 ps).bindEq fun _ =>
        putCall_alike (c.callsAlike uses.1) _ l
  | .staticCall l template name arguments, uses, ps => by
      rw [Node.move, emit, emit, length_moveAll]
      exact (checkStaticCall_alike uses.1 ps l name _).bindEq fun _ =>
        (emitAll_alike arguments uses.2 ps).bindEq fun _ => put_alike rfl l
  | .unary l _ operand, uses, ps =>
      (emit_alike operand uses ps).bindEq fun _ => put_alike rfl l
  | .binary l op left right, uses, ps => by
      refine (emit_alike left uses.1 ps).bindEq fun _ => ?_
      have second := emit_alike right uses.2 ps
      cases op with
      | and | or =>
          exact (push_alike rfl l).bindEq fun skip => second.bindEq fun _ => patchHere_alike skip
      | _ => exact second.bindEq fun _ => put_alike rfl l
  | .block _ statements, uses, ps => emitAll_alike statements uses ps
  | .returns l none, _, _ => (put_alike rfl l).bindEq fun _ => put_alike rfl l
  | .returns l (some value), uses, ps =>
      (emit_alike value uses ps).bindEq fun _ => put_alike rfl l
  | .discard l value, uses, ps => (emit_alike value uses ps).bindEq fun _ => put_alike rfl l
  | .branch l condition accepted none, uses, ps =>
      (emit_alike condition uses.1 ps).bindEq fun _ => (push_alike rfl l).bindEq fun skip =>
        (emit_alike accepted uses.2.1 ps).bindEq fun _ => patchHere_alike skip
  | .branch l condition accepted (some otherwise), uses, ps =>
      (emit_alike condition uses.1 ps).bindEq fun _ => (push_alike rfl l).bindEq fun skipAccepted =>
        (emit_alike accepted uses.2.1 ps).bindEq fun _ =>
          (push_alike rfl l).bindEq fun skipOtherwise =>
            (patchHere_alike skipAccepted).bindEq fun _ =>
              (emit_alike otherwise uses.2.2 ps).bindEq fun _ => patchHere_alike skipOtherwise
  | .switch l kind value cases fallback, uses, ps =>
      (emit_alike value uses.1 ps).bindEq fun _ =>
        (emitTests_alike cases uses.2.1 ps).bindEq fun tests =>
          (put_alike rfl l).bindEq fun _ => (push_alike rfl l).bindEq fun toFallback =>
            here_alike.bindEq fun start =>
              (emitBodies_alike cases kind tests uses.2.1 ps).bindEq fun _ =>
                (patchHere_alike toFallback).bindEq fun _ =>
                  (emitOptional_alike fallback uses.2.2 ps).bindEq fun _ =>
                    here_alike.bindEq fun stop => patchLoop_alike start stop (some stop) none
  | .assign l none target value, uses, ps => by
      rw [Node.move, emit, emit]
      refine (emitSetter_alike target uses.1 ps).bind ?_
      rintro setter _ ⟨rfl, straight⟩
      exact (emit_alike value uses.2 ps).bindEq fun _ => put_alike straight l
  | .assign l (some op) target value, uses, ps => by
      rw [Node.move, emit, emit]
      refine (emitGetterAndSetter_alike target uses.1 ps).bind ?_
      rintro setter _ ⟨rfl, straight⟩
      exact (emit_alike value uses.2 ps).bindEq fun _ => (put_alike rfl l).bindEq fun _ =>
        put_alike straight l
  | .adjust l kind target direction, uses, ps =>
      adjust_alike l (emitGetterAndSetter_alike target uses ps) kind direction
  | .whileLoop l condition body, uses, ps =>
      here_alike.bindEq fun start => (emit_alike condition uses.1 ps).bindEq fun _ =>
        (push_alike rfl l).bindEq fun exit => here_alike.bindEq fun bodyStart =>
          (emit_alike body uses.2 ps).bindEq fun _ => (put_alike rfl l).bindEq fun _ =>
            here_alike.bindEq fun stop => (patchHere_alike exit).bindEq fun _ =>
              patchLoop_alike bodyStart stop (some stop) (some start)
  | .doLoop l body condition, uses, ps =>
      here_alike.bindEq fun start => (emit_alike body uses.1 ps).bindEq fun _ =>
        here_alike.bindEq fun check => (emit_alike condition uses.2 ps).bindEq fun _ =>
          (put_alike rfl l).bindEq fun _ => here_alike.bindEq fun stop =>
            patchLoop_alike start check (some stop) (some check)
  | .forLoop l init condition post body, uses, ps =>
      (emit_alike init uses.1 ps).bindEq fun _ => here_alike.bindEq fun start =>
        (emit_alike condition uses.2.1 ps).bindEq fun _ => (push_alike rfl l).bindEq fun exit =>
          here_alike.bindEq fun bodyStart => (emit_alike body uses.2.2.2 ps).bindEq fun _ =>
            here_alike.bindEq fun postStart => (emit_alike post uses.2.2.1 ps).bindEq fun _ =>
              (put_alike rfl l).bindEq fun _ => here_alike.bindEq fun stop =>
                (patchHere_alike exit).bindEq fun _ =>
                  patchLoop_alike bodyStart stop (some stop) (some postStart)
  | .leave l, _, _ | .proceed l, _, _ | .back l, _, _ => put_alike rfl l
  | .label l name statement, uses, ps =>
      (declareLabel_alike name l).bindEq fun _ => emit_alike statement uses ps
  | .jump l name, _, _ | .callLabel l name, _, _ =>
      (push_alike rfl l).bindEq fun address => awaitLabel_alike name address l
  | .directive l _ code statements, uses, ps =>
      (putAll_alike l fun name argc found => c.callsAlike (uses.1 name argc found)).bindEq
        fun _ => emitAll_alike statements uses.2 ps
  | .function l id name parameters body, uses, ps =>
      (push_alike rfl l).bindEq fun skip => here_alike.bindEq fun start =>
        (inFunction_alike parameters (emit_alike body uses ps)).bindEq fun _ =>
          closeFunction_alike l id name skip start

theorem emitAll_alike : (nodes : List Node) → UsesAll c.known nodes → (parameters : List String) →
    c.Generates Eq (emitAll nodes ⟨c.first, parameters⟩)
      (emitAll (moveAll c.place nodes) ⟨c.second, parameters⟩)
  | [], _, _ => .pure rfl
  | node :: nodes, uses, ps =>
      (emit_alike node uses.1 ps).bindEq fun _ => emitAll_alike nodes uses.2 ps

theorem emitOptional_alike : (node : Option Node) → UsesOptional c.known node →
    (parameters : List String) →
    c.Generates Eq (emitOptional node ⟨c.first, parameters⟩)
      (emitOptional (moveOptional c.place node) ⟨c.second, parameters⟩)
  | none, _, _ => .pure rfl
  | some node, uses, ps => emit_alike node uses ps

/-- A link has a name of its own kind, which no host gives a meaning to. -/
theorem emitLink_alike : (node : Node) → node.Uses c.known → (parameters : List String) →
    c.Generates Eq (emitLink node ⟨c.first, parameters⟩)
      (emitLink (node.move c.place) ⟨c.second, parameters⟩)
  | .identifier l _, _, _ => put_alike rfl l
  | .call l name arguments, uses, ps => by
      rw [Node.move, emitLink, emitLink, length_moveAll]
      exact (emitAll_alike arguments uses.2 ps).bindEq fun _ => put_alike rfl l
  | .switch _ .switch .., _, _ | .switch _ .select .., _, _
  | .null _, _, _ | .number .., _, _ | .string .., _, _ | .chain .., _, _ | .staticCall .., _, _
  | .unary .., _, _ | .binary .., _, _ | .block .., _, _ | .returns .., _, _ | .discard .., _, _
  | .branch .., _, _ | .assign .., _, _ | .adjust .., _, _ | .whileLoop .., _, _
  | .doLoop .., _, _ | .forLoop .., _, _ | .leave _, _, _ | .proceed _, _, _ | .label .., _, _
  | .jump .., _, _ | .callLabel .., _, _ | .back _, _, _ | .directive .., _, _
  | .function .., _, _ => fail_alike _ _

theorem emitLinks_alike : (node : Node) → node.Uses c.known → (parameters : List String) →
    c.Generates Eq (emitLinks node ⟨c.first, parameters⟩)
      (emitLinks (node.move c.place) ⟨c.second, parameters⟩)
  | .chain _ current remaining, uses, ps =>
      (emitLink_alike current uses.1 ps).bindEq fun _ => emitLinks_alike remaining uses.2 ps
  | .identifier l _, _, _ => put_alike rfl l
  | .call l name arguments, uses, ps => by
      rw [Node.move, emitLinks, emitLinks, length_moveAll]
      exact (emitAll_alike arguments uses.2 ps).bindEq fun _ => put_alike rfl l
  | .switch _ .switch .., _, _ | .switch _ .select .., _, _
  | .null _, _, _ | .number .., _, _ | .string .., _, _ | .staticCall .., _, _
  | .unary .., _, _ | .binary .., _, _ | .block .., _, _ | .returns .., _, _ | .discard .., _, _
  | .branch .., _, _ | .assign .., _, _ | .adjust .., _, _ | .whileLoop .., _, _
  | .doLoop .., _, _ | .forLoop .., _, _ | .leave _, _, _ | .proceed _, _, _ | .label .., _, _
  | .jump .., _, _ | .callLabel .., _, _ | .back _, _, _ | .directive .., _, _
  | .function .., _, _ => fail_alike _ _

theorem emitReceiver_alike : (node : Node) → node.Uses c.known → (parameters : List String) →
    c.Generates Eq (emitReceiver node ⟨c.first, parameters⟩)
      (emitReceiver (node.move c.place) ⟨c.second, parameters⟩)
  | .chain _ current remaining, uses, ps =>
      (emitLink_alike current uses.1 ps).bindEq fun _ => emitReceiver_alike remaining uses.2 ps
  | .null _, _, _ | .number .., _, _ | .string .., _, _ | .identifier .., _, _ | .call .., _, _
  | .staticCall .., _, _ | .unary .., _, _ | .binary .., _, _ | .block .., _, _
  | .returns .., _, _ | .discard .., _, _ | .branch .., _, _ | .switch .., _, _
  | .assign .., _, _ | .adjust .., _, _ | .whileLoop .., _, _ | .doLoop .., _, _
  | .forLoop .., _, _ | .leave _, _, _ | .proceed _, _, _ | .label .., _, _ | .jump .., _, _
  | .callLabel .., _, _ | .back _, _, _ | .directive .., _, _ | .function .., _, _ => .pure rfl

/-- What stores into a target is the same instruction for both. -/
theorem emitSetter_alike : (node : Node) → node.Uses c.known → (parameters : List String) →
    c.Generates SameStraight (emitSetter node ⟨c.first, parameters⟩)
      (emitSetter (node.move c.place) ⟨c.second, parameters⟩)
  | .identifier l _, uses, ps => by
      refine (visible_alike ps).bind ?_
      rintro _ _ ⟨ps, rfl, rfl⟩
      exact nameSetter_alike uses ps l
  | .chain _ current remaining, uses, ps => by
      rw [Node.move, emitSetter, emitSetter, Node.lastLink_move]
      exact (emit_alike current uses.1 ps).bindEq fun _ =>
        (emitReceiver_alike remaining uses.2 ps).bindEq fun _ => fieldSetter_alike _
  | .switch _ .switch .., _, _ | .switch _ .select .., _, _
  | .null _, _, _ | .number .., _, _ | .string .., _, _ | .call .., _, _ | .staticCall .., _, _
  | .unary .., _, _ | .binary .., _, _ | .block .., _, _ | .returns .., _, _ | .discard .., _, _
  | .branch .., _, _ | .assign .., _, _ | .adjust .., _, _ | .whileLoop .., _, _
  | .doLoop .., _, _ | .forLoop .., _, _ | .leave _, _, _ | .proceed _, _, _ | .label .., _, _
  | .jump .., _, _ | .callLabel .., _, _ | .back _, _, _ | .directive .., _, _
  | .function .., _, _ => fail_alike _ _

/-- What reads a target and stores into it is the same for both. -/
theorem emitGetterAndSetter_alike : (node : Node) → node.Uses c.known →
    (parameters : List String) →
    c.Generates SameStraight (emitGetterAndSetter node ⟨c.first, parameters⟩)
      (emitGetterAndSetter (node.move c.place) ⟨c.second, parameters⟩)
  | .identifier l _, uses, ps => by
      refine (visible_alike ps).bind ?_
      rintro _ _ ⟨ps, rfl, rfl⟩
      exact (nameSetter_alike uses ps l).bind fun _ _ same =>
        (readName_alike uses ps l).bindEq fun _ => .pure same
  | .chain _ current remaining, uses, ps => by
      rw [Node.move, emitGetterAndSetter, emitGetterAndSetter, Node.lastLink_move]
      exact (emit_alike current uses.1 ps).bindEq fun _ =>
        (emitReceiver_alike remaining uses.2 ps).bindEq fun _ => fieldGetterAndSetter_alike _
  | .switch _ .switch .., _, _ | .switch _ .select .., _, _
  | .null _, _, _ | .number .., _, _ | .string .., _, _ | .call .., _, _ | .staticCall .., _, _
  | .unary .., _, _ | .binary .., _, _ | .block .., _, _ | .returns .., _, _ | .discard .., _, _
  | .branch .., _, _ | .assign .., _, _ | .adjust .., _, _ | .whileLoop .., _, _
  | .doLoop .., _, _ | .forLoop .., _, _ | .leave _, _, _ | .proceed _, _, _ | .label .., _, _
  | .jump .., _, _ | .callLabel .., _, _ | .back _, _, _ | .directive .., _, _
  | .function .., _, _ => fail_alike _ _

/-- Both compare with the same values. -/
theorem emitTests_alike : (cases : List SwitchCase) → UsesCases c.known cases →
    (parameters : List String) →
    c.Generates Eq (emitTests cases ⟨c.first, parameters⟩)
      (emitTests (moveCases c.place cases) ⟨c.second, parameters⟩)
  | [], _, _ => .pure rfl
  | .mk value body :: cases, uses, ps => by
      rw [moveCases, emitTests, emitTests, Node.location_move]
      exact (emit_alike value uses.1.1 ps).bindEq fun _ => (push_alike rfl _).bindEq fun test =>
        (emitTests_alike cases uses.2 ps).bindEq fun _ => .pure rfl

/-- Both generate the same bodies, for the same comparisons. -/
theorem emitBodies_alike : (cases : List SwitchCase) → (kind : SwitchKind) → (tests : List Nat) →
    UsesCases c.known cases → (parameters : List String) →
    c.Generates Eq (emitBodies cases kind tests ⟨c.first, parameters⟩)
      (emitBodies (moveCases c.place cases) kind tests ⟨c.second, parameters⟩)
  | .mk _ body :: cases, kind, test :: tests, uses, ps => by
      rw [moveCases, emitBodies, emitBodies, Node.location_move]
      refine (patchHere_alike test).bindEq fun _ => (emit_alike body uses.1.2 ps).bindEq fun _ => ?_
      have rest := emitBodies_alike cases kind tests uses.2 ps
      cases kind with
      | select => exact (put_alike rfl _).bindEq fun _ => rest
      | switch => exact rest
  | [], _, _, _, _ | .mk .. :: _, _, [], _, _ => .pure rfl

end

end Generate

end HostScript
