import HostScript.Code.Emit
import HostScript.Proofs.Steps
import HostScript.Proofs.Tree

/-!
# HostScript.Proofs.Acceptance

Generating code for a tree that a script turns into never fails through a fault of the compiler: the
links of chains are fields and calls, and every function is registered.  `Keeps n x` says this of a
step, together with what makes the steps compose: there are `n` functions before and after it.
-/

namespace HostScript.Generate

variable {n : Nat} {α β : Type} {scope : Scope}

/-- With `n` functions registered, `x` never fails through a fault and leaves as many. -/
def Keeps (n : Nat) (x : Generate α) : Prop :=
  ∀ g, g.functions.size = n → Faultless x g fun _ g' => g'.functions.size = n

namespace Keeps

/-- A sequence keeps the table if its parts do. -/
theorem bind {x : Generate α} {f : α → Generate β} (first : Keeps n x) (rest : ∀ a, Keeps n (f a)) :
    Keeps n (x >>= f) := fun g size =>
  .bind ((first g size).imp fun a g' size' => rest a g' size')

theorem ofPure (a : α) : Keeps n (pure a : Generate α) := fun _ size => size

/-- Failing for a reason that the script is to blame for is allowed. -/
theorem fail {l : Location} {cause : Cause} (h : cause.isFault = false) :
    Keeps n (fail l cause : Generate α) := fun _ _ => h

/-- What stands behind a failure is never reached. -/
theorem failBefore {l : Location} {cause : Cause} {f : α → Generate β}
    (h : cause.isFault = false) : Keeps n (Generate.fail l cause >>= f) := fun _ _ => .bind h

/-- A change of the generator that adds no function. -/
theorem ofModify {f : Generator → Generator} (h : ∀ g, (f g).functions.size = g.functions.size) :
    Keeps n (modify f : Generate Unit) := fun g size => (h g).trans size

theorem ofGet : Keeps n (get : Generate Generator) := fun _ size => size

theorem put (i : Instruction) (l : Location) : Keeps n (put i l) := ofModify fun _ => rfl

theorem push (i : Instruction) (l : Location) : Keeps n (push i l) := fun _ size => size

theorem here : Keeps n here := fun _ size => size

theorem patchHere (address : Nat) : Keeps n (patchHere address) := ofModify fun _ => rfl

theorem patchLoop (start stop : Nat) (x y : Option Nat) : Keeps n (patchLoop start stop x y) :=
  ofModify fun _ => rfl

/-- An expansion is put instruction by instruction. -/
theorem putAll (code : List Instruction) (l : Location) : Keeps n (putAll code l) := by
  induction code with
  | nil => exact ofPure _
  | cons i code ih => exact (put i l).bind fun _ => ih

theorem visible : Keeps n (visible scope) := fun _ size => size

/-- The body of a function keeps what it would keep outside of it. -/
theorem inFunction {x : Generate α} (parameters : List String) (body : Keeps n x) :
    Keeps n (inFunction parameters x) := by
  intro g size
  have inner := body (g.withParameters (some parameters)) size
  unfold Faultless Generate.inFunction at *
  cases run : x (g.withParameters (some parameters)) with
  | ok a g' =>
      simp only [run] at inner ⊢
      exact inner
  | error e g' =>
      simp only [run] at inner ⊢
      exact inner

/-- A read of a name is an instruction or an expansion. -/
theorem readName (l : Location) (name : String) : Keeps n (readName scope l name) := by
  unfold Generate.readName
  split
  · exact put _ l
  · exact putAll _ l
  · exact put _ l
  · exact put _ l

/-- A name that is read-only is the fault of the script. -/
theorem nameSetter (l : Location) (name : String) : Keeps n (nameSetter scope l name) := by
  unfold Generate.nameSetter
  split
  · exact fail rfl
  · exact ofPure _

/-- A static function that does not exist is the fault of the script. -/
theorem checkStaticCall (l : Location) (template name : String) (argc : Nat) :
    Keeps n (checkStaticCall scope l template name argc) := by
  unfold Generate.checkStaticCall
  split
  · exact fail rfl
  · split
    · exact fail rfl
    · exact ofPure _

/-- A label that exists already is the fault of the script. -/
theorem declareLabel (name : String) (l : Location) : Keeps n (declareLabel name l) := by
  unfold Generate.declareLabel
  refine ofGet.bind fun g => ?_
  split
  · exact failBefore rfl
  · exact (ofModify fun _ => rfl).bind fun _ => ofModify fun _ => rfl

theorem awaitLabel (name : String) (address : Nat) (l : Location) :
    Keeps n (awaitLabel name address l) := ofModify fun _ => rfl

/-- A registered function finds its place in the table. -/
theorem place {id : Nat} (registered : id < n) (l : Location) (name : String) (start stop : Nat) :
    Keeps n (do
      match (← get).functions.get? id with
      | none => Generate.fail l (.unregisteredFunction name)
      | some _ => modify fun g => { g with functions := g.functions.place id start stop }) := by
  refine fun g size => .bind (.get ?_)
  subst size
  cases found : g.functions.get? id with
  | none => exact absurd registered (Nat.not_lt.2 (Array.getElem?_eq_none_iff.1 found))
  | some f => exact .modify Array.size_modify

/-- A function whose id is in the table can be placed. -/
theorem closeFunction {id : Nat} (registered : id < n) (l : Location) (name : String)
    (skip start : Nat) : Keeps n (closeFunction l id name skip start) := by
  have rest := here.bind fun stop => (patchHere skip).bind fun _ =>
    place registered l name start (stop - 1)
  unfold Generate.closeFunction
  refine ofGet.bind fun g => ?_
  split
  · exact (put .pushNull l).bind fun _ => (put .ret l).bind fun _ => rest
  · exact rest

end Keeps

/-! ## setters -/

theorem fieldSetter_keeps (node : Node) : Keeps n (fieldSetter node) := by
  cases node with
  | identifier => exact .ofPure _
  | _ => exact .fail rfl

/-- A link that is no field is the fault of the script. -/
theorem fieldGetterAndSetter_keeps (node : Node) : Keeps n (fieldGetterAndSetter node) := by
  cases node with
  | identifier l name =>
      exact (Keeps.put .duplicate l).bind fun _ =>
        (Keeps.put (.pushField name) l).bind fun _ => .ofPure _
  | _ => exact .fail rfl

/-- An increment or decrement whose target can be read and set. -/
theorem adjust_keeps {target : Node} (both : Keeps n (emitGetterAndSetter target scope))
    (l : Location) (kind : AdjustKind) (direction : Direction) :
    Keeps n (emit (.adjust l kind target direction) scope) := by
  simp only [emit]
  split
  · exact .failBefore rfl
  · exact .failBefore rfl
  refine both.bind fun setter => ?_
  have sum {rest : Generate Unit} (h : Keeps n rest) : Keeps n (do
      put (.pushNumber direction.number) l
      put (.binaryOp .add) l
      rest) := (Keeps.put _ l).bind fun _ => (Keeps.put _ l).bind fun _ => h
  have store : Keeps n (put setter l) := .put setter l
  have twice : Keeps n (put .duplicate l) := .put .duplicate l
  cases kind with
  | before => exact sum (twice.bind fun _ => store)
  | after => exact twice.bind fun _ => sum store
  | statement => exact sum store

/-! ## expressions -/

mutual

/-- Code for an expression blames the script at most, by induction on the tree. -/
theorem expression_keeps : (node : Node) → IsExpression node → Keeps n (emit node scope)
  | .null l, _ => .put .pushNull l
  | .number l value, _ => .put (.pushNumber value) l
  | .string l value, _ => .put (.pushString value) l
  | .identifier l name, _ => Keeps.visible.bind fun _ => .readName l name
  | .chain _ current remaining, h =>
      (expression_keeps current h.1).bind fun _ => links_keeps remaining h.2
  | .call l name arguments, h =>
      (expressions_keeps arguments h).bind fun _ => .put _ l
  | .staticCall l template name arguments, h =>
      (Keeps.checkStaticCall l template name _).bind fun _ =>
        (expressions_keeps arguments h).bind fun _ => .put _ l
  | .unary l _ operand, h => (expression_keeps operand h).bind fun _ => .put _ l
  | .binary l op left right, h => by
      refine (expression_keeps left h.1).bind fun _ => ?_
      have second := expression_keeps right h.2
      cases op with
      | and | or =>
          exact (Keeps.push _ l).bind fun skip => second.bind fun _ => .patchHere skip
      | _ => exact second.bind fun _ => .put _ l
  | .adjust l kind target direction, h =>
      adjust_keeps (getterAndSetter_keeps target h.2) l kind direction

theorem expressions_keeps : (nodes : List Node) → AreExpressions nodes →
    Keeps n (emitAll nodes scope)
  | [], _ => .ofPure _
  | node :: nodes, h => (expression_keeps node h.1).bind fun _ => expressions_keeps nodes h.2

/-- A link is a field or a call, so it is never a fault of the compiler. -/
theorem link_keeps : (node : Node) → IsLink node → Keeps n (emitLink node scope)
  | .identifier l name, _ => .put (.pushField name) l
  | .call l _ arguments, h => (expressions_keeps arguments h).bind fun _ => .put _ l

theorem links_keeps : (node : Node) → AreLinks node → Keeps n (emitLinks node scope)
  | .chain _ current remaining, h =>
      (link_keeps current h.1).bind fun _ => links_keeps remaining h.2
  | .identifier l name, _ => .put (.pushField name) l
  | .call l _ arguments, h => (expressions_keeps arguments h).bind fun _ => .put _ l

theorem receiver_keeps : (node : Node) → AreLinks node → Keeps n (emitReceiver node scope)
  | .chain _ current remaining, h =>
      (link_keeps current h.1).bind fun _ => receiver_keeps remaining h.2
  | .identifier .., _ | .call .., _ => .ofPure _

/-- A target that is no name and no chain is the fault of the script. -/
theorem getterAndSetter_keeps : (target : Node) → IsExpression target →
    Keeps n (emitGetterAndSetter target scope)
  | .identifier l name, _ =>
      Keeps.visible.bind fun _ => (Keeps.nameSetter l name).bind fun _ =>
        (Keeps.readName l name).bind fun _ => .ofPure _
  | .chain _ current remaining, h =>
      (expression_keeps current h.1).bind fun _ => (receiver_keeps remaining h.2).bind fun _ =>
        fieldGetterAndSetter_keeps _
  | .null _, _ | .number .., _ | .string .., _ | .call .., _ | .staticCall .., _ | .unary .., _
  | .binary .., _ | .adjust .., _ => .fail rfl

end

theorem setter_keeps : (target : Node) → IsExpression target →
    Keeps n (emitSetter target scope)
  | .identifier l name, _ => Keeps.visible.bind fun _ => .nameSetter l name
  | .chain _ current remaining, h =>
      (expression_keeps current h.1).bind fun _ => (receiver_keeps remaining h.2).bind fun _ =>
        fieldSetter_keeps _
  | .null _, _ | .number .., _ | .string .., _ | .call .., _ | .staticCall .., _ | .unary .., _
  | .binary .., _ | .adjust .., _ => .fail rfl

/-! ## statements -/

/-- Comparisons with the case values. -/
theorem tests_keeps {allowed : Allowed} (cases : List SwitchCase) (h : AreCases n allowed cases) :
    Keeps n (emitTests cases scope) := by
  induction cases with
  | nil => exact .ofPure _
  | cons first cases ih =>
      obtain ⟨value, body⟩ := first
      exact (expression_keeps value h.1).bind fun _ => (Keeps.push _ _).bind fun _ =>
        (ih h.2.2).bind fun _ => .ofPure _

mutual

/-- Code for a statement blames the script at most, by induction on the tree. -/
theorem statement_keeps {allowed : Allowed} : (node : Node) → {scope : Scope} →
    IsStatement n allowed node → Keeps n (emit node scope)
  | .block _ statements, _, h => statements_keeps statements h
  | .returns l none, _, _ => (Keeps.put .pushNull l).bind fun _ => .put .ret l
  | .returns l (some value), _, h => (expression_keeps value h).bind fun _ => .put .ret l
  | .discard l value, _, h => (expression_keeps value h).bind fun _ => .put .discard l
  | .branch l condition accepted none, _, h =>
      (expression_keeps condition h.1).bind fun _ => (Keeps.push _ l).bind fun skip =>
        (statement_keeps accepted h.2.1).bind fun _ => .patchHere skip
  | .branch l condition accepted (some otherwise), _, h =>
      (expression_keeps condition h.1).bind fun _ => (Keeps.push _ l).bind fun skipAccepted =>
        (statement_keeps accepted h.2.1).bind fun _ => (Keeps.push _ l).bind fun skipOtherwise =>
          (Keeps.patchHere skipAccepted).bind fun _ =>
            (statement_keeps otherwise h.2.2).bind fun _ => .patchHere skipOtherwise
  | .switch l kind value cases fallback, _, h =>
      (expression_keeps value h.1).bind fun _ => (tests_keeps cases h.2.1).bind fun tests =>
        (Keeps.put .discard l).bind fun _ => (Keeps.push _ l).bind fun toFallback =>
          Keeps.here.bind fun start => (bodies_keeps cases kind tests h.2.1).bind fun _ =>
            (Keeps.patchHere toFallback).bind fun _ =>
              (optional_keeps fallback h.2.2).bind fun _ =>
                Keeps.here.bind fun stop => .patchLoop start stop (some stop) none
  | .assign l none target value, _, h =>
      (setter_keeps target h.1).bind fun setter => (expression_keeps value h.2).bind fun _ =>
        .put setter l
  | .assign l (some op) target value, _, h =>
      (getterAndSetter_keeps target h.1).bind fun setter =>
        (expression_keeps value h.2).bind fun _ =>
          (Keeps.put (.binaryOp op) l).bind fun _ => .put setter l
  | .adjust l kind target direction, _, h =>
      adjust_keeps (getterAndSetter_keeps target h.2) l kind direction
  | .whileLoop l condition body, _, h =>
      Keeps.here.bind fun start => (expression_keeps condition h.1).bind fun _ =>
        (Keeps.push _ l).bind fun exit => Keeps.here.bind fun bodyStart =>
          (statement_keeps body h.2).bind fun _ => (Keeps.put _ l).bind fun _ =>
            Keeps.here.bind fun stop => (Keeps.patchHere exit).bind fun _ =>
              .patchLoop bodyStart stop (some stop) (some start)
  | .doLoop l body condition, _, h =>
      Keeps.here.bind fun start => (statement_keeps body h.1).bind fun _ =>
        Keeps.here.bind fun check => (expression_keeps condition h.2).bind fun _ =>
          (Keeps.put _ l).bind fun _ => Keeps.here.bind fun stop =>
            .patchLoop start check (some stop) (some check)
  | .forLoop l init condition post body, _, h =>
      (statement_keeps init h.1).bind fun _ => Keeps.here.bind fun _ =>
        (expression_keeps condition h.2.1).bind fun _ => (Keeps.push _ l).bind fun exit =>
          Keeps.here.bind fun bodyStart => (statement_keeps body h.2.2.2).bind fun _ =>
            Keeps.here.bind fun postStart => (statement_keeps post h.2.2.1).bind fun _ =>
              (Keeps.put _ l).bind fun _ => Keeps.here.bind fun stop =>
                (Keeps.patchHere exit).bind fun _ =>
                  .patchLoop bodyStart stop (some stop) (some postStart)
  | .leave l, _, _ | .proceed l, _, _ | .back l, _, _ => .put _ l
  | .label l name statement, _, h =>
      (Keeps.declareLabel name l).bind fun _ => statement_keeps statement h
  | .jump l name, _, _ | .callLabel l name, _, _ =>
      (Keeps.push _ l).bind fun address => .awaitLabel name address l
  | .directive l _ _ _, _, ⟨rfl, rfl⟩ => (Keeps.putAll [] l).bind fun _ => .ofPure _
  | .function l _ name parameters body, _, h =>
      (Keeps.push _ l).bind fun skip => Keeps.here.bind fun start =>
        (Keeps.inFunction parameters (statement_keeps body h.2)).bind fun _ =>
          .closeFunction h.1 l name skip start

theorem statements_keeps {allowed : Allowed} : (nodes : List Node) → {scope : Scope} →
    AreStatements n allowed nodes → Keeps n (emitAll nodes scope)
  | [], _, _ => .ofPure _
  | node :: nodes, _, h => (statement_keeps node h.1).bind fun _ => statements_keeps nodes h.2

theorem optional_keeps {allowed : Allowed} : (node : Option Node) → {scope : Scope} →
    IsOptional n allowed node → Keeps n (emitOptional node scope)
  | none, _, _ => .ofPure _
  | some node, _, h => statement_keeps node h

/-- There is a comparison for each body, or the bodies end with the comparisons. -/
theorem bodies_keeps {allowed : Allowed} : (cases : List SwitchCase) → (kind : SwitchKind) →
    (tests : List Nat) → {scope : Scope} → AreCases n allowed cases →
    Keeps n (emitBodies cases kind tests scope)
  | .mk _ body :: cases, kind, test :: tests, _, h => by
      refine (Keeps.patchHere test).bind fun _ => (statement_keeps body h.2.1).bind fun _ => ?_
      split
      · exact (Keeps.put _ _).bind fun _ => bodies_keeps cases kind tests h.2.2
      · exact bodies_keeps cases kind tests h.2.2
  | [], _, _, _, _ | .mk .. :: _, _, [], _, _ => .ofPure _

end

end HostScript.Generate
