import HostScript.Proofs.Layout

/-!
# HostScript.Proofs.Emission

Generated code is laid-out code: a tree that `emit` accepts extends the generator by its `layout`.

The elementary steps come first, each with what its success means.  The main induction follows the
functions of `emit`; in every case the steps add fragments one behind the other, and the patches at
the end turn the placeholders among them into the targets that `layout` has from the start.
-/

namespace HostScript.Generate

/-! ## the elementary steps -/

section steps

variable {g g' : Generator} {i j : Instruction} {l : Location} {scope : Scope} {name : String}

theorem fail_ne_ok {α : Type} {cause : Cause} {a : α} :
    (fail l cause : Generate α) g ≠ .ok a g' :=
  throw_ne_ok

/-- The next address is at hand. -/
theorem here_eq_ok {address : Nat} : here g = .ok address g' ↔ g.here = address ∧ g = g' := by
  show EStateM.Result.ok g.here g = _ ↔ _
  simp

theorem put_eq_ok {u : Unit} : put i l g = .ok u g' ↔ g.push i l = g' := modify_eq_ok

/-- A new instruction is at the address that the code had reached. -/
theorem push_eq_ok {address : Nat} :
    push i l g = .ok address g' ↔ g.here = address ∧ g.push i l = g' := by
  show EStateM.Result.ok g.here (g.push i l) = _ ↔ _
  simp

theorem patchHere_eq_ok {address : Nat} {u : Unit} :
    patchHere address g = .ok u g' ↔ g.patchHere address = g' := modify_eq_ok

theorem patchLoop_eq_ok {start stop : Nat} {x y : Option Nat} {u : Unit} :
    patchLoop start stop x y g = .ok u g' ↔ g.patchLoop start stop x y = g' := modify_eq_ok

/-- An expansion is its first instruction and the rest. -/
theorem putAll_cons {code : List Instruction} :
    putAll (i :: code) l = (put i l >>= fun _ => putAll code l) := rfl

/-- Instructions from one place are added one by one. -/
theorem putAll_extends {code : List Instruction} {u : Unit} (h : putAll code l g = .ok u g') :
    Extends g (.ofCode code) g' := by
  induction code generalizing g with
  | nil =>
      obtain ⟨-, rfl⟩ := pure_eq_ok.1 h
      exact .refl g
  | cons i code ih =>
      simp only [putAll_cons, bind_eq_ok, put_eq_ok] at h
      obtain ⟨_, g₁, rfl, rest⟩ := h
      exact ((Extends.refl g).push i l).trans (ih rest)

/-- A read of a name puts the code of the read. -/
theorem readName_eq : readName scope l name = putAll (readCode scope name) l := by
  cases constant : scope.environment.constant? name <;>
    cases code : scope.environment.systemMacro? name <;>
    cases index : scope.parameters.idxOf? name <;>
    simp only [readName, readCode, constant, code, index] <;> rfl

/-- What can be seen is a matter of the parameters that the generator holds. -/
theorem visible_eq_ok {names : Scope} :
    visible scope g = .ok names g' ↔ scope.inside g.parameters = names ∧ g = g' := by
  show EStateM.Result.ok (scope.inside g.parameters) g = _ ↔ _
  simp

/-- A body succeeds if it does with the parameters of its function. -/
theorem inFunction_eq_ok {α : Type} {parameters : List String} {x : Generate α} {a : α} :
    inFunction parameters x g = .ok a g' ↔
      ∃ g₁, x (g.withParameters (some parameters)) = .ok a g₁ ∧
        g₁.withParameters g.parameters = g' := by
  unfold inFunction
  cases x (g.withParameters (some parameters)) with
  | ok b g₁ => simp [and_assoc]
  | error e g₁ => simp

/-- A label is declared at most once. -/
theorem declareLabel_extends {u : Unit} (h : declareLabel name l g = .ok u g') :
    Extends g { labels := [(name, g.here)] } g' := by
  simp only [declareLabel, bind_eq_ok, get_eq_ok] at h
  obtain ⟨_, _, ⟨rfl, rfl⟩, h⟩ := h
  split at h
  · obtain ⟨_, _, failed, -⟩ := bind_eq_ok.1 h
    exact absurd failed fail_ne_ok
  next old =>
    have new : g.labels.find? name = none := by
      rwa [Bool.not_eq_true, NameMap.contains_eq_false_iff] at old
    simp only [record, bind_eq_ok, modify_eq_ok] at h
    obtain ⟨_, _, rfl, rfl⟩ := h
    exact (Extends.refl g).declare _ new

/-- A jump that waits for a label is all that is added. -/
theorem awaitLabel_extends {address : Nat} {u : Unit} (h : awaitLabel name address l g = .ok u g') :
    Extends g { waiting := [(name, address)] } g' := by
  obtain rfl := modify_eq_ok.1 h
  exact (Extends.refl g).await name address l

/-- A name gives a store exactly if it is not read-only. -/
theorem nameSetter_eq_ok : nameSetter scope l name g = .ok i g' ↔
    readOnly? scope name = none ∧ .setIdentifier name = i ∧ g = g' := by
  unfold nameSetter
  cases readOnly? scope name with
  | some what => simp [fail_ne_ok]
  | none => simp [pure_eq_ok]

/-- The last link of a chain that can be stored into is a name. -/
theorem fieldSetter_eq_ok {node : Node} (h : fieldSetter node g = .ok i g') :
    (∃ location, node = .identifier location (lastName node)) ∧
      .setField (lastName node) = i ∧ g = g' := by
  unfold fieldSetter at h
  split at h
  · exact ⟨⟨_, rfl⟩, pure_eq_ok.1 h⟩
  · exact absurd h fail_ne_ok

/-- The name at the end of a chain is that of its last link. -/
theorem lastName_lastLink (node : Node) : lastName node.lastLink = lastName node := by
  fun_induction Node.lastLink node with
  | case1 location current remaining ih => rw [ih, lastName]
  | case2 => rfl

/-- A check changes nothing. -/
theorem checkStaticCall_eq_ok {template : String} {argc : Nat} {u : Unit}
    (h : checkStaticCall scope l template name argc g = .ok u g') : g = g' := by
  unfold checkStaticCall at h
  cases found : scope.environment.template? template with
  | none => exact absurd (by simpa [found] using h) fail_ne_ok
  | some t =>
      cases function : t.staticFunction? name argc with
      | none => exact absurd (by simpa [found, function] using h) fail_ne_ok
      | some _ =>
          simp only [found, function, pure_eq_ok] at h
          exact h.2

/-- A field is read from a copy of its receiver. -/
theorem fieldGetterAndSetter_extends {node : Node} (h : fieldGetterAndSetter node g = .ok i g') :
    .setField (lastName node) = i ∧
      Extends g (.ofCode [.duplicate, .pushField (lastName node)]) g' := by
  cases node with
  | identifier location name =>
      simp only [fieldGetterAndSetter, bind_eq_ok, put_eq_ok, pure_eq_ok] at h
      obtain ⟨_, _, rfl, _, _, rfl, rfl, rfl⟩ := h
      exact ⟨rfl, ((Extends.refl g).push _ _).push _ _⟩
  | _ => exact absurd h fail_ne_ok

/-- The jump over a function and its place are settled when its body is closed. -/
theorem settleFunction_extends {g₁ : Generator} {b : Fragment} {id : Nat} {u : Unit}
    (inner : Extends (g.push (.jump .unresolved) l) b g₁)
    (h : (do
      let stop := (← here) - 1
      patchHere g.here
      match (← get).functions.get? id with
      | none => fail l (.unregisteredFunction name)
      | some _ =>
        modify fun s => { s with functions := s.functions.place id (g.here + 1) stop } :
          Generate Unit) g₁ = .ok u g') :
    Extends g
      (.jumpOver .jump g.here b ++
        ({ placements := [⟨id, g.here + 1, g.here + b.size⟩] } : Fragment)) g' := by
  simp only [bind_eq_ok, here_eq_ok, patchHere_eq_ok, get_eq_ok] at h
  obtain ⟨_, _, ⟨rfl, rfl⟩, _, _, rfl, _, _, ⟨rfl, rfl⟩, h⟩ := h
  have stop : g₁.here - 1 = g.here + b.size := by
    rw [inner.here, Generator.here_push]
    omega
  have jump := (Extends.refl g).jumpOver (fun _ _ => rfl) inner
  cases found : (g₁.patchHere g.here).functions.get? id with
  | none => exact absurd (by simpa [found] using h) fail_ne_ok
  | some f =>
      simp only [found, modify_eq_ok, stop] at h
      subst h
      exact jump.place id (g.here + 1) (g.here + b.size)

/-- Closing a function adds a return to its body if that is needed, and then the jump over it and
its place are settled. -/
theorem closeFunction_extends {g₁ : Generator} {b : Fragment} {id : Nat} {u : Unit}
    (inner : Extends (g.push (.jump .unresolved) l) b g₁)
    (below : (g.push (.jump .unresolved) l).LabelsBelow)
    (h : closeFunction l id name g.here (g.push (.jump .unresolved) l).here g₁ = .ok u g') :
    Extends g
      (.jumpOver .jump g.here (b.closed (g.here + 1)) ++
        ({ placements := [⟨id, g.here + 1, g.here + (b.closed (g.here + 1)).size⟩] } : Fragment))
      g' := by
  have falls := inner.fallsOffEnd below
  rw [Generator.here_push] at falls h
  simp only [closeFunction, bind_eq_ok (x := get), get_eq_ok] at h
  obtain ⟨_, _, ⟨rfl, rfl⟩, h⟩ := h
  simp only [falls] at h
  unfold Fragment.closed
  split at h
  next open_ =>
    simp only [bind_eq_ok (x := put _ _), put_eq_ok] at h
    obtain ⟨_, _, rfl, _, _, rfl, h⟩ := h
    rw [if_pos open_]
    have closed := (inner.push .pushNull l).push .ret l
    rw [Fragment.one, Fragment.append_ofCode_one] at closed
    exact settleFunction_extends closed h
  next done =>
    rw [if_neg done]
    exact settleFunction_extends inner h

end steps

/-! ## trees -/

/-- The addresses of the comparisons with the case values. -/
def testAddresses : List SwitchCase → Scope → Nat → List Nat
  | [], _, _ => []
  | .mk value _ :: cases, scope, base =>
    let test := base + (layout value scope base).size
    test :: testAddresses cases scope (test + 1)

mutual

/-- A node that is accepted extends the generator by its layout. -/
theorem emit_extends : (node : Node) → {top scope : Scope} → {g g' : Generator} → {u : Unit} →
    g.Ready top scope → emit node top g = .ok u g' → Extends g (layout node scope g.here) g'
  | .null _, _, _, g, _, _, _, h => by
      obtain rfl := put_eq_ok.1 h
      exact (Extends.refl g).push _ _
  | .number _ _, _, _, g, _, _, _, h => by
      obtain rfl := put_eq_ok.1 h
      exact (Extends.refl g).push _ _
  | .string _ _, _, _, g, _, _, _, h => by
      obtain rfl := put_eq_ok.1 h
      exact (Extends.refl g).push _ _
  | .identifier _ name, top, scope, g, _, _, ready, h => by
      simp only [emit, bind_eq_ok, visible_eq_ok, readName_eq, ready.names] at h
      obtain ⟨_, _, ⟨rfl, rfl⟩, h⟩ := h
      exact putAll_extends h
  | .chain _ current remaining, top, scope, g, g', _, ready, h => by
      simp only [emit, bind_eq_ok] at h
      obtain ⟨_, g₁, h₁, h₂⟩ := h
      exact (emit_extends current ready h₁).andThen ready (emitLinks_extends remaining · h₂)
  | .call _ _ arguments, top, scope, g, g', _, ready, h => by
      simp only [emit, bind_eq_ok, put_eq_ok] at h
      obtain ⟨_, g₁, h₁, rfl⟩ := h
      exact (emitAll_extends arguments ready h₁).push _ _
  | .staticCall _ _ _ arguments, top, scope, g, g', _, ready, h => by
      simp only [emit, bind_eq_ok, put_eq_ok] at h
      obtain ⟨_, _, checked, _, g₁, h₁, rfl⟩ := h
      obtain rfl := checkStaticCall_eq_ok checked
      exact (emitAll_extends arguments ready h₁).push _ _
  | .unary _ _ operand, top, scope, g, g', _, ready, h => by
      simp only [emit, bind_eq_ok, put_eq_ok] at h
      obtain ⟨_, g₁, h₁, rfl⟩ := h
      exact (emit_extends operand ready h₁).push _ _
  | .binary l op left right, top, scope, g, g', _, ready, h => by
      simp only [emit, bind_eq_ok] at h
      obtain ⟨_, g₁, h₁, h₂⟩ := h
      have first := emit_extends left ready h₁
      cases op with
      | and =>
          simp only [bind_eq_ok, push_eq_ok, patchHere_eq_ok] at h₂
          obtain ⟨_, _, ⟨rfl, rfl⟩, _, g₂, h₂, rfl⟩ := h₂
          have second := emit_extends right ((first.push _ l).ready ready) h₂
          rw [Generator.here_push, first.here] at second
          exact first.jumpOver (fun _ _ => rfl) second
      | or =>
          simp only [bind_eq_ok, push_eq_ok, patchHere_eq_ok] at h₂
          obtain ⟨_, _, ⟨rfl, rfl⟩, _, g₂, h₂, rfl⟩ := h₂
          have second := emit_extends right ((first.push _ l).ready ready) h₂
          rw [Generator.here_push, first.here] at second
          exact first.jumpOver (fun _ _ => rfl) second
      | _ =>
          simp only [bind_eq_ok, put_eq_ok] at h₂
          obtain ⟨_, g₂, h₂, rfl⟩ := h₂
          exact (first.andThen ready (emit_extends right · h₂)).push _ _
  | .block _ statements, top, scope, g, g', _, ready, h => emitAll_extends statements ready h
  | .returns _ none, top, scope, g, g', _, ready, h => by
      simp only [emit, bind_eq_ok, put_eq_ok] at h
      obtain ⟨_, g₁, rfl, rfl⟩ := h
      exact ((Extends.refl g).push _ _).push _ _
  | .returns _ (some value), top, scope, g, g', _, ready, h => by
      simp only [emit, bind_eq_ok, put_eq_ok] at h
      obtain ⟨_, g₁, h₁, rfl⟩ := h
      exact (emit_extends value ready h₁).push _ _
  | .discard _ value, top, scope, g, g', _, ready, h => by
      simp only [emit, bind_eq_ok, put_eq_ok] at h
      obtain ⟨_, g₁, h₁, rfl⟩ := h
      exact (emit_extends value ready h₁).push _ _
  | .branch l condition accepted none, top, scope, g, g', _, ready, h => by
      simp only [emit, bind_eq_ok, push_eq_ok, patchHere_eq_ok] at h
      obtain ⟨_, g₁, h₁, _, _, ⟨rfl, rfl⟩, _, g₂, h₂, rfl⟩ := h
      have first := emit_extends condition ready h₁
      have second := emit_extends accepted ((first.push _ l).ready ready) h₂
      rw [Generator.here_push, first.here] at second
      exact first.jumpOver (fun _ _ => rfl) second
  | .branch l condition accepted (some otherwise), top, scope, g, g', _, ready, h => by
      simp only [emit, bind_eq_ok, push_eq_ok, patchHere_eq_ok] at h
      obtain ⟨_, g₁, h₁, _, _, ⟨rfl, rfl⟩, _, g₂, h₂, _, _, ⟨rfl, rfl⟩, _, _, rfl, _, g₃, h₃,
        rfl⟩ := h
      have first := emit_extends condition ready h₁
      have second := emit_extends accepted ((first.push _ l).ready ready) h₂
      rw [Generator.here_push, first.here] at second
      have both := first.jumpOver (fun _ _ => rfl) (second.push (.jump .unresolved) l)
      have third := emit_extends otherwise (both.ready ready) h₃
      have skip := second.here
      rw [Generator.here_push, first.here] at skip
      rw [Generator.here_patchHere, Generator.here_push, skip] at third
      exact first.branch second third
  | .switch l kind value cases fallback, top, scope, g, g', _, ready, h => by
      simp only [emit, bind_eq_ok, push_eq_ok, put_eq_ok, here_eq_ok, patchHere_eq_ok,
        patchLoop_eq_ok] at h
      obtain ⟨_, g₁, h₁, _, g₂, h₂, _, _, rfl, _, _, ⟨rfl, rfl⟩, _, _, ⟨rfl, rfl⟩, _, g₃, h₃, _, _,
        rfl, _, g₄, h₄, _, _, ⟨rfl, rfl⟩, rfl⟩ := h
      have first := emit_extends value ready h₁
      obtain ⟨rfl, tests⟩ := emitTests_extends cases (first.ready ready) h₂
      rw [first.here] at tests h₃
      have front := ((first.trans tests).push .discard l).push (.jump .unresolved) l
      rw [Fragment.one, Fragment.append_ofCode_one] at front
      have bodies := emitBodies_extends cases _ _ ready front h₃
      have last := emitOptional_extends fallback ((bodies.ready ready).patchHere _) h₄
      have size := size_layoutTests cases
        (bodyStarts cases kind scope ((g₂.push .discard l).push (.jump .unresolved) l).here) scope
        (g.here + (layout value scope g.here).size)
      have start : ((g₂.push .discard l).push (.jump .unresolved) l).here =
          g.here + (layout value scope g.here).size +
            (layoutTests cases [] scope (g.here + (layout value scope g.here).size)).size + 2 := by
        simp [front.here, Nat.add_assoc]
      have after : g₃.here = ((g₂.push .discard l).push (.jump .unresolved) l).here +
          (layoutBodies cases kind scope
            ((g₂.push .discard l).push (.jump .unresolved) l).here).size := by
        rw [bodies.here, Fragment.size_append, Fragment.size_append, Fragment.size_append, size]
        simp [front.here, Nat.add_assoc]
      rw [Generator.here_patchHere, after] at last
      have starts : ((g₂.push .discard l).push (.jump .unresolved) l).here = g.here +
          (layout value scope g.here ++ layoutTests cases (bodyStarts cases kind scope
            ((g₂.push .discard l).push (.jump .unresolved) l).here) scope
            (g.here + (layout value scope g.here).size)).size + 2 := by
        rw [Fragment.size_append, size, start]
        omega
      have next := Generator.here_push (g₂.push .discard l) (.jump .unresolved) l
      have all := bodies.bodies last (by omega) starts
      rw [start] at all ⊢
      exact all
  | .assign l none target value, top, scope, g, g', _, ready, h => by
      simp only [emit, bind_eq_ok, put_eq_ok] at h
      obtain ⟨setter, g₁, h₁, _, g₂, h₂, rfl⟩ := h
      obtain ⟨rfl, receiver⟩ := emitSetter_extends target ready h₁
      exact (receiver.andThen ready (emit_extends value · h₂)).push _ _
  | .assign l (some op) target value, top, scope, g, g', _, ready, h => by
      simp only [emit, bind_eq_ok, put_eq_ok] at h
      obtain ⟨setter, g₁, h₁, _, g₂, h₂, _, _, rfl, rfl⟩ := h
      obtain ⟨rfl, current⟩ := emitGetterAndSetter_extends target ready h₁
      have all := ((current.andThen ready (emit_extends value · h₂)).push (.binaryOp op) l).push
        (storeCode target) l
      rw [Fragment.append_assoc] at all
      exact all
  | .adjust l kind target direction, top, scope, g, g', _, ready, h => by
      simp only [emit] at h
      split at h
      · obtain ⟨_, _, failed, -⟩ := bind_eq_ok.1 h
        exact absurd failed fail_ne_ok
      · obtain ⟨_, _, failed, -⟩ := bind_eq_ok.1 h
        exact absurd failed fail_ne_ok
      obtain ⟨setter, g₁, h₁, h⟩ := bind_eq_ok.1 h
      obtain ⟨rfl, current⟩ := emitGetterAndSetter_extends target ready h₁
      cases kind <;> simp only [reduceCtorEq, if_false, if_true, bind_eq_ok, put_eq_ok] at h
      case before =>
        obtain ⟨_, _, rfl, _, _, rfl, _, _, rfl, rfl⟩ := h
        have all := (((current.push (.pushNumber direction.number) l).push (.binaryOp .add) l).push
          .duplicate l).push (storeCode target) l
        rw [Fragment.one, Fragment.append_ofCode_one, Fragment.append_ofCode_one,
          Fragment.append_ofCode_one] at all
        exact all
      case after =>
        obtain ⟨_, _, rfl, _, _, rfl, _, _, rfl, rfl⟩ := h
        have all := (((current.push .duplicate l).push (.pushNumber direction.number) l).push
          (.binaryOp .add) l).push (storeCode target) l
        rw [Fragment.one, Fragment.append_ofCode_one, Fragment.append_ofCode_one,
          Fragment.append_ofCode_one] at all
        exact all
      case statement =>
        obtain ⟨_, _, rfl, _, _, rfl, rfl⟩ := h
        have all := ((current.push (.pushNumber direction.number) l).push (.binaryOp .add) l).push
          (storeCode target) l
        rw [Fragment.one, Fragment.append_ofCode_one, Fragment.append_ofCode_one] at all
        exact all
  | .whileLoop l condition body, top, scope, g, g', _, ready, h => by
      simp only [emit, bind_eq_ok, here_eq_ok, push_eq_ok, put_eq_ok, patchHere_eq_ok,
        patchLoop_eq_ok] at h
      obtain ⟨_, _, ⟨rfl, rfl⟩, _, g₁, h₁, _, _, ⟨rfl, rfl⟩, _, _, ⟨rfl, rfl⟩, _, g₂, h₂, _, _, rfl,
        _, _, ⟨rfl, rfl⟩, _, _, rfl, rfl⟩ := h
      have first := emit_extends condition ready h₁
      have turn := (emit_extends body ((first.push _ l).ready ready) h₂).push
        (.jump (.address g.here)) l
      rw [Generator.here_push, first.here] at turn
      have all := first.loop g.here turn
      simpa only [layout, Generator.here_push] using all
  | .doLoop l body condition, top, scope, g, g', _, ready, h => by
      simp only [emit, bind_eq_ok, here_eq_ok, put_eq_ok, patchLoop_eq_ok] at h
      obtain ⟨_, _, ⟨rfl, rfl⟩, _, g₁, h₁, _, _, ⟨rfl, rfl⟩, _, g₂, h₂, _, _, rfl, _, _, ⟨rfl, rfl⟩,
        rfl⟩ := h
      have turn := emit_extends body ready h₁
      have second :=
        (emit_extends condition (turn.ready ready) h₂).push (.jumpIf (.address g.here)) l
      rw [turn.here] at second
      have all := turn.loopBefore second
      simpa only [layout, Fragment.size_append, Fragment.size_one, Fragment.append_assoc,
        Nat.add_assoc] using all
  | .forLoop l init condition post body, top, scope, g, g', _, ready, h => by
      simp only [emit, bind_eq_ok, here_eq_ok, push_eq_ok, put_eq_ok, patchHere_eq_ok,
        patchLoop_eq_ok] at h
      obtain ⟨_, g₀, h₀, _, _, ⟨rfl, rfl⟩, _, g₁, h₁, _, _, ⟨rfl, rfl⟩, _, _, ⟨rfl, rfl⟩, _, g₂, h₂,
        _, _, ⟨rfl, rfl⟩, _, g₃, h₃, _, _, rfl, _, _, ⟨rfl, rfl⟩, _, _, rfl, rfl⟩ := h
      have before := emit_extends init ready h₀
      have first := emit_extends condition (before.ready ready) h₁
      have within := (first.push (.jumpUnless .unresolved) l).ready (before.ready ready)
      have turn := emit_extends body within h₂
      have rest := (turn.andThen within (emit_extends post · h₃)).push (.jump (.address g₀.here)) l
      have all := before.trans (first.loop g₂.here rest)
      simp only [turn.here, Generator.here_push, first.here, before.here] at all ⊢
      simpa only [layout, Fragment.append_assoc] using all
  | .leave _, _, _, g, _, _, _, h => by
      obtain rfl := put_eq_ok.1 h
      exact (Extends.refl g).push _ _
  | .proceed _, _, _, g, _, _, _, h => by
      obtain rfl := put_eq_ok.1 h
      exact (Extends.refl g).push _ _
  | .label l name statement, top, scope, g, g', _, ready, h => by
      simp only [emit, bind_eq_ok] at h
      obtain ⟨_, g₁, h₁, h₂⟩ := h
      exact (declareLabel_extends h₁).andThen ready (emit_extends statement · h₂)
  | .jump l name, top, scope, g, g', _, ready, h => by
      simp only [emit, bind_eq_ok, push_eq_ok] at h
      obtain ⟨_, _, ⟨rfl, rfl⟩, h₁⟩ := h
      exact ((Extends.refl g).push _ _).trans (awaitLabel_extends h₁)
  | .callLabel l name, top, scope, g, g', _, ready, h => by
      simp only [emit, bind_eq_ok, push_eq_ok] at h
      obtain ⟨_, _, ⟨rfl, rfl⟩, h₁⟩ := h
      exact ((Extends.refl g).push _ _).trans (awaitLabel_extends h₁)
  | .back _, _, _, g, _, _, _, h => by
      obtain rfl := put_eq_ok.1 h
      exact (Extends.refl g).push _ _
  | .directive l name code statements, top, scope, g, g', _, ready, h => by
      simp only [emit, bind_eq_ok] at h
      obtain ⟨_, g₁, h₁, h₂⟩ := h
      exact (putAll_extends h₁).andThen ready (emitAll_extends statements · h₂)
  | .function l id name parameters body, top, scope, g, g', _, ready, h => by
      simp only [emit, bind_eq_ok, push_eq_ok, here_eq_ok, inFunction_eq_ok] at h
      obtain ⟨_, _, ⟨rfl, rfl⟩, _, _, ⟨rfl, rfl⟩, _, _, ⟨g₁, h₁, rfl⟩, h₂⟩ := h
      have within := ((Extends.refl g).push (.jump .unresolved) l).ready ready
      have inner := (emit_extends body (within.inFunction parameters) h₁).inFunction
      rw [Generator.here_withParameters, Generator.here_push] at inner
      exact closeFunction_extends inner within.below h₂

/-- Nodes one after the other have their layouts one after the other. -/
theorem emitAll_extends : (nodes : List Node) → {top scope : Scope} → {g g' : Generator} →
    {u : Unit} → g.Ready top scope → emitAll nodes top g = .ok u g' →
    Extends g (layoutAll nodes scope g.here) g'
  | [], _, _, g, _, _, _, h => by
      obtain ⟨-, rfl⟩ := pure_eq_ok.1 h
      exact .refl g
  | node :: nodes, top, scope, g, g', _, ready, h => by
      simp only [emitAll, bind_eq_ok] at h
      obtain ⟨_, g₁, h₁, h₂⟩ := h
      exact (emit_extends node ready h₁).andThen ready (emitAll_extends nodes · h₂)

theorem emitOptional_extends : (node : Option Node) → {top scope : Scope} → {g g' : Generator} →
    {u : Unit} → g.Ready top scope → emitOptional node top g = .ok u g' →
    Extends g (layoutOptional node scope g.here) g'
  | none, _, _, g, _, _, _, h => by
      obtain ⟨-, rfl⟩ := pure_eq_ok.1 h
      exact .refl g
  | some node, top, scope, g, g', _, ready, h => emit_extends node ready h

/-- A link has its layout. -/
theorem emitLink_extends (node : Node) {top scope : Scope} {g g' : Generator} {u : Unit}
    (ready : g.Ready top scope) (h : emitLink node top g = .ok u g') :
    Extends g (layoutLink node scope g.here) g' := by
  cases node with
  | identifier _ _ =>
      obtain rfl := put_eq_ok.1 h
      exact (Extends.refl g).push _ _
  | call _ _ arguments =>
      simp only [emitLink, bind_eq_ok, put_eq_ok] at h
      obtain ⟨_, g₁, h₁, rfl⟩ := h
      exact (emitAll_extends arguments ready h₁).push _ _
  | _ => exact absurd h fail_ne_ok

/-- The links of a chain have their layouts one after the other. -/
theorem emitLinks_extends (node : Node) {top scope : Scope} {g g' : Generator} {u : Unit}
    (ready : g.Ready top scope) (h : emitLinks node top g = .ok u g') :
    Extends g (layoutLinks node scope g.here) g' := by
  cases node with
  | chain _ current remaining =>
      simp only [emitLinks, bind_eq_ok] at h
      obtain ⟨_, g₁, h₁, h₂⟩ := h
      exact (emitLink_extends current ready h₁).andThen ready (emitLinks_extends remaining · h₂)
  | identifier _ _ =>
      obtain rfl := put_eq_ok.1 h
      exact (Extends.refl g).push _ _
  | call _ _ arguments =>
      simp only [emitLinks, bind_eq_ok, put_eq_ok] at h
      obtain ⟨_, g₁, h₁, rfl⟩ := h
      exact (emitAll_extends arguments ready h₁).push _ _
  | _ => exact absurd h fail_ne_ok

theorem emitReceiver_extends (node : Node) {top scope : Scope} {g g' : Generator} {u : Unit}
    (ready : g.Ready top scope) (h : emitReceiver node top g = .ok u g') :
    Extends g (layoutReceiver node scope g.here) g' := by
  cases node with
  | chain _ current remaining =>
      simp only [emitReceiver, bind_eq_ok] at h
      obtain ⟨_, g₁, h₁, h₂⟩ := h
      exact (emitLink_extends current ready h₁).andThen ready (emitReceiver_extends remaining · h₂)
  | _ =>
      obtain ⟨-, rfl⟩ := pure_eq_ok.1 h
      exact .refl g

/-- A target that is stored into has its receiver below the value. -/
theorem emitSetter_extends (node : Node) {top scope : Scope} {g g' : Generator} {i : Instruction}
    (ready : g.Ready top scope) (h : emitSetter node top g = .ok i g') :
    storeCode node = i ∧ Extends g (layoutTarget node scope g.here) g' := by
  cases node with
  | identifier _ _ =>
      simp only [emitSetter, bind_eq_ok, visible_eq_ok, nameSetter_eq_ok] at h
      obtain ⟨_, _, ⟨-, rfl⟩, -, rfl, rfl⟩ := h
      exact ⟨rfl, .refl g⟩
  | chain _ current remaining =>
      simp only [emitSetter, bind_eq_ok] at h
      obtain ⟨_, g₁, h₁, _, g₂, h₂, h₃⟩ := h
      obtain ⟨-, rfl, rfl⟩ := fieldSetter_eq_ok h₃
      exact ⟨by rw [lastName_lastLink]; rfl,
        (emit_extends current ready h₁).andThen ready (emitReceiver_extends remaining · h₂)⟩
  | _ => exact absurd h fail_ne_ok

/-- A target that is read and stored into has its receiver below its current value. -/
theorem emitGetterAndSetter_extends (node : Node) {top scope : Scope} {g g' : Generator}
    {i : Instruction} (ready : g.Ready top scope) (h : emitGetterAndSetter node top g = .ok i g') :
    storeCode node = i ∧ Extends g (layoutCurrent node scope g.here) g' := by
  cases node with
  | identifier _ _ =>
      simp only [emitGetterAndSetter, bind_eq_ok, visible_eq_ok, ready.names, nameSetter_eq_ok,
        readName_eq, pure_eq_ok] at h
      obtain ⟨_, _, ⟨rfl, rfl⟩, _, _, ⟨-, rfl, rfl⟩, _, _, h₁, rfl, rfl⟩ := h
      exact ⟨rfl, putAll_extends h₁⟩
  | chain _ current remaining =>
      simp only [emitGetterAndSetter, bind_eq_ok] at h
      obtain ⟨_, g₁, h₁, _, g₂, h₂, h₃⟩ := h
      obtain ⟨rfl, last⟩ := fieldGetterAndSetter_extends h₃
      rw [lastName_lastLink] at last ⊢
      exact ⟨rfl, ((emit_extends current ready h₁).andThen ready
        (emitReceiver_extends remaining · h₂)).trans last⟩
  | _ => exact absurd h fail_ne_ok

/-- The comparisons are laid out with jumps that lead nowhere yet, at addresses that are
returned. -/
theorem emitTests_extends : (cases : List SwitchCase) → {top scope : Scope} → {g g' : Generator} →
    {tests : List Nat} → g.Ready top scope → emitTests cases top g = .ok tests g' →
    testAddresses cases scope g.here = tests ∧ Extends g (layoutTests cases [] scope g.here) g'
  | [], _, _, g, _, _, _, h => by
      obtain ⟨rfl, rfl⟩ := pure_eq_ok.1 h
      exact ⟨rfl, .refl g⟩
  | .mk value _ :: cases, top, scope, g, g', _, ready, h => by
      simp only [emitTests, bind_eq_ok, push_eq_ok, pure_eq_ok] at h
      obtain ⟨_, g₁, h₁, _, _, ⟨rfl, rfl⟩, rest, _, h₂, rfl, rfl⟩ := h
      have first := (emit_extends value ready h₁).push (.switchJump .unresolved) value.location
      obtain ⟨rfl, later⟩ := emitTests_extends cases (first.ready ready) h₂
      rw [Generator.here_push, (emit_extends value ready h₁).here] at later ⊢
      exact ⟨rfl, first.trans later⟩

/-- The bodies of the cases follow the comparisons, which get their targets one by one. -/
theorem emitBodies_extends : (cases : List SwitchCase) → {kind : SwitchKind} → {top scope : Scope} →
    {g₀ g g' : Generator} → (a b : Fragment) → {u : Unit} → g₀.Ready top scope →
    Extends g₀ (a ++ layoutTests cases [] scope (g₀.here + a.size) ++ b) g →
    emitBodies cases kind (testAddresses cases scope (g₀.here + a.size)) top g = .ok u g' →
    Extends g₀
      (a ++ layoutTests cases (bodyStarts cases kind scope g.here) scope (g₀.here + a.size) ++
      b ++ layoutBodies cases kind scope g.here) g'
  | [], _, _, _, _, g, _, _, _, _, _, front, h => by
      obtain ⟨-, rfl⟩ := pure_eq_ok.1 h
      simpa [layoutTests, layoutBodies] using front
  | .mk value body :: cases, kind, top, scope, g₀, g, g', a, b, _, ready, front, h => by
      simp only [testAddresses, emitBodies, bind_eq_ok (x := patchHere _), patchHere_eq_ok,
        bind_eq_ok (x := emit _ _)] at h
      obtain ⟨_, _, rfl, _, g₁, h₁, h⟩ := h
      have patched : Extends g₀ (a ++ layout value scope (g₀.here + a.size) ++
          .one (.switchJump (.address g.here)) ++
          (layoutTests cases [] scope
            (g₀.here + a.size + (layout value scope (g₀.here + a.size)).size + 1) ++ b))
          (g.patchHere (g₀.here + a.size + (layout value scope (g₀.here + a.size)).size)) := by
        refine Extends.patchHere (i := .switchJump .unresolved) _ ?_ (by simp [Nat.add_assoc])
        simpa [layoutTests, Fragment.append_assoc] using front
      have inner := emit_extends body (patched.ready ready) h₁
      rw [Generator.here_patchHere] at inner
      obtain ⟨g₂, closing, h⟩ : ∃ g₂,
          Extends g₁ (.ofCode (if kind = .select then [.jump .breakPoint] else [])) g₂ ∧
            emitBodies cases kind (testAddresses cases scope
              (g₀.here + a.size + (layout value scope (g₀.here + a.size)).size + 1))
              top g₂ = .ok _ g' := by
        split at h
        next select =>
          obtain ⟨_, _, put, h⟩ := bind_eq_ok.1 h
          obtain rfl := put_eq_ok.1 put
          exact ⟨_, by rw [if_pos select]; exact (Extends.refl g₁).push (.jump .breakPoint) _, h⟩
        next falls => exact ⟨g₁, by rw [if_neg falls]; exact Extends.refl g₁, h⟩
      have here : g₂.here = g.here + (layout body scope g.here).size +
          if kind = .select then 1 else 0 := by
        rw [closing.here, inner.here, Generator.here_patchHere]
        cases kind <;> rfl
      have extended := patched.trans (inner.trans closing)
      have next : emitBodies cases kind (testAddresses cases scope (g₀.here +
          (a ++ layout value scope (g₀.here + a.size) ++
            .one (.switchJump (.address g.here))).size)) top g₂ = .ok ⟨⟩ g' := by
        simpa [Nat.add_assoc] using h
      have rest := emitBodies_extends cases _
        (b ++ (layout body scope g.here ++
          .ofCode (if kind = .select then [.jump .breakPoint] else []))) ready
        (by simpa [Fragment.append_assoc, Nat.add_assoc] using extended) next
      have length : (if kind = .select then [Instruction.jump .breakPoint] else []).length =
          if kind = .select then 1 else 0 := by cases kind <;> rfl
      simpa [layoutTests, bodyStarts, layoutBodies, Fragment.append_assoc, here, Nat.add_assoc,
        length] using rest

end

end HostScript.Generate
