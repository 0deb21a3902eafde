import HostScript.Proofs.Emission
import HostScript.Proofs.Tree

/-!
# HostScript.Proofs.Confinement

Where the jumps of a layout go.  `Confined hi allowed base f` says of a fragment at `base` that its
jumps to addresses go no further than `hi`, that breaks and continues are left open only where they
are `allowed`, and that the jumps without a target are exactly accounted for by the list of those
that wait for a label.

The layout of every statement is confined to its own range: loops and switches resolve what their
bodies leave open, and nothing else opens anything.
-/

namespace HostScript

/-- No expansion of a system macro jumps. -/
def Environment.MacrosStayInLine (env : Environment) : Prop :=
  ∀ name code, env.systemMacro? name = some code → ∀ i ∈ code, i.target? = none

/-- Only the expansions that the host has need to be looked at. -/
theorem Environment.macrosStayInLine_iff {env : Environment} : env.MacrosStayInLine ↔
    ∀ entry ∈ env.systemMacros.entries, ∀ i ∈ entry.2, i.target? = none :=
  ⟨fun h entry found => h entry.1 entry.2 (NameMap.mem_entries_iff.1 found),
    fun h name code found => h (name, code) (NameMap.mem_entries_iff.2 found)⟩

instance (env : Environment) : Decidable env.MacrosStayInLine :=
  decidable_of_iff _ Environment.macrosStayInLine_iff.symm

/-- Where a jump may go.  It may be without a target if it `waits` for a label. -/
def JumpTarget.Lands (hi : Nat) (allowed : Allowed) (waits : Prop) : JumpTarget → Prop
  | .address target => target ≤ hi
  | .breakPoint => allowed.leave = true
  | .continuePoint => allowed.proceed = true
  | .unresolved => waits

structure Confined (hi : Nat) (allowed : Allowed) (base : Nat) (f : Fragment) : Prop where
  lands : f.Each (fun address i => ∀ target, i.target? = some target →
    target.Lands hi allowed (∃ name, (name, address) ∈ f.waiting)) base
  /-- Only jumps without a target wait for a label. -/
  waits : ∀ name address, (name, address) ∈ f.waiting →
    ∃ k i, address = base + k ∧ f.code[k]? = some i ∧ i.target? = some .unresolved

namespace Confined

variable {hi base : Nat} {allowed inner : Allowed} {a b f : Fragment} {code : List Instruction}
  {i : Instruction} {target : JumpTarget}

/-- A target may wait for another reason. -/
theorem ofLands {waits waits' : Prop} (h : target.Lands hi allowed waits)
    (step : waits → waits') : target.Lands hi allowed waits' := by
  cases target with
  | unresolved => exact step h
  | _ => exact h

/-- Code without jumps. -/
theorem ofCode (h : ∀ i ∈ code, i.target? = none) : Confined hi allowed base (.ofCode code) where
  lands k i found target jumps := by
    rw [h i (List.mem_of_getElem? found)] at jumps
    cases jumps
  waits := nofun

/-- An instruction without a target goes nowhere. -/
theorem straight (h : i.target? = none) : Confined hi allowed base (.one i) :=
  ofCode (by simpa using h)

theorem empty (labels : List (String × Nat)) (placements : List Placement) :
    Confined hi allowed base { labels, placements } :=
  ⟨nofun, nofun⟩

/-- A jump to where it may land. -/
theorem jump (jumps : i.target? = some target) (h : target.Lands hi allowed False) :
    Confined hi allowed base (.one i) where
  lands := Fragment.each_one.2 fun t found => by
    obtain rfl : target = t := by simpa [jumps] using found
    exact ofLands h False.elim
  waits := nofun

/-- A jump to a label. -/
theorem await (jumps : i.target? = some .unresolved) (name : String) :
    Confined hi allowed base { code := [i], waiting := [(name, base)] } where
  lands k j found t there := by
    obtain ⟨rfl, rfl⟩ : k = 0 ∧ i = j := by
      cases k <;> simp_all
    obtain rfl : JumpTarget.unresolved = t := by simpa [jumps] using there
    exact ⟨name, by simp⟩
  waits other address found := by
    obtain ⟨rfl, rfl⟩ : other = name ∧ address = base := by simpa using found
    exact ⟨0, i, rfl, rfl, jumps⟩

/-- Two fragments, of which no jump leaves the code that both are part of. -/
theorem append {mid : Nat} (first : Confined hi allowed base a)
    (second : Confined hi allowed mid b) (at_ : mid = base + a.size) :
    Confined hi allowed base (a ++ b) where
  lands := by
    subst at_
    refine Fragment.each_append.2 ⟨first.lands.imp ?_, second.lands.imp ?_⟩
    · exact fun address i h target found =>
        ofLands (h target found) fun ⟨name, waits⟩ => ⟨name, List.mem_append_left _ waits⟩
    · exact fun address i h target found =>
        ofLands (h target found) fun ⟨name, waits⟩ => ⟨name, List.mem_append_right _ waits⟩
  waits name address found := by
    subst at_
    rcases List.mem_append.1 found with found | found
    · obtain ⟨k, i, rfl, there, jumps⟩ := first.waits name address found
      refine ⟨k, i, rfl, ?_, jumps⟩
      rw [Fragment.code_append, List.getElem?_append_left (List.getElem?_eq_some_iff.1 there).1,
        there]
    · obtain ⟨k, i, rfl, there, jumps⟩ := second.waits name address found
      refine ⟨a.size + k, i, Nat.add_assoc _ _ _, ?_, jumps⟩
      rw [Fragment.code_append, Fragment.size, List.getElem?_append_right (Nat.le_add_right _ _),
        Nat.add_sub_cancel_left, there]

/-- A jump over a fragment lands right behind it. -/
theorem jumpOver {make : JumpTarget → Instruction} (jumps : ∀ t, (make t).target? = some t)
    (fits : base + 1 + f.size ≤ hi) (h : Confined hi allowed (base + 1) f) :
    Confined hi allowed base (.jumpOver make base f) := by
  have lands : (JumpTarget.address (base + 1 + f.size)).Lands hi allowed False := fits
  exact (jump (jumps _) lands).append h rfl

/-- A loop or switch resolves what its body leaves open, or hands it on. -/
theorem retarget {x y : Option Nat} (h : Confined hi inner base f)
    (leave : inner.leave = true → (x.elim JumpTarget.breakPoint .address).Lands hi allowed False)
    (proceed : inner.proceed = true →
      (y.elim JumpTarget.continuePoint .address).Lands hi allowed False) :
    Confined hi allowed base (f.retarget x y) where
  lands := Fragment.each_retarget.2 (h.lands.imp fun address i lands target found => by
    obtain ⟨old, there, rfl⟩ : ∃ old, i.target? = some old ∧ Code.retarget x y old = target := by
      simpa using found
    have before := lands old there
    cases old with
    | unresolved => exact before
    | address t => cases x <;> cases y <;> exact before
    | breakPoint => cases x <;> exact leave before
    | continuePoint => cases x <;> cases y <;> exact proceed before)
  waits name address found := by
    obtain ⟨k, i, rfl, there, jumps⟩ := h.waits name address found
    refine ⟨k, _, rfl, by simp [Fragment.retarget, there]; rfl, ?_⟩
    rw [Instruction.target?_mapTarget, jumps]
    rfl

/-- A loop leaves nothing open. -/
theorem ofLoop {stop next : Nat} (h : Confined hi inner base f) (stops : stop ≤ hi)
    (goesOn : next ≤ hi) : Confined hi allowed base (f.retarget (some stop) (some next)) :=
  h.retarget (fun _ => stops) fun _ => goesOn

/-- A switch leaves continues open. -/
theorem ofSwitch {stop : Nat} (h : Confined hi ⟨true, allowed.proceed⟩ base f) (stops : stop ≤ hi) :
    Confined hi allowed base (f.retarget (some stop) none) :=
  h.retarget (fun _ => stops) id

/-- More may be allowed than is used. -/
theorem mono (h : Confined hi inner base f) (leave : inner.leave = true → allowed.leave = true)
    (proceed : inner.proceed = true → allowed.proceed = true) : Confined hi allowed base f where
  lands := h.lands.imp fun address i lands target found => by
    have before := lands target found
    cases target with
    | breakPoint => exact leave before
    | continuePoint => exact proceed before
    | _ => exact before
  waits := h.waits

/-- A return goes nowhere. -/
theorem closed (h : Confined hi allowed base f) : Confined hi allowed base (f.closed base) := by
  unfold Fragment.closed
  split
  · exact h.append (ofCode (by simp [Instruction.target?])) rfl
  · exact h

/-! ## composed shapes -/

variable {c : Fragment}

/-- A jump to an address of the code. -/
theorem jumpTo (make : JumpTarget → Instruction) (jumps : ∀ t, (make t).target? = some t)
    {t : Nat} (within : t ≤ hi) : Confined hi allowed base (.one (make (.address t))) :=
  have lands : (JumpTarget.address t).Lands hi allowed False := within
  jump (jumps _) lands

/-- Both branches of a condition, with a jump over the second one. -/
theorem branch (first : Confined hi allowed base a)
    (second : Confined hi allowed (base + a.size + 1) b)
    (third : Confined hi allowed (base + a.size + 1 + b.size + 1) c)
    (fits : base + a.size + 1 + b.size + 1 + c.size ≤ hi) :
    Confined hi allowed base
      (a ++ .one (.jumpUnless (.address (base + a.size + 1 + b.size + 1))) ++ b ++
        .jumpOver .jump (base + a.size + 1 + b.size) c) :=
  have skip := first.append (jumpTo .jumpUnless (fun _ => rfl) (by omega)) rfl
  (skip.append second (by simp [Nat.add_assoc])).append (third.jumpOver (fun _ => rfl) fits)
    (by simp [Nat.add_assoc])

/-- The test of a loop and its turns, which resolve all breaks and continues. -/
theorem loop {continueTo : Nat} (first : Confined hi allowed base a)
    (turn : Confined hi inner (base + a.size + 1) b) (fits : base + a.size + 1 + b.size ≤ hi)
    (goesOn : continueTo ≤ hi) :
    Confined hi allowed base
      (a ++ .jumpOver .jumpUnless (base + a.size)
        (b.retarget (some (base + a.size + 1 + b.size)) (some continueTo))) :=
  first.append ((turn.ofLoop fits goesOn).jumpOver (fun _ => rfl) (by simpa)) rfl

/-- The value of a switch and the comparisons with it, then the bodies with the fallback among
them. -/
theorem switch {start target stop : Nat} (first : Confined hi allowed base a)
    (tests : Confined hi allowed (base + a.size) b)
    (bodies : Confined hi ⟨true, allowed.proceed⟩ start c)
    (starts : start = base + a.size + b.size + 2) (falls : target ≤ hi) (stops : stop ≤ hi) :
    Confined hi allowed base
      (a ++ b ++ .ofCode [.discard, .jump (.address target)] ++ c.retarget (some stop) none) := by
  have front : Confined hi allowed (base + a.size + b.size)
      (.ofCode [.discard, .jump (.address target)]) :=
    (straight rfl).append (jumpTo .jump (fun _ => rfl) falls) rfl
  exact ((first.append tests rfl).append front (by simp [Nat.add_assoc])).append
    (bodies.ofSwitch stops) (by simp [starts, Nat.add_assoc])

/-- The turns of a loop with its test behind them. -/
theorem loopBefore (turn : Confined hi inner base a)
    (second : Confined hi allowed (base + a.size) b)
    (fits : base + a.size + b.size + 1 ≤ hi) :
    Confined hi allowed base
      (a.retarget (some (base + a.size + b.size + 1)) (some (base + a.size)) ++ b ++
        .one (.jumpIf (.address base))) :=
  ((turn.ofLoop fits (by omega)).append second (by simp)).append
    (jumpTo .jumpIf (fun _ => rfl) (by omega)) rfl

end Confined

namespace Generate

variable {hi : Nat} {allowed : Allowed} {scope : Scope}

/-- A read of a name has no jumps. -/
theorem target?_readCode (macros : scope.environment.MacrosStayInLine) (name : String) :
    ∀ i ∈ readCode scope name, i.target? = none := by
  intro i found
  unfold readCode at found
  split at found
  next constant _ =>
    obtain rfl : i = constant.instruction := by simpa using found
    cases constant <;> rfl
  next code _ expands => exact macros name code expands i found
  next =>
    cases List.mem_singleton.1 found
    rfl
  next =>
    cases List.mem_singleton.1 found
    rfl

/-- So a read of a name is confined. -/
theorem confined_readCode (macros : scope.environment.MacrosStayInLine) (base : Nat)
    (name : String) : Confined hi allowed base (.ofCode (readCode scope name)) :=
  .ofCode (target?_readCode macros name)

theorem target?_storeCode (target : Node) : (storeCode target).target? = none := by
  cases target <;> rfl

/-- An increment or decrement jumps nowhere. -/
theorem target?_adjust (kind : AdjustKind) (target : Node) (value : Number) :
    ∀ i ∈ (if kind = .after then [.duplicate] else []) ++ [.pushNumber value, .binaryOp .add] ++
      (if kind = .before then [.duplicate] else []) ++ [storeCode target], i.target? = none := by
  refine List.forall_mem_append.2 ⟨?_, by simpa using target?_storeCode target⟩
  cases kind <;> simp [Instruction.target?]

/-! ## expressions -/

mutual

/-- The jumps of an expression stay in it, by induction on the tree. -/
theorem confined_expression (macros : scope.environment.MacrosStayInLine) : (node : Node) →
    IsExpression node → (base : Nat) → base + (layout node scope base).size ≤ hi →
    Confined hi allowed base (layout node scope base)
  | .null _, _, _, _ | .number .., _, _, _ | .string .., _, _, _ => .straight rfl
  | .identifier _ name, _, base, _ => confined_readCode macros base name
  | .chain _ current remaining, h, base, fits => by
      simp only [layout, Fragment.size_append] at fits ⊢
      exact (confined_expression macros current h.1 base (by omega)).append
        (confined_links macros remaining h.2 _ (by omega)) rfl
  | .call _ _ arguments, h, base, fits => by
      simp only [layout, Fragment.size_append, Fragment.size_one] at fits ⊢
      exact (confined_expressions macros arguments h base (by omega)).append (.straight rfl) rfl
  | .staticCall _ _ _ arguments, h, base, fits => by
      simp only [layout, Fragment.size_append, Fragment.size_one] at fits ⊢
      exact (confined_expressions macros arguments h base (by omega)).append (.straight rfl) rfl
  | .unary _ _ operand, h, base, fits => by
      simp only [layout, Fragment.size_append, Fragment.size_one] at fits ⊢
      exact (confined_expression macros operand h base (by omega)).append (.straight rfl) rfl
  | .binary _ op left right, h, base, fits => by
      cases op with
      | and | or =>
          simp only [layout, Fragment.size_append, Fragment.size_jumpOver] at fits ⊢
          exact (confined_expression macros left h.1 base (by omega)).append
            (.jumpOver (fun _ => rfl) (by omega)
              (confined_expression macros right h.2 _ (by omega))) rfl
      | _ =>
          simp only [layout, Fragment.size_append, Fragment.size_one] at fits ⊢
          exact ((confined_expression macros left h.1 base (by omega)).append
            (confined_expression macros right h.2 _ (by omega)) rfl).append (.straight rfl) rfl
  | .adjust _ kind target direction, h, base, fits => by
      simp only [layout, Fragment.size_append] at fits ⊢
      exact (confined_current macros target h.2 base (by omega)).append
        (.ofCode (target?_adjust kind target direction.number)) rfl

theorem confined_expressions (macros : scope.environment.MacrosStayInLine) : (nodes : List Node) →
    AreExpressions nodes → (base : Nat) → base + (layoutAll nodes scope base).size ≤ hi →
    Confined hi allowed base (layoutAll nodes scope base)
  | [], _, _, _ => .empty [] []
  | node :: nodes, h, base, fits => by
      simp only [layoutAll, Fragment.size_append] at fits ⊢
      exact (confined_expression macros node h.1 base (by omega)).append
        (confined_expressions macros nodes h.2 _ (by omega)) rfl

theorem confined_link (macros : scope.environment.MacrosStayInLine) : (node : Node) →
    IsLink node → (base : Nat) → base + (layoutLink node scope base).size ≤ hi →
    Confined hi allowed base (layoutLink node scope base)
  | .identifier .., _, _, _ => .straight rfl
  | .call _ _ arguments, h, base, fits => by
      simp only [layoutLink, Fragment.size_append, Fragment.size_one] at fits ⊢
      exact (confined_expressions macros arguments h base (by omega)).append (.straight rfl) rfl

theorem confined_links (macros : scope.environment.MacrosStayInLine) : (node : Node) →
    AreLinks node → (base : Nat) → base + (layoutLinks node scope base).size ≤ hi →
    Confined hi allowed base (layoutLinks node scope base)
  | .chain _ current remaining, h, base, fits => by
      simp only [layoutLinks, Fragment.size_append] at fits ⊢
      exact (confined_link macros current h.1 base (by omega)).append
        (confined_links macros remaining h.2 _ (by omega)) rfl
  | .identifier .., _, _, _ => .straight rfl
  | .call _ _ arguments, h, base, fits => by
      simp only [layoutLinks, Fragment.size_append, Fragment.size_one] at fits ⊢
      exact (confined_expressions macros arguments h base (by omega)).append (.straight rfl) rfl

theorem confined_receiver (macros : scope.environment.MacrosStayInLine) : (node : Node) →
    AreLinks node → (base : Nat) → base + (layoutReceiver node scope base).size ≤ hi →
    Confined hi allowed base (layoutReceiver node scope base)
  | .chain _ current remaining, h, base, fits => by
      simp only [layoutReceiver, Fragment.size_append] at fits ⊢
      exact (confined_link macros current h.1 base (by omega)).append
        (confined_receiver macros remaining h.2 _ (by omega)) rfl
  | .identifier .., _, _, _ | .call .., _, _, _ => .empty [] []

theorem confined_current (macros : scope.environment.MacrosStayInLine) : (target : Node) →
    IsExpression target → (base : Nat) → base + (layoutCurrent target scope base).size ≤ hi →
    Confined hi allowed base (layoutCurrent target scope base)
  | .identifier _ name, _, base, _ => confined_readCode macros base name
  | .chain _ current remaining, h, base, fits => by
      simp only [layoutCurrent, Fragment.size_append, Fragment.size_ofCode] at fits ⊢
      exact ((confined_expression macros current h.1 base (by omega)).append
        (confined_receiver macros remaining h.2 _ (by omega)) rfl).append
          (.ofCode (by simp [Instruction.target?])) rfl
  | .null _, _, _, _ | .number .., _, _, _ | .string .., _, _, _ | .call .., _, _, _
  | .staticCall .., _, _, _ | .unary .., _, _, _ | .binary .., _, _, _ | .adjust .., _, _, _ =>
      .straight rfl

end

theorem confined_target (macros : scope.environment.MacrosStayInLine) : (target : Node) →
    IsExpression target → (base : Nat) → base + (layoutTarget target scope base).size ≤ hi →
    Confined hi allowed base (layoutTarget target scope base)
  | .chain _ current remaining, h, base, fits => by
      simp only [layoutTarget, Fragment.size_append] at fits ⊢
      exact (confined_expression macros current h.1 base (by omega)).append
        (confined_receiver macros remaining h.2 _ (by omega)) rfl
  | .identifier .., _, _, _ | .null _, _, _, _ | .number .., _, _, _ | .string .., _, _, _
  | .call .., _, _, _ | .staticCall .., _, _, _ | .unary .., _, _, _ | .binary .., _, _, _
  | .adjust .., _, _, _ => .empty [] []

/-! ## statements -/

/-- The bodies of a switch start within its range. -/
theorem bodyStarts_le {kind : SwitchKind} (cases : List SwitchCase) (base : Nat) :
    ∀ start ∈ bodyStarts cases kind scope base,
      start ≤ base + (layoutBodies cases kind scope base).size := by
  induction cases generalizing base with
  | nil => nofun
  | cons first cases ih =>
      obtain ⟨value, body⟩ := first
      rw [bodyStarts_cons]
      refine List.forall_mem_cons.2 ⟨Nat.le_add_right .., fun start found => ?_⟩
      have within := ih _ start found
      simp only [layoutBodies, Fragment.size_append] at within ⊢
      omega

/-- Comparisons that all have a body to jump to. -/
theorem confined_tests {n : Nat} {inner : Allowed} (macros : scope.environment.MacrosStayInLine) :
    (cases : List SwitchCase) → AreCases n inner cases → (targets : List Nat) →
    targets.length = cases.length → (∀ target ∈ targets, target ≤ hi) → (base : Nat) →
    base + (layoutTests cases targets scope base).size ≤ hi →
    Confined hi allowed base (layoutTests cases targets scope base)
  | [], _, _, _, _, _, _ => .empty [] []
  | .mk value body :: cases, h, target :: targets, same, within, base, fits => by
      simp only [layoutTests, Fragment.size_append, Fragment.size_one, List.tail_cons] at fits ⊢
      have lands : (JumpTarget.address target).Lands hi allowed False := within target (by simp)
      exact ((confined_expression macros value h.1 base (by omega)).append (.jump rfl lands)
        rfl).append
          (confined_tests macros cases h.2.2 targets (by simpa using same)
            (fun t found => within t (List.mem_cons_of_mem _ found)) _ (by omega))
          (by simp [Nat.add_assoc])

mutual

/-- The jumps of a statement stay in it, but for those that wait, by induction on the tree. -/
theorem confined_statement {n : Nat} {allowed : Allowed} : (node : Node) → {scope : Scope} →
    scope.environment.MacrosStayInLine → IsStatement n allowed node → (base : Nat) →
    base + (layout node scope base).size ≤ hi →
    Confined hi allowed base (layout node scope base)
  | .block _ statements, _, macros, h, base, fits =>
      confined_statements statements macros h base fits
  | .returns _ none, _, _, _, _, _ => .ofCode (by simp [Instruction.target?])
  | .returns _ (some value), _, macros, h, base, fits
  | .discard _ value, _, macros, h, base, fits => by
      simp only [layout, Fragment.size_append, Fragment.size_one] at fits ⊢
      exact (confined_expression macros value h base (by omega)).append (.straight rfl) rfl
  | .branch _ condition accepted none, _, macros, h, base, fits => by
      simp only [layout, Fragment.size_append, Fragment.size_jumpOver] at fits ⊢
      exact (confined_expression macros condition h.1 base (by omega)).append
        (.jumpOver (fun _ => rfl) (by omega)
          (confined_statement accepted macros h.2.1 _ (by omega))) rfl
  | .branch _ condition accepted (some otherwise), _, macros, h, base, fits => by
      simp only [layout, Fragment.size_append, Fragment.size_one, Fragment.size_jumpOver] at fits ⊢
      exact .branch (confined_expression macros condition h.1 base (by omega))
        (confined_statement accepted macros h.2.1 _ (by omega))
        (confined_statement otherwise macros h.2.2 _ (by omega)) (by omega)
  | .switch _ kind value cases fallback, scope, macros, h, base, fits => by
      simp only [layout, Fragment.size_append, Fragment.size_ofCode, Fragment.size_retarget,
        size_layoutTests, List.length_cons, List.length_nil] at fits
      refine .switch (confined_expression macros value h.1 base (by omega))
        (confined_tests macros cases h.2.1 _ (length_bodyStarts ..) ?_ _
          (by rw [size_layoutTests]; omega))
        ((confined_bodies cases kind macros h.2.1 _ (by omega)).append
          ((confined_optional fallback macros h.2.2 _ (by omega)).mono (fun _ => rfl) id) rfl)
        (by simp only [size_layoutTests]) (by omega) (by omega)
      intro start found
      have within := bodyStarts_le cases _ start found
      omega
  | .assign _ none target value, _, macros, h, base, fits => by
      simp only [layout, Fragment.size_append, Fragment.size_one] at fits ⊢
      exact ((confined_target macros target h.1 base (by omega)).append
        (confined_expression macros value h.2 _ (by omega)) rfl).append
          (.straight (target?_storeCode target)) rfl
  | .assign _ (some op) target value, _, macros, h, base, fits => by
      simp only [layout, Fragment.size_append, Fragment.size_ofCode] at fits ⊢
      refine ((confined_current macros target h.1 base (by omega)).append
        (confined_expression macros value h.2 _ (by omega)) rfl).append (.ofCode ?_) rfl
      exact List.forall_mem_cons.2 ⟨rfl, by simpa using target?_storeCode target⟩
  | .adjust _ kind target direction, _, macros, h, base, fits => by
      simp only [layout, Fragment.size_append] at fits ⊢
      exact (confined_current macros target h.2 base (by omega)).append
        (.ofCode (target?_adjust kind target direction.number)) rfl
  | .whileLoop _ condition body, _, macros, h, base, fits => by
      simp only [layout, Fragment.size_append, Fragment.size_one, Fragment.size_jumpOver,
        Fragment.size_retarget] at fits
      exact .loop (confined_expression macros condition h.1 base (by omega))
        ((confined_statement body macros h.2 _ (by omega)).append
          (.jumpTo .jump (fun _ => rfl) (by omega)) rfl)
        (by simp only [Fragment.size_append, Fragment.size_one]; omega) (by omega)
  | .doLoop _ body condition, _, macros, h, base, fits => by
      simp only [layout, Fragment.size_append, Fragment.size_one, Fragment.size_retarget] at fits ⊢
      exact .loopBefore (confined_statement body macros h.1 base (by omega))
        (confined_expression macros condition h.2 _ (by omega)) (by omega)
  | .forLoop _ init condition post body, _, macros, h, base, fits => by
      simp only [layout, Fragment.size_append, Fragment.size_one, Fragment.size_jumpOver,
        Fragment.size_retarget] at fits
      simp only [layout, Fragment.append_assoc]
      exact (confined_statement init macros h.1 base (by omega)).append
        (.loop (confined_expression macros condition h.2.1 _ (by omega))
          ((confined_statement body macros h.2.2.2 _ (by omega)).append
            (((confined_statement post macros h.2.2.1 _ (by omega)).mono (fun _ => rfl)
              nofun).append (.jumpTo .jump (fun _ => rfl) (by omega)) rfl) rfl)
          (by simp only [Fragment.size_append, Fragment.size_one]; omega) (by omega)) rfl
  | .leave _, _, _, h, _, _ => .jump rfl h
  | .proceed _, _, _, h, _, _ => .jump rfl h
  | .label _ name statement, _, macros, h, base, fits =>
      (Confined.empty [(name, base)] []).append
        (confined_statement statement macros h base fits) rfl
  | .jump _ name, _, _, _, _, _ | .callLabel _ name, _, _, _, _, _ => .await rfl name
  | .back _, _, _, _, _, _ => .straight rfl
  | .directive .., _, _, ⟨rfl, rfl⟩, _, _ => .empty [] []
  | .function _ _ _ parameters body, scope, macros, h, base, fits => by
      simp only [layout, Fragment.size_append, Fragment.size_jumpOver] at fits ⊢
      have within := Fragment.size_le_closed (layout body { scope with parameters } (base + 1))
        (base + 1)
      have same : ({ scope with parameters } : Scope).environment.MacrosStayInLine := macros
      have inner := confined_statement body same h.2 (base + 1) (by omega)
      exact ((inner.closed.mono nofun nofun).jumpOver (fun _ => rfl) (by omega)).append
        (.empty [] _) rfl

theorem confined_statements {n : Nat} {allowed : Allowed} : (nodes : List Node) →
    {scope : Scope} → scope.environment.MacrosStayInLine → AreStatements n allowed nodes →
    (base : Nat) → base + (layoutAll nodes scope base).size ≤ hi →
    Confined hi allowed base (layoutAll nodes scope base)
  | [], _, _, _, _, _ => .empty [] []
  | node :: nodes, _, macros, h, base, fits => by
      simp only [layoutAll, Fragment.size_append] at fits ⊢
      exact (confined_statement node macros h.1 base (by omega)).append
        (confined_statements nodes macros h.2 _ (by omega)) rfl

theorem confined_optional {n : Nat} {allowed : Allowed} : (node : Option Node) →
    {scope : Scope} → scope.environment.MacrosStayInLine → IsOptional n allowed node →
    (base : Nat) → base + (layoutOptional node scope base).size ≤ hi →
    Confined hi allowed base (layoutOptional node scope base)
  | none, _, _, _, _, _ => .empty [] []
  | some node, _, macros, h, base, fits => confined_statement node macros h base fits

/-- The bodies of the cases.  Those of a select end in a break that no script has written. -/
theorem confined_bodies {n : Nat} {allowed : Allowed} : (cases : List SwitchCase) →
    (kind : SwitchKind) → {scope : Scope} → scope.environment.MacrosStayInLine →
    AreCases n allowed cases → (base : Nat) →
    base + (layoutBodies cases kind scope base).size ≤ hi →
    Confined hi ⟨true, allowed.proceed⟩ base (layoutBodies cases kind scope base)
  | [], _, _, _, _, _, _ => .empty [] []
  | .mk _ body :: cases, kind, scope, macros, h, base, fits => by
      simp only [layoutBodies, Fragment.size_append, Fragment.size_ofCode] at fits ⊢
      have first : Confined hi ⟨true, allowed.proceed⟩ base (layout body scope base) :=
        (confined_statement body macros h.2.1 base (by omega)).mono (fun _ => rfl) id
      have ends : Confined hi ⟨true, allowed.proceed⟩ (base + (layout body scope base).size)
          (.ofCode (if kind = .select then [.jump .breakPoint] else [])) := by
        split
        · exact .jump rfl rfl
        · exact .empty [] []
      exact (first.append ends rfl).append (confined_bodies cases kind macros h.2.2 _ (by omega))
        (by simp)

end

end Generate

end HostScript
