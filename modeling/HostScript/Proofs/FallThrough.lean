import HostScript.Node.Parse.Statement
import HostScript.Proofs.Execution
import Mathlib.Data.Option.Basic

/-!
# HostScript.Proofs.FallThrough

The order in which the clauses of a switch run.  A switch is read clause by clause, and its cases
and its default clause are kept apart from then on: the code of the cases comes first, in the order
of the text, and the default body stands behind all of them wherever it was written.  Each body
falls through into the one that stands behind it.

So the clauses follow each other as they do in the text if no case stands behind the default clause.
Otherwise they do not: the default body of `leadingDefault` is followed by the end of the switch,
and not by the case behind it.
-/

namespace HostScript

open Machine Generate

/-! ## clauses -/

/-- A clause of a switch as it is written. -/
inductive Clause where
  | case (value body : Node)
  | fallback (body : Node)

namespace Clause

def body : Clause → Node
  | case _ body | fallback body => body

def isCase : Clause → Bool
  | case .. => true
  | fallback _ => false

def case? : Clause → Option SwitchCase
  | case value body => some (.mk value body)
  | fallback _ => none

def fallback? : Clause → Option Node
  | case .. => none
  | fallback body => some body

def ofCase (c : SwitchCase) : Clause := case c.value c.body

section parts

variable (value body : Node)

/-- What the parts of a clause are can be read off it. -/
@[simp] theorem body_case : (case value body).body = body := rfl
@[simp] theorem body_fallback : (fallback body).body = body := rfl
@[simp] theorem isCase_case : (case value body).isCase = true := rfl
@[simp] theorem isCase_fallback : (fallback body).isCase = false := rfl
@[simp] theorem case?_case : (case value body).case? = some (.mk value body) := rfl
@[simp] theorem case?_fallback : (fallback body).case? = none := rfl
@[simp] theorem fallback?_case : (case value body).fallback? = none := rfl
@[simp] theorem fallback?_fallback : (fallback body).fallback? = some body := rfl
@[simp] theorem ofCase_mk : ofCase (.mk value body) = case value body := rfl

end parts

/-- The clauses in the order of their code: the default clause comes last. -/
def placement (clauses : List Clause) : List Clause :=
  clauses.filter isCase ++ clauses.filter (!·.isCase)

/-- The cases of a switch are its clauses without the default. -/
theorem map_ofCase (clauses : List Clause) :
    (clauses.filterMap case?).map ofCase = clauses.filter isCase := by
  induction clauses with
  | nil => rfl
  | cons c clauses ih => cases c <;> simp [List.filter_cons, List.filterMap_cons, ih]

/-- The bodies of the defaults are those of the clauses that are no cases. -/
theorem filterMap_fallback? (clauses : List Clause) :
    clauses.filterMap fallback? = (clauses.filter (!·.isCase)).map body := by
  induction clauses with
  | nil => rfl
  | cons c clauses ih => cases c <;> simp [List.filterMap_cons, ih]

/-- The bodies of the cases with the default body behind them. -/
theorem map_body_placement {clauses : List Clause}
    (few : (clauses.filterMap fallback?).length ≤ 1) :
    (placement clauses).map body = (clauses.filterMap case?).map (·.body) ++
      (clauses.filterMap fallback?).getLast?.toList := by
  have last : (clauses.filterMap fallback?).getLast?.toList = clauses.filterMap fallback? := by
    cases all : clauses.filterMap fallback? with
    | nil => rfl
    | cons first others =>
        rw [all, List.length_cons] at few
        rw [List.length_eq_zero_iff.1 (show others.length = 0 by omega)]
        rfl
  have cases : (clauses.filter isCase).map body = (clauses.filterMap case?).map (·.body) := by
    rw [← map_ofCase, List.map_map]
    rfl
  rw [placement, List.map_append, cases, last, filterMap_fallback?]

/-- If no case stands behind the default clause, the code has the order of the text. -/
theorem placement_eq_self {clauses : List Clause}
    (last : ∀ before body after, clauses = before ++ fallback body :: after → after = []) :
    placement clauses = clauses := by
  induction clauses with
  | nil => rfl
  | cons c clauses ih =>
      cases c with
      | case value body =>
          have rest := ih fun before body after split =>
            last (_ :: before) body after (congrArg (List.cons _) split)
          unfold placement at rest ⊢
          simpa [List.filter_cons] using rest
      | fallback body =>
          obtain rfl := last [] body clauses rfl
          rfl

end Clause

/-! ## reading clauses -/

namespace Parse

/-- The clauses up to the closing brace, in the order of the text; `closed` says that there was a
default clause. -/
def clausesFrom (nested : Parse Node) (switch : Location) : Nat → Bool → Parse (List Clause)
  | 0, _ => noProgress
  | fuel + 1, closed => do
    let token ← next
    match token.kind with
    | .keyword .caseKw =>
      let value ← expression true
      let _ ← expect .colon
      let body ← caseBody nested switch token.location
      return .case value body :: (← clausesFrom nested switch fuel closed)
    | .keyword .defaultKw =>
      if closed then fail token.location .secondDefault
      let _ ← expect .colon
      let body ← caseBody nested switch token.location
      return .fallback body :: (← clausesFrom nested switch fuel true)
    | .braceClose => return []
    | kind => fail token.location (.unexpected .caseClause kind)

/-- Reading a switch is reading its clauses and keeping the default clause apart. -/
theorem casesFrom_eq (nested : Parse Node) (switch : Location) (fuel : Nat)
    (fallback : Option Node) :
    casesFrom nested switch fuel fallback = do
      let clauses ← clausesFrom nested switch fuel fallback.isSome
      return (clauses.filterMap Clause.case?,
        (clauses.filterMap Clause.fallback?).getLast?.or fallback) := by
  induction fuel generalizing fallback with
  | zero => rfl
  | succ fuel ih =>
      rw [casesFrom, clausesFrom, bind_assoc]
      refine bind_congr fun token => ?_
      obtain ⟨kind, l⟩ := token
      cases kind with
      | keyword word =>
          cases word with
          | caseKw => simp [ih]
          | defaultKw =>
              cases fallback with
              | some _ => rfl
              | none => simp [ih, List.filterMap_cons]
          | _ => rfl
      | braceClose => rfl
      | _ => rfl

section reading

variable {nested : Parse Node} {l : Location} {kind : SwitchKind} {input : Input}
  {state state' : State} {node : Node}

/-- A sequence of readers succeeds when both do. -/
theorem bind_read_eq_ok {α β : Type} {x : Parse α} {f : α → Parse β} {b : β} :
    (x >>= f) input state = .ok b state' ↔
      ∃ a state₁, x input state = .ok a state₁ ∧ f a input state₁ = .ok b state' :=
  bind_eq_ok

/-- There is one default clause at most, and none behind another. -/
theorem length_fallbacks {inner : Parse Node} {fuel : Nat} {closed : Bool} {clauses : List Clause}
    (read : clausesFrom inner l fuel closed input state = .ok clauses state') :
    (clauses.filterMap Clause.fallback?).length ≤ if closed then 0 else 1 := by
  induction fuel generalizing closed state state' clauses with
  | zero => cases read
  | succ fuel ih =>
      rw [clausesFrom] at read
      obtain ⟨⟨kind, place⟩, state₁, -, read⟩ := bind_read_eq_ok.1 read
      cases kind with
      | keyword word =>
          cases word with
          | caseKw =>
              obtain ⟨value, _, -, read⟩ := bind_read_eq_ok.1 read
              obtain ⟨_, _, -, read⟩ := bind_read_eq_ok.1 read
              obtain ⟨body, _, -, read⟩ := bind_read_eq_ok.1 read
              obtain ⟨others, _, rest, read⟩ := bind_read_eq_ok.1 read
              obtain ⟨rfl, -⟩ := EStateM.Result.ok.inj read
              simpa [List.filterMap_cons] using ih rest
          | defaultKw =>
              cases closed with
              | true => cases read
              | false =>
                  obtain ⟨_, _, -, read⟩ := bind_read_eq_ok.1 read
                  obtain ⟨body, _, -, read⟩ := bind_read_eq_ok.1 read
                  obtain ⟨others, _, rest, read⟩ := bind_read_eq_ok.1 read
                  obtain ⟨rfl, -⟩ := EStateM.Result.ok.inj read
                  simpa using ih rest
          | _ => cases read
      | braceClose =>
          obtain ⟨rfl, -⟩ := EStateM.Result.ok.inj read
          exact Nat.zero_le _
      | _ => cases read

/-- What stands behind the keyword of a switch: a value and, in braces, the clauses. -/
def ReadsClauses (nested : Parse Node) (l : Location) (kind : SwitchKind) (input : Input)
    (state : State) (value : Node) (clauses : List Clause) (state' : State) : Prop :=
  ∃ state₁ opening state₂, expression true input state = .ok value state₁ ∧
    expect .braceOpen input state₁ = .ok opening state₂ ∧
    inCases kind (clausesFrom nested l (input.tokens.size - state₂.cursor + 1) false) input
      state₂ = .ok clauses state'

/-- A switch has the cases of its text in order, and the only default clause apart from them. -/
theorem clauses_of_switch (read : switch nested l kind input state = .ok node state') :
    ∃ value clauses, ReadsClauses nested l kind input state value clauses state' ∧
      (clauses.filterMap Clause.fallback?).length ≤ 1 ∧
      node = .switch l kind value (clauses.filterMap Clause.case?)
        (clauses.filterMap Clause.fallback?).getLast? := by
  obtain ⟨value, state₁, first, read⟩ := bind_read_eq_ok.1 read
  obtain ⟨opening, state₂, brace, read⟩ := bind_read_eq_ok.1 read
  obtain ⟨left, state₃, counted, read⟩ := bind_read_eq_ok.1 read
  obtain ⟨found, state₄, inside, read⟩ := bind_read_eq_ok.1 read
  obtain ⟨rfl, rfl⟩ := EStateM.Result.ok.inj counted
  obtain ⟨state₅, enclosed, rfl⟩ := bracket_eq_ok.1 inside
  rw [casesFrom_eq] at enclosed
  obtain ⟨clauses, state₆, inner, same⟩ := bind_read_eq_ok.1 enclosed
  obtain ⟨rfl, rfl⟩ := EStateM.Result.ok.inj same
  obtain ⟨rfl, rfl⟩ := EStateM.Result.ok.inj read
  have cases : inCases kind (clausesFrom nested l _ false) input state₂ = .ok clauses _ :=
    bracket_eq_ok.2 ⟨state₆, inner, rfl⟩
  refine ⟨value, clauses, ⟨state₁, opening, state₂, first, brace, cases⟩,
    length_fallbacks inner, ?_⟩
  rw [Option.or_none]

end reading

end Parse

/-! ## where the bodies stand -/

namespace Clause

/-- The clauses with the addresses of their bodies, which follow each other from `base` on. -/
def entries (scope : Scope) : Nat → List Clause → List (Clause × Nat)
  | _, [] => []
  | base, c :: clauses =>
    (c, base) :: entries scope (base + (layout c.body scope base).size) clauses

/-- The address of the first of some bodies, or `stop` if there are none. -/
def onward (stop : Nat) (placed : List (Clause × Nat)) : Nat :=
  (placed.head?.map Prod.snd).getD stop

section entries

variable {scope : Scope} {base stop : Nat} {clauses : List Clause}

/-- The code of two lists of nodes is as long as that of both. -/
theorem size_layoutAll_append (nodes others : List Node) :
    (layoutAll (nodes ++ others) scope base).size = (layoutAll nodes scope base).size +
      (layoutAll others scope (base + (layoutAll nodes scope base).size)).size := by
  induction nodes generalizing base with
  | nil => simp [layoutAll]
  | cons node nodes ih =>
      simp only [List.cons_append, layoutAll, Fragment.size_append, ih, Nat.add_assoc]

/-- The bodies of a switch are laid out like a list of statements. -/
theorem size_layoutBodies (cases : List SwitchCase) :
    (layoutBodies cases .switch scope base).size =
      (layoutAll ((cases.map ofCase).map body) scope base).size := by
  have same := @layoutBodies_switch scope none base cases
  rw [layoutOptional, Fragment.append_empty, Option.toList_none, List.append_nil] at same
  rw [same, List.map_map]
  rfl

/-- There is one entry for each clause. -/
theorem map_fst_entries : (entries scope base clauses).map Prod.fst = clauses := by
  induction clauses generalizing base with
  | nil => rfl
  | cons c clauses ih => rw [entries, List.map_cons, ih]

/-- The clauses behind others have their entries behind the code of those. -/
theorem entries_append (others : List Clause) :
    entries scope base (clauses ++ others) = entries scope base clauses ++
      entries scope (base + (layoutAll (clauses.map body) scope base).size) others := by
  induction clauses generalizing base with
  | nil => rfl
  | cons c clauses ih =>
      rw [List.cons_append, entries, ih, entries, List.map_cons, layoutAll, Fragment.size_append,
        ← Nat.add_assoc, List.cons_append]

/-- Behind the last body is the end. -/
theorem onward_entries (stop_eq : stop = base + (layoutAll (clauses.map body) scope base).size) :
    onward stop (entries scope base clauses) = base := by
  cases clauses with
  | nil => exact stop_eq
  | cons c clauses => rfl

/-- Bodies that stand one behind the other: each has its code at its address, and right behind that
is the next one. -/
theorem code_of_entries {program : List Instruction} {x y : Option Nat}
    (carries : Carries program x y base (layoutAll (clauses.map body) scope base))
    (stop_eq : stop = base + (layoutAll (clauses.map body) scope base).size)
    {before after : List (Clause × Nat)} {c : Clause} {entry : Nat}
    (split : entries scope base clauses = before ++ (c, entry) :: after) :
    Carries program x y entry (layout c.body scope entry) ∧
      entry + (layout c.body scope entry).size = onward stop after := by
  induction clauses generalizing base before with
  | nil => simp [entries] at split
  | cons d clauses ih =>
      rw [List.map_cons, layoutAll] at carries stop_eq
      obtain ⟨first, rest⟩ := carries_append.1 carries
      rw [Fragment.size_append, ← Nat.add_assoc] at stop_eq
      cases before with
      | nil =>
          obtain ⟨same, rfl⟩ := List.cons.inj split
          obtain ⟨rfl, rfl⟩ := Prod.mk.inj same
          exact ⟨first, (onward_entries stop_eq).symm⟩
      | cons b before => exact ih rest stop_eq (List.cons.inj split).2

end entries

end Clause

/-! ## falling through -/

/-- When a body that is placed somewhere has ended, a run goes on with the body of the next clause,
and with `stop` behind the last one. -/
def FallsThrough (program : List Instruction) (scope : Scope) (stop : Nat)
    (placed : List (Clause × Nat)) : Prop :=
  ∀ before c entry after, placed = before ++ (c, entry) :: after →
    ∀ (H : Host) (s s' : H.Store), Executes H scope (.one c.body) s .normal s' →
      ∀ stack remembered, Reaches program (.running entry stack remembered s)
        (.running (Clause.onward stop after) stack remembered s')

section main

variable {nested : Parse Node} {l : Location} {input : Parse.Input}
  {state state' : Parse.State} {node : Node} {top scope : Scope} {g g' : Generator}
  {program : List Instruction} {x y : Option Nat}

/-- The bodies of a switch stand one behind the other, those of the cases in the order of the text
and the default body behind them, and each falls through into the next.  If no case is written
behind the default clause, this is the order of the text.  The first case that agrees is entered at
its body, and if none does, the default body is, or the end of the switch where there is none. -/
theorem switch_falls_through
    (read : Parse.switch nested l .switch input state = .ok node state')
    (ready : g.Ready top scope) (generated : emit node top g = .ok ⟨⟩ g')
    (held : Holds program x y g g') :
    ∃ value clauses placed,
      Parse.ReadsClauses nested l .switch input state value clauses state' ∧
      node = .switch l .switch value (clauses.filterMap Clause.case?)
        (clauses.filterMap Clause.fallback?).getLast? ∧
      placed.map Prod.fst = Clause.placement clauses ∧
      ((∀ before body after, clauses = before ++ .fallback body :: after → after = []) →
        placed.map Prod.fst = clauses) ∧
      FallsThrough program scope g'.here placed ∧
      (∀ before c entry after, placed = before ++ (c, entry) :: after →
        Carries program (some g'.here) y entry (layout c.body scope entry) ∧
        entry + (layout c.body scope entry).size = Clause.onward g'.here after) ∧
      ∀ (H : Host) s v s₁ chosen s₂, evaluate H scope value s = some (v, s₁) →
        agreeingCases H scope v (clauses.filterMap Clause.case?) s₁ = some (chosen, s₂) →
        ∃ skipped entered, placed = skipped ++ entered ∧
          entered.map Prod.fst = chosen.map .ofCase ++ clauses.filter (!·.isCase) ∧
          ∀ stack remembered, Reaches program (.running g.here stack remembered s)
            (.running (Clause.onward g'.here entered) stack remembered s₂) := by
  obtain ⟨value, clauses, reads, few, rfl⟩ := Parse.clauses_of_switch read
  have code := emit_extends _ ready generated
  have carries := held.carries code
  obtain ⟨_, check, start, stop, rfl, check_eq, start_eq, stop_here, stop_eq, first, compares,
    discards, jump, bodies⟩ := switch_code carries
  rw [← code.here] at stop_here
  subst stop_here
  rw [Nat.add_assoc, ← Fragment.size_append, layoutBodies_switch,
    ← Clause.map_body_placement few] at stop_eq
  rw [layoutBodies_switch, ← Clause.map_body_placement few] at bodies
  have stands {before after : List (Clause × Nat)} {c : Clause} {entry : Nat}
      (split : Clause.entries scope start (Clause.placement clauses) =
        before ++ (c, entry) :: after) := Clause.code_of_entries bodies stop_eq split
  refine ⟨value, clauses, Clause.entries scope start (Clause.placement clauses), reads, rfl,
    Clause.map_fst_entries, fun last => ?_, ?_, fun _ _ _ _ split => stands split, ?_⟩
  · rw [Clause.map_fst_entries, Clause.placement_eq_self last]
  · intro before c entry after split H s s' run stack remembered
    obtain ⟨inside, next⟩ := stands split
    exact executes_simulates run program _ y entry inside stack remembered _ (by rw [← next]; rfl)
  · intro H s v s₁ chosen s₂ evaluated agreed
    obtain ⟨skipped, split, enters⟩ :=
      switch_enters evaluated agreed first compares check_eq discards jump
    have order : Clause.placement clauses =
        skipped.map .ofCase ++ (chosen.map .ofCase ++ clauses.filter (!·.isCase)) := by
      rw [Clause.placement, ← Clause.map_ofCase, split, List.map_append, List.append_assoc]
    rw [order, List.map_append, Clause.size_layoutAll_append, ← Nat.add_assoc] at stop_eq
    rw [order, Clause.entries_append]
    refine ⟨_, _, rfl, Clause.map_fst_entries, fun stack remembered => ?_⟩
    rw [Clause.onward_entries stop_eq, ← Clause.size_layoutBodies]
    exact enters stack remembered

end main

/-- The tokens of `switch x { default: y = 0; case 1: y = 1; }` behind its keyword. -/
def leadingDefault : Parse.Input where
  environment := {}
  tokens := #[⟨.identifier "x", ⟨none, 1, 8⟩⟩, ⟨.braceOpen, ⟨none, 1, 10⟩⟩,
    ⟨.keyword .defaultKw, ⟨none, 1, 12⟩⟩, ⟨.colon, ⟨none, 1, 19⟩⟩,
    ⟨.identifier "y", ⟨none, 1, 21⟩⟩, ⟨.set none, ⟨none, 1, 23⟩⟩, ⟨.number .zero, ⟨none, 1, 25⟩⟩,
    ⟨.semicolon, ⟨none, 1, 26⟩⟩, ⟨.keyword .caseKw, ⟨none, 1, 28⟩⟩, ⟨.number .one, ⟨none, 1, 33⟩⟩,
    ⟨.colon, ⟨none, 1, 34⟩⟩, ⟨.identifier "y", ⟨none, 1, 36⟩⟩, ⟨.set none, ⟨none, 1, 38⟩⟩,
    ⟨.number .one, ⟨none, 1, 40⟩⟩, ⟨.semicolon, ⟨none, 1, 41⟩⟩, ⟨.braceClose, ⟨none, 1, 43⟩⟩]
  eof := ⟨.eof, ⟨none, 2, 1⟩⟩

def clearsY : Node :=
  .block ⟨none, 1, 12⟩ [.assign ⟨none, 1, 21⟩ none (.identifier ⟨none, 1, 21⟩ "y")
    (.number ⟨none, 1, 25⟩ .zero)]

def setsY : Node :=
  .block ⟨none, 1, 28⟩ [.assign ⟨none, 1, 36⟩ none (.identifier ⟨none, 1, 36⟩ "y")
    (.number ⟨none, 1, 40⟩ .one)]

def leadingDefaultNode : Node :=
  .switch ⟨none, 1, 1⟩ .switch (.identifier ⟨none, 1, 8⟩ "x")
    [.mk (.number ⟨none, 1, 33⟩ .one) setsY] (some clearsY)

def leadingDefaultCode : List Instruction :=
  [.pushIdentifier "x", .pushNumber .one, .switchJump (.address 5), .discard, .jump (.address 7),
    .pushNumber .one, .setIdentifier "y", .pushNumber .zero, .setIdentifier "y"]

/-- The reader puts the default, which comes first in the text, behind the case. -/
theorem switch_leadingDefault :
    Parse.switch (Parse.statementAt 9) ⟨none, 1, 1⟩ .switch leadingDefault {} =
      .ok leadingDefaultNode { cursor := 16 } := by
  cbv

/-- So the code of the default is behind that of the case. -/
theorem emit_leadingDefault : ∃ g', emit leadingDefaultNode ⟨{}, []⟩ {} = .ok ⟨⟩ g' ∧
    g'.listing = leadingDefaultCode :=
  ⟨_, rfl, by cbv⟩

/-- The default clause comes first in the text. -/
theorem clauses_leadingDefault {value : Node} {clauses : List Clause} {state' : Parse.State}
    (reads : Parse.ReadsClauses (Parse.statementAt 9) ⟨none, 1, 1⟩ .switch leadingDefault {} value
      clauses state') :
    clauses = [.fallback clearsY, .case (.number ⟨none, 1, 33⟩ .one) setsY] := by
  obtain ⟨state₁, opening, state₂, first, brace, inside⟩ := reads
  have first' : Parse.expression true leadingDefault {} =
    .ok (.identifier ⟨none, 1, 8⟩ "x") { cursor := 1 } := by cbv
  obtain ⟨-, rfl⟩ := EStateM.Result.ok.inj (first'.symm.trans first)
  have brace' : Parse.expect .braceOpen leadingDefault { cursor := 1 } =
    .ok ⟨.braceOpen, ⟨none, 1, 10⟩⟩ { cursor := 2 } := by cbv
  obtain ⟨-, rfl⟩ := EStateM.Result.ok.inj (brace'.symm.trans brace)
  have inside' : Parse.inCases .switch (Parse.clausesFrom (Parse.statementAt 9) ⟨none, 1, 1⟩ 15
      false) leadingDefault { cursor := 2 } =
    .ok [.fallback clearsY, .case (.number ⟨none, 1, 33⟩ .one) setsY] { cursor := 16 } := by cbv
  exact (EStateM.Result.ok.inj (inside'.symm.trans inside)).1.symm

/-- The case stands before the default body and falls through into it. -/
theorem switch_falls_through_leadingDefault :
    ∃ g' placed, emit leadingDefaultNode ⟨{}, []⟩ {} = .ok ⟨⟩ g' ∧
      placed.map Prod.fst = [.case (.number ⟨none, 1, 33⟩ .one) setsY, .fallback clearsY] ∧
      FallsThrough g'.listing ⟨{}, []⟩ g'.here placed := by
  obtain ⟨g', generated, -⟩ := emit_leadingDefault
  obtain ⟨value, clauses, placed, reads, -, order, -, falls, -⟩ := switch_falls_through
    switch_leadingDefault (Generator.ready_empty _) generated (holds_listing {} g')
  rw [clauses_leadingDefault reads] at order
  exact ⟨g', placed, generated, order, falls⟩

/-- The machine is at or behind `first` and has nowhere to go back to. -/
def Machine.Past {H : Host} (first : Nat) : State H → Prop
  | .running address _ remembered _ => first ≤ address ∧ remembered = []
  | .returned .. => True

/-- There is no way back from the default body. -/
theorem step_past {H : Host} {state state' : State H} (past : Past 7 state)
    (h : step leadingDefaultCode state = some state') : Past 7 state' := by
  cases state with
  | returned => cases h
  | running address stack remembered s =>
      obtain ⟨behind, rfl⟩ := past
      obtain ⟨i, at_, performed⟩ := Option.bind_eq_some_iff.1 h
      cases state' with
      | returned => exact trivial
      | running address' stack' remembered' s' =>
          have straight : i.target? = none ∧ i ≠ .jumpPop := by
            have inside : address < 9 := (List.getElem?_eq_some_iff.1 at_).1
            have last : ∀ a < 9, 7 ≤ a →
              ∀ i ∈ leadingDefaultCode[a]?, i.target? = none ∧ i ≠ .jumpPop := by decide
            exact last address inside behind i at_
          obtain ⟨-, ⟨-, rfl, rfl, -⟩ | ⟨jump, -⟩ | ⟨pop, -⟩⟩ := perform_cases performed
          · exact ⟨Nat.le_succ_of_le behind, rfl⟩
          · rw [straight.1] at jump
            cases jump
          · exact absurd pop straight.2

/-- Where a case stands behind the default clause, the clauses do not follow each other as in the
text. -/
theorem not_falls_through_in_text_order :
    ¬ ∀ (nested : Parse Node) (l : Location) (input : Parse.Input)
      (state state' : Parse.State) (node : Node) (top scope : Scope) (g g' : Generator)
      (program : List Instruction) (x y : Option Nat),
      Parse.switch nested l .switch input state = .ok node state' →
      g.Ready top scope → emit node top g = .ok ⟨⟩ g' → Holds program x y g g' →
      ∃ value clauses placed,
        Parse.ReadsClauses nested l .switch input state value clauses state' ∧
        placed.map Prod.fst = clauses ∧
        (∀ c entry, (c, entry) ∈ placed →
          Carries program (some g'.here) y entry (layout c.body scope entry)) ∧
        FallsThrough program scope g'.here placed := by
  intro claim
  obtain ⟨g', generated, listing⟩ := emit_leadingDefault
  obtain ⟨value, clauses, placed, reads, order, stands, falls⟩ := claim _ _ _ _ _ _ _ _ _ g' _ _ _
    switch_leadingDefault (Generator.ready_empty _) generated (holds_listing {} g')
  rw [clauses_leadingDefault reads] at order
  rw [listing] at stands falls
  obtain ⟨⟨_, entry⟩, _, rfl, rfl, others⟩ := List.map_eq_cons_iff.1 order
  obtain ⟨⟨_, entry'⟩, _, rfl, rfl, none⟩ := List.map_eq_cons_iff.1 others
  obtain rfl := List.map_eq_nil_iff.1 none
  have clears : leadingDefaultCode[entry]? = some (.pushNumber .zero) :=
    stands _ entry List.mem_cons_self 0 (.pushNumber .zero) rfl
  have code := stands _ entry' (List.mem_cons_of_mem _ List.mem_cons_self)
  have sets : leadingDefaultCode[entry']? = some (.pushNumber .one) := code 0 (.pushNumber .one) rfl
  have sets' : leadingDefaultCode[entry' + 1]? = some (.setIdentifier "y") :=
    code 1 (.setIdentifier "y") rfl
  obtain rfl : entry = 7 := by
    have only : ∀ a < 9, leadingDefaultCode[a]? = some (.pushNumber .zero) → a = 7 := by decide
    exact only entry (List.getElem?_eq_some_iff.1 clears).1 clears
  obtain rfl : entry' = 5 := by
    have only : ∀ a < 9, leadingDefaultCode[a]? = some (.pushNumber .one) →
      leadingDefaultCode[a + 1]? = some (.setIdentifier "y") → a = 5 := by decide
    exact only entry' (List.getElem?_eq_some_iff.1 sets).1 sets sets'
  -- the default body runs to its end, so the run would have to come back to the case before it
  have ends : Executes .recorder ⟨{}, []⟩ (.one clearsY) [] .normal ["y"] :=
    .block (.cons (.assign rfl rfl rfl) .nil)
  have run := falls [] _ 7 _ rfl .recorder [] ["y"] ends [] []
  have past : 7 ≤ 5 :=
    (reaches_invariant (fun _ _ => step_past) run ⟨Nat.le_refl 7, rfl⟩).1
  exact absurd past (by decide)

end HostScript
