import HostScript.Proofs.Isolation
import HostScript.Proofs.Machine
import HostScript.Proofs.Occurrences

/-!
# HostScript.Proofs.Statements

The statements of a tree and where their code stands.  `Node.spots` lists a statement and all
statements in it, in the order of their code, each with the scope and the address that its place
gives it.  `Tracks ss base f` says that the fragment `f` at `base` is the code of the statements
`ss`: each has its code at its address, and the labels and the jumps to labels of the fragment are
those of the statements.
-/

namespace HostScript

/-! ## the statements of a tree -/

/-- A statement with the scope that it stands in and the address of its code. -/
structure Spot where
  node : Node
  scope : Scope
  address : Nat

/-- Whether a node declares a label or jumps to one. -/
def Occurrence.isMark (o : Occurrence) : Bool := o.label?.isSome || o.wanted?.isSome

namespace Spot

/-- The statement without its address. -/
def occurrence (s : Spot) : Occurrence := ⟨s.node, false, s.scope.parameters⟩

def layout (s : Spot) : Fragment := Generate.layout s.node s.scope s.address

/-- The address behind the code of the statement. -/
def stop (s : Spot) : Nat := s.address + s.layout.size

/-- The label that the statement declares, with its address. -/
def label? (s : Spot) : Option (String × Nat) := s.occurrence.label?.map (·, s.address)

/-- The label that the statement jumps to, with the address of the jump. -/
def wanted? (s : Spot) : Option (String × Nat) := s.occurrence.wanted?.map (·, s.address)

def definition? (s : Spot) : Option Definition :=
  match s.node with
  | .function location id name parameters body => some ⟨location, id, name, parameters, body⟩
  | _ => none

end Spot

mutual

/-- A statement whose code starts at `base`, and the statements in it. -/
def Node.spots (node : Node) (scope : Scope) (base : Nat) : List Spot :=
  ⟨node, scope, base⟩ :: match node with
    | .block _ statements => spotsOfAll statements scope base
    | .branch _ condition accepted otherwise =>
      let first := base + (Generate.layout condition scope base).size + 1
      let second := first + (Generate.layout accepted scope first).size + 1
      accepted.spots scope first ++ spotsOfOptional otherwise scope second
    | .switch _ kind value cases fallback =>
      let tests := base + (Generate.layout value scope base).size
      let bodies := tests + (Generate.layoutTests cases [] scope tests).size + 2
      let last := bodies + (Generate.layoutBodies cases kind scope bodies).size
      spotsOfCases cases kind scope bodies ++ spotsOfOptional fallback scope last
    | .whileLoop _ condition body =>
      body.spots scope (base + (Generate.layout condition scope base).size + 1)
    | .doLoop _ body _ => body.spots scope base
    | .forLoop _ init condition post body =>
      let check := base + (Generate.layout init scope base).size
      let start := check + (Generate.layout condition scope check).size + 1
      let step := start + (Generate.layout body scope start).size
      init.spots scope base ++ (body.spots scope start ++ post.spots scope step)
    | .label _ _ statement => statement.spots scope base
    | .directive _ _ code statements => spotsOfAll statements scope (base + code.length)
    | .function _ _ _ parameters body => body.spots { scope with parameters } (base + 1)
    | _ => []

def spotsOfAll : List Node → Scope → Nat → List Spot
  | [], _, _ => []
  | node :: nodes, scope, base =>
    node.spots scope base ++ spotsOfAll nodes scope (base + (Generate.layout node scope base).size)

def spotsOfOptional : Option Node → Scope → Nat → List Spot
  | none, _, _ => []
  | some node, scope, base => node.spots scope base

def spotsOfCases : List SwitchCase → SwitchKind → Scope → Nat → List Spot
  | [], _, _, _ => []
  | .mk _ body :: cases, kind, scope, base =>
    let first := Generate.layout body scope base ++
      .ofCode (if kind = .select then [.jump .breakPoint] else [])
    body.spots scope base ++ spotsOfCases cases kind scope (base + first.size)

end

namespace Definition

/-- The code of the body of a function whose own code starts at `address`. -/
def inner (d : Definition) (scope : Scope) (address : Nat) : Fragment :=
  Generate.layout d.body { scope with parameters := d.parameters } (address + 1)

/-- The statements in the body. -/
def spots (d : Definition) (scope : Scope) (address : Nat) : List Spot :=
  d.body.spots { scope with parameters := d.parameters } (address + 1)

end Definition

namespace Spot

/-- The statements in a statement, without itself. -/
def inner (s : Spot) : List Spot := (s.node.spots s.scope s.address).tail

/-- Of two statements, the second one is in the first one or has its code behind it. -/
def Precedes (s t : Spot) : Prop := t ∈ s.inner ∨ s.stop ≤ t.address

end Spot

/-! ## code without labels -/

namespace Fragment

/-- The fragment has nothing to do with labels. -/
structure Plain (f : Fragment) : Prop where
  labels : f.labels = []
  waiting : f.waiting = []

variable {a b : Fragment}

/-- Two fragments without labels have none together. -/
theorem Plain.append (first : a.Plain) (second : b.Plain) : (a ++ b).Plain where
  labels := by rw [labels_append, first.labels, second.labels, List.append_nil]
  waiting := by rw [waiting_append, first.waiting, second.waiting, List.append_nil]

theorem plain_ofCode (code : List Instruction) : (ofCode code).Plain := ⟨rfl, rfl⟩

theorem plain_one (i : Instruction) : (one i).Plain := ⟨rfl, rfl⟩

theorem plain_empty : ({} : Fragment).Plain := ⟨rfl, rfl⟩

/-- A jump around code is no jump to a label. -/
theorem Plain.jumpOver {make : JumpTarget → Instruction} {start : Nat} (h : a.Plain) :
    (jumpOver make start a).Plain :=
  (plain_one _).append h

end Fragment

namespace Generate

open Fragment

mutual

/-- Expressions have nothing to do with labels. -/
theorem plain_expression (scope : Scope) : (node : Node) → IsExpression node → (base : Nat) →
    (layout node scope base).Plain
  | .null _, _, _ | .number .., _, _ | .string .., _, _ | .identifier .., _, _ => ⟨rfl, rfl⟩
  | .chain _ current remaining, h, base =>
      (plain_expression scope current h.1 base).append (plain_links scope remaining h.2 _)
  | .call _ _ arguments, h, base | .staticCall _ _ _ arguments, h, base =>
      (plain_expressions scope arguments h base).append (plain_one _)
  | .unary _ _ operand, h, base => (plain_expression scope operand h base).append (plain_one _)
  | .binary _ op left right, h, base => by
      have first := plain_expression scope left h.1 base
      have second (start : Nat) := plain_expression scope right h.2 start
      cases op with
      | and | or => exact first.append (second _).jumpOver
      | _ => exact (first.append (second _)).append (plain_one _)
  | .adjust _ kind target direction, h, base =>
      (plain_current scope target h.2 base).append (plain_ofCode _)

theorem plain_expressions (scope : Scope) : (nodes : List Node) → AreExpressions nodes →
    (base : Nat) → (layoutAll nodes scope base).Plain
  | [], _, _ => plain_empty
  | node :: nodes, h, base =>
      (plain_expression scope node h.1 base).append (plain_expressions scope nodes h.2 _)

theorem plain_link (scope : Scope) : (node : Node) → IsLink node → (base : Nat) →
    (layoutLink node scope base).Plain
  | .identifier .., _, _ => plain_one _
  | .call _ _ arguments, h, base =>
      (plain_expressions scope arguments h base).append (plain_one _)

theorem plain_links (scope : Scope) : (node : Node) → AreLinks node → (base : Nat) →
    (layoutLinks node scope base).Plain
  | .chain _ current remaining, h, base =>
      (plain_link scope current h.1 base).append (plain_links scope remaining h.2 _)
  | .identifier .., _, _ => plain_one _
  | .call _ _ arguments, h, base =>
      (plain_expressions scope arguments h base).append (plain_one _)

theorem plain_receiver (scope : Scope) : (node : Node) → AreLinks node → (base : Nat) →
    (layoutReceiver node scope base).Plain
  | .chain _ current remaining, h, base =>
      (plain_link scope current h.1 base).append (plain_receiver scope remaining h.2 _)
  | .identifier .., _, _ | .call .., _, _ => plain_empty

theorem plain_current (scope : Scope) : (target : Node) → IsExpression target → (base : Nat) →
    (layoutCurrent target scope base).Plain
  | .chain _ current remaining, h, base =>
      ((plain_expression scope current h.1 base).append
        (plain_receiver scope remaining h.2 _)).append (plain_ofCode _)
  | .identifier .., _, _ => plain_ofCode _
  | .null _, _, _ | .number .., _, _ | .string .., _, _ | .call .., _, _ | .staticCall .., _, _
  | .unary .., _, _ | .binary .., _, _ | .adjust .., _, _ => plain_one _

end

theorem plain_target (scope : Scope) {target : Node} (h : IsExpression target) (base : Nat) :
    (layoutTarget target scope base).Plain := by
  cases target with
  | chain _ current remaining =>
      exact (plain_expression scope current h.1 base).append (plain_receiver scope remaining h.2 _)
  | _ => exact plain_empty

/-- The comparisons of a switch jump to bodies and not to labels. -/
theorem plain_tests {n : Nat} {inner : Allowed} (scope : Scope) (cases : List SwitchCase)
    (h : AreCases n inner cases) (targets : List Nat) (base : Nat) :
    (layoutTests cases targets scope base).Plain := by
  induction cases generalizing targets base with
  | nil => exact plain_empty
  | cons case cases ih =>
      obtain ⟨value, body⟩ := case
      exact ((plain_expression scope value h.1 base).append (plain_one _)).append (ih h.2.2 _ _)

end Generate

/-! ## statements in their places -/

/-- The statement has its code in the fragment `f` at `base`, with the breaks and continues as the
loops and switches around it leave them.  If it is a function, the fragment has its place, and the
labels of its body are around that body. -/
structure Spot.Stands (s : Spot) (base : Nat) (f : Fragment) : Prop where
  code : ∃ x y, f.Contains base s.address (s.layout.retarget x y).code
  placed : ∀ d ∈ s.definition?, ⟨d.id, s.address + 1,
    s.address + ((d.inner s.scope s.address).closed (s.address + 1)).size⟩ ∈ f.placements
  labels : ∀ d ∈ s.definition?, ∀ t ∈ d.spots s.scope s.address, ∀ label ∈ t.label?,
    label ∈ (d.inner s.scope s.address).labels ∧ s.address + 1 ≤ label.2 ∧
      label.2 ≤ s.address + 1 + (d.inner s.scope s.address).size

namespace Spot.Stands

variable {s : Spot} {base : Nat} {a b f : Fragment}

/-- A statement of the first part is one of the whole. -/
theorem append_left (h : s.Stands base a) : s.Stands base (a ++ b) where
  code := by
    obtain ⟨x, y, contains⟩ := h.code
    exact ⟨x, y, contains.append_left⟩
  placed d defines := List.mem_append_left _ (h.placed d defines)
  labels := h.labels

/-- A statement of the second part is one of the whole. -/
theorem append_right (h : s.Stands (base + a.size) b) : s.Stands base (a ++ b) where
  code := by
    obtain ⟨x, y, contains⟩ := h.code
    exact ⟨x, y, contains.append_right⟩
  placed d defines := List.mem_append_right _ (h.placed d defines)
  labels := h.labels

/-- A loop around a statement settles its exits. -/
theorem retarget {u v : Option Nat} (h : s.Stands base f) : s.Stands base (f.retarget u v) where
  code := by
    obtain ⟨x, y, before, after, shape, there⟩ := h.code
    refine ⟨x.or u, y.or v, before.map (·.mapTarget (Code.retarget u v)),
      after.map (·.mapTarget (Code.retarget u v)), ?_, by rw [List.length_map, there]⟩
    simp [Fragment.retarget, shape, Instruction.mapTarget_mapTarget,
      Machine.retarget_comp_retarget]
  placed := h.placed
  labels := h.labels

/-- The code of the statement is inside the fragment. -/
theorem inside (h : s.Stands base f) : base ≤ s.address ∧ s.stop ≤ base + f.size := by
  obtain ⟨x, y, before, after, shape, there⟩ := h.code
  have size : f.size = before.length + s.layout.size + after.length := by
    rw [Fragment.size, shape, List.length_append, List.length_append, ← Fragment.size,
      Fragment.size_retarget]
  rw [Spot.stop]
  omega

end Spot.Stands

/-- The code of a statement contains itself. -/
theorem Spot.contains_layout (s : Spot) :
    ∃ x y, s.layout.Contains s.address s.address (s.layout.retarget x y).code := by
  refine ⟨none, none, [], [], ?_, rfl⟩
  simp [Fragment.retarget, Machine.mapTarget_retarget_none]

/-- A statement that defines no function, by itself. -/
theorem Spot.Stands.alone (s : Spot) (plain : s.definition? = none) :
    s.Stands s.address s.layout where
  code := s.contains_layout
  placed := by simp [plain]
  labels := by simp [plain]

/-- Code with a label at its end is closed by a return. -/
theorem Fragment.closed_of_label {f : Fragment} {base : Nat} {label : String × Nat}
    (declared : label ∈ f.labels) (last : label.2 = base + f.size) :
    f.closed base = f ++ ofCode [.pushNull, .ret] := by
  have falls : f.fallsOff base = true := by
    simp only [fallsOff, Bool.or_eq_true, List.any_eq_true]
    exact .inr ⟨label, declared, by simp [last]⟩
  rw [closed, if_pos falls]

/-- Behind a label at the end of a function there is at least its return. -/
theorem Fragment.lt_closed_of_label {f : Fragment} {base : Nat} {label : String × Nat}
    (declared : label ∈ f.labels) (le : label.2 ≤ base + f.size) :
    label.2 < base + (f.closed base).size := by
  by_cases last : label.2 = base + f.size
  · rw [closed_of_label declared last, size_append, last]
    exact Nat.add_lt_add_left (Nat.lt_add_of_pos_right Nat.two_pos) _
  · have more := f.size_le_closed base
    omega

/-- The fragment at `base` is the code of these statements, in this order. -/
structure Tracks (ss : List Spot) (base : Nat) (f : Fragment) : Prop where
  labels : f.labels = ss.filterMap (·.label?)
  waiting : f.waiting = ss.filterMap (·.wanted?)
  stands : ∀ s ∈ ss, s.Stands base f
  precedes : ss.Pairwise Spot.Precedes

namespace Tracks

variable {ss ss' : List Spot} {base : Nat} {a b f : Fragment}

/-- Code without labels has no statements to track. -/
theorem silent (h : f.Plain) : Tracks [] base f where
  labels := h.labels
  waiting := h.waiting
  stands := nofun
  precedes := .nil

/-- Two fragments have the statements of both. -/
theorem append {mid : Nat} (first : Tracks ss base a) (second : Tracks ss' mid b)
    (at_ : mid = base + a.size) : Tracks (ss ++ ss') base (a ++ b) where
  labels := by rw [Fragment.labels_append, first.labels, second.labels, List.filterMap_append]
  waiting := by rw [Fragment.waiting_append, first.waiting, second.waiting, List.filterMap_append]
  stands := by
    subst at_
    exact List.forall_mem_append.2 ⟨fun s found => (first.stands s found).append_left,
      fun s found => (second.stands s found).append_right⟩
  precedes := by
    refine List.pairwise_append.2 ⟨first.precedes, second.precedes, fun s found t found' => ?_⟩
    have before := (first.stands s found).inside
    have behind := (second.stands t found').inside
    exact .inr (by omega)

/-- Labels are in the fragment or right behind it. -/
theorem bounds (h : Tracks ss base f) {label : String × Nat} (declared : label ∈ f.labels) :
    base ≤ label.2 ∧ label.2 ≤ base + f.size := by
  rw [h.labels] at declared
  obtain ⟨s, found, declares⟩ := List.mem_filterMap.1 declared
  obtain ⟨name, -, rfl⟩ := Option.map_eq_some_iff.1 declares
  have inside := (h.stands s found).inside
  exact ⟨inside.1, Nat.le_trans (Nat.le_add_right _ _) inside.2⟩

/-- Code without labels may follow. -/
theorem appendPlain (h : Tracks ss base a) (other : b.Plain) : Tracks ss base (a ++ b) := by
  have both := h.append (silent other : Tracks [] _ b) rfl
  rwa [List.append_nil] at both

/-- Code without labels may come before. -/
theorem afterPlain {mid : Nat} (h : Tracks ss mid b) (other : a.Plain)
    (at_ : mid = base + a.size) : Tracks ss base (a ++ b) :=
  (silent other : Tracks [] base a).append h at_

/-- A loop around statements leaves them at their addresses. -/
theorem retarget {u v : Option Nat} (h : Tracks ss base f) : Tracks ss base (f.retarget u v) where
  labels := h.labels
  waiting := h.waiting
  stands s found := (h.stands s found).retarget
  precedes := h.precedes

theorem jumpOver {make : JumpTarget → Instruction} (h : Tracks ss (base + 1) f) :
    Tracks ss base (.jumpOver make base f) :=
  h.afterPlain (Fragment.plain_one _) rfl

/-- A return behind the code is no statement. -/
theorem closed (h : Tracks ss base f) : Tracks ss base (f.closed base) := by
  unfold Fragment.closed
  split
  · exact h.appendPlain (Fragment.plain_ofCode _)
  · exact h

/-- A statement precedes those in it. -/
theorem precedes_cons {s : Spot} (inner : ss.Pairwise Spot.Precedes)
    (whole : s.node.spots s.scope s.address = s :: ss) : (s :: ss).Pairwise Spot.Precedes := by
  refine List.pairwise_cons.2 ⟨fun t found => .inl ?_, inner⟩
  rwa [Spot.inner, whole]

/-- A statement in front of those in it. -/
theorem own {s : Spot} (h : Tracks ss s.address s.layout) (quiet : s.occurrence.isMark = false)
    (plain : s.definition? = none) (whole : s.node.spots s.scope s.address = s :: ss) :
    Tracks (s :: ss) s.address s.layout := by
  obtain ⟨label, wanted⟩ : s.label? = none ∧ s.wanted? = none := by
    simpa [Occurrence.isMark, Spot.label?, Spot.wanted?] using quiet
  exact {
    labels := by rw [h.labels, List.filterMap_cons_none label]
    waiting := by rw [h.waiting, List.filterMap_cons_none wanted]
    stands := List.forall_mem_cons.2 ⟨.alone s plain, h.stands⟩
    precedes := precedes_cons h.precedes whole }

/-- A label in front of its statement. -/
theorem label {l : Location} {name : String} {statement : Node} {scope : Scope}
    (h : Tracks (statement.spots scope base) base (Generate.layout statement scope base)) :
    Tracks ((Node.label l name statement).spots scope base) base
      (Generate.layout (.label l name statement) scope base) where
  labels := congrArg ((name, base) :: ·) h.labels
  waiting := h.waiting
  stands := List.forall_mem_cons.2 ⟨.alone ⟨.label l name statement, scope, base⟩ rfl,
    fun s found => (h.stands s found).append_right⟩
  precedes := precedes_cons h.precedes rfl

/-- A jump that waits for a label. -/
theorem await {s : Spot} {name : String} {i : Instruction}
    (wanted : s.wanted? = some (name, s.address)) (label : s.label? = none)
    (plain : s.definition? = none)
    (shape : s.layout = { code := [i], waiting := [(name, s.address)] }) :
    Tracks [s] s.address s.layout where
  labels := by simp [shape, label]
  waiting := by simp [shape, wanted]
  stands := List.forall_mem_cons.2 ⟨.alone s plain, nofun⟩
  precedes := List.pairwise_singleton _ _

/-- A function in front of the statements of its body. -/
theorem function {l : Location} {id : Nat} {name : String} {parameters : List String} {body : Node}
    {scope : Scope}
    (h : Tracks (body.spots { scope with parameters } (base + 1)) (base + 1)
      (Generate.layout body { scope with parameters } (base + 1))) :
    Tracks ((Node.function l id name parameters body).spots scope base) base
      (Generate.layout (.function l id name parameters body) scope base) := by
  have all : Tracks _ base (Generate.layout (.function l id name parameters body) scope base) :=
    h.closed.jumpOver.appendPlain ⟨rfl, rfl⟩
  exact {
    labels := all.labels
    waiting := all.waiting
    stands := List.forall_mem_cons.2 ⟨{
      code := Spot.contains_layout ⟨.function l id name parameters body, scope, base⟩
      placed := by
        rintro d ⟨⟩
        exact List.mem_append_right _ (List.mem_singleton.2 rfl)
      labels := by
        rintro d ⟨⟩ t inside m declares
        have declared := List.mem_filterMap.2 ⟨t, inside, declares⟩
        rw [Definition.spots, ← h.labels] at declared
        exact ⟨declared, h.bounds declared⟩ }, all.stands⟩
    precedes := precedes_cons all.precedes rfl }

end Tracks

namespace Generate

open Fragment

mutual

/-- The code of a statement is that of the statements in it, each in its place. -/
theorem tracks_statement {n : Nat} {allowed : Allowed} : (node : Node) → (scope : Scope) →
    IsStatement n allowed node → (base : Nat) →
    Tracks (node.spots scope base) base (layout node scope base)
  | .block _ statements, scope, h, base =>
      (tracks_statements statements scope h base).own rfl rfl rfl
  | .returns _ none, _, _, _ => (Tracks.silent (plain_ofCode _)).own rfl rfl rfl
  | .returns _ (some value), scope, h, base | .discard _ value, scope, h, base =>
      (Tracks.silent ((plain_expression scope value h base).append (plain_one _))).own rfl rfl rfl
  | .branch _ condition accepted none, scope, h, base => by
      simp only [Node.spots, spotsOfOptional, List.append_nil]
      refine .own ?_ rfl rfl (by simp only [Node.spots, spotsOfOptional, List.append_nil])
      exact (tracks_statement accepted scope h.2.1 _).jumpOver.afterPlain
        (plain_expression scope condition h.1 base) rfl
  | .branch _ condition accepted (some otherwise), scope, h, base => by
      refine .own ?_ rfl rfl rfl
      refine .append ?_ (tracks_statement otherwise scope h.2.2 _).jumpOver
        (by simp [Nat.add_assoc])
      exact (tracks_statement accepted scope h.2.1 _).afterPlain
        ((plain_expression scope condition h.1 base).append (plain_one _)) (by simp [Nat.add_assoc])
  | .switch _ kind value cases fallback, scope, h, base => by
      refine .own ?_ rfl rfl rfl
      refine .afterPlain (.retarget (.append (tracks_cases cases kind scope h.2.1 _)
        (tracks_optional fallback scope h.2.2 _) rfl)) ?_
        (by simp [size_layoutTests, Nat.add_assoc])
      exact ((plain_expression scope value h.1 base).append
        (plain_tests scope cases h.2.1 _ _)).append (plain_ofCode _)
  | .assign _ none target value, scope, h, base =>
      (Tracks.silent (((plain_target scope h.1 base).append
        (plain_expression scope value h.2 _)).append (plain_one _))).own rfl rfl rfl
  | .assign _ (some op) target value, scope, h, base =>
      (Tracks.silent (((plain_current scope target h.1 base).append
        (plain_expression scope value h.2 _)).append (plain_ofCode _))).own rfl rfl rfl
  | .adjust _ kind target direction, scope, h, base =>
      (Tracks.silent ((plain_current scope target h.2 base).append (plain_ofCode _))).own
        rfl rfl rfl
  | .whileLoop _ condition body, scope, h, base => by
      refine .own ?_ rfl rfl rfl
      refine .afterPlain (.jumpOver (.retarget ?_)) (plain_expression scope condition h.1 base) rfl
      exact (tracks_statement body scope h.2 _).appendPlain (plain_one _)
  | .doLoop _ body condition, scope, h, base => by
      refine .own ?_ rfl rfl rfl
      refine .appendPlain (.appendPlain (.retarget ?_) (plain_expression scope condition h.2 _))
        (plain_one _)
      exact tracks_statement body scope h.1 base
  | .forLoop _ init condition post body, scope, h, base => by
      refine .own ?_ rfl rfl rfl
      refine .append (.appendPlain (tracks_statement init scope h.1 base)
        (plain_expression scope condition h.2.1 _)) (.jumpOver (.retarget ?_))
        (by simp [Nat.add_assoc])
      exact ((tracks_statement body scope h.2.2.2 _).append
        (tracks_statement post scope h.2.2.1 _) rfl).appendPlain (plain_one _)
  | .leave _, _, _, _ | .proceed _, _, _, _ | .back _, _, _, _ =>
      (Tracks.silent (plain_one _)).own rfl rfl rfl
  | .label _ _ statement, scope, h, base => (tracks_statement statement scope h base).label
  | .jump .., _, _, _ | .callLabel .., _, _, _ => .await rfl rfl rfl rfl
  | .directive .., _, ⟨rfl, rfl⟩, _ => (Tracks.silent plain_empty).own rfl rfl rfl
  | .function _ _ _ parameters body, scope, h, base =>
      (tracks_statement body { scope with parameters } h.2 (base + 1)).function

theorem tracks_statements {n : Nat} {allowed : Allowed} : (nodes : List Node) → (scope : Scope) →
    AreStatements n allowed nodes → (base : Nat) →
    Tracks (spotsOfAll nodes scope base) base (layoutAll nodes scope base)
  | [], _, _, _ => .silent plain_empty
  | node :: nodes, scope, h, base =>
      (tracks_statement node scope h.1 base).append (tracks_statements nodes scope h.2 _) rfl

theorem tracks_optional {n : Nat} {allowed : Allowed} : (node : Option Node) → (scope : Scope) →
    IsOptional n allowed node → (base : Nat) →
    Tracks (spotsOfOptional node scope base) base (layoutOptional node scope base)
  | none, _, _, _ => .silent plain_empty
  | some node, scope, h, base => tracks_statement node scope h base

theorem tracks_cases {n : Nat} {inner : Allowed} : (cases : List SwitchCase) →
    (kind : SwitchKind) → (scope : Scope) → AreCases n inner cases → (base : Nat) →
    Tracks (spotsOfCases cases kind scope base) base (layoutBodies cases kind scope base)
  | [], _, _, _, _ => .silent plain_empty
  | .mk _ body :: cases, kind, scope, h, base =>
      ((tracks_statement body scope h.2.1 base).appendPlain (plain_ofCode _)).append
        (tracks_cases cases kind scope h.2.2 _) rfl

end

end Generate

/-! ## no label and no function is left out -/

/-- The nodes that declare a label or jump to one. -/
def marksOf (os : List Occurrence) : List Occurrence := os.filter (·.isMark)

section marks

variable {os os' : List Occurrence}

/-- The marks of two lists are those of both. -/
theorem marksOf_append : marksOf (os ++ os') = marksOf os ++ marksOf os' := List.filter_append ..

/-- Two lists without marks have none together. -/
theorem marksOf_append_eq_nil (first : marksOf os = []) (second : marksOf os' = []) :
    marksOf (os ++ os') = [] := by
  rw [marksOf_append, first, second, List.append_nil]

/-- One more occurrence is a mark or none. -/
theorem marksOf_cons_congr (o : Occurrence) (same : marksOf os = marksOf os') :
    marksOf (o :: os) = marksOf (o :: os') := by
  unfold marksOf at same ⊢
  rw [List.filter_cons, List.filter_cons, same]

/-- Only marks declare labels. -/
theorem labelsOf_marksOf (os : List Occurrence) : labelsOf (marksOf os) = labelsOf os := by
  rw [labelsOf, labelsOf, marksOf, List.filterMap_filter]
  congr 1
  funext o
  cases declares : o.label? with
  | none => simp
  | some => simp [Occurrence.isMark, declares]

end marks

mutual

/-- Expressions have no statements in them. -/
theorem marks_expression (parameters : List String) : (node : Node) → IsExpression node →
    marksOf (node.occurrences parameters) = []
  | .null _, _ | .number .., _ | .string .., _ | .identifier .., _ => rfl
  | .chain _ current remaining, h =>
      marksOf_append_eq_nil (marks_expression parameters current h.1)
        (marks_links parameters remaining h.2)
  | .call _ _ arguments, h | .staticCall _ _ _ arguments, h =>
      marks_expressions parameters arguments h
  | .unary _ _ operand, h => marks_expression parameters operand h
  | .binary _ _ left right, h =>
      marksOf_append_eq_nil (marks_expression parameters left h.1)
        (marks_expression parameters right h.2)
  | .adjust _ _ target _, h => marks_expression parameters target h.2

/-- Expressions in a list have no marks. -/
theorem marks_expressions (parameters : List String) : (nodes : List Node) → AreExpressions nodes →
    marksOf (occurrencesOfAll parameters nodes) = []
  | [], _ => rfl
  | node :: nodes, h =>
      marksOf_append_eq_nil (marks_expression parameters node h.1)
        (marks_expressions parameters nodes h.2)

theorem marks_link (parameters : List String) : (node : Node) → IsLink node →
    marksOf (node.occurrencesOfLink parameters) = []
  | .identifier .., _ => rfl
  | .call _ _ arguments, h => marks_expressions parameters arguments h

/-- The links of a chain have no marks. -/
theorem marks_links (parameters : List String) : (node : Node) → AreLinks node →
    marksOf (node.occurrencesOfLinks parameters) = []
  | .chain _ current remaining, h =>
      marksOf_append_eq_nil (marks_link parameters current h.1)
        (marks_links parameters remaining h.2)
  | .identifier .., _ => rfl
  | .call _ _ arguments, h => marks_expressions parameters arguments h

end

/-- Case values have no marks. -/
theorem marks_values {n : Nat} {inner : Allowed} (parameters : List String)
    (cases : List SwitchCase) (h : AreCases n inner cases) :
    marksOf (occurrencesOfValues parameters cases) = [] := by
  induction cases with
  | nil => rfl
  | cons case cases ih =>
      obtain ⟨value, body⟩ := case
      exact marksOf_append_eq_nil (marks_expression parameters value h.1) (ih h.2.2)

mutual

/-- The labels of a tree and the jumps to them are among its statements. -/
theorem marks_spots {n : Nat} {allowed : Allowed} : (node : Node) → (scope : Scope) →
    IsStatement n allowed node → (base : Nat) →
    marksOf ((node.spots scope base).map (·.occurrence)) =
      marksOf (node.occurrences scope.parameters)
  | .block _ statements, scope, h, base =>
      marksOf_cons_congr _ (marks_spotsOfAll statements scope h base)
  | .returns _ none, _, _, _ => rfl
  | .returns _ (some value), scope, h, _ | .discard _ value, scope, h, _ =>
      marksOf_cons_congr _ (marks_expression scope.parameters value h).symm
  | .branch _ condition accepted otherwise, scope, h, base => by
      refine marksOf_cons_congr _ ?_
      simp only [List.map_append, marksOf_append, marks_expression _ condition h.1,
        marks_spots accepted scope h.2.1, marks_spotsOfOptional otherwise scope h.2.2,
        List.nil_append]
  | .switch _ kind value cases fallback, scope, h, base => by
      refine marksOf_cons_congr _ ?_
      simp only [List.map_append, marksOf_append, marks_expression _ value h.1,
        marks_values _ cases h.2.1, marks_spotsOfCases cases kind scope h.2.1,
        marks_spotsOfOptional fallback scope h.2.2, List.nil_append]
  | .assign _ none target value, scope, h, _ | .assign _ (some _) target value, scope, h, _ =>
      marksOf_cons_congr _ (marksOf_append_eq_nil (marks_expression scope.parameters target h.1)
        (marks_expression scope.parameters value h.2)).symm
  | .adjust _ _ target _, scope, h, _ =>
      marksOf_cons_congr _ (marks_expression scope.parameters target h.2).symm
  | .whileLoop _ condition body, scope, h, base => by
      refine marksOf_cons_congr _ ?_
      simp only [marksOf_append, marks_expression _ condition h.1, marks_spots body scope h.2,
        List.nil_append]
  | .doLoop _ body condition, scope, h, base => by
      refine marksOf_cons_congr _ ?_
      simp only [marksOf_append, marks_expression _ condition h.2, marks_spots body scope h.1,
        List.append_nil]
  | .forLoop _ init condition post body, scope, h, base => by
      refine marksOf_cons_congr _ ?_
      simp only [List.map_append, marksOf_append, marks_spots init scope h.1,
        marks_expression _ condition h.2.1, marks_spots post scope h.2.2.1,
        marks_spots body scope h.2.2.2, List.nil_append, List.append_assoc]
  | .leave _, _, _, _ | .proceed _, _, _, _ | .jump .., _, _, _ | .callLabel .., _, _, _
  | .back _, _, _, _ | .directive .., _, ⟨rfl, rfl⟩, _ => rfl
  | .label _ _ statement, scope, h, base =>
      marksOf_cons_congr _ (marks_spots statement scope h base)
  | .function _ _ _ parameters body, scope, h, base =>
      marksOf_cons_congr _ (marks_spots body { scope with parameters } h.2 (base + 1))

/-- The marks of a list of statements are those of its spots. -/
theorem marks_spotsOfAll {n : Nat} {allowed : Allowed} : (nodes : List Node) → (scope : Scope) →
    AreStatements n allowed nodes → (base : Nat) →
    marksOf ((spotsOfAll nodes scope base).map (·.occurrence)) =
      marksOf (occurrencesOfAll scope.parameters nodes)
  | [], _, _, _ => rfl
  | node :: nodes, scope, h, base => by
      rw [spotsOfAll, List.map_append, marksOf_append, occurrencesOfAll, marksOf_append,
        marks_spots node scope h.1, marks_spotsOfAll nodes scope h.2]

theorem marks_spotsOfOptional {n : Nat} {allowed : Allowed} : (node : Option Node) →
    (scope : Scope) → IsOptional n allowed node → (base : Nat) →
    marksOf ((spotsOfOptional node scope base).map (·.occurrence)) =
      marksOf (occurrencesOfOptional scope.parameters node)
  | none, _, _, _ => rfl
  | some node, scope, h, base => marks_spots node scope h base

/-- The marks of the bodies are those of their spots. -/
theorem marks_spotsOfCases {n : Nat} {inner : Allowed} : (cases : List SwitchCase) →
    (kind : SwitchKind) → (scope : Scope) → AreCases n inner cases → (base : Nat) →
    marksOf ((spotsOfCases cases kind scope base).map (·.occurrence)) =
      marksOf (occurrencesOfBodies scope.parameters cases)
  | [], _, _, _, _ => rfl
  | .mk _ body :: cases, kind, scope, h, base => by
      rw [spotsOfCases, List.map_append, marksOf_append, occurrencesOfBodies, marksOf_append,
        marks_spots body scope h.2.1, marks_spotsOfCases cases kind scope h.2.2]

end

/-- The definitions of two lists are those of their spots. -/
theorem perm_definitions_append {ds ds' : List Definition} {ss ss' : List Spot}
    (first : ds.Perm (ss.filterMap (·.definition?)))
    (second : ds'.Perm (ss'.filterMap (·.definition?))) :
    (ds ++ ds').Perm ((ss ++ ss').filterMap (·.definition?)) := by
  rw [List.filterMap_append]
  exact first.append second

mutual

/-- The functions of a tree are among its statements. -/
theorem definitions_perm_spots : (node : Node) → (scope : Scope) → (base : Nat) →
    node.definitions.Perm ((node.spots scope base).filterMap (·.definition?))
  | .block _ statements, scope, base | .directive _ _ _ statements, scope, base =>
      definitionsOf_perm_spots statements scope _
  | .branch _ _ accepted otherwise, scope, base =>
      perm_definitions_append (definitions_perm_spots accepted scope _)
        (definitionsOfOptional_perm_spots otherwise scope _)
  | .switch _ kind _ cases fallback, scope, base =>
      perm_definitions_append (definitionsOfCases_perm_spots cases kind scope _)
        (definitionsOfOptional_perm_spots fallback scope _)
  | .whileLoop _ _ body, scope, base => definitions_perm_spots body scope _
  | .doLoop _ body _, scope, base => definitions_perm_spots body scope base
  | .label _ _ statement, scope, base => definitions_perm_spots statement scope base
  | .forLoop _ init _ post body, scope, base => by
      rw [Node.definitions, List.append_assoc]
      -- The code of the body comes before the code that takes to the next turn.
      exact perm_definitions_append (definitions_perm_spots init scope _)
        (List.perm_append_comm.trans (perm_definitions_append
          (definitions_perm_spots body scope _) (definitions_perm_spots post scope _)))
  | .function _ _ _ parameters body, scope, base =>
      (List.perm_append_singleton _ _).trans
        ((definitions_perm_spots body { scope with parameters } (base + 1)).cons _)
  | .null .., _, _ | .number .., _, _ | .string .., _, _ | .identifier .., _, _ | .chain .., _, _
  | .call .., _, _ | .staticCall .., _, _ | .unary .., _, _ | .binary .., _, _ | .assign .., _, _
  | .adjust .., _, _ | .returns .., _, _ | .discard .., _, _ | .leave .., _, _ | .proceed .., _, _
  | .jump .., _, _ | .callLabel .., _, _ | .back .., _, _ => .refl _

/-- The definitions of a list of statements are those of its spots. -/
theorem definitionsOf_perm_spots : (nodes : List Node) → (scope : Scope) → (base : Nat) →
    (definitionsOf nodes).Perm ((spotsOfAll nodes scope base).filterMap (·.definition?))
  | [], _, _ => .refl _
  | node :: nodes, scope, base =>
      perm_definitions_append (definitions_perm_spots node scope base)
        (definitionsOf_perm_spots nodes scope _)

theorem definitionsOfOptional_perm_spots : (node : Option Node) → (scope : Scope) → (base : Nat) →
    (definitionsOfOptional node).Perm ((spotsOfOptional node scope base).filterMap (·.definition?))
  | none, _, _ => .refl _
  | some node, scope, base => definitions_perm_spots node scope base

/-- The definitions of the bodies are those of their spots. -/
theorem definitionsOfCases_perm_spots : (cases : List SwitchCase) → (kind : SwitchKind) →
    (scope : Scope) → (base : Nat) →
    (definitionsOfCases cases).Perm ((spotsOfCases cases kind scope base).filterMap (·.definition?))
  | [], _, _, _ => .refl _
  | .mk _ body :: cases, kind, scope, base =>
      perm_definitions_append (definitions_perm_spots body scope base)
        (definitionsOfCases_perm_spots cases kind scope _)

end

end HostScript
