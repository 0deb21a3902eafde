import HostScript.Proofs.Isolation
import HostScript.Proofs.Occurrences
import Mathlib.Data.List.Nodup

/-!
# HostScript.Proofs.Accesses

Where the code of a script reads and stores variables.  `Node.accesses` lists what a tree reads and
stores, each time with the parameters that are in scope there, in the order in which the code does
it.  `Node.sites` lists the same with addresses: a read is where the code of its name is, and a
store is the last instruction of its statement.

`Scoped env outer ds sites base f` says of a fragment with the functions `ds` that it has the code
of the accesses at these sites, one behind the other, that nothing else in it touches a variable,
and that at each site the innermost function of the fragment has the parameters of the access, or
there is no function around it and these are `outer`.

Breaks and continues of a system macro are settled by the loop around its read, like all others;
nothing else of an expansion is ever changed.
-/

namespace HostScript

/-- A read or a store of a variable. -/
structure Access where
  name : String
  /-- The parameters of the function around it, or the arguments of the script itself. -/
  parameters : List String
  stores : Bool
deriving DecidableEq, Repr

/-- The instructions that an access turns into. -/
def Access.code (env : Environment) (a : Access) : List Instruction :=
  if a.stores then [.setIdentifier a.name] else Generate.readCode ⟨env, a.parameters⟩ a.name

/-- Only variables are stored into: names with another meaning are read-only. -/
def Access.Permitted (env : Environment) (a : Access) : Prop :=
  a.stores = true →
    env.constant? a.name = none ∧ env.systemMacro? a.name = none ∧ a.name ∉ a.parameters

/-! ## accesses of a tree -/

/-- The variable that a target stores into.  The last link of a chain is a field. -/
def Node.stored (parameters : List String) : Node → List Access
  | .identifier _ name => [⟨name, parameters, true⟩]
  | _ => []

mutual

/-- What a node reads and stores. -/
def Node.accesses (parameters : List String) : Node → List Access
  | .identifier _ name => [⟨name, parameters, false⟩]
  | .chain _ current remaining =>
    current.accesses parameters ++ remaining.accessesOfLinks parameters
  | .call _ _ arguments => accessesOfAll parameters arguments
  | .staticCall _ _ _ arguments => accessesOfAll parameters arguments
  | .unary _ _ operand => operand.accesses parameters
  | .binary _ _ left right => left.accesses parameters ++ right.accesses parameters
  | .block _ statements => accessesOfAll parameters statements
  | .returns _ value => accessesOfOptional parameters value
  | .discard _ value => value.accesses parameters
  | .branch _ condition accepted otherwise =>
    condition.accesses parameters ++ accepted.accesses parameters ++
      accessesOfOptional parameters otherwise
  | .switch _ _ value cases fallback =>
    value.accesses parameters ++ accessesOfValues parameters cases ++
      accessesOfBodies parameters cases ++ accessesOfOptional parameters fallback
  | .assign _ op target value =>
    target.accessesOfTarget parameters op.isSome ++ value.accesses parameters ++
      target.stored parameters
  | .adjust _ _ target _ => target.accessesOfTarget parameters true ++ target.stored parameters
  | .whileLoop _ condition body => condition.accesses parameters ++ body.accesses parameters
  | .doLoop _ body condition => body.accesses parameters ++ condition.accesses parameters
  | .forLoop _ init condition post body =>
    init.accesses parameters ++ condition.accesses parameters ++ body.accesses parameters ++
      post.accesses parameters
  | .label _ _ statement => statement.accesses parameters
  | .directive _ _ _ statements => accessesOfAll parameters statements
  | .function _ _ _ inner body => body.accesses inner
  | _ => []

def accessesOfAll (parameters : List String) : List Node → List Access
  | [] => []
  | node :: nodes => node.accesses parameters ++ accessesOfAll parameters nodes

def accessesOfOptional (parameters : List String) : Option Node → List Access
  | none => []
  | some node => node.accesses parameters

/-- What the links of a chain read: their names are fields and functions of an object, but the
arguments of a call are read like any others. -/
def Node.accessesOfLinks (parameters : List String) : Node → List Access
  | .chain _ current remaining =>
    current.accessesOfLink parameters ++ remaining.accessesOfLinks parameters
  | .call _ _ arguments => accessesOfAll parameters arguments
  | _ => []

def Node.accessesOfLink (parameters : List String) : Node → List Access
  | .call _ _ arguments => accessesOfAll parameters arguments
  | _ => []

/-- What is read of a target before something is stored into it: the object of a field, and if
`current`, also the value that is there.  Nothing but names and chains can be a target. -/
def Node.accessesOfTarget (parameters : List String) (current : Bool) : Node → List Access
  | .identifier _ name => if current then [⟨name, parameters, false⟩] else []
  | .chain _ object remaining =>
    object.accesses parameters ++ remaining.accessesOfLinks parameters
  | _ => []

def accessesOfValues (parameters : List String) : List SwitchCase → List Access
  | [] => []
  | .mk value _ :: cases => value.accesses parameters ++ accessesOfValues parameters cases

def accessesOfBodies (parameters : List String) : List SwitchCase → List Access
  | [] => []
  | .mk _ body :: cases => body.accesses parameters ++ accessesOfBodies parameters cases

end

/-! ## sites of a tree -/

/-- An access and the address that its code starts at. -/
structure Site where
  access : Access
  address : Nat
deriving DecidableEq, Repr

namespace Site

/-- How many instructions an access takes. -/
def width (env : Environment) (s : Site) : Nat := (s.access.code env).length

/-- The address belongs to the code of the access. -/
def Covers (env : Environment) (s : Site) (address : Nat) : Prop :=
  s.address ≤ address ∧ address < s.address + s.width env

end Site

/-- The store into a target by the instruction at `address`. -/
def Node.storeSites (target : Node) (parameters : List String) (address : Nat) : List Site :=
  (target.stored parameters).map (⟨·, address⟩)

mutual

/-- What a node reads and stores, where its code starts at `base`. -/
def Node.sites : Node → Scope → Nat → List Site
  | .identifier _ name, scope, base => [⟨⟨name, scope.parameters, false⟩, base⟩]
  | .chain _ current remaining, scope, base =>
    current.sites scope base ++
      remaining.sitesOfLinks scope (base + (Generate.layout current scope base).size)
  | .call _ _ arguments, scope, base => sitesOfAll arguments scope base
  | .staticCall _ _ _ arguments, scope, base => sitesOfAll arguments scope base
  | .unary _ _ operand, scope, base => operand.sites scope base
  | .binary _ op left right, scope, base =>
    let test := base + (Generate.layout left scope base).size
    -- The right side of a conjunction or disjunction stands behind a jump around it.
    left.sites scope base ++
      right.sites scope (if op = .and ∨ op = .or then test + 1 else test)
  | .block _ statements, scope, base => sitesOfAll statements scope base
  | .returns _ value, scope, base => sitesOfOptional value scope base
  | .discard _ value, scope, base => value.sites scope base
  | .branch _ condition accepted otherwise, scope, base =>
    let first := base + (Generate.layout condition scope base).size + 1
    let second := first + (Generate.layout accepted scope first).size + 1
    condition.sites scope base ++ accepted.sites scope first ++
      sitesOfOptional otherwise scope second
  | .switch _ kind value cases fallback, scope, base =>
    let tests := base + (Generate.layout value scope base).size
    let bodies := tests + (Generate.layoutTests cases [] scope tests).size + 2
    let last := bodies + (Generate.layoutBodies cases kind scope bodies).size
    value.sites scope base ++ sitesOfValues cases scope tests ++
      sitesOfBodies cases kind scope bodies ++ sitesOfOptional fallback scope last
  | .assign location op target value, scope, base =>
    let receiver := if op.isSome then Generate.layoutCurrent target scope base
      else Generate.layoutTarget target scope base
    let whole := Generate.layout (.assign location op target value) scope base
    target.sitesOfTarget scope base op.isSome ++ value.sites scope (base + receiver.size) ++
      target.storeSites scope.parameters (base + whole.size - 1)
  | .adjust location kind target direction, scope, base =>
    let whole := Generate.layout (.adjust location kind target direction) scope base
    target.sitesOfTarget scope base true ++
      target.storeSites scope.parameters (base + whole.size - 1)
  | .whileLoop _ condition body, scope, base =>
    condition.sites scope base ++
      body.sites scope (base + (Generate.layout condition scope base).size + 1)
  | .doLoop _ body condition, scope, base =>
    body.sites scope base ++ condition.sites scope (base + (Generate.layout body scope base).size)
  | .forLoop _ init condition post body, scope, base =>
    let check := base + (Generate.layout init scope base).size
    let start := check + (Generate.layout condition scope check).size + 1
    let step := start + (Generate.layout body scope start).size
    init.sites scope base ++ condition.sites scope check ++ body.sites scope start ++
      post.sites scope step
  | .label _ _ statement, scope, base => statement.sites scope base
  | .directive _ _ code statements, scope, base =>
    sitesOfAll statements scope (base + code.length)
  | .function _ _ _ parameters body, scope, base => body.sites { scope with parameters } (base + 1)
  | _, _, _ => []

def sitesOfAll : List Node → Scope → Nat → List Site
  | [], _, _ => []
  | node :: nodes, scope, base =>
    node.sites scope base ++ sitesOfAll nodes scope (base + (Generate.layout node scope base).size)

def sitesOfOptional : Option Node → Scope → Nat → List Site
  | none, _, _ => []
  | some node, scope, base => node.sites scope base

def Node.sitesOfLinks : Node → Scope → Nat → List Site
  | .chain _ current remaining, scope, base =>
    current.sitesOfLink scope base ++
      remaining.sitesOfLinks scope (base + (Generate.layoutLink current scope base).size)
  | .call _ _ arguments, scope, base => sitesOfAll arguments scope base
  | _, _, _ => []

def Node.sitesOfLink : Node → Scope → Nat → List Site
  | .call _ _ arguments, scope, base => sitesOfAll arguments scope base
  | _, _, _ => []

def Node.sitesOfTarget : Node → Scope → Nat → Bool → List Site
  | .identifier _ name, scope, base, current =>
    if current then [⟨⟨name, scope.parameters, false⟩, base⟩] else []
  | .chain _ object remaining, scope, base, _ =>
    object.sites scope base ++
      remaining.sitesOfLinks scope (base + (Generate.layout object scope base).size)
  | _, _, _, _ => []

def sitesOfValues : List SwitchCase → Scope → Nat → List Site
  | [], _, _ => []
  | .mk value _ :: cases, scope, base =>
    value.sites scope base ++
      sitesOfValues cases scope (base + (Generate.layout value scope base).size + 1)

def sitesOfBodies : List SwitchCase → SwitchKind → Scope → Nat → List Site
  | [], _, _, _ => []
  | .mk _ body :: cases, kind, scope, base =>
    let first := Generate.layout body scope base ++
      .ofCode (if kind = .select then [.jump .breakPoint] else [])
    body.sites scope base ++ sitesOfBodies cases kind scope (base + first.size)

end

/-- The access of a store does not depend on where it is. -/
@[simp] theorem Node.map_access_storeSites (target : Node) (parameters : List String)
    (address : Nat) :
    (target.storeSites parameters address).map (·.access) = target.stored parameters := by
  rw [storeSites, List.map_map]
  exact List.map_id _

mutual

/-- The sites of a tree are those of its accesses. -/
theorem Node.map_access_sites : (node : Node) → (scope : Scope) → (base : Nat) →
    (node.sites scope base).map (·.access) = node.accesses scope.parameters
  | .null _, _, _ | .number .., _, _ | .string .., _, _ | .leave _, _, _ | .proceed _, _, _
  | .jump .., _, _ | .callLabel .., _, _ | .back _, _, _ | .identifier .., _, _ => rfl
  | .chain _ current remaining, scope, base => by
      simp only [Node.sites, Node.accesses, List.map_append, current.map_access_sites,
        remaining.map_access_sitesOfLinks]
  | .call _ _ arguments, scope, base | .staticCall _ _ _ arguments, scope, base =>
      map_access_sitesOfAll arguments scope base
  | .unary _ _ operand, scope, base => operand.map_access_sites scope base
  | .binary _ _ left right, scope, base => by
      simp only [Node.sites, Node.accesses, List.map_append, left.map_access_sites,
        right.map_access_sites]
  | .block _ statements, scope, base => map_access_sitesOfAll statements scope base
  | .returns _ value, scope, base => map_access_sitesOfOptional value scope base
  | .discard _ value, scope, base => value.map_access_sites scope base
  | .branch _ condition accepted otherwise, scope, base => by
      simp only [Node.sites, Node.accesses, List.map_append, condition.map_access_sites,
        accepted.map_access_sites, map_access_sitesOfOptional otherwise]
  | .switch _ _ value cases fallback, scope, base => by
      simp only [Node.sites, Node.accesses, List.map_append, value.map_access_sites,
        map_access_sitesOfValues cases, map_access_sitesOfBodies cases,
        map_access_sitesOfOptional fallback]
  | .assign _ _ target value, scope, base => by
      simp only [Node.sites, Node.accesses, List.map_append, target.map_access_sitesOfTarget,
        value.map_access_sites, Node.map_access_storeSites]
  | .adjust _ _ target _, scope, base => by
      simp only [Node.sites, Node.accesses, List.map_append, target.map_access_sitesOfTarget,
        Node.map_access_storeSites]
  | .whileLoop _ condition body, scope, base => by
      simp only [Node.sites, Node.accesses, List.map_append, condition.map_access_sites,
        body.map_access_sites]
  | .doLoop _ body condition, scope, base => by
      simp only [Node.sites, Node.accesses, List.map_append, condition.map_access_sites,
        body.map_access_sites]
  | .forLoop _ init condition post body, scope, base => by
      simp only [Node.sites, Node.accesses, List.map_append, init.map_access_sites,
        condition.map_access_sites, body.map_access_sites, post.map_access_sites]
  | .label _ _ statement, scope, base => statement.map_access_sites scope base
  | .directive _ _ code statements, scope, base =>
      map_access_sitesOfAll statements scope (base + code.length)
  | .function _ _ _ parameters body, scope, base =>
      body.map_access_sites { scope with parameters } (base + 1)

/-- The sites of nodes one after the other. -/
theorem map_access_sitesOfAll : (nodes : List Node) → (scope : Scope) → (base : Nat) →
    (sitesOfAll nodes scope base).map (·.access) = accessesOfAll scope.parameters nodes
  | [], _, _ => rfl
  | node :: nodes, scope, base => by
      simp only [sitesOfAll, accessesOfAll, List.map_append, node.map_access_sites,
        map_access_sitesOfAll nodes]

theorem map_access_sitesOfOptional : (node : Option Node) → (scope : Scope) → (base : Nat) →
    (sitesOfOptional node scope base).map (·.access) = accessesOfOptional scope.parameters node
  | none, _, _ => rfl
  | some node, scope, base => node.map_access_sites scope base

/-- The sites of the links of a chain. -/
theorem Node.map_access_sitesOfLinks (node : Node) (scope : Scope) (base : Nat) :
    (node.sitesOfLinks scope base).map (·.access) = node.accessesOfLinks scope.parameters := by
  cases node with
  | chain _ current remaining =>
      simp only [Node.sitesOfLinks, Node.accessesOfLinks, List.map_append,
        current.map_access_sitesOfLink, remaining.map_access_sitesOfLinks]
  | call _ _ arguments => exact map_access_sitesOfAll arguments scope base
  | _ => rfl

theorem Node.map_access_sitesOfLink (node : Node) (scope : Scope) (base : Nat) :
    (node.sitesOfLink scope base).map (·.access) = node.accessesOfLink scope.parameters := by
  cases node with
  | call _ _ arguments => exact map_access_sitesOfAll arguments scope base
  | _ => rfl

/-- The sites of a target before something is stored into it. -/
theorem Node.map_access_sitesOfTarget (node : Node) (scope : Scope) (base : Nat)
    (current : Bool) :
    (node.sitesOfTarget scope base current).map (·.access) =
      node.accessesOfTarget scope.parameters current := by
  cases node with
  | identifier _ name => cases current <;> rfl
  | chain _ object remaining =>
      simp only [Node.sitesOfTarget, Node.accessesOfTarget, List.map_append,
        object.map_access_sites, remaining.map_access_sitesOfLinks]
  | _ => rfl

/-- The sites of the case values. -/
theorem map_access_sitesOfValues : (cases : List SwitchCase) → (scope : Scope) → (base : Nat) →
    (sitesOfValues cases scope base).map (·.access) = accessesOfValues scope.parameters cases
  | [], _, _ => rfl
  | .mk value _ :: cases, scope, base => by
      simp only [sitesOfValues, accessesOfValues, List.map_append, value.map_access_sites,
        map_access_sitesOfValues cases]

/-- The sites of the bodies. -/
theorem map_access_sitesOfBodies : (cases : List SwitchCase) → (kind : SwitchKind) →
    (scope : Scope) → (base : Nat) →
    (sitesOfBodies cases kind scope base).map (·.access) = accessesOfBodies scope.parameters cases
  | [], _, _, _ => rfl
  | .mk _ body :: cases, kind, scope, base => by
      simp only [sitesOfBodies, accessesOfBodies, List.map_append, body.map_access_sites,
        map_access_sitesOfBodies cases]

end

/-! ## instructions -/

/-- All that can happen to a target in a loop or switch is that an address takes its place. -/
theorem Code.retarget_cases (x y : Option Nat) (t : JumpTarget) :
    retarget x y t = t ∨ ∃ a, retarget x y t = .address a := by
  cases t <;> cases x <;> cases y <;> simp [retarget]

namespace Instruction

/-- Whether an instruction reads or stores a variable or reads an argument. -/
def touches : Instruction → Bool
  | pushArgument _ | pushIdentifier _ | setIdentifier _ => true
  | _ => false

/-- Where a jump goes touches no variable. -/
@[simp] theorem touches_mapTarget (f : JumpTarget → JumpTarget) (i : Instruction) :
    (i.mapTarget f).touches = i.touches := by
  cases i <;> rfl

/-- Only the target that an instruction has can be changed. -/
theorem mapTarget_of_target? {i : Instruction} {t : JumpTarget} (h : i.target? = some t)
    (f : JumpTarget → JumpTarget) : i.mapTarget f = i.mapTarget fun _ => f t := by
  cases i <;> simp_all [target?, mapTarget]

/-- `j` is `i`, or `i` is a break or continue and `j` has an address to go to in its place. -/
def Settles (i j : Instruction) : Prop :=
  j = i ∨ i.Unsettled ∧ ∃ a, j = i.mapTarget fun _ => .address a

/-- A loop or switch leaves a break or continue alone, or it is the one that settles it. -/
theorem Unsettled.settles {i : Instruction} (h : i.Unsettled) (x y : Option Nat) :
    i.Settles (i.mapTarget (Code.retarget x y)) := by
  obtain ⟨t, jumps⟩ : ∃ t, i.target? = some t := by
    rcases h with jumps | jumps <;> exact ⟨_, jumps⟩
  rcases Code.retarget_cases x y t with same | ⟨a, goes⟩
  · refine .inl (mapTarget_eq_of_forall fun t' jumps' => ?_)
    obtain rfl := Option.some.inj (jumps'.symm.trans jumps)
    exact same
  · exact .inr ⟨h, a, by rw [mapTarget_of_target? jumps, goes]⟩

/-- A break or continue is settled once, by the innermost loop that takes it. -/
theorem Settles.retarget {i j : Instruction} (h : i.Settles j) (x y : Option Nat) :
    i.Settles (j.mapTarget (Code.retarget x y)) := by
  rcases h with rfl | ⟨unsettled, a, rfl⟩
  · by_cases unsettled : j.Unsettled
    · exact unsettled.settles x y
    · exact .inl (j.mapTarget_retarget unsettled x y)
  · have target : Code.retarget x y (.address a) = .address a := by
      cases x <;> cases y <;> rfl
    have same : (i.mapTarget fun _ => .address a).mapTarget (Code.retarget x y) =
        i.mapTarget fun _ => .address a := by
      rw [mapTarget_mapTarget]
      simp only [Function.comp_def, target]
    exact .inr ⟨unsettled, a, same⟩

end Instruction

/-! ## scopes -/

namespace Fragment

variable {a b f : Fragment} {ds es : List Definition} {outer parameters : List String}
  {address : Nat}

/-- At the address these parameters are in scope: those of the innermost function around it, or the
outer ones. -/
def Sees (f : Fragment) (ds : List Definition) (outer : List String) (address : Nat)
    (parameters : List String) : Prop :=
  f.Exposes address ∧ parameters = outer ∨
    ∃ p ∈ f.placements, ∃ d ∈ ds, d.id = p.id ∧ d.parameters = parameters ∧
      p.extent.Covers address ∧
      ∀ q ∈ f.placements, q.extent.Covers address → q.start ≤ p.start ∧ p.stop ≤ q.stop

/-- Nothing at the address waits for a label. -/
def Rests (f : Fragment) (address : Nat) : Prop := ∀ w ∈ f.waiting, w.2 ≠ address

/-- Functions elsewhere do not change what is in scope. -/
theorem Sees.append_left (h : a.Sees ds outer address parameters) (other : b.Exposes address) :
    (a ++ b).Sees (ds ++ es) outer address parameters := by
  rcases h with ⟨exposed, same⟩ | ⟨p, found, d, known, id, same, covers, inner⟩
  · exact .inl ⟨exposes_append.2 ⟨exposed, other⟩, same⟩
  · have all : ∀ q ∈ (a ++ b).placements, q.extent.Covers address →
        q.start ≤ p.start ∧ p.stop ≤ q.stop :=
      List.forall_mem_append.2 ⟨inner, fun q there around => absurd around (other q there)⟩
    exact .inr ⟨p, List.mem_append_left _ found, d, List.mem_append_left _ known, id, same, covers,
      all⟩

/-- The same for functions before. -/
theorem Sees.append_right (h : b.Sees es outer address parameters) (other : a.Exposes address) :
    (a ++ b).Sees (ds ++ es) outer address parameters := by
  rcases h with ⟨exposed, same⟩ | ⟨p, found, d, known, id, same, covers, inner⟩
  · exact .inl ⟨exposes_append.2 ⟨other, exposed⟩, same⟩
  · have all : ∀ q ∈ (a ++ b).placements, q.extent.Covers address →
        q.start ≤ p.start ∧ p.stop ≤ q.stop :=
      List.forall_mem_append.2 ⟨fun q there around => absurd around (other q there), inner⟩
    exact .inr ⟨p, List.mem_append_right _ found, d, List.mem_append_right _ known, id, same,
      covers, all⟩

/-- The order of the functions does not matter. -/
theorem Sees.perm (h : f.Sees ds outer address parameters) (same : ds.Perm es) :
    f.Sees es outer address parameters := by
  rcases h with exposed | ⟨p, found, d, known, rest⟩
  · exact .inl exposed
  · exact .inr ⟨p, found, d, same.mem_iff.1 known, rest⟩

/-- No two functions start at the same address, so at most one of them is innermost. -/
theorem Sees.unique {others : List String} (h : f.Sees ds outer address parameters)
    (h' : f.Sees ds outer address others) (starts : (f.placements.map (·.start)).Nodup)
    (ids : (ds.map (·.id)).Nodup) : parameters = others := by
  rcases h with ⟨exposed, rfl⟩ | ⟨p, found, d, known, id, rfl, covers, inner⟩
  · rcases h' with ⟨-, rfl⟩ | ⟨q, found', -, -, -, -, covers', -⟩
    · rfl
    · exact absurd covers' (exposed q found')
  · rcases h' with ⟨exposed, -⟩ | ⟨q, found', e, known', id', rfl, covers', inner'⟩
    · exact absurd covers (exposed p found)
    · have start : p.start = q.start :=
        Nat.le_antisymm (inner' p found covers).1 (inner q found' covers').1
      obtain rfl := List.inj_on_of_nodup_map starts found found' start
      rw [List.inj_on_of_nodup_map ids known known' (id.trans id'.symm)]

/-- A function around others has its parameters in scope where none of the others is. -/
theorem Sees.enclosed {d : Definition} {q : Placement}
    (h : f.Sees ds d.parameters address parameters) (id : d.id = q.id)
    (covers : q.extent.Covers address)
    (around : ∀ p ∈ f.placements, q.start ≤ p.start ∧ p.stop ≤ q.stop) :
    (f ++ ({ placements := [q] } : Fragment)).Sees (ds ++ [d]) outer address parameters := by
  rcases h with ⟨exposed, rfl⟩ | ⟨p, found, e, known, same, sees, inside, inner⟩
  · have only : ∀ p ∈ (f ++ ({ placements := [q] } : Fragment)).placements,
        p.extent.Covers address → p.start ≤ q.start ∧ q.stop ≤ p.stop := by
      refine List.forall_mem_append.2 ⟨fun p there around => absurd around (exposed p there), ?_⟩
      simp
    exact .inr ⟨q, List.mem_append_right _ (by simp), d, List.mem_append_right _ (by simp), id, rfl,
      covers, only⟩
  · have all : ∀ r ∈ (f ++ ({ placements := [q] } : Fragment)).placements,
        r.extent.Covers address → r.start ≤ p.start ∧ p.stop ≤ r.stop := by
      refine List.forall_mem_append.2 ⟨inner, ?_⟩
      simpa using fun _ => around p found
    exact .inr ⟨p, List.mem_append_left _ found, e, List.mem_append_left _ known, same, sees,
      inside, all⟩

end Fragment

/-! ## sites in a fragment -/

/-- The access has its code in a fragment, where its parameters are in scope. -/
structure Site.Stands (env : Environment) (outer : List String) (ds : List Definition) (base : Nat)
    (f : Fragment) (s : Site) : Prop where
  permitted : s.access.Permitted env
  low : base ≤ s.address
  high : s.address + s.width env ≤ base + f.size
  code : ∀ k i, (s.access.code env)[k]? = some i →
    ∃ n j, f.code[n]? = some j ∧ base + n = s.address + k ∧ i.Settles j
  scope : ∀ address, s.Covers env address → f.Sees ds outer address s.access.parameters
  rests : ∀ address, s.Covers env address → f.Rests address

/-- What a fragment at `base` with the functions `ds` reads and stores. -/
structure Scoped (env : Environment) (outer : List String) (ds : List Definition)
    (sites : List Site) (base : Nat) (f : Fragment) : Prop where
  bounds : ∀ p ∈ f.placements, base < p.start ∧ p.start ≤ p.stop ∧ p.stop < base + f.size
  starts : (f.placements.map (·.start)).Nodup
  ids : (f.placements.map (·.id)).Perm (ds.map (·.id))
  sees : ∀ address, ∃ parameters, f.Sees ds outer address parameters
  waits : ∀ w ∈ f.waiting, base ≤ w.2 ∧ w.2 < base + f.size
  ordered : sites.Pairwise fun s t => s.address + s.width env ≤ t.address
  stand : ∀ s ∈ sites, s.Stands env outer ds base f
  complete : f.Each (fun address i => i.touches = true → ∃ s ∈ sites, s.Covers env address) base

namespace Scoped

variable {env : Environment} {outer : List String} {ds es : List Definition} {ss ts : List Site}
  {base : Nat} {a b f : Fragment} {code : List Instruction} {i : Instruction}

/-! ### where nothing is -/

/-- At the start of a fragment there is no function yet. -/
theorem exposes_of_le (h : Scoped env outer ds ss base f) {address : Nat}
    (before : address ≤ base) : f.Exposes address := by
  intro p found covers
  have bounds := h.bounds p found
  have inside : p.start ≤ address := covers.1
  omega

theorem exposes_of_ge (h : Scoped env outer ds ss base f) {address : Nat}
    (behind : base + f.size ≤ address) : f.Exposes address := by
  intro p found covers
  have bounds := h.bounds p found
  have inside : address ≤ p.stop := covers.2
  omega

/-! ### small fragments -/

/-- Code that touches no variable. -/
theorem plain (labels waiting : List (String × Nat)) (h : ∀ i ∈ code, i.touches = false)
    (waits : ∀ w ∈ waiting, base ≤ w.2 ∧ w.2 < base + code.length) :
    Scoped env outer [] [] base { code, labels, waiting } where
  bounds := by simp
  starts := by simp
  ids := by simp
  sees := fun address => ⟨outer, .inl ⟨by simp [Fragment.Exposes], rfl⟩⟩
  waits := waits
  ordered := List.Pairwise.nil
  stand := by simp
  complete := by
    intro k i found touches
    have untouched := h i (List.mem_of_getElem? found)
    rw [untouched] at touches
    cases touches

theorem ofCode (h : ∀ i ∈ code, i.touches = false) : Scoped env outer [] [] base (.ofCode code) :=
  plain [] [] h (by simp)

theorem one (h : i.touches = false) : Scoped env outer [] [] base (.one i) :=
  ofCode (by simpa using h)

theorem empty : Scoped env outer [] [] base {} := ofCode (by simp)

/-- A jump that waits for a label. -/
theorem await (h : i.touches = false) (name : String) :
    Scoped env outer [] [] base { code := [i], waiting := [(name, base)] } :=
  plain [] [(name, base)] (by simpa using h) (by simp)

/-- The code of one access. -/
theorem access (acc : Access) (permitted : acc.Permitted env) (visible : acc.parameters = outer) :
    Scoped env outer [] [⟨acc, base⟩] base (.ofCode (acc.code env)) where
  bounds := by simp
  starts := by simp
  ids := by simp
  sees := fun address => ⟨outer, .inl ⟨Fragment.exposes_ofCode, rfl⟩⟩
  waits := by simp
  ordered := List.pairwise_singleton _ _
  stand := by
    have stands : Site.Stands env outer [] base (.ofCode (acc.code env)) ⟨acc, base⟩ := {
      permitted
      low := Nat.le_refl base
      high := Nat.le_refl _
      code := fun k i found => ⟨k, i, found, rfl, .inl rfl⟩
      scope := fun address _ => .inl ⟨Fragment.exposes_ofCode, visible⟩
      rests := fun address _ => by simp [Fragment.Rests] }
    simpa using stands
  complete := by
    intro k i found touches
    have inside : k < (acc.code env).length := (List.getElem?_eq_some_iff.1 found).1
    exact ⟨⟨acc, base⟩, by simp, Nat.le_add_right base k, Nat.add_lt_add_left inside base⟩

/-! ### composition -/

/-- The order of the functions does not matter. -/
theorem perm (h : Scoped env outer ds ss base f) (same : ds.Perm es) :
    Scoped env outer es ss base f where
  bounds := h.bounds
  starts := h.starts
  ids := h.ids.trans (same.map _)
  sees := fun address => (h.sees address).imp fun _ found => found.perm same
  waits := h.waits
  ordered := h.ordered
  stand := by
    intro s found
    have there := h.stand s found
    exact { there with scope := fun address covers => (there.scope address covers).perm same }
  complete := h.complete

/-- A site stands where it did if there is other code behind its own. -/
theorem stands_before {s : Site} (second : Scoped env outer es ts (base + a.size) b)
    (h : s.Stands env outer ds base a) : s.Stands env outer (ds ++ es) base (a ++ b) where
  permitted := h.permitted
  low := h.low
  high := by
    have high := h.high
    rw [Fragment.size_append]
    omega
  code := by
    intro k i found
    obtain ⟨n, j, inside, same, settles⟩ := h.code k i found
    refine ⟨n, j, ?_, same, settles⟩
    rw [Fragment.code_append, List.getElem?_append_left (List.getElem?_eq_some_iff.1 inside).1,
      inside]
  scope := by
    intro address covers
    have before : address ≤ base + a.size := Nat.le_of_lt (Nat.lt_of_lt_of_le covers.2 h.high)
    exact (h.scope address covers).append_left (second.exposes_of_le before)
  rests := by
    intro address covers
    have before : address < base + a.size := Nat.lt_of_lt_of_le covers.2 h.high
    refine List.forall_mem_append.2 ⟨h.rests address covers, fun w waiting => ?_⟩
    have bounds := second.waits w waiting
    omega

/-- It also does if there is other code before its own. -/
theorem stands_behind {s : Site} (first : Scoped env outer ds ss base a)
    (h : s.Stands env outer es (base + a.size) b) :
    s.Stands env outer (ds ++ es) base (a ++ b) where
  permitted := h.permitted
  low := Nat.le_trans (Nat.le_add_right _ _) h.low
  high := by
    have high := h.high
    rw [Fragment.size_append]
    omega
  code := by
    intro k i found
    obtain ⟨n, j, inside, same, settles⟩ := h.code k i found
    refine ⟨a.code.length + n, j, ?_, ?_, settles⟩
    · rw [Fragment.code_append, List.getElem?_append_right (Nat.le_add_right _ _),
        Nat.add_sub_cancel_left, inside]
    · rw [← same, Fragment.size, Nat.add_assoc]
  scope := by
    intro address covers
    have behind : base + a.size ≤ address := Nat.le_trans h.low covers.1
    exact (h.scope address covers).append_right (first.exposes_of_ge behind)
  rests := by
    intro address covers
    have behind : base + a.size ≤ address := Nat.le_trans h.low covers.1
    refine List.forall_mem_append.2 ⟨fun w waiting => ?_, h.rests address covers⟩
    have bounds := first.waits w waiting
    omega

/-- Two fragments have the sites of both, one behind the other. -/
theorem append {mid : Nat} (first : Scoped env outer ds ss base a)
    (second : Scoped env outer es ts mid b) (at_ : mid = base + a.size) :
    Scoped env outer (ds ++ es) (ss ++ ts) base (a ++ b) where
  bounds := by
    subst at_
    rw [Fragment.size_append]
    refine List.forall_mem_append.2 ⟨fun p found => ?_, fun p found => ?_⟩
    · have bounds := first.bounds p found
      omega
    · have bounds := second.bounds p found
      omega
  starts := by
    subst at_
    rw [Fragment.placements_append, List.map_append, List.nodup_append]
    refine ⟨first.starts, second.starts, fun n left m right same => ?_⟩
    obtain ⟨p, found, rfl⟩ := List.mem_map.1 left
    obtain ⟨q, found', rfl⟩ := List.mem_map.1 right
    have bounds := first.bounds p found
    have bounds' := second.bounds q found'
    omega
  ids := by
    rw [Fragment.placements_append, List.map_append, List.map_append]
    exact first.ids.append second.ids
  sees := by
    subst at_
    intro address
    by_cases before : address < base + a.size
    · obtain ⟨parameters, found⟩ := first.sees address
      exact ⟨parameters, found.append_left (second.exposes_of_le (Nat.le_of_lt before))⟩
    · obtain ⟨parameters, found⟩ := second.sees address
      exact ⟨parameters, found.append_right (first.exposes_of_ge (Nat.le_of_not_lt before))⟩
  waits := by
    subst at_
    rw [Fragment.size_append]
    refine List.forall_mem_append.2 ⟨fun w found => ?_, fun w found => ?_⟩
    · have bounds := first.waits w found
      omega
    · have bounds := second.waits w found
      omega
  ordered := by
    subst at_
    rw [List.pairwise_append]
    refine ⟨first.ordered, second.ordered, fun s found t found' => ?_⟩
    have high := (first.stand s found).high
    have low := (second.stand t found').low
    omega
  stand := by
    subst at_
    exact List.forall_mem_append.2 ⟨fun s found => second.stands_before (first.stand s found),
      fun s found => first.stands_behind (second.stand s found)⟩
  complete := by
    subst at_
    refine Fragment.each_append.2 ⟨first.complete.imp fun address i h touches => ?_,
      second.complete.imp fun address i h touches => ?_⟩
    · obtain ⟨s, found, covers⟩ := h touches
      exact ⟨s, List.mem_append_left _ found, covers⟩
    · obtain ⟨s, found, covers⟩ := h touches
      exact ⟨s, List.mem_append_right _ found, covers⟩

/-- Code that touches no variable behind other code. -/
theorem appendPlain {mid : Nat} (first : Scoped env outer ds ss base a)
    (second : Scoped env outer [] [] mid b) (at_ : mid = base + a.size) :
    Scoped env outer ds ss base (a ++ b) := by
  have both := first.append second at_
  rwa [List.append_nil, List.append_nil] at both

/-- A loop or switch settles jumps and touches no variable. -/
theorem retarget (h : Scoped env outer ds ss base f) (x y : Option Nat) :
    Scoped env outer ds ss base (f.retarget x y) where
  bounds := by
    rw [Fragment.size_retarget]
    exact h.bounds
  starts := h.starts
  ids := h.ids
  sees := h.sees
  waits := by
    rw [Fragment.size_retarget]
    exact h.waits
  ordered := h.ordered
  stand := by
    intro s found
    have there := h.stand s found
    refine { there with high := ?_, code := fun k i at_ => ?_ }
    · rw [Fragment.size_retarget]
      exact there.high
    · obtain ⟨n, j, inside, same, settles⟩ := there.code k i at_
      exact ⟨n, j.mapTarget (Code.retarget x y), by simp [Fragment.retarget, inside], same,
        settles.retarget x y⟩
  complete := Fragment.each_retarget.2 (by simpa using h.complete)

/-- A jump around code touches no variable. -/
theorem jumpOver {make : JumpTarget → Instruction} (untouched : ∀ t, (make t).touches = false)
    (h : Scoped env outer ds ss (base + 1) f) :
    Scoped env outer ds ss base (.jumpOver make base f) :=
  (one (untouched _)).append h rfl

/-- A return behind the code touches no variable. -/
theorem closed (h : Scoped env outer ds ss base f) :
    Scoped env outer ds ss base (f.closed base) := by
  unfold Fragment.closed
  split
  · exact h.appendPlain (ofCode (by simp [Instruction.touches])) rfl
  · exact h

/-! ### statements -/

/-- A condition, its branch and the other branch, which start behind the jumps. -/
theorem branch {c : Fragment} {us : List Site} (first : Scoped env outer [] ss base a)
    (second : Scoped env outer ds ts (base + a.size + 1) b)
    (third : Scoped env outer es us (base + a.size + 1 + b.size + 1) c) :
    Scoped env outer (ds ++ es) (ss ++ ts ++ us) base
      (a ++ .one (.jumpUnless (.address (base + a.size + 1 + b.size + 1))) ++ b ++
        .jumpOver .jump (base + a.size + 1 + b.size) c) := by
  have test := first.appendPlain
    (one (i := .jumpUnless (.address (base + a.size + 1 + b.size + 1))) rfl) rfl
  have skip : Scoped env outer es us _ (.jumpOver .jump (base + a.size + 1 + b.size) c) :=
    third.jumpOver fun _ => rfl
  exact (test.append second (by simp [Nat.add_assoc])).append skip (by simp [Nat.add_assoc])

/-- A loop with its condition at the start. -/
theorem loop (first : Scoped env outer [] ss base a)
    (turn : Scoped env outer ds ts (base + a.size + 1) b) (x y : Option Nat) :
    Scoped env outer ds (ss ++ ts) base
      (a ++ .jumpOver .jumpUnless (base + a.size) (b.retarget x y)) :=
  first.append ((turn.retarget x y).jumpOver fun _ => rfl) rfl

/-- A for loop with its body before its last part. -/
theorem loopWithStep {c : Fragment} {us : List Site} (first : Scoped env outer [] ss base a)
    (turn : Scoped env outer ds ts (base + a.size + 1) b)
    (step : Scoped env outer es us (base + a.size + 1 + b.size) c) (x y : Option Nat) :
    Scoped env outer (ds ++ es) (ss ++ (ts ++ us)) base
      (a ++ .jumpOver .jumpUnless (base + a.size)
        ((b ++ c ++ .one (.jump (.address base))).retarget x y)) :=
  first.loop ((turn.append step rfl).appendPlain (one rfl) rfl) x y

/-- A loop with its condition at the end. -/
theorem loopBefore (turn : Scoped env outer ds ss base a)
    (second : Scoped env outer [] ts (base + a.size) b) (x y : Option Nat) :
    Scoped env outer ds (ss ++ ts) base
      (a.retarget x y ++ b ++ .one (.jumpIf (.address base))) := by
  have both := (turn.retarget x y).append second (by simp)
  rw [List.append_nil] at both
  exact both.appendPlain (one rfl) rfl

/-- A switch with its comparisons before its bodies. -/
theorem switch {c d : Fragment} {us vs : List Site} {start : Nat}
    (first : Scoped env outer [] ss base a) (tests : Scoped env outer [] ts (base + a.size) b)
    (bodies : Scoped env outer ds us start c) (last : Scoped env outer es vs (start + c.size) d)
    (at_ : start = base + a.size + b.size + 2) (x y : Option Nat) :
    Scoped env outer (ds ++ es) (ss ++ ts ++ us ++ vs) base
      (a ++ b ++ .ofCode [.discard, .jump (.address (start + c.size))] ++
        (c ++ d).retarget x y) := by
  have falls : Scoped env outer [] [] (base + (a ++ b).size)
      (.ofCode [.discard, .jump (.address (start + c.size))]) :=
    ofCode (by simp [Instruction.touches])
  have front := (first.append tests rfl).appendPlain falls rfl
  have rest := (bodies.append last rfl).retarget x y
  have all := front.append rest (by
    simp only [Fragment.size_append, Fragment.size_ofCode, List.length_cons, List.length_nil]
    omega)
  simpa using all

/-- One more function in a fragment, around all of its sites and all functions that are there.  Its
parameters are in scope where none of these has others. -/
theorem place {d : Definition} {q : Placement} (h : Scoped env d.parameters ds ss base f)
    (id : d.id = q.id) (bounds : base < q.start ∧ q.start ≤ q.stop ∧ q.stop < base + f.size)
    (around : ∀ p ∈ f.placements, q.start < p.start ∧ p.stop ≤ q.stop)
    (inside : ∀ s ∈ ss, ∀ address, s.Covers env address → q.extent.Covers address) :
    Scoped env outer (ds ++ [d]) ss base (f ++ ({ placements := [q] } : Fragment)) := by
  have holds (p : Placement) (found : p ∈ f.placements) : q.start ≤ p.start ∧ p.stop ≤ q.stop :=
    ⟨Nat.le_of_lt (around p found).1, (around p found).2⟩
  refine ⟨?_, ?_, ?_, fun address => ?_, ?_, h.ordered, fun s found => ?_, ?_⟩
  · rw [Fragment.size_append_placements]
    exact List.forall_mem_append.2 ⟨h.bounds, by simpa using bounds⟩
  · rw [Fragment.placements_append, List.map_append, List.nodup_append]
    refine ⟨h.starts, by simp, fun n left m right same => ?_⟩
    obtain ⟨p, found, rfl⟩ := List.mem_map.1 left
    obtain rfl : m = q.start := by simpa using right
    exact absurd same (Nat.ne_of_gt (around p found).1)
  · rw [Fragment.placements_append, List.map_append, List.map_append]
    exact h.ids.append (by simp [id])
  · by_cases covers : q.extent.Covers address
    · obtain ⟨parameters, found⟩ := h.sees address
      exact ⟨parameters, found.enclosed id covers holds⟩
    · -- What is not in the new function is in none of those in it.
      have outside : ∀ p ∈ f.placements, ¬ p.extent.Covers address := fun p found there =>
        covers ⟨Nat.le_trans (holds p found).1 there.1, Nat.le_trans there.2 (holds p found).2⟩
      exact ⟨outer, .inl ⟨List.forall_mem_append.2 ⟨outside, by simpa using covers⟩, rfl⟩⟩
  · rw [Fragment.size_append_placements, Fragment.waiting_append_placements]
    exact h.waits
  · have there := h.stand s found
    refine { there with high := ?_, code := ?_, scope := ?_, rests := ?_ }
    · rw [Fragment.size_append_placements]
      exact there.high
    · rw [Fragment.code_append_placements]
      exact there.code
    · exact fun address covers =>
        (there.scope address covers).enclosed id (inside s found address covers) holds
    · unfold Fragment.Rests
      rw [Fragment.waiting_append_placements]
      exact there.rests
  · rw [Fragment.Each, Fragment.code_append_placements]
    exact h.complete

/-- A function around its body.  The jump before it is not in its scope. -/
theorem function {d : Definition} (inner : Scoped env d.parameters ds ss (base + 1) f)
    (nonempty : 0 < f.size) :
    Scoped env outer (ds ++ [d]) ss base (.jumpOver .jump base f ++
      ({ placements := [⟨d.id, base + 1, base + f.size⟩] } : Fragment)) := by
  have skip : Scoped env d.parameters ds ss base (.jumpOver .jump base f) :=
    inner.jumpOver fun _ => rfl
  refine skip.place rfl ?_ (fun p found => ?_) fun s found address covers => ?_
  · rw [Fragment.size_jumpOver]
    simp only
    omega
  · have bounds := inner.bounds p (by simpa [Fragment.jumpOver] using found)
    simp only
    omega
  · have there := inner.stand s found
    have low := Nat.le_trans there.low covers.1
    have high := Nat.lt_of_lt_of_le covers.2 there.high
    simp only [Extent.Covers, Placement.extent]
    omega

end Scoped

/-! ## trees -/

namespace Generate

/-- A read of a name. -/
theorem scoped_read (scope : Scope) (name : String) (base : Nat) :
    Scoped scope.environment scope.parameters [] [⟨⟨name, scope.parameters, false⟩, base⟩] base
      (.ofCode (readCode scope name)) :=
  Scoped.access ⟨name, scope.parameters, false⟩ (by simp [Access.Permitted]) rfl

/-- A store into a name or a field. -/
theorem scoped_store (scope : Scope) {target : Node}
    (assignable : Assignable scope.environment scope.parameters target) (base : Nat) :
    Scoped scope.environment scope.parameters [] (target.storeSites scope.parameters base) base
      (.one (storeCode target)) := by
  cases target with
  | identifier _ name =>
      exact Scoped.access ⟨name, scope.parameters, true⟩ (fun _ => assignable) rfl
  | chain => exact .one rfl
  | _ => cases assignable

/-- The code of a statement that stores with its last instruction. -/
theorem scoped_stored (scope : Scope) {target : Node} {sites : List Site} {base : Nat}
    {f : Fragment} (before : Scoped scope.environment scope.parameters [] sites base f)
    (assignable : Assignable scope.environment scope.parameters target) :
    Scoped scope.environment scope.parameters [] (sites ++ target.storeSites scope.parameters
      (base + (f ++ .one (storeCode target)).size - 1)) base (f ++ .one (storeCode target)) := by
  -- The store is found from the end of the code, since what stands before it varies.
  have last : base + (f ++ Fragment.one (storeCode target)).size - 1 = base + f.size := by
    rw [Fragment.size_append, Fragment.size_one]
    omega
  rw [last]
  exact before.append (scoped_store scope assignable _) rfl

/-- Stepping a target whose current value is there. -/
theorem scoped_adjust {scope : Scope} {l : Location} {target : Node} {base : Nat}
    (kind : AdjustKind) (direction : Direction)
    (current : Scoped scope.environment scope.parameters [] (target.sitesOfTarget scope base true)
      base (layoutCurrent target scope base))
    (assignable : Assignable scope.environment scope.parameters target) :
    Scoped scope.environment scope.parameters []
      ((Node.adjust l kind target direction).sites scope base) base
      (layout (.adjust l kind target direction) scope base) := by
  have untouched : ∀ i ∈ (if kind = .after then [Instruction.duplicate] else []) ++
      [.pushNumber direction.number, .binaryOp .add] ++
      (if kind = .before then [.duplicate] else []), i.touches = false := by
    cases kind <;> simp [Instruction.touches]
  rw [Node.sites, layout, ← Fragment.append_ofCode_one]
  exact scoped_stored scope (current.appendPlain (.ofCode untouched) rfl) assignable

mutual

/-- An expression has its sites, by induction on the tree. -/
theorem scoped_expression (scope : Scope) : (node : Node) → IsExpression node →
    (∀ o ∈ node.occurrences scope.parameters, o.Valid scope.environment) → (base : Nat) →
    Scoped scope.environment scope.parameters [] (node.sites scope base) base
      (layout node scope base)
  | .null _, _, _, _ | .number .., _, _, _ | .string .., _, _, _ => .one rfl
  | .identifier _ name, _, _, base => scoped_read scope name base
  | .chain _ current remaining, h, valid, base => by
      simp only [Node.occurrences, List.forall_mem_cons, List.forall_mem_append] at valid
      exact (scoped_expression scope current h.1 valid.2.1 base).append
        (scoped_links scope remaining h.2 valid.2.2 _) rfl
  | .call _ _ arguments, h, valid, base => by
      simp only [Node.occurrences, List.forall_mem_cons] at valid
      exact (scoped_expressions scope arguments h valid.2 base).appendPlain (.one rfl) rfl
  | .staticCall _ _ _ arguments, h, valid, base => by
      simp only [Node.occurrences, List.forall_mem_cons] at valid
      exact (scoped_expressions scope arguments h valid.2 base).appendPlain (.one rfl) rfl
  | .unary _ _ operand, h, valid, base => by
      simp only [Node.occurrences, List.forall_mem_cons] at valid
      exact (scoped_expression scope operand h valid.2 base).appendPlain (.one rfl) rfl
  | .binary _ op left right, h, valid, base => by
      simp only [Node.occurrences, List.forall_mem_cons, List.forall_mem_append] at valid
      have first := scoped_expression scope left h.1 valid.2.1 base
      cases op with
      | and | or =>
          exact first.append
            (.jumpOver (fun _ => rfl) (scoped_expression scope right h.2 valid.2.2 _)) rfl
      | _ =>
          exact (first.append (scoped_expression scope right h.2 valid.2.2 _) rfl).appendPlain
            (.one rfl) rfl
  | .adjust _ kind target direction, h, valid, base => by
      simp only [Node.occurrences, List.forall_mem_cons] at valid
      exact scoped_adjust kind direction
        (scoped_current scope target h.2 valid.1.1 valid.2 base) valid.1.1

theorem scoped_expressions (scope : Scope) : (nodes : List Node) → AreExpressions nodes →
    (∀ o ∈ occurrencesOfAll scope.parameters nodes, o.Valid scope.environment) → (base : Nat) →
    Scoped scope.environment scope.parameters [] (sitesOfAll nodes scope base) base
      (layoutAll nodes scope base)
  | [], _, _, _ => .empty
  | node :: nodes, h, valid, base => by
      simp only [occurrencesOfAll, List.forall_mem_append] at valid
      exact (scoped_expression scope node h.1 valid.1 base).append
        (scoped_expressions scope nodes h.2 valid.2 _) rfl

theorem scoped_link (scope : Scope) : (node : Node) → IsLink node →
    (∀ o ∈ node.occurrencesOfLink scope.parameters, o.Valid scope.environment) → (base : Nat) →
    Scoped scope.environment scope.parameters [] (node.sitesOfLink scope base) base
      (layoutLink node scope base)
  | .identifier .., _, _, _ => .one rfl
  | .call _ _ arguments, h, valid, base => by
      simp only [Node.occurrencesOfLink, List.forall_mem_cons] at valid
      exact (scoped_expressions scope arguments h valid.2 base).appendPlain (.one rfl) rfl

theorem scoped_links (scope : Scope) : (node : Node) → AreLinks node →
    (∀ o ∈ node.occurrencesOfLinks scope.parameters, o.Valid scope.environment) → (base : Nat) →
    Scoped scope.environment scope.parameters [] (node.sitesOfLinks scope base) base
      (layoutLinks node scope base)
  | .chain _ current remaining, h, valid, base => by
      simp only [Node.occurrencesOfLinks, List.forall_mem_append] at valid
      exact (scoped_link scope current h.1 valid.1 base).append
        (scoped_links scope remaining h.2 valid.2 _) rfl
  | .identifier .., _, _, _ => .one rfl
  | .call _ _ arguments, h, valid, base => by
      simp only [Node.occurrencesOfLinks, List.forall_mem_cons] at valid
      exact (scoped_expressions scope arguments h valid.2 base).appendPlain (.one rfl) rfl

/-- The links of a chain but the last, which is a field and reads nothing. -/
theorem scoped_receiver (scope : Scope) : (node : Node) → AreLinks node →
    (∃ location name, node.lastLink = .identifier location name) →
    (∀ o ∈ node.occurrencesOfLinks scope.parameters, o.Valid scope.environment) → (base : Nat) →
    Scoped scope.environment scope.parameters [] (node.sitesOfLinks scope base) base
      (layoutReceiver node scope base)
  | .chain _ current remaining, h, field, valid, base => by
      simp only [Node.occurrencesOfLinks, List.forall_mem_append] at valid
      exact (scoped_link scope current h.1 valid.1 base).append
        (scoped_receiver scope remaining h.2 field valid.2 _) rfl
  | .identifier .., _, _, _, _ => .empty
  | .call .., _, field, _, _ => by
      obtain ⟨_, _, same⟩ := field
      cases same

theorem scoped_current (scope : Scope) : (target : Node) → IsExpression target →
    Assignable scope.environment scope.parameters target →
    (∀ o ∈ target.occurrences scope.parameters, o.Valid scope.environment) → (base : Nat) →
    Scoped scope.environment scope.parameters [] (target.sitesOfTarget scope base true)
      base (layoutCurrent target scope base)
  | .identifier _ name, _, _, _, base => scoped_read scope name base
  | .chain _ current remaining, h, field, valid, base => by
      simp only [Node.occurrences, List.forall_mem_cons, List.forall_mem_append] at valid
      exact ((scoped_expression scope current h.1 valid.2.1 base).append
        (scoped_receiver scope remaining h.2 field valid.2.2 _) rfl).appendPlain
          (.ofCode (by simp [Instruction.touches])) rfl

end

theorem scoped_target (scope : Scope) {target : Node} (h : IsExpression target)
    (assignable : Assignable scope.environment scope.parameters target)
    (valid : ∀ o ∈ target.occurrences scope.parameters, o.Valid scope.environment) (base : Nat) :
    Scoped scope.environment scope.parameters [] (target.sitesOfTarget scope base false)
      base (layoutTarget target scope base) := by
  cases target with
  | identifier => exact .empty
  | chain _ current remaining =>
      simp only [Node.occurrences, List.forall_mem_cons, List.forall_mem_append] at valid
      exact (scoped_expression scope current h.1 valid.2.1 base).append
        (scoped_receiver scope remaining h.2 assignable valid.2.2 _) rfl
  | _ => cases assignable

/-- The comparisons with the case values. -/
theorem scoped_tests {n : Nat} {inner : Allowed} (scope : Scope) (cases : List SwitchCase)
    (h : AreCases n inner cases)
    (valid : ∀ o ∈ occurrencesOfValues scope.parameters cases, o.Valid scope.environment)
    (targets : List Nat) (base : Nat) :
    Scoped scope.environment scope.parameters [] (sitesOfValues cases scope base) base
      (layoutTests cases targets scope base) := by
  induction cases generalizing targets base with
  | nil => exact .empty
  | cons case cases ih =>
      obtain ⟨value, body⟩ := case
      simp only [occurrencesOfValues, List.forall_mem_append] at valid
      have first := (scoped_expression scope value h.1 valid.1 base).appendPlain
        (.one (i := .switchJump (targets.head?.elim .unresolved .address)) rfl) rfl
      exact first.append (ih h.2.2 valid.2 targets.tail _) (by simp [Nat.add_assoc])

/-- A function around its body. -/
theorem scoped_function (scope : Scope) {l : Location} {id : Nat} {name : String}
    {parameters : List String} {body : Node} {base : Nat}
    (inner : Scoped scope.environment parameters body.definitions
      (body.sites { scope with parameters } (base + 1)) (base + 1)
      (layout body { scope with parameters } (base + 1))) :
    Scoped scope.environment scope.parameters (Node.function l id name parameters body).definitions
      ((Node.function l id name parameters body).sites scope base) base
      (layout (.function l id name parameters body) scope base) := by
  have nonempty := Fragment.size_closed_pos (layout body { scope with parameters } (base + 1))
    (base + 1)
  exact Scoped.function (d := ⟨l, id, name, parameters, body⟩) inner.closed nonempty

mutual

/-- A statement has its sites, by induction on the tree.  The functions of a for loop are in another
order than its code. -/
theorem scoped_statement {n : Nat} {allowed : Allowed} (env : Environment) : (node : Node) →
    (parameters : List String) → IsStatement n allowed node →
    (∀ o ∈ node.occurrences parameters, o.Valid env) → (base : Nat) →
    Scoped env parameters node.definitions (node.sites ⟨env, parameters⟩ base) base
      (layout node ⟨env, parameters⟩ base)
  | .block _ statements, ps, h, valid, base => by
      simp only [Node.occurrences, List.forall_mem_cons] at valid
      exact scoped_statements env statements ps h valid.2 base
  | .returns _ none, _, _, _, _ => .ofCode (by simp [Instruction.touches])
  | .returns _ (some value), ps, h, valid, base => by
      simp only [Node.occurrences, occurrencesOfOptional, List.forall_mem_cons] at valid
      exact (scoped_expression ⟨env, ps⟩ value h valid.2 base).appendPlain (.one rfl) rfl
  | .discard _ value, ps, h, valid, base => by
      simp only [Node.occurrences, List.forall_mem_cons] at valid
      exact (scoped_expression ⟨env, ps⟩ value h valid.2 base).appendPlain (.one rfl) rfl
  | .branch _ condition accepted none, ps, h, valid, base => by
      simp only [Node.occurrences, occurrencesOfOptional, List.forall_mem_cons,
        List.forall_mem_append] at valid
      rw [Node.sites, sitesOfOptional, List.append_nil, Node.definitions,
        definitionsOfOptional, List.append_nil]
      exact (scoped_expression ⟨env, ps⟩ condition h.1 valid.2.1.1 base).append
        ((scoped_statement env accepted ps h.2.1 valid.2.1.2 _).jumpOver fun _ => rfl) rfl
  | .branch _ condition accepted (some otherwise), ps, h, valid, base => by
      simp only [Node.occurrences, occurrencesOfOptional, List.forall_mem_cons,
        List.forall_mem_append] at valid
      exact (scoped_expression ⟨env, ps⟩ condition h.1 valid.2.1.1 base).branch
        (scoped_statement env accepted ps h.2.1 valid.2.1.2 _)
        (scoped_statement env otherwise ps h.2.2 valid.2.2 _)
  | .switch _ kind value cases fallback, ps, h, valid, base => by
      simp only [Node.occurrences, List.forall_mem_cons, List.forall_mem_append] at valid
      exact (scoped_expression ⟨env, ps⟩ value h.1 valid.2.1.1.1 base).switch
        (scoped_tests ⟨env, ps⟩ cases h.2.1 valid.2.1.1.2 _ _)
        (scoped_bodies env cases kind ps h.2.1 valid.2.1.2 _)
        (scoped_optional env fallback ps h.2.2 valid.2.2 _) (by simp only [size_layoutTests]) _ _
  | .assign _ none target value, ps, h, valid, base => by
      simp only [Node.occurrences, List.forall_mem_cons, List.forall_mem_append] at valid
      have both := (scoped_target ⟨env, ps⟩ h.1 valid.1 valid.2.1 base).append
        (scoped_expression ⟨env, ps⟩ value h.2 valid.2.2 _) rfl
      exact scoped_stored ⟨env, ps⟩ both valid.1
  | .assign _ (some op) target value, ps, h, valid, base => by
      simp only [Node.occurrences, List.forall_mem_cons, List.forall_mem_append] at valid
      have both := (scoped_current ⟨env, ps⟩ target h.1 valid.1 valid.2.1 base).append
        (scoped_expression ⟨env, ps⟩ value h.2 valid.2.2 _) rfl
      have stored := scoped_stored ⟨env, ps⟩
        (both.appendPlain (.one (i := .binaryOp op) rfl) rfl) valid.1
      rwa [Fragment.one, Fragment.append_ofCode_one] at stored
  | .adjust _ kind target direction, ps, h, valid, base => by
      simp only [Node.occurrences, List.forall_mem_cons] at valid
      exact scoped_adjust kind direction
        (scoped_current ⟨env, ps⟩ target h.2 valid.1.1 valid.2 base) valid.1.1
  | .whileLoop _ condition body, ps, h, valid, base => by
      simp only [Node.occurrences, List.forall_mem_cons, List.forall_mem_append] at valid
      have turn := (scoped_statement env body ps h.2 valid.2.2
        (base + (layout condition ⟨env, ps⟩ base).size + 1)).appendPlain
          (.one (i := .jump (.address base)) rfl) rfl
      exact (scoped_expression ⟨env, ps⟩ condition h.1 valid.2.1 base).loop turn _ _
  | .doLoop _ body condition, ps, h, valid, base => by
      simp only [Node.occurrences, List.forall_mem_cons, List.forall_mem_append] at valid
      exact (scoped_statement env body ps h.1 valid.2.1 base).loopBefore
        (scoped_expression ⟨env, ps⟩ condition h.2 valid.2.2 _) _ _
  | .forLoop _ init condition post body, ps, h, valid, base => by
      simp only [Node.occurrences, List.forall_mem_cons, List.forall_mem_append] at valid
      have loop := (scoped_expression ⟨env, ps⟩ condition h.2.1 valid.2.1.1.2
        (base + (layout init ⟨env, ps⟩ base).size)).loopWithStep
        (scoped_statement env body ps h.2.2.2 valid.2.1.2 _)
        (scoped_statement env post ps h.2.2.1 valid.2.2 _)
      have all (x y : Option Nat) :=
        (scoped_statement env init ps h.1 valid.2.1.1.1 base).append (loop x y) rfl
      simp only [← Fragment.append_assoc, ← List.append_assoc] at all
      refine (all _ _).perm ?_
      rw [Node.definitions, List.append_assoc, List.append_assoc]
      exact List.perm_append_comm.append_left _
  | .leave _, _, _, _, _ | .proceed _, _, _, _, _ | .back _, _, _, _, _ => .one rfl
  | .label _ name statement, ps, h, valid, base => by
      simp only [Node.occurrences, List.forall_mem_cons] at valid
      exact (Scoped.plain [(name, base)] [] (by simp) (by simp)).append
        (scoped_statement env statement ps h valid.2 base) rfl
  | .jump _ name, _, _, _, base | .callLabel _ name, _, _, _, base => .await rfl name
  | .directive .., _, ⟨rfl, rfl⟩, _, _ => .empty
  | .function _ _ _ parameters body, ps, h, valid, base => by
      simp only [Node.occurrences, List.forall_mem_cons] at valid
      exact scoped_function ⟨env, ps⟩
        (scoped_statement env body parameters h.2 valid.2 (base + 1))

theorem scoped_statements {n : Nat} {allowed : Allowed} (env : Environment) :
    (nodes : List Node) → (parameters : List String) → AreStatements n allowed nodes →
    (∀ o ∈ occurrencesOfAll parameters nodes, o.Valid env) → (base : Nat) →
    Scoped env parameters (definitionsOf nodes) (sitesOfAll nodes ⟨env, parameters⟩ base) base
      (layoutAll nodes ⟨env, parameters⟩ base)
  | [], _, _, _, _ => .empty
  | node :: nodes, ps, h, valid, base => by
      simp only [occurrencesOfAll, List.forall_mem_append] at valid
      exact (scoped_statement env node ps h.1 valid.1 base).append
        (scoped_statements env nodes ps h.2 valid.2 _) rfl

theorem scoped_optional {n : Nat} {allowed : Allowed} (env : Environment) :
    (node : Option Node) → (parameters : List String) → IsOptional n allowed node →
    (∀ o ∈ occurrencesOfOptional parameters node, o.Valid env) → (base : Nat) →
    Scoped env parameters (definitionsOfOptional node)
      (sitesOfOptional node ⟨env, parameters⟩ base) base
      (layoutOptional node ⟨env, parameters⟩ base)
  | none, _, _, _, _ => .empty
  | some node, ps, h, valid, base => scoped_statement env node ps h valid base

theorem scoped_bodies {n : Nat} {allowed : Allowed} (env : Environment) :
    (cases : List SwitchCase) → (kind : SwitchKind) → (parameters : List String) →
    AreCases n allowed cases → (∀ o ∈ occurrencesOfBodies parameters cases, o.Valid env) →
    (base : Nat) →
    Scoped env parameters (definitionsOfCases cases)
      (sitesOfBodies cases kind ⟨env, parameters⟩ base) base
      (layoutBodies cases kind ⟨env, parameters⟩ base)
  | [], _, _, _, _, _ => .empty
  | .mk _ body :: cases, kind, ps, h, valid, base => by
      simp only [occurrencesOfBodies, List.forall_mem_append] at valid
      have ends : ∀ i ∈ if kind = .select then [Instruction.jump .breakPoint] else [],
          i.touches = false := by
        cases kind <;> simp [Instruction.touches]
      have first := (scoped_statement env body ps h.2.1 valid.1 base).appendPlain
        (.ofCode ends) rfl
      exact first.append (scoped_bodies env cases kind ps h.2.2 valid.2 _) rfl

end

end Generate

end HostScript
