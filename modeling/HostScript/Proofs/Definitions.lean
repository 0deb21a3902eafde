import HostScript.Node.Parse.Statement

/-!
# HostScript.Proofs.Definitions

The functions that a tree defines.  `Node.definitions` lists them as they are written, and
`Enrolled` says that reading a part of a script registers exactly those in it, each under the id
that its definition carries.
-/

namespace HostScript

/-- The definition of a function in a tree. -/
structure Definition where
  location : Location
  id : Nat
  name : String
  parameters : List String
  body : Node

namespace Definition

def node (d : Definition) : Node := .function d.location d.id d.name d.parameters d.body

def signature (d : Definition) : Signature := ⟨d.name, d.parameters.length⟩

/-- The function as it is registered, without a place. -/
def entry (d : Definition) : ScriptFunction := { name := d.name, parameters := d.parameters }

end Definition

mutual

/-- The function definitions in a tree, in the order in which they end when the tree is written with
the default of every switch behind its cases. -/
def Node.definitions : Node → List Definition
  | .block _ statements => definitionsOf statements
  | .branch _ _ accepted otherwise => accepted.definitions ++ definitionsOfOptional otherwise
  | .switch _ _ _ cases fallback => definitionsOfCases cases ++ definitionsOfOptional fallback
  | .whileLoop _ _ body => body.definitions
  | .doLoop _ body _ => body.definitions
  | .forLoop _ init _ post body => init.definitions ++ post.definitions ++ body.definitions
  | .label _ _ statement => statement.definitions
  | .directive _ _ _ statements => definitionsOf statements
  | .function location id name parameters body =>
    body.definitions ++ [⟨location, id, name, parameters, body⟩]
  | _ => []

def definitionsOf : List Node → List Definition
  | [] => []
  | node :: nodes => node.definitions ++ definitionsOf nodes

def definitionsOfOptional : Option Node → List Definition
  | none => []
  | some node => node.definitions

def definitionsOfCases : List SwitchCase → List Definition
  | [] => []
  | .mk _ body :: cases => body.definitions ++ definitionsOfCases cases

end

/-! ## registered functions -/

def ScriptFunction.signature (f : ScriptFunction) : Signature := ⟨f.name, f.arity⟩

namespace FunctionTable

def signatures (t : FunctionTable) : List Signature := t.functions.toList.map (·.signature)

@[simp] theorem length_signatures (t : FunctionTable) : t.signatures.length = t.size := by
  simp [signatures, size]

/-- A function is not found exactly if its signature is not there. -/
theorem find?_eq_none_iff {t : FunctionTable} {name : String} {argc : Nat} :
    t.find? name argc = none ↔ ⟨name, argc⟩ ∉ t.signatures := by
  simp [find?, signatures, ScriptFunction.signature, ScriptFunction.answers]

@[simp] theorem size_register (t : FunctionTable) (name : String) (parameters : List String) :
    (t.register name parameters).size = t.size + 1 := by
  simp [size, register]

/-- A new function has its signature behind the others. -/
@[simp] theorem signatures_register (t : FunctionTable) (name : String) (parameters : List String) :
    (t.register name parameters).signatures = t.signatures ++ [⟨name, parameters.length⟩] := by
  simp [signatures, register, ScriptFunction.signature, ScriptFunction.arity]

/-- The place of a function is no part of what it answers to. -/
theorem signatures_place (t : FunctionTable) (id start stop : Nat) :
    (t.place id start stop).signatures = t.signatures := by
  apply List.ext_getElem?
  intro k
  simp only [signatures, place, Array.toList_modify, List.getElem?_map, List.getElem?_modify]
  cases t.functions.toList[k]? with
  | none => simp
  | some f => by_cases here : id = k <;> simp [here, ScriptFunction.signature, ScriptFunction.arity]

end FunctionTable

/-- A new function has no rival when neither the script nor the host uses its name. -/
theorem Parse.rival?_eq_none_iff {env : Environment} {t : FunctionTable} {name : String}
    {argc : Nat} :
    rival? env t name argc = none ↔
      ⟨name, argc⟩ ∉ t.signatures ∧ rival? env {} name argc = none := by
  rw [← FunctionTable.find?_eq_none_iff]
  have empty : FunctionTable.find? {} name argc = none := rfl
  unfold rival?
  rw [empty]
  cases t.find? name argc with
  | none => simp
  | some f => simp

/-- Between two states of the table exactly the functions `ds` were registered. -/
structure Enrolled (env : Environment) (before after : FunctionTable) (ds : List Definition) :
    Prop where
  added : ∃ fs, after.functions.toList = before.functions.toList ++ fs ∧
    (ds.map fun d => (d.entry, d.id)).Perm (fs.zipIdx before.size)
  /-- No two functions answer to the same calls. -/
  distinct : before.signatures.Nodup → after.signatures.Nodup
  /-- The host uses none of their names. -/
  free : ∀ d ∈ ds, Parse.rival? env {} d.name d.parameters.length = none

namespace Enrolled

variable {env : Environment} {t t₁ t₂ : FunctionTable} {ds es : List Definition}

theorem refl (t : FunctionTable) : Enrolled env t t [] where
  added := ⟨[], by simp, by simp⟩
  distinct := id
  free := nofun

/-- Functions enter the table one list after the other. -/
theorem trans (first : Enrolled env t t₁ ds) (second : Enrolled env t₁ t₂ es) :
    Enrolled env t t₂ (ds ++ es) where
  added := by
    obtain ⟨fs, list₁, perm₁⟩ := first.added
    obtain ⟨gs, list₂, perm₂⟩ := second.added
    refine ⟨fs ++ gs, by rw [list₂, list₁, List.append_assoc], ?_⟩
    have size : t₁.size = t.size + fs.length := by
      have := congrArg List.length list₁
      simpa [FunctionTable.size] using this
    rw [List.map_append, List.zipIdx_append, ← size]
    exact perm₁.append perm₂
  distinct := second.distinct ∘ first.distinct
  free := List.forall_mem_append.2 ⟨first.free, second.free⟩

/-- The order of the definitions does not matter. -/
theorem perm (h : Enrolled env t t₁ ds) (same : ds.Perm es) : Enrolled env t t₁ es where
  added := by
    obtain ⟨fs, list, perm⟩ := h.added
    exact ⟨fs, list, (same.symm.map _).trans perm⟩
  distinct := h.distinct
  free d found := h.free d (same.mem_iff.2 found)

/-- A function enters the table with the next id. -/
theorem register (t : FunctionTable) {d : Definition} (id : d.id = t.size)
    (free : Parse.rival? env t d.name d.parameters.length = none) :
    Enrolled env t (t.register d.name d.parameters) [d] := by
  obtain ⟨new, host⟩ := Parse.rival?_eq_none_iff.1 free
  refine ⟨⟨[d.entry], by simp [FunctionTable.register, Definition.entry], by simp [id]⟩,
    fun distinct => ?_, by simpa using host⟩
  rw [FunctionTable.signatures_register, List.nodup_append]
  refine ⟨distinct, by simp, fun s old s' same => ?_⟩
  rintro rfl
  exact new (by simpa [List.mem_singleton.1 same] using old)

/-! ## a whole script -/

/-- The functions of the table are those that are defined, each under its id. -/
theorem get?_eq_some_iff (h : Enrolled env {} t ds) {id : Nat} {f : ScriptFunction} :
    t.get? id = some f ↔ ∃ d ∈ ds, d.id = id ∧ d.entry = f := by
  obtain ⟨fs, list, perm⟩ := h.added
  have functions : t.functions.toList = fs := by simpa using list
  have member : (f, id) ∈ fs.zipIdx ↔ ∃ d ∈ ds, d.id = id ∧ d.entry = f := by
    rw [show fs.zipIdx = fs.zipIdx ({} : FunctionTable).size from rfl, ← perm.mem_iff]
    simp [and_comm]
  rw [← member, List.mem_zipIdx_iff_getElem?, ← functions, FunctionTable.get?,
    Array.getElem?_toList]

/-- The functions of the table answer to what the definitions say. -/
theorem perm_signatures (h : Enrolled env {} t ds) : (ds.map (·.signature)).Perm t.signatures := by
  obtain ⟨fs, list, perm⟩ := h.added
  have functions : t.functions.toList = fs := by simpa using list
  have entries := (perm.map Prod.fst).map ScriptFunction.signature
  rw [List.zipIdx_map_fst, ← functions, List.map_map, List.map_map] at entries
  exact entries

/-- The signatures in a table are those of the definitions that have entered it. -/
theorem mem_signatures_iff (h : Enrolled env {} t ds) {signature : Signature} :
    signature ∈ t.signatures ↔ ∃ d ∈ ds, d.signature = signature := by
  rw [← h.perm_signatures.mem_iff, List.mem_map]

/-- No two definitions share an id. -/
theorem nodup_ids (h : Enrolled env {} t ds) : (ds.map (·.id)).Nodup := by
  obtain ⟨fs, -, perm⟩ := h.added
  have ids := perm.map Prod.snd
  rw [List.zipIdx_map_snd, List.map_map] at ids
  exact ids.nodup_iff.2 List.nodup_range'

/-- No two definitions share a name and a number of parameters. -/
theorem nodup_signatures (h : Enrolled env {} t ds) : (ds.map (·.signature)).Nodup :=
  h.perm_signatures.nodup_iff.2 (h.distinct (by simp [FunctionTable.signatures]))

end Enrolled

end HostScript
