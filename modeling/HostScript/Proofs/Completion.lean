import HostScript.Proofs.Compilable

/-!
# HostScript.Proofs.Completion

What a compilation that succeeded has gone through.  `Proofs.Linking` takes code whose jumps are all
accounted for and says that linking it and checking it cannot go wrong.  Here it is the other way
round: the linking and the checks did not fail, so every jump that waited for a label was there and
found one, and every jump and every call of the program has somewhere to go.  Nothing has to be
known of the system macros of the host for this.
-/

namespace HostScript

variable {env : Environment} {options : Options} {text : String} {root : Node}
  {program : Program} {g g' : Generator} {u : Unit}

/-! ## linking -/

namespace Generate

/-- A label is only linked to where a jump is. -/
theorem jumps_of_linkJump {name : String} {address : Nat} {l : Location}
    (run : linkJump name address l g = .ok u g') : g.Jumps address := by
  unfold linkJump at run
  rw [get_bind] at run
  cases found : g.labels.find? name with
  | none =>
      simp only [found] at run
      exact absurd run fail_ne_ok
  | some target =>
      simp only [found] at run
      obtain ⟨_, g₁, recorded, linked⟩ := bind_eq_ok.1 run
      by_cases there : g.code.hasTarget address = true
      · unfold Code.hasTarget at there
        cases at_ : g.code.instructions[address]? with
        | none => simp [at_] at there
        | some i => exact ⟨i, by simpa [Generator.listing] using at_, by simpa [at_] using there⟩
      · rw [if_neg there] at linked
        exact absurd linked fail_ne_ok

theorem relinked_of_linkJump {name : String} {address : Nat} {l : Location}
    (run : linkJump name address l g = .ok u g') :
    Relinked (fun n a => n = name ∧ a = address) g g' :=
  (linkJump_relinks name l (jumps_of_linkJump run)).post_of_ok run

theorem relinked_of_linkJumps {name : String} {jumps : List (Nat × Location)}
    (run : linkJumps name jumps g = .ok u g') :
    Relinked (fun n a => n = name ∧ ∃ l, (a, l) ∈ jumps) g g' := by
  induction jumps generalizing g with
  | nil =>
      obtain ⟨-, rfl⟩ := pure_eq_ok.1 run
      exact (Relinked.refl g).congr (by simp)
  | cons jump jumps ih =>
      obtain ⟨_, g₁, run₁, run₂⟩ := bind_eq_ok.1 run
      have first := relinked_of_linkJump run₁
      exact (first.trans (ih run₂)).congr (by simp [exists_or, and_or_left, Prod.ext_iff])

theorem relinked_of_linkEntries {entries : List (String × List (Nat × Location))}
    (run : linkEntries entries g = .ok u g') :
    Relinked (fun n a => ∃ jumps l, (n, jumps) ∈ entries ∧ (a, l) ∈ jumps) g g' := by
  induction entries generalizing g with
  | nil =>
      obtain ⟨-, rfl⟩ := pure_eq_ok.1 run
      exact (Relinked.refl g).congr (by simp)
  | cons entry entries ih =>
      obtain ⟨_, g₁, run₁, run₂⟩ := bind_eq_ok.1 run
      have first := relinked_of_linkJumps run₁
      exact (first.trans (ih run₂)).congr
        (by simp [or_and_right, exists_or, and_assoc, Prod.ext_iff])

/-- Linking that succeeds points the jumps that wait for a label to it, and changes nothing else. -/
theorem relinked_of_linkLabels (run : linkLabels g = .ok u g') : Relinked g.Waits g g' := by
  have pending (name : String) (address : Nat) : g.Waits name address ↔
      ∃ jumps l, (name, jumps) ∈ g.pending.entries ∧ (address, l) ∈ jumps := by
    simp [Generator.Waits, NameMap.mem_entries_iff]
  have linked : Relinked _ { g with pending := .empty } g' := relinked_of_linkEntries run
  have same := linked.congr pending
  exact ⟨same.labels, same.functions, same.here, same.kept, same.moved⟩

/-! ## finishing -/

/-- A program that comes of code is that code, linked and closed.  Its calls all go to a function
that is known. -/
theorem finished_of_finish {stop : Location} (run : finish env stop g = .ok program g') :
    Finished g program ∧ ∀ name argc, .call name argc ∈ program.instructions →
      g.isResolved env name argc = true := by
  obtain ⟨_, g₁, run₁, run⟩ := bind_eq_ok.1 run
  obtain ⟨_, g₂, run₂, run⟩ := bind_eq_ok.1 run
  obtain ⟨_, _, run₃, run⟩ := bind_eq_ok.1 run
  obtain ⟨targets, rfl⟩ := check_eq_ok.1 run₃
  obtain ⟨_, _, run₄, run⟩ := bind_eq_ok.1 run
  obtain ⟨calls, rfl⟩ := check_eq_ok.1 run₄
  have same : program = g₂.program := by
    obtain ⟨_, _, got, run⟩ := bind_eq_ok.1 run
    obtain ⟨_, _, recorded, run⟩ := bind_eq_ok.1 run
    rw [← (pure_eq_ok.1 run).1, (get_eq_ok.1 got).1]
  have linked := relinked_of_linkLabels run₁
  have closed := (closeProgram_closes stop g₁).post_of_ok run₂
  have functions := closed.functions.trans linked.functions
  subst same
  constructor
  · constructor
    · exact ⟨g₁, g₂, linked, closed, rfl⟩
    · exact closed.labels.trans linked.labels
    · exact congrArg FunctionTable.grouped functions
    · intro i target found jumps
      obtain ⟨address, there⟩ := List.mem_iff_getElem?.1 found
      have passed := targets address i there
      cases target with
      | address a =>
          have inside : a < g₂.here := by
            by_cases inside : a < g₂.here
            · exact inside
            · simp [Generator.targetFault?, jumps, inside] at passed
          rw [← Generator.length_listing] at inside
          exact ⟨a, inside, rfl⟩
      | _ => simp [Generator.targetFault?, jumps] at passed
  · intro name argc found
    obtain ⟨address, there⟩ := List.mem_iff_getElem?.1 found
    have passed := Generator.callFault?_eq_none_iff.1 (calls address _ there) ⟨name, argc⟩ rfl
    rwa [Generator.isResolved, functions] at passed

end Generate

/-! ## whole scripts -/

/-- What lies between a script and its program: the tree, in which every node is in order and no
label is declared twice, and its code. -/
structure Completes (env : Environment) (options : Options) (root : Node) (s : Session)
    (g : Generator) (program : Program) : Prop where
  holds : s.Holds env options root
  valid : ∀ o ∈ root.occurrences options.mainArguments, o.Valid env
  distinct : (labelsOf (root.occurrences options.mainArguments)).Nodup
  extends_ : Extends s.generator (Generate.layout root ⟨env, options.mainArguments⟩ 0) g
  finished : Finished g program
  resolved : ∀ name argc, .call name argc ∈ program.instructions →
    g.isResolved env name argc = true

/-- A script that compiles has a tree, whose layout is the code that its program is made of. -/
theorem completes_of_compile (plain : env.hostDirectives = [])
    (h : compile env options text = .ok program) :
    ∃ root s g, readTree env options text = some root ∧
      Completes env options root s g program := by
  obtain ⟨s, s', g, read, compiled, ran⟩ := steps_of_compileWith h
  obtain ⟨root, holds⟩ := Compile.read_eq_ok plain read
  have tree : readTree env options text = some root := by
    rw [readTree, Compile.read, read]
    exact holds.tree
  obtain ⟨valid, distinct⟩ := (Compile.compileRoot_succeeds_iff holds).1 ⟨_, s', compiled⟩
  obtain ⟨same, -⟩ :=
    (Compile.compileRoot_faultless holds.fresh holds.tree holds.statement).post_of_ok compiled
  rw [same] at ran
  obtain ⟨finished, resolved⟩ := Generate.finished_of_finish ran
  exact ⟨root, s, s'.generator, tree, holds, valid, distinct,
    Compile.compileRoot_extends holds compiled, finished, resolved⟩

end HostScript
