import HostScript.Proofs.Rereading.Statements
import HostScript.Proofs.Scripts

/-!
# HostScript.Proofs.RoundTrip

Reading a script, writing its tree and reading it again.  The second tree is like the first one, but
its functions are numbered as they are written, and a tree does not know where the default of a
switch stood: it is written behind the cases.  A function that was defined in a default before a
function in a case comes behind it then.
-/

namespace HostScript

/-- The tree that a new session reads from tokens, if it can. -/
def buildTree (env : Environment) (options : Options) (tokens : Array Token) : Option Node :=
  match Compile.build { Session.start env options with tokens } with
  | .ok _ s => s.root
  | .error _ _ => none

/-- Tokens of these kinds, all at one place. -/
def tokensOf (kinds : List TokenKind) : Array Token := (kinds.map (Token.mk · default)).toArray

theorem kinds_tokensOf (kinds : List TokenKind) :
    (tokensOf kinds).toList.map (·.kind) = kinds := by
  simp [tokensOf, Function.comp_def]

/-- Where a function stands among those that are written with a tree. -/
def Node.place (root : Node) (id : Nat) : Nat := (root.definitions.map (·.id)).idxOf id

variable {env : Environment} {options : Options} {root : Node}

/-- When the reader finds a tree, it is the one that the session keeps. -/
theorem Compile.build_of_script {s : Session} {state : Parse.State}
    (run : Parse.script s.input s.reader = .ok root state) :
    ∃ s', build s = .ok ⟨⟩ s' ∧ s'.root = some root := by
  have parsed : parsing Parse.script s = .ok root (s.withReader state) := by
    unfold parsing
    rw [run]
  exact ⟨_, bind_of_ok parsed, rfl⟩

theorem buildTree_of_script {tokens : Array Token} {state : Parse.State}
    (run : Parse.script ⟨env, tokens, (Session.start env options).eof⟩ {} = .ok root state) :
    buildTree env options tokens = some root := by
  obtain ⟨s, built, tree⟩ :=
    Compile.build_of_script (s := { Session.start env options with tokens }) run
  rw [buildTree, built]
  exact tree

/-- Distinct ids are placed one after the other. -/
theorem place_definitions (distinct : (root.definitions.map (·.id)).Nodup) :
    root.definitions.map (fun d => root.place d.id) = List.range root.definitions.length := by
  refine List.ext_getElem (by simp) fun i inside _ => ?_
  rw [List.length_map] at inside
  have there := distinct.idxOf_getElem i (by simpa using inside)
  simpa [Node.place] using there

/-- Reading what is written with a tree gives the tree back, whichever way its functions are
numbered. -/
theorem script_unparse {options : Options} {s : Session} (plain : env.hostDirectives = [])
    (holds : s.Holds env options root) {tokens : Array Token} (eof : Token)
    (written : tokens.toList.map (·.kind) = root.unparseBody ++ [.eof]) {number : Nat → Nat}
    (numbers : root.definitions.map (fun d => number d.id) =
      List.range root.definitions.length) :
    Meets Never (Parse.script ⟨env, tokens, eof⟩) {} fun found _ =>
      found.bare id = root.bare number := by
  have admits : Admits env number {} root.definitions := by
    refine admits_of_nodup holds.enrolled.free ?_ ?_
    · simpa [FunctionTable.signatures] using holds.enrolled.nodup_signatures
    · rw [numbers, List.range_eq_range']
      rfl
  have readable : Parse.ReadableBody ⟨env, tokens, eof⟩ number .nowhere root :=
    Parse.body_readable plain root .nowhere holds.block holds.grammar
  exact Parse.script_found readable ⟨rfl, rfl, written⟩ admits

/-- The tree of a script can be written and read again: the second tree is like the first but for
the locations, with its functions numbered as they are written.  They keep their ids exactly when
they were numbered like that before. -/
theorem buildTree_unparse {text : String} (plain : env.hostDirectives = [])
    (read : readTree env options text = some root) {tokens : Array Token} (options' : Options)
    (written : tokens.toList.map (·.kind) = root.unparseBody ++ [.eof]) :
    ∃ found, buildTree env options' tokens = some found ∧
      found.bare id = root.bare root.place ∧
      (found.bare id = root.bare id ↔
        root.definitions.map (·.id) = List.range root.definitions.length) := by
  obtain ⟨s, -, holds⟩ := readTree_eq_some plain read
  have places := place_definitions holds.enrolled.nodup_ids
  obtain ⟨found, state, run, same⟩ :=
    (script_unparse plain holds (Session.start env options').eof written places).exists_ok
  refine ⟨found, buildTree_of_script run, same, fun unmoved => ?_, fun ordered => ?_⟩
  · -- the functions of the second tree are numbered from 0 on, those of `root` as they are
    calc root.definitions.map (·.id)
      _ = (root.bare id).definitions.map (·.id) := (definitions_bare id root).symm
      _ = (root.bare root.place).definitions.map (·.id) := by rw [← unmoved, same]
      _ = List.range root.definitions.length := by rw [definitions_bare, places]
  · exact (Meets.iff_of_ok run).1 (script_unparse plain holds _ written ordered)

/-- A host that knows how to make lists of two. -/
def listHost : Environment := { templates := [{ name := "List", staticFunctions := [⟨"new", 2⟩] }] }

def listScript : String :=
  "label again: do \x7b list = new List(1, -x); if !list.has(2 * n + 1) n++; else jump again " ++
    "\x7d while n-- < 7 function f(a, b) \x7b return a \x7d"

theorem buildTree_unparse_listScript :
    ∃ root found, readTree listHost {} listScript = some root ∧
      buildTree listHost {} (tokensOf (root.unparseBody ++ [.eof])) = some found ∧
      found.bare id = root.bare id := by
  have known : (readTree listHost {} listScript).map (fun root => root.definitions.map (·.id)) =
      some [0] := by decide +kernel
  obtain ⟨root, read, ids⟩ := Option.map_eq_some_iff.1 known
  have one : root.definitions.length = 1 := by simpa using congrArg List.length ids
  obtain ⟨found, built, -, kept⟩ :=
    buildTree_unparse rfl read {} (kinds_tokensOf (root.unparseBody ++ [.eof]))
  exact ⟨root, found, read, built, kept.2 (by rw [ids, one]; rfl)⟩

/-- A script whose default stands before its case, with a function in each of them. -/
def defaultFirst : String :=
  "switch x \x7b default: function f() \x7b\x7d case 1: function g() \x7b\x7d \x7d"

/-- Reading what is written with a tree does not always give its functions the ids that they had. -/
theorem not_buildTree_unparse_keeps_ids :
    ¬ ∀ (env : Environment) (options : Options) (text : String) (root : Node)
        (tokens : Array Token), env.hostDirectives = [] → readTree env options text = some root →
      tokens.toList.map (·.kind) = root.unparseBody ++ [.eof] →
      ∃ found, buildTree env options tokens = some found ∧ found.bare id = root.bare id := by
  intro keeps
  have known : (readTree {} {} defaultFirst).map (fun root => root.definitions.map (·.id)) =
      some [1, 0] := by decide +kernel
  obtain ⟨root, read, before⟩ := Option.map_eq_some_iff.1 known
  have after : ((readTree {} {} defaultFirst).bind fun root =>
      buildTree {} {} (tokensOf (root.unparseBody ++ [.eof]))).map
        (fun found => found.definitions.map (·.id)) = some [0, 1] := by decide +kernel
  obtain ⟨found, built, same⟩ := keeps {} {} defaultFirst root
    (tokensOf (root.unparseBody ++ [.eof])) rfl read (kinds_tokensOf _)
  have ids := congrArg (fun node => node.definitions.map (·.id)) same
  simp only [definitions_bare, id_eq] at ids
  simp only [read, Option.bind_some, built, Option.map_some, Option.some.injEq] at after
  rw [before, after] at ids
  exact absurd ids (by decide)

end HostScript
