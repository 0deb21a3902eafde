import HostScript.Proofs.Parallel.Emission
import HostScript.Proofs.Parallel.Reading
import HostScript.Proofs.Resolution

/-!
# HostScript.Proofs.Parallel.Scripts

Compiling the same tokens twice side by side.  Reading and code generation have modules of their
own; here the code is linked and checked, and the steps are put together.  `compileTokens` is what
compiling does once the tokens of a script are there.  Its result for tokens at other places, and
for another host that agrees on the words among them, is the same result at its place.
-/

namespace HostScript

variable {c : Comparison}

/-! ## linking -/

namespace Comparison.Generators

variable {g g' : Generator} (h : c.Generators g g')

include h

/-- Both have an instruction with a target at an address or none has. -/
theorem hasTarget (address : Nat) : g'.code.hasTarget address = g.code.hasTarget address := by
  unfold Code.hasTarget
  rw [h.instructions]

/-- The place of an instruction is the moved one. -/
theorem locationOf (stop : Location) (address : Nat) :
    g'.locationOf (stop.move c.place) address = (g.locationOf stop address).move c.place := by
  unfold Generator.locationOf
  rw [h.locations, h.sources, Array.getElem?_map]
  cases g.code.locations[address]? <;> rfl

/-- A target is missing for both or for none. -/
theorem targetFault? (address : Nat) (i : Instruction) :
    g'.targetFault? address i = g.targetFault? address i := by
  unfold Generator.targetFault?
  rw [h.here]

/-- Both hosts accept the same calls of the code. -/
theorem isResolved {name : String} {argc : Nat} (called : ⟨name, argc⟩ ∈ g.calls) :
    g'.isResolved c.second name argc = g.isResolved c.first name argc := by
  have hosts : c.second.globalFunction? name = c.first.globalFunction? name := (h.calls _ called).1
  have builtins : c.second.builtin? name argc = c.first.builtin? name argc :=
    (h.calls _ called).2 argc
  unfold Generator.isResolved
  rw [h.functions, hosts, builtins]

/-- A call is in order for both or for none, since both hosts know the same functions by its
name. -/
theorem callFault? {i : Instruction} (found : i ∈ g.code.instructions.toList) :
    g'.callFault? c.second i = g.callFault? c.first i := by
  cases i with
  | call name argc =>
      have called : ⟨name, argc⟩ ∈ g.calls := List.mem_filterMap.2 ⟨_, found, rfl⟩
      simp only [Generator.callFault?, h.isResolved called]
  | _ => rfl

/-- The finished programs are the same but for places. -/
theorem program : g'.program = g.program.move c.place := by
  unfold Generator.program Program.move
  rw [h.instructions, h.locations, h.sources, h.functions, h.labels, Array.toList_map]

end Comparison.Generators

namespace Generate

/-- A label that a jump waits for is at the same address for both. -/
theorem linkJump_alike (name : String) (address : Nat) (l : Location) :
    c.Generates Eq (linkJump name address l) (linkJump name address (l.move c.place)) := by
  refine Parallel.get.bind fun g g' alike => ?_
  rw [alike.labels]
  cases g.labels.find? name with
  | none => exact fail_alike _ _
  | some target =>
      refine (record_alike _ _).bindEq fun _ => ?_
      rw [alike.hasTarget]
      cases g.code.hasTarget address with
      | true => exact .modify fun _ _ alike => alike.setTarget address _
      | false => exact fail_alike _ _

theorem linkJumps_alike (name : String) (jumps : List (Nat × Location)) :
    c.Generates Eq (linkJumps name jumps)
      (linkJumps name (jumps.map (Comparison.moveJump c.place))) := by
  induction jumps with
  | nil => exact .pure rfl
  | cons jump jumps ih => exact (linkJump_alike name jump.1 jump.2).bindEq fun _ => ih

theorem linkEntries_alike (entries : List (String × List (Nat × Location))) :
    c.Generates Eq (linkEntries entries)
      (linkEntries (entries.map fun e => (e.1, e.2.map (Comparison.moveJump c.place)))) := by
  induction entries with
  | nil => exact .pure rfl
  | cons entry entries ih => exact (linkJumps_alike entry.1 entry.2).bindEq fun _ => ih

/-- Both link the same jumps. -/
theorem linkLabels_alike : c.Generates Eq linkLabels linkLabels := by
  refine Parallel.get.bind fun g g' alike => ?_
  have emptied : c.Generates Eq (modify fun g => { g with pending := .empty })
      (modify fun g => { g with pending := .empty }) :=
    .modify fun _ _ alike => { alike with pending := rfl }
  rw [alike.pending]
  exact emptied.bindEq fun _ => linkEntries_alike g.pending.entries

/-- Both put a return behind the code if it needs one. -/
theorem closeProgram_alike (stop : Location) :
    c.Generates Eq (closeProgram stop) (closeProgram (stop.move c.place)) := by
  refine Parallel.get.bind fun g g' alike => ?_
  rw [alike.fallsOffEnd]
  cases g.fallsOffEnd 0 with
  | true => exact (put_alike rfl stop).bindEq fun _ => put_alike rfl stop
  | false => exact .pure rfl

/-- A check only looks at the instructions that there are. -/
theorem firstFault_congr {check check' : Nat → Instruction → Option Cause}
    {code : List Instruction} (same : ∀ address, ∀ i ∈ code, check' address i = check address i)
    (address : Nat) :
    Generator.firstFault check' address code = Generator.firstFault check address code := by
  induction code generalizing address with
  | nil => rfl
  | cons i code ih =>
      unfold Generator.firstFault
      rw [same address i (by simp), ih fun address i found => same address i (by simp [found])]

/-- A check finds the same fault, or none, if both have the same faults. -/
theorem check_alike {fault? fault?' : Generator → Nat → Instruction → Option Cause}
    (stop : Location)
    (same : ∀ g g', c.Generators g g' → ∀ address, ∀ i ∈ g.code.instructions.toList,
      fault?' g' address i = fault? g address i) :
    c.Generates Eq (check stop fault?) (check (stop.move c.place) fault?') := by
  refine Parallel.get.bind fun g g' alike => ?_
  rw [alike.instructions, firstFault_congr (same g g' alike)]
  cases Generator.firstFault (fault? g) 0 g.code.instructions.toList with
  | none => exact .pure rfl
  | some fault =>
      obtain ⟨address, cause⟩ := fault
      simp only [alike.locationOf]
      exact fail_alike _ _

/-- The programs are the same but for the places of their instructions. -/
theorem finish_alike (stop : Location) :
    c.Generates (fun program program' => program' = program.move c.place) (finish c.first stop)
      (finish c.second (stop.move c.place)) := by
  have targets : c.Generates Eq (check stop fun g address i => g.targetFault? address i)
      (check (stop.move c.place) fun g address i => g.targetFault? address i) :=
    check_alike stop fun _ _ alike address i _ => alike.targetFault? address i
  have calls : c.Generates Eq (check stop fun g _ i => g.callFault? c.first i)
      (check (stop.move c.place) fun g _ i => g.callFault? c.second i) :=
    check_alike stop fun _ _ alike _ _ found => alike.callFault? found
  refine linkLabels_alike.bindEq fun _ => (closeProgram_alike stop).bindEq fun _ => ?_
  refine targets.bindEq fun _ => calls.bindEq fun _ => ?_
  refine Parallel.get.bind fun g g' alike => ?_
  exact (record_alike _ _).bindEq fun _ => .pure alike.program

end Generate

/-! ## sessions -/

/-- The same tokens, tree and code at another place. -/
structure Comparison.Sessions (c : Comparison) (s s' : Session) : Prop where
  first : s.environment = c.first
  second : s'.environment = c.second
  mainArguments : s'.options.mainArguments = s.options.mainArguments
  size : s'.tokens.size = s.tokens.size
  tokens : ∀ k : Nat, c.Words (s.tokens[k]?.getD s.eof) (s'.tokens[k]?.getD s'.eof)
  eof : s'.eof = s.eof.move c.place
  cursor : s'.cursor = s.cursor
  allowed : s'.allowed = s.allowed
  root : c.Optionals s.root s'.root
  generator : c.Generators s.generator s'.generator

/-- The steps side by side, with all that a session holds. -/
abbrev Comparison.Compiles {α β : Type} (c : Comparison) (post : α → β → Prop) (x : Compile α)
    (y : Compile β) : Prop :=
  Parallel c.place c.Sessions post x y

namespace Compile

variable {α β : Type} {post : α → β → Prop}

/-- Two readers that read alike do so as steps of a session. -/
theorem parsing_alike {x : Parse α} {y : Parse β} (h : c.Reads post x y) :
    c.Compiles post (parsing x) (parsing y) := by
  intro s s' alike
  have inputs : c.Inputs s.input s'.input :=
    ⟨alike.first, alike.second, alike.size, alike.tokens⟩
  have outcome := h _ _ inputs s.reader s'.reader
    ⟨alike.cursor, alike.allowed, alike.generator.functions⟩
  unfold parsing
  generalize x _ _ = result at outcome ⊢
  generalize y _ _ = result' at outcome ⊢
  cases outcome with
  | ok found same =>
      refine .ok found { alike with
        cursor := same.cursor
        allowed := same.allowed
        generator := ?_ }
      exact { alike.generator with functions := same.functions }
  | error => exact .error

/-- Two generators that generate alike do so as steps of a session. -/
theorem generating_alike {x : Generate α} {y : Generate β} (h : c.Generates post x y) :
    c.Compiles post (generating x) (generating y) := by
  intro s s' alike
  have outcome := h _ _ alike.generator
  unfold generating
  generalize x _ = result at outcome ⊢
  generalize y _ = result' at outcome ⊢
  cases outcome with
  | ok found generators => exact .ok found { alike with generator := generators }
  | error => exact .error

theorem build_alike : c.Compiles Eq build build := by
  refine (parsing_alike Parse.script_alike).bind ?_
  rintro root _ ⟨uses, rfl⟩
  exact .modify fun _ _ alike => { alike with root := ⟨uses, rfl⟩ }

theorem compileNode_alike {node : Node} (uses : node.Uses c.known) :
    c.Compiles Eq (compileNode node) (compileNode (node.move c.place)) := by
  refine Parallel.get.bind fun s s' alike => generating_alike ?_
  unfold Session.scope
  rw [alike.first, alike.second, alike.mainArguments]
  exact Generate.emit_alike node uses _

/-- Code for the trees that both sessions have read. -/
theorem compileRoot_alike : c.Compiles Eq compileRoot compileRoot := by
  refine Parallel.get.bind fun s s' alike => ?_
  obtain ⟨uses, moved⟩ := alike.root
  rw [moved]
  cases root : s.root with
  | none =>
      have current : s'.current = s.current.move c.place := by
        unfold Session.current Session.peek
        rw [alike.cursor]
        exact (alike.tokens (s.cursor + 0)).2
      rw [current]
      exact .throw ⟨s.current.location, .missingRoot⟩
  | some node =>
      rw [root] at uses
      have recorded : c.Generates Eq (do Generate.record (.generated (← Generate.here)))
          (do Generate.record (.generated (← Generate.here))) :=
        Generate.here_alike.bindEq fun _ => Generate.record_alike _ _
      exact (compileNode_alike uses).bindEq fun _ => generating_alike recorded

/-- Both sessions finish with the same program but for places. -/
theorem finish_alike :
    c.Compiles (fun program program' => program' = program.move c.place) finish finish := by
  refine Parallel.get.bind fun s s' alike => ?_
  rw [alike.first, alike.second, alike.eof]
  exact generating_alike (Generate.finish_alike s.eof.location)

end Compile

/-! ## tokens -/

/-- A session in which the tokens of a script have been read. -/
def Session.loaded (env : Environment) (options : Options) (tokens : List Token) (log : Log) :
    Session :=
  { start env options with
    tokens := tokens.toArray
    eof := tokens.getLast?.getD (start env options).eof
    generator := { log } }

/-- All steps from the tokens of a script to its program. -/
def compileTokens (env : Environment) (options : Options) (tokens : List Token) (log : Log) :
    Except CompileError Program :=
  match (do Compile.build; Compile.compileRoot; Compile.finish)
    (.loaded env options tokens log) with
  | .ok program _ => .ok program
  | .error error _ => .error error

/-- Every text has at least the token for its end. -/
theorem ne_nil_of_tokenize {source : Option String} {line : Nat} {text : String}
    {tokens : List Token} (h : tokenize source line text = .ok tokens) : tokens ≠ [] := by
  have ends := tokensFrom_ends source (.lineStart line) text.toList
  rw [← tokenize, h] at ends
  obtain ⟨l, last⟩ := ends
  intro empty
  simp [empty] at last

/-- Compiling a text is compiling its tokens. -/
theorem compile_eq_compileTokens (env : Environment) {options : Options} {text : String}
    {tokens : List Token}
    (h : tokenize options.sourceName options.startingLine text = .ok tokens) :
    ∃ log, compile env options text = compileTokens env options tokens log := by
  let log : Log := #[tokenizedRecord options.sourceName options.startingLine text tokens.length]
  have logged : Compile.logging (readTokens options.sourceName options.startingLine text)
      (.start env options) =
        .ok tokens { Session.start env options with generator := { log } } := by
    simp [Compile.logging, readTokens, h, Session.start, log]
  have read : Compile.tokenize text (.start env options) =
      .ok ⟨⟩ (.loaded env options tokens log) := by
    rw [Compile.tokenize, get_bind]
    exact bind_of_ok logged
  have kept : Compile.preprocess noPreprocessing (.loaded env options tokens log) =
      .ok ⟨⟩ (.loaded env options tokens log) := rfl
  have same : Compile.script noPreprocessing text (.start env options) =
      (do Compile.build; Compile.compileRoot; Compile.finish) (.loaded env options tokens log) := by
    rw [Compile.script, bind_of_ok read, bind_of_ok kept]
  refine ⟨log, ?_⟩
  unfold compile compileWith compileTokens
  generalize Compile.script noPreprocessing text (.start env options) = result at same ⊢
  subst same
  rfl

/-- A text that has no tokens has no program. -/
theorem compile_of_tokenize_error (env : Environment) {options : Options} {text : String}
    {e : CompileError} (h : tokenize options.sourceName options.startingLine text = .error e) :
    compile env options text = .error e := by
  have logged : Compile.logging (readTokens options.sourceName options.startingLine text)
      (.start env options) = .error e (.start env options) := by
    simp [Compile.logging, readTokens, h]
  have read : Compile.tokenize text (.start env options) = .error e (.start env options) := by
    rw [Compile.tokenize, get_bind]
    exact bind_of_error logged
  unfold compile compileWith Compile.script
  rw [bind_of_error read]

/-- What comes of a script at another place. -/
def moveResult (place : Position → Position) :
    Except CompileError Program → Except CompileError Program
  | .ok program => .ok (program.move place)
  | .error e => .error (e.move place)

/-- Sessions with the same words before them are alike. -/
theorem loaded_alike {options options' : Options} {tokens : List Token} (nonempty : tokens ≠ [])
    (known : ∀ token ∈ tokens, ∀ word, token.kind.word? = some word → c.known word)
    (mainArguments : options'.mainArguments = options.mainArguments) (log log' : Log) :
    c.Sessions (.loaded c.first options tokens log)
      (.loaded c.second options' (tokens.map (·.move c.place)) log') := by
  obtain ⟨last, ends⟩ := Option.ne_none_iff_exists'.1 (mt List.getLast?_eq_none_iff.1 nonempty)
  have eof : (Session.loaded c.first options tokens log).eof = last := by
    simp [Session.loaded, ends]
  have eof' : (Session.loaded c.second options' (tokens.map (·.move c.place)) log').eof =
      last.move c.place := by
    simp [Session.loaded, ends]
  constructor
  · rfl
  · rfl
  · exact mainArguments
  · simp [Session.loaded]
  · intro k
    rw [eof, eof']
    have token : (Session.loaded c.first options tokens log).tokens[k]? = tokens[k]? := by
      simp [Session.loaded]
    have token' : (Session.loaded c.second options' (tokens.map (·.move c.place)) log').tokens[k]? =
        tokens[k]?.map (·.move c.place) := by
      simp [Session.loaded]
    rw [token, token']
    cases found : tokens[k]? with
    | none => exact ⟨known last (List.mem_of_getLast? ends), rfl⟩
    | some t => exact ⟨known t (List.mem_of_getElem? found), rfl⟩
  · rw [eof, eof']
  · rfl
  · rfl
  · exact .none
  · exact ⟨rfl, by simp [Session.loaded], rfl, rfl, rfl, rfl, rfl,
      by simp [Session.loaded, Generator.calls, Generator.listing]⟩

/-- Tokens at other places, and another host that agrees on the words among them, change nothing but
the places in the result. -/
theorem compileTokens_move (c : Comparison) {options options' : Options} {tokens : List Token}
    (nonempty : tokens ≠ [])
    (known : ∀ token ∈ tokens, ∀ word, token.kind.word? = some word → c.known word)
    (mainArguments : options'.mainArguments = options.mainArguments) (log log' : Log) :
    compileTokens c.second options' (tokens.map (·.move c.place)) log' =
      moveResult c.place (compileTokens c.first options tokens log) := by
  have whole : c.Compiles (fun program program' => program' = program.move c.place)
      (do Compile.build; Compile.compileRoot; Compile.finish)
      (do Compile.build; Compile.compileRoot; Compile.finish) :=
    Compile.build_alike.bindEq fun _ => Compile.compileRoot_alike.bindEq fun _ =>
      Compile.finish_alike
  have outcome := whole _ _ (loaded_alike nonempty known mainArguments log log')
  unfold compileTokens
  generalize (Compile.build >>= _) (Session.loaded c.first _ _ _) = result at outcome ⊢
  generalize (Compile.build >>= _) (Session.loaded c.second _ _ _) = result' at outcome ⊢
  cases outcome with
  | ok same state =>
      subst same
      rfl
  | error => rfl

end HostScript
