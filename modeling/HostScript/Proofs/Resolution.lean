import HostScript.Proofs.Acceptance
import HostScript.Proofs.Linking
import HostScript.Proofs.Reading
import HostScript.Session

/-!
# HostScript.Proofs.Resolution

Compiling never fails through a fault of the compiler.  Every step is taken through in turn: the
tokens of a script end in one for its end, reading them gives a tree as `IsStatement` describes it,
generating code for such a tree succeeds or finds something wrong with the script, and the code is
settled, so that linking and the checks behind it find nothing wrong.
-/

namespace HostScript

/-! ## tokens -/

namespace Scan

/-- What a step finds wrong is put down to the text. -/
def Blameless : Scan → Prop
  | fault cause => cause.isFault = false
  | _ => True

/-- What the lexer reports is the fault of the text. -/
@[simp] theorem blameless_gap {lexeme rest : List Char} : (gap lexeme rest).Blameless := trivial

@[simp] theorem blameless_token {kind : TokenKind} {lexeme rest : List Char} :
    (token kind lexeme rest).Blameless := trivial

@[simp] theorem blameless_unexpected {c : Char} : (fault (.unexpectedCharacter c)).Blameless := rfl

theorem blameless_operatorOrSet (op : BinaryOperator) (c : Char) (cs : List Char) :
    (operatorOrSet op c cs).Blameless := by
  unfold operatorOrSet
  split <;> simp

/-- A symbol is a token or a character that nothing begins with. -/
theorem blameless_symbol (c : Char) (cs : List Char) : (symbol c cs).Blameless := by
  unfold symbol
  split <;> simp [blameless_operatorOrSet]

theorem blameless_slash (cs : List Char) : (slash cs).Blameless := by
  unfold slash
  split
  · simp
  · split
    · simp
    · rfl
  · exact blameless_operatorOrSet ..

/-- A string that never ends is the fault of the text. -/
theorem blameless_string (cs : List Char) : (string cs).Blameless := by
  unfold string
  split
  · simp
  · rfl

/-- One step of the lexer reports nothing but faults of the text. -/
theorem blameless_step (c : Char) (cs : List Char) : (step c cs).Blameless := by
  unfold step
  split
  · simp
  split
  · exact blameless_slash cs
  split
  · exact blameless_string cs
  split
  · dsimp only [numeral]
    split
    · simp
    · split
      · simp
      · rfl
  split
  · dsimp only [word]
    split <;> simp
  · exact blameless_symbol c cs

end Scan

/-- The tokens of a text end in the one for its end. -/
theorem tokensFrom_ends (source : Option String) (position : Position) (text : List Char) :
    match tokensFrom source position text with
    | .ok tokens => ∃ l, tokens.getLast? = some ⟨.eof, l⟩
    | .error e => e.cause.isFault = false := by
  fun_induction tokensFrom source position text with
  | case1 => exact ⟨_, rfl⟩
  | case2 position c cs lexeme rest _ ih => exact ih
  | case3 position c cs kind lexeme rest _ tokens found ih =>
      rw [found] at ih
      obtain ⟨l, last⟩ := ih
      exact ⟨l, by simp [List.getLast?_cons, last]⟩
  | case4 position c cs kind lexeme rest _ e failed ih => rwa [failed] at ih
  | case5 position c cs cause failed =>
      have step := Scan.blameless_step c cs
      rwa [failed] at step

/-! ## generated code -/

/-- Nothing has been generated yet. -/
structure Generator.Blank (g : Generator) : Prop where
  code : g.code = {}
  labels : g.labels = .empty
  pending : g.pending = .empty
  outside : g.parameters = none
  unplaced : g.functions.Unplaced

/-- `g` holds the code of a whole script. -/
def Generated (scope : Scope) (g : Generator) : Prop :=
  ∃ root g₀, g₀.Blank ∧ IsStatement g₀.functions.size .nowhere root ∧
    Extends g₀ (Generate.layout root scope 0) g

/-- A generator that has not begun has no labels. -/
theorem Generator.Blank.labelsBelow {g : Generator} (h : g.Blank) : g.LabelsBelow := by
  intro name address found
  rw [h.labels] at found
  cases found

/-- Outside of functions the names of the script itself can be seen. -/
theorem Generator.Blank.ready {g : Generator} (h : g.Blank) (scope : Scope) :
    g.Ready scope scope :=
  ⟨h.labelsBelow, by rw [h.outside]; rfl⟩

/-- A generator that has not begun is at address zero. -/
theorem Generator.Blank.here_eq {g : Generator} (h : g.Blank) : g.here = 0 := by
  rw [Generator.here, h.code]
  rfl

section blank

variable {g₀ g : Generator} {f : Fragment}

/-- The code of a generator that has not begun is that of the fragment it is extended by. -/
theorem Generator.Blank.listing_eq (blank : g₀.Blank) (h : Extends g₀ f g) :
    g.listing = f.code := by
  rw [h.listing, Generator.listing, blank.code]
  rfl

/-- The labels are those of the fragment. -/
theorem Generator.Blank.labels_iff (blank : g₀.Blank) (h : Extends g₀ f g) {name : String}
    {address : Nat} : g.labels.find? name = some address ↔ (name, address) ∈ f.labels := by
  rw [h.labels, blank.labels, NameMap.find?_empty]
  simp

/-- The jumps that wait are those of the fragment. -/
theorem Generator.Blank.waits_iff (blank : g₀.Blank) (h : Extends g₀ f g) {name : String}
    {address : Nat} : g.Waits name address ↔ (name, address) ∈ f.waiting := by
  rw [h.waits, Generator.Waits, blank.pending]
  simp [NameMap.find?_empty]

end blank

/-- Generated code leaves only jumps to labels open. -/
theorem Generated.settled {scope : Scope} {g : Generator}
    (macros : scope.environment.MacrosStayInLine) (h : Generated scope g) : g.Settled := by
  obtain ⟨root, g₀, blank, good, extends_⟩ := h
  have listing := blank.listing_eq extends_
  have size : 0 + (Generate.layout root scope 0).size = g.here := by
    rw [extends_.here, blank.here_eq]
  have confined := Generate.confined_statement root macros good 0 (Nat.le_of_eq size)
  refine ⟨fun address i target found jumps => ?_, fun name address waiting => ?_,
    extends_.below blank.labelsBelow⟩
  · have lands := confined.lands address i (listing ▸ found) target jumps
    rw [Nat.zero_add] at lands
    simpa only [blank.waits_iff extends_] using lands
  · obtain ⟨k, i, rfl, found, jumps⟩ :=
      confined.waits name address ((blank.waits_iff extends_).1 waiting)
    exact ⟨i, by rw [listing, Nat.zero_add, found], jumps⟩

/-! ## the steps of a session -/

namespace Compile

variable {α : Type} {s : Session}

/-- A reader without a fault has none as a step of a session. -/
theorem parsing_faultless {x : Parse α} {post : α → Session → Prop}
    (h : Faultless (x s.input) s.reader fun a state => post a (s.withReader state)) :
    Faultless (parsing x) s post := by
  unfold Faultless parsing at *
  cases run : x s.input s.reader with
  | ok a state => simpa [run] using h
  | error e state => simpa [run] using h

/-- Code generation without a fault has none as a step of a session. -/
theorem generating_faultless {x : Generate α} {post : α → Session → Prop}
    (h : Faultless x s.generator fun a generator => post a { s with generator }) :
    Faultless (generating x) s post := by
  unfold Faultless generating at *
  cases run : x s.generator with
  | ok a generator => simpa [run] using h
  | error e generator => simpa [run] using h

/-- A session that is set up for a script and has generated nothing. -/
structure Fresh (env : Environment) (options : Options) (s : Session) : Prop where
  environment : s.environment = env
  options : s.options = options
  ends : s.eof.kind = .eof
  blank : s.generator.Blank

variable {env : Environment} {options : Options}

/-- A new session is fresh. -/
theorem fresh_start (env : Environment) (options : Options) :
    Fresh env options (.start env options) :=
  ⟨rfl, rfl, rfl, rfl, rfl, rfl, rfl, nofun⟩

/-- Tokenizing blames the text at most. -/
theorem tokenize_faultless (fresh : Fresh env options s) (text : String) :
    Faultless (tokenize text) s fun _ s' => Fresh env options s' := by
  have ends := tokensFrom_ends s.options.sourceName (.lineStart s.options.startingLine) text.toList
  refine .bind (.get (.bind ?_))
  unfold Faultless logging readTokens HostScript.tokenize
  cases run : tokensFrom s.options.sourceName (.lineStart s.options.startingLine) text.toList with
  | error e =>
      rw [run] at ends
      exact ends
  | ok tokens =>
      rw [run] at ends
      obtain ⟨l, last⟩ := ends
      exact {
        environment := fresh.environment
        options := fresh.options
        ends := show (tokens.getLast?.getD s.eof).kind = .eof by rw [last]; rfl
        blank := ⟨fresh.blank.code, fresh.blank.labels, fresh.blank.pending, fresh.blank.outside,
          fresh.blank.unplaced⟩ }

theorem preprocess_faultless (fresh : Fresh env options s) :
    Faultless (preprocess noPreprocessing) s fun _ s' => Fresh env options s' :=
  ⟨fresh.environment, fresh.options, fresh.ends, fresh.blank.code, fresh.blank.labels,
    fresh.blank.pending, fresh.blank.outside, fresh.blank.unplaced⟩

/-- Building a tree blames the script at most, and the tree is a statement where nothing is
allowed. -/
theorem build_faultless (plain : env.hostDirectives = []) (fresh : Fresh env options s) :
    Faultless build s fun _ s' => Fresh env options s' ∧
      ∃ root, s'.root = some root ∧ IsStatement s'.generator.functions.size .nowhere root := by
  refine .bind (parsing_faultless ?_)
  have ends : s.input.Ends := fresh.ends
  have markers : s.environment.hostDirectives = [] := fresh.environment ▸ plain
  refine (Parse.script_faultless ends markers _).imp
    fun root state ⟨good, unplaced⟩ => ?_
  exact .modify ⟨⟨fresh.environment, fresh.options, fresh.ends, fresh.blank.code,
    fresh.blank.labels, fresh.blank.pending, fresh.blank.outside,
    unplaced fresh.blank.unplaced⟩, root, rfl, good⟩

/-- Generating the code of a tree blames the script at most. -/
theorem compileRoot_faultless {root : Node} (fresh : Fresh env options s)
    (read : s.root = some root) (good : IsStatement s.generator.functions.size .nowhere root) :
    Faultless compileRoot s fun _ s' => s'.environment = env ∧
      Generated ⟨env, options.mainArguments⟩ s'.generator := by
  unfold compileRoot
  refine .bind (.get ?_)
  simp only [read]
  have scope : s.scope = ⟨env, options.mainArguments⟩ := by
    rw [Session.scope, fresh.environment, fresh.options]
  refine .bind (.bind (.get (generating_faultless ?_)))
  refine (Generate.statement_keeps root good s.generator rfl).imp_ok fun _ g run _ => ?_
  rw [scope] at run
  have extends_ := Generate.emit_extends root (fresh.blank.ready _) run
  rw [fresh.blank.here_eq] at extends_
  -- The report that follows changes nothing but the log.
  exact ⟨fresh.environment, root, s.generator, fresh.blank, good,
    ⟨extends_.listing, extends_.labels, extends_.waits, extends_.functions, extends_.parameters,
      extends_.below⟩⟩

/-- A script compiles to the program that its code makes, or there is something wrong with it. -/
theorem script_faultless (plain : env.hostDirectives = []) (macros : env.MacrosStayInLine)
    (options : Options) (text : String) :
    Faultless (script noPreprocessing text) (.start env options) fun program _ =>
      ∃ g, Generated ⟨env, options.mainArguments⟩ g ∧ Finished g program := by
  refine .bind ((tokenize_faultless (fresh_start env options) text).imp fun _ s₁ fresh₁ => ?_)
  refine .bind ((preprocess_faultless fresh₁).imp fun _ s₂ fresh₂ => ?_)
  refine .bind ((build_faultless plain fresh₂).imp fun _ s₃ ⟨fresh₃, root, read, good⟩ => ?_)
  refine .bind ((compileRoot_faultless fresh₃ read good).imp fun _ s₄ ⟨same, generated⟩ => ?_)
  refine .bind (.get (generating_faultless ?_))
  exact (Generate.finish_faultless (generated.settled macros) _ _).imp
    fun program _ finished => ⟨s₄.generator, generated, finished⟩

end Compile

section compile

variable {env : Environment} {options : Options} {text : String}

/-- A program is finished from generated code. -/
theorem compile_eq_ok (plain : env.hostDirectives = []) (macros : env.MacrosStayInLine)
    {program : Program} (h : compile env options text = .ok program) :
    ∃ g, Generated ⟨env, options.mainArguments⟩ g ∧ Finished g program := by
  have faultless := Compile.script_faultless plain macros options text
  unfold compile compileWith at h
  cases run : Compile.script noPreprocessing text (.start env options) with
  | error e s => simp [run] at h
  | ok program' s =>
      obtain rfl : program' = program := by simpa [run] using h
      exact faultless.post_of_ok run

/-- Whatever makes a compilation fail is not the compiler. -/
theorem isFault_of_compile_eq_error (plain : env.hostDirectives = [])
    (macros : env.MacrosStayInLine) {e : CompileError} (h : compile env options text = .error e) :
    e.cause.isFault = false := by
  have faultless := Compile.script_faultless plain macros options text
  unfold compile compileWith at h
  cases run : Compile.script noPreprocessing text (.start env options) with
  | ok program s => simp [run] at h
  | error e' s =>
      obtain rfl : e' = e := by simpa [run] using h
      exact faultless.not_fault_of_error run

/-- Whatever the text, compiling it for a host without directive rules of its own and without jumps
in its system macros never ends in a fault of the compiler.  In a program that comes of it every
jump has an address inside the code. -/
theorem compile_resolves_all_jumps (plain : env.hostDirectives = [])
    (macros : env.MacrosStayInLine) :
    (∀ e, compile env options text = .error e →
      e.kind ≠ .compiler ∧ ∀ found, e.cause ≠ .notAChainLink found) ∧
    ∀ program, compile env options text = .ok program →
      ∀ (i : Instruction) target, i ∈ program.instructions → i.target? = some target →
        ∃ a < program.instructions.length, target = .address a := by
  refine ⟨fun e failed => ?_, fun program compiled => ?_⟩
  · have blameless := isFault_of_compile_eq_error plain macros failed
    refine ⟨fun kind => ?_, fun found same => ?_⟩
    · unfold CompileError.kind at kind
      unfold Cause.isFault at blameless
      split at blameless
      · cases blameless
      · simp [kind] at blameless
    · rw [same] at blameless
      cases blameless
  · obtain ⟨g, -, finished⟩ := compile_eq_ok plain macros compiled
    exact finished.targets

end compile

/-- A host with a clock, which scripts read under the name `now`. -/
def clockHost : Environment :=
  ({} : Environment).addSystemMacro "now" [.pushIdentifier "clock", .pushField "now"]

/-- One of these scripts compiles, the other jumps to a label that it does not have. -/
theorem compile_resolves_all_jumps_again :
    (compile clockHost {} "label again: while now if x break; else continue; jump again;").isOk =
      true ∧
    (compile clockHost {} "label again: while now if x break; else continue; jump away;").isOk =
      false ∧
    (∀ program,
      compile clockHost {} "label again: while now if x break; else continue; jump again;" =
        .ok program →
      ∀ (i : Instruction) target, i ∈ program.instructions → i.target? = some target →
        ∃ a < program.instructions.length, target = .address a) ∧
    ∀ e, compile clockHost {} "label again: while now if x break; else continue; jump away;" =
        .error e → e.kind ≠ .compiler :=
  ⟨by decide +kernel, by decide +kernel, (compile_resolves_all_jumps rfl (by decide)).2,
    fun e failed => ((compile_resolves_all_jumps rfl (by decide)).1 e failed).1⟩

end HostScript
