import HostScript.Proofs.Grammar
import HostScript.Proofs.Resolution

/-!
# HostScript.Proofs.Scripts

The tree of a script.  `readTree` runs the first steps of a compilation, up to the point where the
tree is there and no code is; what is known of the tree and of the functions registered with it is
put together in `Session.Holds`.
-/

namespace HostScript

/-! ## tokens -/

namespace Scan

/-- A keyword is never taken for a name. -/
def NamesNoKeyword : Scan → Prop
  | token kind _ _ => ∀ word, kind = .identifier word → Keyword.ofText? word = none
  | _ => True

/-- A gap between tokens is no name. -/
@[simp] theorem namesNoKeyword_gap {lexeme rest : List Char} :
    (gap lexeme rest).NamesNoKeyword := trivial

@[simp] theorem namesNoKeyword_token {kind : TokenKind} {lexeme rest : List Char} :
    (token kind lexeme rest).NamesNoKeyword ↔
      ∀ word, kind = .identifier word → Keyword.ofText? word = none := .rfl

@[simp] theorem namesNoKeyword_fault {cause : Cause} : (fault cause).NamesNoKeyword := trivial

theorem namesNoKeyword_operatorOrSet (op : BinaryOperator) (c : Char) (cs : List Char) :
    (operatorOrSet op c cs).NamesNoKeyword := by
  unfold operatorOrSet
  split <;> simp

/-- A symbol is no name. -/
theorem namesNoKeyword_symbol (c : Char) (cs : List Char) : (symbol c cs).NamesNoKeyword := by
  unfold symbol
  split <;> simp [namesNoKeyword_operatorOrSet]

theorem namesNoKeyword_slash (cs : List Char) : (slash cs).NamesNoKeyword := by
  unfold slash
  split
  · simp
  · split <;> simp
  · exact namesNoKeyword_operatorOrSet ..

/-- A word that is a keyword is a keyword token and no name. -/
theorem namesNoKeyword_word (text : List Char) : (word text).NamesNoKeyword := by
  dsimp only [word, wordKind]
  split
  next kind found =>
    rw [namesNoKeyword_token]
    rintro name rfl
    split at found
    · cases found
    split at found
    · cases found
    split at found
    · cases found
    split at found
    · cases found
    next none =>
      cases found
      exact none
  next => simp

/-- One step of the lexer never takes a keyword for a name. -/
theorem namesNoKeyword_step (c : Char) (cs : List Char) : (step c cs).NamesNoKeyword := by
  unfold step
  split
  · simp
  split
  · exact namesNoKeyword_slash cs
  split
  · unfold string
    split <;> simp
  split
  · dsimp only [numeral]
    split
    · simp
    · split <;> simp
  split
  · exact namesNoKeyword_word _
  · exact namesNoKeyword_symbol c cs

end Scan

/-- No name in a script is a keyword. -/
theorem identifier_of_tokensFrom {source : Option String} {position : Position} {text : List Char}
    {tokens : List Token} (h : tokensFrom source position text = .ok tokens) {token : Token}
    (found : token ∈ tokens) {word : String} (name : token.kind = .identifier word) :
    Keyword.ofText? word = none := by
  fun_induction tokensFrom source position text generalizing tokens with
  | case1 =>
      cases h
      obtain rfl := List.mem_singleton.1 found
      cases name
  | case2 position c cs lexeme rest _ ih => exact ih h found
  | case3 position c cs kind lexeme rest step others read ih =>
      cases h
      rcases List.mem_cons.1 found with rfl | found
      · have good := Scan.namesNoKeyword_step c cs
        rw [step] at good
        exact good word name
      · exact ih read found
  | case4 => cases h
  | case5 => cases h

/-! ## reading the tree -/

/-- The steps that read the tree of a script whose tokens are changed before. -/
def Compile.readWith (p : Preprocessor) (text : String) : Compile Unit := do
  tokenize text
  preprocess p
  build

/-- The steps that read the tree of a script. -/
def Compile.read (text : String) : Compile Unit := readWith noPreprocessing text

/-- The tree of a script, if it can be read. -/
def readTree (env : Environment) (options : Options) (text : String) : Option Node :=
  match Compile.read text (.start env options) with
  | .ok _ s => s.root
  | .error _ _ => none

/-- What a session holds when the tree of a script is there and no code is. -/
structure Session.Holds (env : Environment) (options : Options) (root : Node) (s : Session) :
    Prop where
  fresh : Compile.Fresh env options s
  tree : s.root = some root
  statement : IsStatement s.generator.functions.size .nowhere root
  block : Grammar.Block root
  grammar : Grammar.Statement env .nowhere root
  enrolled : Enrolled env {} s.generator.functions root.definitions

namespace Compile

variable {env : Environment} {options : Options} {text : String} {s s' : Session} {u : Unit}

/-- Tokenizing puts the tokens of the text into the session and finds no functions. -/
theorem tokenize_eq_ok (h : tokenize text s = .ok u s') :
    ∃ tokens, tokensFrom s.options.sourceName (.lineStart s.options.startingLine) text.toList =
      .ok tokens ∧ s'.tokens = tokens.toArray ∧
        s'.generator.functions = s.generator.functions := by
  simp only [tokenize, bind_eq_ok, get_eq_ok, modify_eq_ok] at h
  obtain ⟨_, _, ⟨rfl, rfl⟩, tokens, s₁, read, rfl⟩ := h
  unfold logging readTokens HostScript.tokenize at read
  cases run : tokensFrom s.options.sourceName (.lineStart s.options.startingLine) text.toList with
  | error e => simp [run] at read
  | ok found =>
      obtain ⟨rfl, rfl⟩ : found = tokens ∧ _ = s₁ := by simpa [run] using read
      exact ⟨found, rfl, rfl, rfl⟩

/-- What a reader finds in a session it finds in the tokens that are left. -/
theorem parsing_eq_ok {α : Type} {x : Parse α} {a : α} (h : parsing x s = .ok a s') :
    ∃ state, x s.input s.reader = .ok a state ∧ s' = s.withReader state := by
  unfold parsing at h
  cases run : x s.input s.reader with
  | error e state => simp [run] at h
  | ok found state =>
      obtain ⟨rfl, rfl⟩ : found = a ∧ _ = s' := by simpa [run] using h
      exact ⟨state, rfl, rfl⟩

/-- Building a tree is reading a script. -/
theorem build_eq_ok (h : build s = .ok u s') :
    ∃ root state, Parse.script s.input s.reader = .ok root state ∧ s'.root = some root ∧
      s'.generator.functions = state.functions := by
  simp only [build, bind_eq_ok, modify_eq_ok] at h
  obtain ⟨root, s₁, read, rfl⟩ := h
  obtain ⟨state, parsed, rfl⟩ := parsing_eq_ok read
  exact ⟨root, state, parsed, rfl, rfl⟩

/-- Reading a script leaves a session with its tree. -/
theorem read_eq_ok (plain : env.hostDirectives = [])
    (h : read text (.start env options) = .ok u s) :
    ∃ root, s.Holds env options root := by
  simp only [read, readWith, bind_eq_ok] at h
  obtain ⟨_, s₁, tokenized, _, s₂, preprocessed, built⟩ := h
  have fresh₁ := (tokenize_faultless (fresh_start env options) text).post_of_ok tokenized
  have fresh₂ := (preprocess_faultless fresh₁).post_of_ok preprocessed
  obtain ⟨fresh, root, read, good⟩ := (build_faultless plain fresh₂).post_of_ok built
  obtain ⟨tokens, scanned, list, functions⟩ := tokenize_eq_ok tokenized
  have same : preprocess noPreprocessing s₁ = .ok ⟨⟩ s₁ := rfl
  rw [same] at preprocessed
  cases preprocessed
  obtain ⟨root', state, parsed, found, registered⟩ := build_eq_ok built
  obtain rfl : root' = root := Option.some.inj (found.symm.trans read)
  have ends : s₁.input.Ends := fresh₁.ends
  have words : s₁.input.NoConstructor := by
    intro token member name
    have known : token ∈ tokens := by simpa [Session.input, list] using member
    have free := identifier_of_tokensFrom scanned known name
    exact absurd free (by decide)
  have host : s₁.environment.hostDirectives = [] := by rw [fresh₁.environment, plain]
  obtain ⟨enrolled, block, grammar⟩ :=
    (Meets.iff_of_ok parsed).1 (Parse.script_builds ends words host _)
  rw [← registered, Session.input, Session.reader, functions, fresh₁.environment] at enrolled
  rw [Session.input, fresh₁.environment] at grammar
  exact ⟨root', fresh, read, good, block, grammar, enrolled⟩

/-- Compiling a script is reading its tree and going on from there. -/
theorem script_eq (p : Preprocessor) (text : String) :
    script p text = (do readWith p text; compileRoot; finish) := by
  simp only [script, readWith, bind_assoc]

end Compile

/-- A tree that was read is the root of a session. -/
theorem readTree_eq_some {env : Environment} {options : Options} {text : String} {root : Node}
    (plain : env.hostDirectives = []) (h : readTree env options text = some root) :
    ∃ s, Compile.read text (.start env options) = .ok ⟨⟩ s ∧ s.Holds env options root := by
  unfold readTree at h
  cases run : Compile.read text (.start env options) with
  | error e s => simp [run] at h
  | ok u s =>
      obtain ⟨root', holds⟩ := Compile.read_eq_ok plain run
      have found : s.root = some root := by simpa [run] using h
      obtain rfl : root' = root := Option.some.inj (holds.tree.symm.trans found)
      exact ⟨s, rfl, holds⟩

/-! ## from the tree to the program -/

namespace Compile

variable {α : Type} {env : Environment} {options : Options} {s : Session} {root : Node}

/-- A step of code generation comes from a run of the generator. -/
theorem generating_eq_ok {x : Generate α} {a : α} {s' : Session}
    (run : generating x s = .ok a s') :
    ∃ g, x s.generator = .ok a g ∧ s' = { s with generator := g } := by
  unfold generating at run
  cases ran : x s.generator with
  | ok b g =>
      obtain ⟨rfl, rfl⟩ : b = a ∧ _ = s' := by simpa [ran] using run
      exact ⟨g, rfl, rfl⟩
  | error e g => simp [ran] at run

/-- Generating the code of a script is generating that of its tree, with a report behind it. -/
theorem compileRoot_eq (holds : s.Holds env options root) :
    compileRoot s = (do
      generating (Generate.emit root ⟨env, options.mainArguments⟩)
      generating do Generate.record (.generated (← Generate.here))) s := by
  have scope : s.scope = ⟨env, options.mainArguments⟩ := by
    rw [Session.scope, holds.fresh.environment, holds.fresh.options]
  rw [compileRoot, get_bind]
  simp only [holds.tree, ← scope]
  rfl

/-- The code of a script is the layout of its tree. -/
theorem compileRoot_extends (holds : s.Holds env options root) {u : Unit} {s' : Session}
    (run : compileRoot s = .ok u s') :
    Extends s.generator (Generate.layout root ⟨env, options.mainArguments⟩ 0) s'.generator := by
  rw [compileRoot_eq holds] at run
  obtain ⟨_, s₁, run₁, run₂⟩ := bind_eq_ok.1 run
  obtain ⟨g₁, emitted, rfl⟩ := generating_eq_ok run₁
  obtain ⟨g₂, recorded, rfl⟩ := generating_eq_ok run₂
  have extends_ := Generate.emit_extends root (holds.fresh.blank.ready _) emitted
  rw [holds.fresh.blank.here_eq] at extends_
  cases recorded
  exact ⟨extends_.listing, extends_.labels, extends_.waits, extends_.functions,
    extends_.parameters, extends_.below⟩

end Compile

/-- A script that compiles went through the sessions between its steps. -/
theorem steps_of_compileWith {p : Preprocessor} {env : Environment} {options : Options}
    {text : String} {program : Program} (h : compileWith p env options text = .ok program) :
    ∃ (s s' : Session) (g : Generator), Compile.readWith p text (.start env options) = .ok ⟨⟩ s ∧
      Compile.compileRoot s = .ok ⟨⟩ s' ∧
      Generate.finish s'.environment s'.eof.location s'.generator = .ok program g := by
  unfold compileWith at h
  cases run : Compile.script p text (.start env options) with
  | error e s => simp [run] at h
  | ok program' s =>
      obtain rfl : program' = program := by simpa [run] using h
      rw [Compile.script_eq] at run
      obtain ⟨_, s₁, read, run⟩ := bind_eq_ok.1 run
      obtain ⟨_, s₂, compiled, finished⟩ := bind_eq_ok.1 run
      rw [Compile.finish, get_bind] at finished
      obtain ⟨g, ran, -⟩ := Compile.generating_eq_ok finished
      exact ⟨s₁, s₂, g, read, compiled, ran⟩

end HostScript
