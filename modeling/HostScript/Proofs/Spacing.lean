import HostScript.Proofs.Parallel.Scripts

/-!
# HostScript.Proofs.Spacing

What stands between the tokens of a script has no bearing on what it means.  Blanks, line breaks,
comments, the word `var` and the number of the first line all leave the tokens as they are and only
decide where these stand.  The tokens of a script stand at distinct places, so two scripts with the
same tokens differ by a way to carry places over, and the result for one is the result for the other
with its places carried over.
-/

namespace HostScript

/-! ## the order of places -/

namespace Position

variable {p q r : Position}

/-- On a line further up, or further left on the same one. -/
def Before (p q : Position) : Prop := p.line < q.line ∨ p.line = q.line ∧ p.column < q.column

/-- A place that is before another one is before all that are behind it. -/
theorem Before.trans (h : p.Before q) (h' : q.Before r) : p.Before r := by
  unfold Before at h h' ⊢
  omega

theorem Before.trans_not (h : p.Before q) (h' : ¬ r.Before q) : p.Before r := by
  unfold Before at h h' ⊢
  omega

theorem not_before_self (p : Position) : ¬ p.Before p := by
  unfold Before
  omega

/-- Every character leads on to a later place. -/
theorem before_next (p : Position) (c : Char) : p.Before (p.next c) := by
  unfold next
  split
  · exact .inl (Nat.lt_succ_self p.line)
  · exact .inr ⟨rfl, Nat.lt_succ_self p.column⟩

/-- Every character takes its place. -/
theorem before_after (p : Position) {text : List Char} (nonempty : text ≠ []) :
    p.Before (p.after text) := by
  induction text generalizing p with
  | nil => contradiction
  | cons c text ih =>
      rw [after_cons]
      by_cases last : text = []
      · subst last
        exact p.before_next c
      · exact (p.before_next c).trans (ih (p.next c) last)

/-- The next line begins at a later place. -/
theorem before_nextLine (p : Position) : p.Before (.lineStart (p.line + 1)) :=
  .inl (Nat.lt_succ_self p.line)

end Position

/-! ## the places of tokens -/

/-- Tokens of one script, one behind the other from `start` on. -/
structure Token.Follow (source : Option String) (start : Position) (tokens : List Token) :
    Prop where
  source : ∀ t ∈ tokens, t.location.source = source
  behind : ∀ t ∈ tokens, ¬ t.location.position.Before start
  ordered : tokens.Pairwise fun t u => t.location.position.Before u.location.position

namespace Token.Follow

variable {source : Option String} {start first : Position} {tokens : List Token}

theorem singleton (kind : TokenKind) (h : start.Before first) :
    Follow source start [⟨kind, .ofPosition source first⟩] := by
  constructor
  · simp [Location.ofPosition]
  · intro t member back
    obtain rfl := List.mem_singleton.1 member
    exact start.not_before_self (h.trans back)
  · exact List.pairwise_singleton _ _

/-- Tokens that follow a place follow an earlier one as well. -/
theorem from_earlier (h : Follow source first tokens) (earlier : start.Before first) :
    Follow source start tokens := by
  have behind (t : Token) (member : t ∈ tokens) : ¬ t.location.position.Before start := by
    intro back
    exact h.behind t member (back.trans earlier)
  exact { h with behind }

/-- A token before others that follow it. -/
theorem cons (kind : TokenKind) (h : Follow source first tokens) (earlier : start.Before first) :
    Follow source start (⟨kind, .ofPosition source start⟩ :: tokens) := by
  constructor
  · simpa [Location.ofPosition] using h.source
  · rw [List.forall_mem_cons]
    exact ⟨start.not_before_self, (h.from_earlier earlier).behind⟩
  · rw [List.pairwise_cons]
    exact ⟨fun t member => earlier.trans_not (h.behind t member), h.ordered⟩

end Token.Follow

/-- Every step of reading a text goes on behind the lexeme that it takes. -/
theorem tokensFrom_follow {source : Option String} {position : Position} {text : List Char}
    {tokens : List Token} (h : tokensFrom source position text = .ok tokens) :
    Token.Follow source position tokens := by
  fun_induction tokensFrom source position text generalizing tokens with
  | case1 position =>
      obtain rfl := Except.ok.inj h
      exact .singleton .eof position.before_nextLine
  | case2 position c cs lexeme rest step ih =>
      have splits := Scan.splits_step c cs
      rw [step, Scan.splits_gap] at splits
      exact (ih h).from_earlier (position.before_after splits.1)
  | case3 position c cs kind lexeme rest step tokens found ih =>
      have splits := Scan.splits_step c cs
      rw [step, Scan.splits_token] at splits
      obtain rfl := Except.ok.inj h
      exact (ih found).cons kind (position.before_after splits.1)
  | case4 => cases h
  | case5 => cases h

/-- Between scripts with the same tokens there is a way to carry places over. -/
theorem Token.Follow.exists_place {source : Option String} {start start' : Position}
    {tokens tokens' : List Token} (h : Follow source start tokens)
    (h' : Follow source start' tokens') (kinds : tokens'.map (·.kind) = tokens.map (·.kind)) :
    ∃ place, tokens' = tokens.map (·.move place) := by
  obtain ⟨sources, -, ordered⟩ := h
  obtain ⟨sources', -, -⟩ := h'
  induction tokens generalizing tokens' with
  | nil => exact ⟨id, List.map_eq_nil_iff.1 kinds⟩
  | cons t tokens ih =>
      obtain ⟨t', tokens', rfl, kind, kinds⟩ := List.map_eq_cons_iff.1 kinds
      rw [List.forall_mem_cons] at sources sources'
      rw [List.pairwise_cons] at ordered
      obtain ⟨place, rfl⟩ := ih kinds sources.2 ordered.2 sources'.2
      let place' (p : Position) := if p = t.location.position then t'.location.position else place p
      have head : t' = t.move place' := by
        obtain ⟨kind', ⟨source', line', column'⟩⟩ := t'
        have same : source' = t.location.source := sources'.1.trans sources.1.symm
        simp only at kind
        simp [Token.move, Location.move, place', kind, same, Location.position, Location.ofPosition]
      have tail (u : Token) (member : u ∈ tokens) : u.move place = u.move place' := by
        have apart : u.location.position ≠ t.location.position := by
          intro same
          have before := ordered.1 u member
          rw [same] at before
          exact Position.not_before_self _ before
        simp [Token.move, Location.move, place', apart]
      exact ⟨place', by rw [List.map_cons, ← head, List.map_congr_left tail]⟩

/-! ## the same result at other places -/

/-- The programs differ in nothing but the lines and columns that their code comes from. -/
structure Program.SameCode (place : Position → Position) (p p' : Program) : Prop where
  version : p'.version = p.version
  instructions : p'.instructions = p.instructions
  functions : p'.functions = p.functions
  labels : p'.labels = p.labels
  sources : p'.sources = p.sources
  locations : p'.locations = p.locations.map (·.move place)

/-- The errors differ in nothing but their lines and columns. -/
structure CompileError.SameFault (place : Position → Position) (e e' : CompileError) : Prop where
  kind : e'.kind = e.kind
  message : e'.message = e.message
  location : e'.location = e.location.move place

/-- Both succeed with the same code or both fail with the same message. -/
inductive SameUpToPlaces (place : Position → Position) :
    Except CompileError Program → Except CompileError Program → Prop
  | program {p p' : Program} (same : p.SameCode place p') : SameUpToPlaces place (.ok p) (.ok p')
  | fault {e e' : CompileError} (same : e.SameFault place e') :
    SameUpToPlaces place (.error e) (.error e')

/-- A program that is moved is the same up to places. -/
theorem sameUpToPlaces_moveResult (place : Position → Position) (r : Except CompileError Program) :
    SameUpToPlaces place r (moveResult place r) := by
  cases r with
  | ok p => exact .program ⟨rfl, rfl, rfl, rfl, rfl, rfl⟩
  | error e => exact .fault ⟨rfl, rfl, rfl⟩

/-- Two compilations for one host, with things at other places. -/
def Comparison.ofPlace {env : Environment} (plain : env.hostDirectives = [])
    (place : Position → Position) : Comparison where
  first := env
  second := env
  place
  known _ := True
  plain
  agree name _ := .refl env name
  expansions _ _ _ _ name _ _ := (Environment.AgreesOn.refl env name).callsAlike

/-- Scripts with the same tokens compile to the same code or fail with the same message, however
they are laid out.  Lines and columns in the result are carried over as those of the tokens are. -/
theorem compile_ignores_spacing {env : Environment} {options options' : Options}
    {text text' : String} {tokens tokens' : List Token} (plain : env.hostDirectives = [])
    (sourceName : options'.sourceName = options.sourceName)
    (mainArguments : options'.mainArguments = options.mainArguments)
    (read : tokenize options.sourceName options.startingLine text = .ok tokens)
    (read' : tokenize options'.sourceName options'.startingLine text' = .ok tokens')
    (kinds : tokens'.map (·.kind) = tokens.map (·.kind)) :
    ∃ place, tokens' = tokens.map (·.move place) ∧
      SameUpToPlaces place (compile env options text) (compile env options' text') := by
  have follow := tokensFrom_follow read
  have follow' := tokensFrom_follow read'
  rw [sourceName] at follow'
  obtain ⟨place, moved⟩ := follow.exists_place follow' kinds
  obtain ⟨log, first⟩ := compile_eq_compileTokens env read
  obtain ⟨log', second⟩ := compile_eq_compileTokens env read'
  have same := compileTokens_move (.ofPlace plain place) (ne_nil_of_tokenize read)
    (fun _ _ _ _ => trivial) mainArguments log log'
  refine ⟨place, moved, ?_⟩
  rw [first, second, moved]
  exact same ▸ sameUpToPlaces_moveResult place (compileTokens env options tokens log)

/-- A host with one function. -/
def printHost : Environment := ({} : Environment).addGlobalFunction { name := "print" }

/-- One statement on a line, with remarks. -/
def airyScript : String :=
  "// sum up\nvar total = 1;\n\nprint( total + limit ) /* done */\n"

/-- The same tokens without anything between them. -/
def denseScript : String := "total=1;print(total+limit)"

/-- Both scripts compile for the one host, and both fail for a host without the function. -/
theorem compile_ignores_spacing_dense :
    ((compile printHost { mainArguments := ["limit"] } airyScript).isOk = true ∧
      ∃ place, SameUpToPlaces place (compile printHost { mainArguments := ["limit"] } airyScript)
        (compile printHost { mainArguments := ["limit"], startingLine := 40 } denseScript)) ∧
    (compile {} { mainArguments := ["limit"] } airyScript).isOk = false ∧
      ∃ place, SameUpToPlaces place (compile {} { mainArguments := ["limit"] } airyScript)
        (compile {} { mainArguments := ["limit"], startingLine := 40 } denseScript) := by
  have known : (tokenize none 1 airyScript).isOk = true := by decide +kernel
  have kinds : (tokenize none 40 denseScript).map (·.map (·.kind)) =
      (tokenize none 1 airyScript).map (·.map (·.kind)) := by decide +kernel
  cases read : tokenize none 1 airyScript with
  | error e =>
      rw [read] at known
      cases known
  | ok tokens =>
      cases read' : tokenize none 40 denseScript with
      | error e =>
          rw [read, read'] at kinds
          cases kinds
      | ok tokens' =>
          rw [read, read'] at kinds
          have same (env : Environment) (plain : env.hostDirectives = []) :
              ∃ place, tokens' = tokens.map (·.move place) ∧ SameUpToPlaces place
                (compile env { mainArguments := ["limit"] } airyScript)
                (compile env { mainArguments := ["limit"], startingLine := 40 } denseScript) :=
            compile_ignores_spacing plain rfl rfl read read' (Except.ok.inj kinds)
          obtain ⟨place, -, compiled⟩ := same printHost rfl
          obtain ⟨place', -, failed⟩ := same {} rfl
          exact ⟨⟨by decide +kernel, place, compiled⟩, by decide +kernel, place', failed⟩

end HostScript
