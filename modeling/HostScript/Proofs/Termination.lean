import HostScript.Proofs.Ending
import HostScript.Proofs.Resolution

/-!
# HostScript.Proofs.Termination

Reading ends, whatever the tokens are and wherever it starts.  A reader that repeats or nests has
fuel, one unit more than there are tokens left, and the fuel is no more than that: it is never used
up, any larger amount gives the same (`Settles`), and so each reader is the step it is made of with
itself for what is nested.

What makes this work is that readers of statements and expressions take a token when they succeed.
The number of tokens that are left is no measure by itself, since the reader of statements steps
back a token, and behind the last one that is a token which was read before.  But then it fails:
nothing can be read where the script is at its end (`statementStep_eof`).
-/

namespace HostScript

namespace Parse

variable {α : Type} {i : Input} {s s' : State} {e : CompileError}

/-! ## the end of a script -/

namespace Input

/-- Behind the tokens there is nothing but the end. -/
theorem token_outside (far : i.tokens.size ≤ s.cursor) : i.token s = i.eof := by
  unfold token
  rw [Array.getElem?_eq_none (by omega), Option.getD_none]

/-- Before a token that is not the end there are tokens left. -/
theorem inside_of_token (ends : i.Ends) (more : (i.token s).kind ≠ .eof) :
    s.cursor < i.tokens.size := by
  have pos := i.left_pos ends more
  unfold left at pos
  omega

/-- A step forward and one back lead to the same token, unless there is none to step over. -/
theorem retreat_advanced (inside : s.cursor < i.tokens.size) :
    { i.advanced s with cursor := (i.advanced s).cursor - 1 } = s := by
  unfold advanced
  rw [if_pos inside]
  rfl

end Input

/-- There is no expression where a script ends, be it at its last token or before. -/
theorem expressionStep_eof (eof : (i.token s).kind = .eof) (nested : Bool → Parse Node) (b : Bool) :
    Fails ⟨(i.token s).location, .unexpected .expression .eof⟩ (expressionStep nested b) i s := by
  have operand_eof : Fails ⟨(i.token s).location, .unexpected .expression .eof⟩ (operand nested) i
      s := by
    unfold operand
    rw [fails_next]
    simp only [eof]
    exact ⟨_, rfl⟩
  exact operand_eof.bind _

/-- No expression begins at the end. -/
theorem expression_eof (eof : (i.token s).kind = .eof) (b : Bool) :
    Fails ⟨(i.token s).location, .unexpected .expression .eof⟩ (expression b) i s := by
  unfold Fails
  rw [expression_eq]
  exact expressionStep_eof eof _ b

/-- There is no statement where a script ends.  How reading it fails does not depend on the reader
for nested statements. -/
theorem statementStep_eof (ends : i.Ends) (eof : (i.token s).kind = .eof) :
    ∃ e, ∀ nested, Fails e (statementStep nested) i s := by
  by_cases inside : s.cursor < i.tokens.size
  · -- the reader steps back to the end, where it finds no expression
    refine ⟨⟨(i.token s).location, .unexpected .expression .eof⟩, fun nested => ?_⟩
    have step : statementFrom nested (i.token s) =
        (do retreat; expressionStatement (i.token s).location) := by
      unfold statementFrom
      simp only [eof]
    have failed : Fails ⟨(i.token s).location, .unexpected .expression .eof⟩
        (do retreat; expressionStatement (i.token s).location) i (i.advanced s) := by
      unfold Fails
      rw [retreat_bind, Input.retreat_advanced inside]
      exact (expression_eof eof false).bind _
    unfold Fails
    rw [statementStep_eq, step]
    exact failed.bind _
  · -- the reader cannot move and steps back to the last token, which makes no statement
    refine ⟨_, statementStep_end ends (Input.token_outside (by omega)) rfl ?_⟩
    have stays : i.advanced s = s := by rw [Input.advanced, if_neg inside]
    apply Input.token_outside
    rw [stays]
    unfold Input.advanced
    split
    · show i.tokens.size ≤ s.cursor - 1 + 1
      omega
    · omega

/-- A script has no more statements where it ends. -/
theorem scriptItem_eof (eof : (i.token s).kind = .eof) : scriptItem i s = .ok none s := by
  unfold scriptItem
  rw [current_bind]
  simp only [eof]
  rfl

/-! ## any amount of fuel -/

/-- What a reader gives: what it has read and where that leaves it, or how it fails. -/
def outcome (x : Parse α) (i : Input) (s : State) : Except CompileError (α × State) :=
  match x i s with
  | .ok a s' => .ok (a, s')
  | .error e _ => .error e

/-- The reader uses up its fuel.  Nothing catches that, so it is how the whole ends. -/
def RunsOut (x : Parse α) (i : Input) (s : State) : Prop :=
  ∃ e, e.cause = .noProgress ∧ Fails e x i s

theorem outcome_of_fails {x : Parse α} (h : Fails e x i s) : outcome x i s = .error e := by
  obtain ⟨s', run⟩ := h
  unfold outcome
  rw [run]

/-- A reader without a fault does not run out of fuel. -/
theorem not_runsOut_of_faultless {x : Parse α} {post : α → State → Prop}
    (h : Faultless (x i) s post) : ¬ RunsOut x i s := by
  rintro ⟨e, out, s', run⟩
  have fault := h.not_fault_of_error run
  rw [out] at fault
  cases fault

/-- A reader beside itself, with another amount of fuel. -/
def beside (i : Input) (plain : i.environment.hostDirectives = []) : Truncation where
  first := i
  second := i
  failure := unfinished
  failure' := unfinished
  loose := True
  environment := rfl
  plain := plain
  size := Nat.le_refl _
  tight := fun tight => absurd trivial tight
  tokens _ := rfl

section beside

variable {plain : i.environment.hostDirectives = []} {x y : Parse α}

/-- A reader is level with itself. -/
theorem level_beside (inside : s.cursor ≤ i.tokens.size) : (beside i plain).Level s s :=
  ⟨inside, by rw [show min s.cursor (beside i plain).second.tokens.size = _ from
    Nat.min_eq_left inside]⟩

/-- Level with itself, a reader is in the same state. -/
theorem eq_of_level {t : State} (h : (beside i plain).Level s t) : t = s := by
  rw [h.same, show min s.cursor (beside i plain).second.tokens.size = _ from
    Nat.min_eq_left h.inside]

/-- Readers that stay level give the same if they do not use up their fuel. -/
theorem outcome_eq_of_cut (h : (beside i plain).Outcomes (x i s) (y i s))
    (fuelled : ¬ RunsOut x i s) (fuelled' : ¬ RunsOut y i s) : outcome x i s = outcome y i s := by
  unfold outcome
  generalize run : x i s = r at h
  generalize run' : y i s = r' at h
  cases h with
  | ok level => rw [eq_of_level level]
  | error => rfl
  | apart => rfl
  | first _ out => exact absurd ⟨_, out, _, run⟩ fuelled
  | second _ out => exact absurd ⟨_, out, _, run'⟩ fuelled'

/-- A reader that is level with itself does not leave the tokens. -/
theorem cursor_le_of_cut (h : (beside i plain).Outcomes (x i s) (x i s)) {a : α}
    (run : x i s = .ok a s') : s'.cursor ≤ i.tokens.size := by
  rw [run] at h
  cases h with
  | ok level => exact level.inside

/-- Statements with different fuel read alike, with or without enough of it. -/
theorem statementAt_beside (ends : i.Ends) (fuel fuel' : Nat) :
    (beside i plain).Reads (statementAt fuel) (statementAt fuel') := by
  refine fuel_cut (x := fun fuel (_ : Unit) => statementAt fuel)
    (y := fun fuel _ => statementAt fuel) (fun _ => rfl) (fun _ => rfl)
    (fun k k' inner _ s t level => ?_) fuel fuel' ⟨⟩ (.inl trivial)
  by_cases inside : s.cursor < i.tokens.size
  · exact statementStep_cut (inner ⟨⟩) level inside
  · rw [eq_of_level level]
    have eof : (i.token s).kind = .eof := by rwa [Input.token_outside (by omega)]
    obtain ⟨e, fails⟩ := statementStep_eof ends eof
    obtain ⟨s₁, run⟩ := fails (statementAt k)
    obtain ⟨s₂, run'⟩ := fails (statementAt k')
    show (beside i plain).Outcomes (statementStep (statementAt k) i s)
      (statementStep (statementAt k') i s)
    rw [run, run']
    exact .error

/-- So does a statement with the fuel that it takes itself. -/
theorem statement_beside (ends : i.Ends) (fuel : Nat) :
    (beside i plain).Reads (statementAt fuel) statement :=
  fun s t level => statementAt_beside ends fuel (i.left t + 1) s t level

theorem expression_beside (fuel : Nat) (b : Bool) :
    (beside i plain).Reads (expressionAt fuel b) (expression b) :=
  fun s t level => expressionAt_cut b (.inl trivial) s t level

theorem scriptItem_beside (ends : i.Ends) : (beside i plain).Reads scriptItem scriptItem := by
  refine current_cut.bind fun token => ?_
  have more : (beside i plain).Reads (return some (← statement))
      (return some (← statement)) := by
    refine Truncation.Reads.bind (fun s t level => ?_) fun node => .pure (some node)
    exact statement_beside ends (i.left s + 1) s t level
  cases token.kind with
  | eof => exact .pure none
  | _ => exact more

end beside

/-! ## readers that settle -/

/-- One round of a repetition. -/
def round (item : Parse (Option α)) (rest : Parse (List α)) : Parse (List α) := do
  match ← item with
  | some a => return a :: (← rest)
  | none => return []

/-- The reader `whole`, which is `x` with fuel for the tokens that are left, comes to an end by
itself.  It does not use up its fuel, more of it makes no difference, and there is none if it is
written as `step`, where `whole` is called again. -/
structure Settles (x : Nat → Parse α) (whole step : Parse α) (i : Input) (s : State) : Prop where
  fuelled : ¬ RunsOut whole i s
  same : ∀ fuel, i.left s < fuel → outcome (x fuel) i s = outcome whole i s
  step : outcome whole i s = outcome step i s

/-- A reader that reads alike with all amounts of fuel settles. -/
theorem settles_of_beside {x : Nat → Parse α} {whole step : Parse α} (ends : i.Ends)
    (plain : i.environment.hostDirectives = []) (whole_eq : whole i s = x (i.left s + 1) i s)
    (fuelled : ∀ fuel, i.left s < fuel → ¬ RunsOut (x fuel) i s) (fuelled' : ¬ RunsOut step i s)
    (eof : (i.token s).kind = .eof →
      ∃ r, (∀ fuel, outcome (x (fuel + 1)) i s = r) ∧ outcome step i s = r)
    (reads : ∀ fuel fuel', (beside i plain).Reads (x fuel) (x fuel'))
    (steps : s.cursor < i.tokens.size →
      (beside i plain).Outcomes (x (i.left s + 1) i s) (step i s)) :
    Settles x whole step i s := by
  have start : outcome whole i s = outcome (x (i.left s + 1)) i s := by
    unfold outcome
    rw [whole_eq]
  have fuelled₀ := fuelled (i.left s + 1) (Nat.lt_succ_self _)
  refine ⟨?_, fun fuel enough => ?_, ?_⟩
  · unfold RunsOut Fails
    rw [whole_eq]
    exact fuelled₀
  · rw [start]
    by_cases stop : (i.token s).kind = .eof
    · obtain ⟨r, given, -⟩ := eof stop
      obtain ⟨k, rfl⟩ := Nat.exists_eq_succ_of_ne_zero (Nat.ne_of_gt (Nat.zero_lt_of_lt enough))
      rw [given, given]
    · have inside := Input.inside_of_token ends stop
      exact outcome_eq_of_cut (reads _ _ s s (level_beside (Nat.le_of_lt inside)))
        (fuelled fuel enough) fuelled₀
  · rw [start]
    by_cases stop : (i.token s).kind = .eof
    · obtain ⟨r, given, given'⟩ := eof stop
      rw [given, given']
    · exact outcome_eq_of_cut (steps (Input.inside_of_token ends stop)) fuelled₀ fuelled'

section settling

variable (ends : i.Ends) (plain : i.environment.hostDirectives = []) (s : State)
include ends plain

/-- An expression settles: with enough fuel, more fuel makes no difference. -/
theorem expression_settles (b : Bool) :
    Settles (expressionAt · b) (expression b) (expressionStep expression b) i s := by
  have inner (b : Bool) (bound : Nat) := expression_reads ends b bound
  refine settles_of_beside ends plain (expression_eq b) (fun fuel enough => ?_) ?_ (fun eof => ?_)
    (fun fuel fuel' => expressionAt_cut b (.inl trivial)) fun inside => ?_
  · exact not_runsOut_of_faultless (expressionAt_reads ends fuel b s enough)
  · exact not_runsOut_of_faultless
      (expressionStep_reads ends (inner · _) b s (Nat.lt_succ_self (i.left s)))
  · have fails := expressionStep_eof eof
    exact ⟨_, fun fuel => outcome_of_fails (fails (expressionAt fuel) b),
      outcome_of_fails (fails expression b)⟩
  · exact expressionStep_cut (expression_beside (i.left s)) b s s
      (level_beside (Nat.le_of_lt inside))

/-- A statement settles: with enough fuel, more fuel makes no difference. -/
theorem statement_settles : Settles statementAt statement (statementStep statement) i s := by
  have inner (bound : Nat) := statement_reads ends plain bound
  refine settles_of_beside ends plain rfl (fun fuel enough => ?_) ?_ (fun eof => ?_)
    (statementAt_beside ends) fun inside => ?_
  · exact not_runsOut_of_faultless (statementAt_reads ends plain fuel s enough)
  · exact not_runsOut_of_faultless
      (statementStep_reads ends plain (inner _) s (Nat.lt_succ_self (i.left s)))
  · obtain ⟨e, fails⟩ := statementStep_eof ends eof
    exact ⟨_, fun fuel => outcome_of_fails (fails (statementAt fuel)),
      outcome_of_fails (fails statement)⟩
  · exact statementStep_cut (statement_beside ends (i.left s))
      (level_beside (Nat.le_of_lt inside)) inside

/-- The statements of a script are read one after the other until there are no more. -/
theorem scripts_settle :
    Settles (collect scriptItem) (many scriptItem) (round scriptItem (many scriptItem)) i s := by
  have mono (state state' : State) (node : Node) (moved : Progress i 0 state state') :
      state.Admits node → state'.Admits node := moved.admits
  have items (state : State) (_ : i.left state < i.left s + 1) :=
    scriptItem_faultless ends plain state
  refine settles_of_beside ends plain rfl (fun fuel enough => ?_) ?_ (fun eof => ?_)
    (fun fuel fuel' => collect_cut (scriptItem_beside ends) (.inl trivial)) fun inside => ?_
  · exact not_runsOut_of_faultless (collect_reads mono items fuel s (by omega))
  · have reads : Faultless (round scriptItem (many scriptItem) i) s fun _ _ => True := by
      refine andThen (items s (Nat.lt_succ_self _)) fun found s₁ ⟨moved, _⟩ => ?_
      have less := moved.left
      cases found with
      | none => trivial
      | some node => exact andThen (many_reads mono items s₁ (by omega)) fun _ _ _ => trivial
    exact not_runsOut_of_faultless reads
  · have nothing (rest : Parse (List Node)) :
        outcome (round scriptItem rest) i s = .ok ([], s) := by
      have run : round scriptItem rest i s = .ok [] s := bind_of_ok (scriptItem_eof eof)
      unfold outcome
      rw [run]
    exact ⟨_, fun fuel => nothing (collect scriptItem fuel), nothing _⟩
  · have rounds : (beside i plain).Reads (round scriptItem (collect scriptItem (i.left s)))
        (round scriptItem (many scriptItem)) := by
      refine (scriptItem_beside ends).bind fun found => ?_
      cases found with
      | none => exact .pure []
      | some node =>
          refine Truncation.Reads.bind (fun s t level => ?_) fun rest => .pure (node :: rest)
          exact collect_cut (scriptItem_beside ends) (.inl trivial) s t level
    exact rounds s s (level_beside (Nat.le_of_lt inside))

end settling

/-! ## tokens that are taken -/

/-- Where it succeeds, the reader was at a token that is not the end.  It has moved on, and not
beyond the tokens. -/
def Takes (x : Parse α) (i : Input) (s : State) : Prop :=
  ∀ a s', x i s = .ok a s' →
    s.cursor < i.tokens.size ∧ (i.token s).kind ≠ .eof ∧ s.cursor < s'.cursor ∧
      s'.cursor ≤ i.tokens.size

/-- A reader that succeeds has taken a token if it makes progress. -/
theorem takes_of_beside {x : Parse α} {P : State → α → Prop} (ends : i.Ends)
    (plain : i.environment.hostDirectives = [])
    (eof : (i.token s).kind = .eof → ∃ e, Fails e x i s)
    (reads : Reads i (i.left s + 1) 1 P x) (level : (beside i plain).Reads x x) : Takes x i s := by
  intro a s' run
  have more : (i.token s).kind ≠ .eof := by
    intro stop
    obtain ⟨e, s₁, failed⟩ := eof stop
    rw [run] at failed
    cases failed
  have inside := Input.inside_of_token ends more
  have last := cursor_le_of_cut (level s s (level_beside (Nat.le_of_lt inside))) run
  have left := ((reads s (Nat.lt_succ_self _)).post_of_ok run).1.left
  unfold Input.left at left
  exact ⟨inside, more, by omega, last⟩

/-- An expression takes at least one token. -/
theorem expression_takes (ends : i.Ends) (plain : i.environment.hostDirectives = []) (b : Bool) :
    Takes (expression b) i s :=
  takes_of_beside ends plain (fun eof => ⟨_, expression_eof eof b⟩) (expression_reads ends b _)
    (expression_cut b)

/-- A statement takes at least one token. -/
theorem statement_takes (ends : i.Ends) (plain : i.environment.hostDirectives = []) :
    Takes statement i s := by
  refine takes_of_beside ends plain (fun eof => ?_) (statement_reads ends plain _)
    fun s t level => statement_beside ends (i.left s + 1) s t level
  obtain ⟨e, fails⟩ := statementStep_eof ends eof
  exact ⟨e, fails (statementAt (i.left s))⟩

end Parse

/-! ## sessions -/

/-- A step that reads part of a script ends and makes progress. -/
structure Compile.Advances {α : Type} (x : Compile α) (s : Session) : Prop where
  /-- It is not given up for want of fuel. -/
  fuelled : ∀ e s', x s = .error e s' → e.cause ≠ .noProgress
  /-- It takes the next token at least, and none that is not there. -/
  moves : s.cursor < s.tokens.size → ∀ a s', x s = .ok a s' →
    s.cursor < s'.cursor ∧ s'.cursor ≤ s.tokens.size
  /-- It finds nothing where the script ends, be it at a token or behind the last one. -/
  stops : s.hasMore = false ∨ s.tokens.size ≤ s.cursor → ∀ a s', x s ≠ .ok a s'

namespace Compile

variable {α : Type} {s s' : Session} {x : Parse α}

theorem exists_of_parsing_eq_error {e : CompileError} (h : parsing x s = .error e s') :
    ∃ t, x s.input s.reader = .error e t := by
  unfold parsing at h
  split at h
  next => cases h
  next t run =>
    cases h
    exact ⟨t, run⟩

/-- A step of a session that reads makes progress as its reader does. -/
theorem advances_parsing (fuelled : ¬ Parse.RunsOut x s.input s.reader)
    (takes : Parse.Takes x s.input s.reader) : Advances (parsing x) s where
  fuelled e s' failed out := by
    obtain ⟨t, run⟩ := exists_of_parsing_eq_error failed
    exact fuelled ⟨e, out, t, run⟩
  moves _ a s' read := by
    obtain ⟨t, run, rfl⟩ := parsing_eq_ok read
    exact (takes a t run).2.2
  stops stop a s' read := by
    obtain ⟨t, run, -⟩ := parsing_eq_ok read
    obtain ⟨inside, more, -⟩ := takes a t run
    rcases stop with eof | outside
    · have eof : s.current.kind = .eof := by simpa [Session.hasMore] using eof
      exact more eof
    · exact absurd inside (Nat.not_lt.2 outside)

/-- Reading the statements of a script does not use up the fuel. -/
theorem build_fuelled {e : CompileError} (plain : s.environment.hostDirectives = [])
    (ends : s.input.Ends) (failed : build s = .error e s') : e.cause ≠ .noProgress := by
  have reads : Faultless build s fun _ _ => True := by
    refine .bind (parsing_faultless ?_)
    exact (Parse.script_faultless ends plain s.reader).imp fun _ _ _ => .modify trivial
  intro out
  have fault := reads.not_fault_of_error failed
  rw [out] at fault
  cases fault

end Compile

/-- Reading a script, a statement or an expression ends, whatever tokens a session holds and
wherever in them it is.  A statement or an expression that is read takes tokens, and there is none
where the script ends.  What stands behind the tokens is the end of a script from the start of a
session on, and the steps that change it put another end there. -/
theorem reading_terminates {s : Session} (plain : s.environment.hostDirectives = [])
    (ends : s.eof.kind = .eof) :
    (∀ e s', Compile.build s = .error e s' → e.cause ≠ .noProgress) ∧
    Compile.Advances Compile.statement s ∧
    (∀ withOperators, Compile.Advances (Compile.expression withOperators) s) ∧
    Parse.Settles (Parse.collect Parse.scriptItem) (Parse.many Parse.scriptItem)
      (Parse.round Parse.scriptItem (Parse.many Parse.scriptItem)) s.input s.reader ∧
    (∀ allowed, Parse.Settles Parse.statementAt Parse.statement
      (Parse.statementStep Parse.statement) s.input { s.reader with allowed }) ∧
    ∀ withOperators, Parse.Settles (Parse.expressionAt · withOperators)
      (Parse.expression withOperators)
      (Parse.expressionStep Parse.expression withOperators) s.input s.reader := by
  have ends : s.input.Ends := ends
  have statements (allowed : Allowed) :=
    Parse.statement_settles ends plain { s.reader with allowed }
  have expressions (b : Bool) := Parse.expression_settles ends plain s.reader b
  refine ⟨fun e s' failed => Compile.build_fuelled plain ends failed, ?_, fun b => ?_,
    Parse.scripts_settle ends plain _, statements, expressions⟩
  · exact Compile.advances_parsing (statements s.allowed).fuelled
      (Parse.statement_takes ends plain)
  · exact Compile.advances_parsing (expressions b).fuelled (Parse.expression_takes ends plain b)

/-- A session at the given place of `x++ x`, with an end between the statements and none behind
them. -/
def splitScript (cursor : Nat) : Session :=
  { Session.start {} {} with
    tokens := #[⟨.identifier "x", ⟨none, 1, 1⟩⟩, ⟨.adjust .up, ⟨none, 1, 2⟩⟩, ⟨.eof, ⟨none, 1, 4⟩⟩,
      ⟨.identifier "x", ⟨none, 1, 5⟩⟩]
    cursor }

/-- Of `x++ x` the first statement can be read, but none from the end in its middle, and none behind
the last token, where the reader comes back to the second `x` and fails. -/
theorem reading_terminates_splitScript :
    (∃ node s', Compile.statement (splitScript 0) = .ok node s' ∧ 0 < s'.cursor ∧ s'.cursor ≤ 4) ∧
    (∀ node s', Compile.statement (splitScript 2) ≠ .ok node s') ∧
    ∀ node s', Compile.statement (splitScript 4) ≠ .ok node s' := by
  obtain ⟨-, first, -⟩ := reading_terminates (s := splitScript 0) rfl rfl
  obtain ⟨-, inner, -⟩ := reading_terminates (s := splitScript 2) rfl rfl
  obtain ⟨-, last, -⟩ := reading_terminates (s := splitScript 4) rfl rfl
  refine ⟨?_, inner.stops (.inl rfl), last.stops (.inr (Nat.le_refl _))⟩
  have read : ∃ node s', Compile.statement (splitScript 0) = .ok node s' := ⟨_, _, rfl⟩
  obtain ⟨node, s', run⟩ := read
  exact ⟨node, s', run, first.moves (by decide) node s' run⟩

end HostScript
