import HostScript.Error

/-!
# HostScript.Proofs.Steps

Reading, generating and compiling are all programs that change a state and may fail with a
`CompileError`.  Three ways to reason about them:

* `bind_eq_ok` takes a successful run apart into the runs of its steps;
* `Faultless x s post` says that `x`, started in the state `s`, succeeds as `post` says or fails for
  a reason that the script is to blame for, and never through a fault of the compiler;
* `Meets failed x s post` leaves it open how `x` may fail: with `Freely` only success is spoken of,
  with `Never` there is nothing but success.
-/

namespace HostScript

variable {σ α β : Type}

/-- A reason that no script should be able to bring about: the faults of the compiler itself, and a
chain with a link that is neither a field nor a call. -/
def Cause.isFault : Cause → Bool
  | notAChainLink _ => true
  | cause => cause.kind == .compiler

/-! ## successful runs -/

/-- A sequence succeeds when its two parts do. -/
theorem bind_eq_ok {x : EStateM CompileError σ α} {f : α → EStateM CompileError σ β} {s s'' : σ}
    {b : β} :
    (x >>= f) s = .ok b s'' ↔ ∃ a s', x s = .ok a s' ∧ f a s' = .ok b s'' := by
  show EStateM.bind x f s = _ ↔ _
  unfold EStateM.bind
  cases x s with
  | ok a s' =>
      constructor
      · exact fun h => ⟨a, s', rfl, h⟩
      · rintro ⟨a', t, h, hf⟩
        obtain ⟨rfl, rfl⟩ : a = a' ∧ s' = t := by simpa using h
        exact hf
  | error e s' => simp

/-- Behind a step that succeeds the rest goes on. -/
theorem bind_of_ok {x : EStateM CompileError σ α} {f : α → EStateM CompileError σ β} {a : α}
    {s s' : σ} (run : x s = .ok a s') : (x >>= f) s = f a s' := by
  show EStateM.bind x f s = _
  rw [EStateM.bind, run]

/-- A step that fails ends it all. -/
theorem bind_of_error {x : EStateM CompileError σ α} {f : α → EStateM CompileError σ β}
    {e : CompileError} {s s' : σ} (run : x s = .error e s') : (x >>= f) s = .error e s' := by
  show EStateM.bind x f s = _
  rw [EStateM.bind, run]

/-- A value that is returned succeeds with itself, and nothing else happens. -/
theorem pure_eq_ok {a b : α} {s s' : σ} :
    (pure a : EStateM CompileError σ α) s = .ok b s' ↔ a = b ∧ s = s' := by
  show EStateM.Result.ok a s = _ ↔ _
  simp

/-- Reading the state succeeds with the state. -/
theorem get_eq_ok {s s' t : σ} :
    (get : EStateM CompileError σ σ) s = .ok t s' ↔ s = t ∧ s = s' := by
  show EStateM.Result.ok s s = _ ↔ _
  simp

theorem get_bind (f : σ → EStateM CompileError σ α) (s : σ) : (get >>= f) s = f s s := rfl

/-- A change of the state succeeds, and the new state is the changed one. -/
theorem modify_eq_ok {f : σ → σ} {s s' : σ} {u : PUnit} :
    (modify f : EStateM CompileError σ PUnit) s = .ok u s' ↔ f s = s' := by
  show EStateM.Result.ok PUnit.unit (f s) = _ ↔ _
  simp

/-- What is thrown is never a success. -/
theorem throw_ne_ok {e : CompileError} {a : α} {s s' : σ} :
    (throw e : EStateM CompileError σ α) s ≠ .ok a s' := by
  show EStateM.Result.error e s ≠ _
  simp

/-- Started in `s`, `x` does not fail. -/
abbrev Succeeds (x : EStateM CompileError σ α) (s : σ) : Prop := ∃ a s', x s = .ok a s'

/-- A sequence succeeds exactly under the conditions of its parts, where that of the second part may
not depend on what the first one returns. -/
theorem succeeds_bind_iff {x : EStateM CompileError σ α} {f : α → EStateM CompileError σ β} {s : σ}
    {first rest : Prop} (h : Succeeds x s ↔ first)
    (h' : ∀ a s', x s = .ok a s' → (Succeeds (f a) s' ↔ rest)) :
    Succeeds (x >>= f) s ↔ first ∧ rest := by
  constructor
  · rintro ⟨b, s'', run⟩
    obtain ⟨a, s', run₁, run₂⟩ := bind_eq_ok.1 run
    exact ⟨h.1 ⟨a, s', run₁⟩, (h' a s' run₁).1 ⟨b, s'', run₂⟩⟩
  · rintro ⟨holds, holds'⟩
    obtain ⟨a, s', run₁⟩ := h.2 holds
    obtain ⟨b, s'', run₂⟩ := (h' a s' run₁).2 holds'
    exact ⟨b, s'', bind_eq_ok.2 ⟨a, s', run₁, run₂⟩⟩

/-- Behind a step that succeeds, success is a matter of the rest. -/
theorem succeeds_bind_of_ok {x : EStateM CompileError σ α} {f : α → EStateM CompileError σ β}
    {s s' : σ} {a : α} (run : x s = .ok a s') : Succeeds (x >>= f) s ↔ Succeeds (f a) s' := by
  rw [Succeeds, Succeeds, bind_of_ok run]

/-! ## where runs end -/

/-- Where a run ends, by success or by failure. -/
def endState (x : EStateM CompileError σ α) (s : σ) : σ :=
  match x s with
  | .ok _ s' => s'
  | .error _ s' => s'

section endState

variable {x : EStateM CompileError σ α} {f : α → EStateM CompileError σ β} {s s' : σ}

/-- A successful run ends in the state that it returns. -/
theorem endState_of_ok {a : α} (run : x s = .ok a s') : endState x s = s' := by
  rw [endState, run]

/-- A failed run ends in the state that it has reached. -/
theorem endState_of_error {e : CompileError} (run : x s = .error e s') : endState x s = s' := by
  rw [endState, run]

/-- A sequence ends where its second part does, or where the first part fails. -/
theorem endState_bind :
    endState (x >>= f) s = match x s with
      | .ok a s' => endState (f a) s'
      | .error _ s' => s' := by
  unfold endState
  cases run : x s with
  | ok a s' => rw [bind_of_ok run]
  | error e s' => rw [bind_of_error run]

end endState

/-! ## runs without faults -/

/-- Started in `s`, `x` succeeds as `post` says or fails without a fault. -/
def Faultless (x : EStateM CompileError σ α) (s : σ) (post : α → σ → Prop) : Prop :=
  match x s with
  | .ok a s' => post a s'
  | .error e _ => e.cause.isFault = false

namespace Faultless

variable {x : EStateM CompileError σ α} {f : α → EStateM CompileError σ β} {s : σ}
  {post post' : α → σ → Prop}

/-- A run that is known to succeed has no fault. -/
theorem of_ok {a : α} {s' : σ} (run : x s = .ok a s') (h : post a s') : Faultless x s post := by
  unfold Faultless
  rw [run]
  exact h

/-- What is known of every success may be used in the condition on it. -/
theorem imp_ok (h : Faultless x s post)
    (step : ∀ a s', x s = .ok a s' → post a s' → post' a s') : Faultless x s post' := by
  unfold Faultless at h ⊢
  cases run : x s with
  | ok a s' => exact step a s' run (by simpa [run] using h)
  | error e s' => simpa [run] using h

/-- A condition on the success may be weakened. -/
theorem imp (h : Faultless x s post) (step : ∀ a s', post a s' → post' a s') :
    Faultless x s post' :=
  h.imp_ok fun a s' _ => step a s'

/-- A sequence has no fault if its first part has none and leads to where the second has none. -/
theorem bind {post : β → σ → Prop} (h : Faultless x s fun a s' => Faultless (f a) s' post) :
    Faultless (x >>= f) s post := by
  unfold Faultless at h ⊢
  show match EStateM.bind x f s with
    | .ok b s' => post b s'
    | .error e _ => e.cause.isFault = false
  unfold EStateM.bind
  cases run : x s with
  | ok a s' => simpa [run, Faultless] using h
  | error e s' => simpa [run] using h

theorem pure {a : α} (h : post a s) : Faultless (pure a) s post := h

/-- Failing for a reason that the script is to blame for is no fault. -/
theorem throw {e : CompileError} (h : e.cause.isFault = false) :
    Faultless (throw e : EStateM CompileError σ α) s post := h

theorem modify {g : σ → σ} {post : PUnit → σ → Prop} (h : post ⟨⟩ (g s)) :
    Faultless (modify g : EStateM CompileError σ PUnit) s post := h

theorem get {post : σ → σ → Prop} (h : post s s) :
    Faultless (get : EStateM CompileError σ σ) s post := h

/-- The success of a faultless run is as it says. -/
theorem post_of_ok (h : Faultless x s post) {a : α} {s' : σ} (run : x s = .ok a s') :
    post a s' := by
  unfold Faultless at h
  simpa [run] using h

/-- The failure of a faultless run is no fault. -/
theorem not_fault_of_error (h : Faultless x s post) {e : CompileError} {s' : σ}
    (run : x s = .error e s') : e.cause.isFault = false := by
  unfold Faultless at h
  simpa [run] using h

end Faultless

/-! ## runs that may fail in a given way -/

/-- Any failure will do. -/
def Freely : CompileError → Prop := fun _ => True

/-- No failure will do. -/
def Never : CompileError → Prop := fun _ => False

/-- Started in `s`, `x` succeeds as `post` says or fails as `failed` says. -/
def Meets (failed : CompileError → Prop) (x : EStateM CompileError σ α) (s : σ)
    (post : α → σ → Prop) : Prop :=
  match x s with
  | .ok a s' => post a s'
  | .error e _ => failed e

namespace Meets

variable {failed : CompileError → Prop} {x : EStateM CompileError σ α}
  {f : α → EStateM CompileError σ β} {s : σ} {post post' : α → σ → Prop}

/-- A condition on the success may be weakened, whatever the failures. -/
theorem imp (h : Meets failed x s post) (step : ∀ a s', post a s' → post' a s') :
    Meets failed x s post' := by
  unfold Meets at h ⊢
  cases run : x s with
  | ok a s' => exact step a s' (by simpa [run] using h)
  | error e s' => simpa [run] using h

/-- Two conditions on the success hold together. -/
theorem and (h : Meets failed x s post) (h' : Meets failed x s post') :
    Meets failed x s fun a s' => post a s' ∧ post' a s' := by
  unfold Meets at h h' ⊢
  cases run : x s with
  | ok a s' => exact ⟨by simpa [run] using h, by simpa [run] using h'⟩
  | error e s' => simpa [run] using h

/-- Without any condition there is nothing to show. -/
theorem freely : Meets Freely x s fun _ _ => True := by
  unfold Meets
  cases x s with
  | ok a s' => trivial
  | error e s' => trivial

/-- A sequence meets a condition if its first part leads to where the second meets it. -/
theorem bind_iff {post : β → σ → Prop} :
    Meets failed (x >>= f) s post ↔
      Meets failed x s fun a s' => Meets failed (f a) s' post := by
  unfold Meets
  show (match EStateM.bind x f s with
    | .ok b s' => post b s'
    | .error e _ => failed e) ↔ _
  unfold EStateM.bind
  cases x s with
  | ok a s' => exact Iff.rfl
  | error e s' => exact Iff.rfl

/-- The usual form of `bind_iff`, with a condition between the two parts. -/
theorem bind {post : β → σ → Prop} (first : Meets failed x s post')
    (rest : ∀ a s', post' a s' → Meets failed (f a) s' post) : Meets failed (x >>= f) s post :=
  bind_iff.2 (first.imp rest)

/-- Of a run that succeeds the condition on success is all that is said. -/
theorem iff_of_ok {a : α} {s' : σ} (run : x s = .ok a s') : Meets failed x s post ↔ post a s' := by
  unfold Meets
  rw [run]

/-- Where there is no way to fail there is success. -/
theorem exists_ok (h : Meets Never x s post) :
    ∃ a s', x s = .ok a s' ∧ post a s' := by
  unfold Meets at h
  cases run : x s with
  | ok a s' => exact ⟨a, s', rfl, by simpa [run] using h⟩
  | error e s' => simp [run, Never] at h

end Meets

end HostScript
