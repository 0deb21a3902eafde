import HostScript.Token.Lexer
import Mathlib.Data.List.DropRight

/-!
# HostScript.Proofs.Lexemes

What one step of reading a text finds, said without the scanner.

* A gap is a `Filler`: a blank, a comment up to where it ends, or the whole word `var`.
* A token is the same when nothing stands behind its lexeme (`step_alone`), so a lexeme can be
  read by itself.
* A step finds a fault exactly where a text is `Malformed`: a string or a block comment is open to
  the end, or a character starts no token.  Numbers are always well formed.
-/

namespace HostScript

namespace Scan

/-! ## spans -/

/-- A string ends at its closing quote, whatever stands behind. -/
theorem spanString_append_quote {escaped : Bool} {text raw rest : List Char}
    (h : spanString escaped text = some (raw, rest)) (other : List Char) :
    spanString escaped (raw ++ '"' :: other) = some (raw, other) := by
  fun_induction spanString escaped text generalizing raw rest with
  | case1 => simp at h
  | case2 escaped c cs ends =>
      obtain ⟨rfl, rfl⟩ : [] = raw ∧ cs = rest := by simpa using h
      simp [spanString, ends.2]
  | case3 escaped c cs goesOn ih =>
      obtain ⟨⟨raw', rest'⟩, span, same⟩ := Option.map_eq_some_iff.1 h
      obtain ⟨rfl, rfl⟩ : c :: raw' = raw ∧ rest' = rest := by simpa using same
      rw [List.cons_append, spanString, if_neg goesOn, ih span, Option.map_some]

/-- A numeral ends where its characters do. -/
theorem spanNumeral_fst (seen : Bool) (text : List Char) :
    spanNumeral seen (spanNumeral seen text).1 = ((spanNumeral seen text).1, []) := by
  fun_induction spanNumeral seen text with
  | case1 => rfl
  | case2 seen c cs point numeral rest span ih => simp_all [spanNumeral]
  | case3 seen c cs point digit numeral rest span ih => simp_all [spanNumeral]
  | case4 => rfl

theorem isDigit_or_eq_of_mem_spanNumeral {seen : Bool} {text : List Char} {c : Char}
    (h : c ∈ (spanNumeral seen text).1) : c.isDigit = true ∨ c = '.' := by
  fun_induction spanNumeral seen text with
  | case1 => simp at h
  | case2 seen d cs point numeral rest span ih =>
      rw [span] at ih
      rcases List.mem_cons.1 h with rfl | later
      · exact .inr point.1
      · exact ih later
  | case3 seen d cs point digit numeral rest span ih =>
      rw [span] at ih
      rcases List.mem_cons.1 h with rfl | later
      · exact .inl digit
      · exact ih later
  | case4 => simp at h

/-- There is one point at most, and none if one was seen before. -/
theorem count_spanNumeral (seen : Bool) (text : List Char) :
    (spanNumeral seen text).1.count '.' ≤ if seen then 0 else 1 := by
  fun_induction spanNumeral seen text with
  | case1 => simp
  | case2 seen c cs point numeral rest span ih =>
      obtain ⟨rfl, rfl⟩ := point
      rw [span] at ih
      simpa using ih
  | case3 seen c cs point digit numeral rest span ih =>
      have other : c ≠ '.' := by
        rintro rfl
        exact absurd digit (by decide)
      rw [span] at ih
      rwa [List.count_cons_of_ne other]
  | case4 => simp

/-- What is taken for a number is one, unless it is a point by itself. -/
theorem isNumeral_spanNumeral {text : List Char} (nonempty : (spanNumeral false text).1 ≠ [])
    (other : (spanNumeral false text).1 ≠ ['.']) :
    Number.isNumeral (spanNumeral false text).1 = true := by
  have points := count_spanNumeral false text
  have members (c : Char) (h : c ∈ (spanNumeral false text).1) : c.isDigit = true ∨ c = '.' :=
    isDigit_or_eq_of_mem_spanNumeral h
  generalize (spanNumeral false text).1 = numeral at nonempty other points members
  simp only [Number.isNumeral, Bool.and_eq_true, List.all_eq_true, List.any_eq_true,
    Bool.or_eq_true, beq_iff_eq, decide_eq_true_eq]
  refine ⟨⟨members, ?_⟩, by simpa using points⟩
  by_contra none
  -- without a digit there are only points, and so just the one
  have all : numeral = List.replicate numeral.length '.' := by
    refine List.eq_replicate_of_mem fun c h => (members c h).resolve_left fun digit => ?_
    exact none ⟨c, h, digit⟩
  have length : numeral.length = 1 := by
    rw [all, List.count_replicate_self] at points
    have := List.length_pos_iff.2 nonempty
    simp only [Bool.false_eq_true, if_false] at points
    omega
  rw [length] at all
  exact other all

/-- A comment ends at the first `*/`. -/
theorem spanComment_eq_some {text comment rest : List Char}
    (h : spanComment text = some (comment, rest)) :
    ∃ inner, comment = inner ++ ['*', '/'] ∧ ¬ ['*', '/'] <:+: inner := by
  fun_induction spanComment text generalizing comment rest with
  | case1 => simp at h
  | case2 =>
      obtain ⟨rfl, -⟩ : ['*', '/'] = comment ∧ _ = rest := by simpa using h
      exact ⟨[], rfl, by simp⟩
  | case3 c cs goesOn ih =>
      obtain ⟨⟨comment', rest'⟩, span, same⟩ := Option.map_eq_some_iff.1 h
      obtain ⟨rfl, -⟩ : c :: comment' = comment ∧ rest' = rest := by simpa using same
      obtain ⟨inner, rfl, never⟩ := ih span
      refine ⟨c :: inner, rfl, fun found => ?_⟩
      rcases List.infix_cons_iff.1 found with ⟨more, starts⟩ | later
      · obtain ⟨rfl, rfl⟩ : '*' = c ∧ '/' :: more = inner := by simpa using starts
        have text := spanComment_append span
        exact goesOn _ rfl text.symm
      · exact never later

/-- A comment without a `*/` has no end. -/
theorem spanComment_eq_none_iff {text : List Char} :
    spanComment text = none ↔ ¬ ['*', '/'] <:+: text := by
  fun_induction spanComment text with
  | case1 => simp
  | case2 rest => simpa using List.IsPrefix.isInfix (List.prefix_append ['*', '/'] rest)
  | case3 c cs goesOn ih =>
      rw [Option.map_eq_none_iff, ih, List.infix_cons_iff, not_or]
      refine (and_iff_right ?_).symm
      rintro ⟨more, starts⟩
      obtain ⟨rfl, rfl⟩ : '*' = c ∧ '/' :: more = cs := by simpa using starts
      exact goesOn more rfl rfl

/-- Whether a character behind the text is escaped, in a string that goes on in the state
`escaped`. -/
def escapedAfter (escaped : Bool) (text : List Char) : Bool :=
  text.foldl (fun escaped c => !escaped && c == '\\') escaped

/-- A string is open to the end if every quote in it is escaped. -/
theorem spanString_eq_none_iff {escaped : Bool} {text : List Char} :
    spanString escaped text = none ↔
      ∀ before after, text = before ++ '"' :: after → escapedAfter escaped before = true := by
  fun_induction spanString escaped text with
  | case1 => simp
  | case2 escaped c cs ends =>
      obtain ⟨rfl, rfl⟩ := ends
      simp only [reduceCtorEq, false_iff]
      exact fun all => absurd (all [] cs rfl) (by simp [escapedAfter])
  | case3 escaped c cs goesOn ih =>
      rw [Option.map_eq_none_iff, ih]
      constructor
      · intro all before after split
        cases before with
        | nil =>
            obtain ⟨rfl, -⟩ : c = '"' ∧ cs = after := by simpa using split
            simpa [escapedAfter] using goesOn
        | cons d before =>
            obtain ⟨rfl, rfl⟩ : c = d ∧ cs = before ++ '"' :: after := by simpa using split
            exact all before after rfl
      · intro all before after split
        exact all (c :: before) after (by rw [split, List.cons_append])

/-- A character is escaped when an odd number of backslashes stands before it. -/
theorem escapedAfter_iff {text : List Char} :
    escapedAfter false text = true ↔ (text.rtakeWhile (· == '\\')).length % 2 = 1 := by
  induction text using List.reverseRecOn with
  | nil => simp [escapedAfter]
  | append_singleton text c ih =>
      have last : escapedAfter false (text ++ [c]) = (!escapedAfter false text && c == '\\') := by
        simp [escapedAfter]
      rw [last]
      by_cases backslash : c = '\\'
      · subst backslash
        rw [List.rtakeWhile_concat_pos _ _ _ (by simp), List.length_append, List.length_singleton]
        cases before : escapedAfter false text with
        | false =>
            have even : ¬ (text.rtakeWhile (· == '\\')).length % 2 = 1 := by simp [← ih, before]
            simp
            omega
        | true =>
            have odd := ih.1 before
            simp
            omega
      · rw [List.rtakeWhile_concat_neg _ _ _ (by simpa using backslash)]
        simp [backslash]

end Scan

/-! ## gaps -/

/-- One piece of what may stand between tokens, with the text behind it. -/
inductive Filler : List Char → List Char → Prop where
  | blank {c rest} : Text.isBlank c = true → Filler [c] rest
  /-- A line comment goes up to the end of its line. -/
  | line {comment rest} : '\n' ∉ comment → (∀ c ∈ rest.head?, c = '\n') →
      Filler ('/' :: '/' :: comment) rest
  /-- A block comment goes up to the first `*/`. -/
  | block {comment rest} : ¬ ['*', '/'] <:+: comment →
      Filler ('/' :: '*' :: (comment ++ ['*', '/'])) rest
  /-- The word `var`, which is no part of a longer one. -/
  | var {rest} : (∀ c ∈ rest.head?, Scan.isWordChar c = false) → Filler ['v', 'a', 'r'] rest

namespace Scan

variable {c : Char} {cs lexeme rest : List Char} {kind : TokenKind} {cause : Cause}

theorem not_of_mem_head?_dropWhile {p : Char → Bool} {text : List Char}
    (h : c ∈ (text.dropWhile p).head?) : p c = false := by
  induction text with
  | nil => simp at h
  | cons d text ih =>
      by_cases holds : p d = true
      · rw [List.dropWhile_cons_of_pos holds] at h
        exact ih h
      · rw [List.dropWhile_cons_of_neg holds] at h
        obtain rfl : d = c := by simpa using h
        simpa using holds

theorem eq_var_of_wordKind {word : String} (h : wordKind word = none) : word = "var" := by
  unfold wordKind at h
  split at h
  · cases h
  split at h
  · cases h
  split at h
  next same => exact same
  · split at h <;> cases h

theorem symbol_ne_gap : symbol c cs ≠ gap lexeme rest := by
  intro h
  unfold symbol at h
  split at h <;> try unfold operatorOrSet at h
  all_goals try split at h
  all_goals cases h

/-- What is left out is filler. -/
theorem filler_of_step (h : step c cs = gap lexeme rest) : Filler lexeme rest := by
  unfold step at h
  split at h
  next blank =>
    obtain ⟨rfl, rfl⟩ : [c] = lexeme ∧ cs = rest := by simpa using h
    exact .blank blank
  split at h
  · unfold slash at h
    split at h
    next rest' =>
      obtain ⟨rfl, rfl⟩ := gap.inj h
      refine .line (fun found => ?_) fun d first => ?_
      · simpa using List.mem_takeWhile_imp found
      · simpa using not_of_mem_head?_dropWhile first
    next rest' =>
      split at h
      next comment rest'' span =>
        obtain ⟨rfl, rfl⟩ := gap.inj h
        obtain ⟨inner, rfl, never⟩ := spanComment_eq_some span
        exact .block never
      next => cases h
    next =>
      unfold operatorOrSet at h
      split at h <;> cases h
  split at h
  · unfold string at h
    split at h <;> cases h
  split at h
  · dsimp only [numeral] at h
    split at h
    · cases h
    · split at h <;> cases h
  split at h
  · dsimp only [word] at h
    split at h
    · cases h
    next none =>
      obtain ⟨rfl, rfl⟩ := gap.inj h
      have letters := congrArg String.toList (eq_var_of_wordKind none)
      rw [String.toList_ofList] at letters
      rw [letters]
      exact .var fun d first => not_of_mem_head?_dropWhile first
  · exact absurd h symbol_ne_gap

/-! ## tokens -/

/-- A sign is read the same with nothing behind it. -/
theorem symbol_alone (h : symbol c cs = token kind lexeme rest) :
    kind ≠ .eof ∧ ∃ ds, lexeme = c :: ds ∧ symbol c ds = token kind lexeme [] := by
  unfold symbol at h
  split at h <;> try unfold operatorOrSet at h
  all_goals try split at h
  all_goals
    cases h
    try exact ⟨by simp, _, rfl, rfl⟩

theorem slash_alone (h : slash cs = token kind lexeme rest) :
    kind ≠ .eof ∧ ∃ ds, lexeme = '/' :: ds ∧ slash ds = token kind lexeme [] := by
  unfold slash at h
  split at h
  · cases h
  · split at h <;> cases h
  · unfold operatorOrSet at h
    split at h <;> cases h <;> exact ⟨by simp, _, rfl, rfl⟩

theorem string_alone (h : string cs = token kind lexeme rest) :
    kind ≠ .eof ∧ ∃ ds, lexeme = '"' :: ds ∧ string ds = token kind lexeme [] := by
  unfold string at h
  split at h
  next raw rest' span =>
    cases h
    refine ⟨by simp, raw ++ ['"'], rfl, ?_⟩
    rw [string, spanString_append_quote span []]
  next => cases h

/-- What is taken off a text starts with its first character. -/
theorem exists_cons_of_splits (h : lexeme ≠ [] ∧ lexeme ++ rest = c :: cs) :
    ∃ ds, lexeme = c :: ds := by
  obtain ⟨nonempty, append⟩ := h
  cases lexeme with
  | nil => exact absurd rfl nonempty
  | cons d ds =>
      rw [List.cons_append, List.cons.injEq] at append
      exact ⟨ds, by rw [append.1]⟩

theorem numeral_alone (start : c.isDigit ∨ c = '.')
    (h : numeral (c :: cs) = token kind lexeme rest) :
    kind ≠ .eof ∧ ∃ ds, lexeme = c :: ds ∧ numeral (c :: ds) = token kind lexeme [] := by
  obtain ⟨ds, starts⟩ := exists_cons_of_splits (by simpa [h] using splits_numeral start cs)
  have again := spanNumeral_fst false (c :: cs)
  dsimp only [numeral] at h ⊢
  generalize spanNumeral false (c :: cs) = span at h again
  split at h
  next point =>
    obtain ⟨rfl, rfl, -⟩ := token.inj h
    refine ⟨by simp, ds, starts, ?_⟩
    rw [← starts, again]
    exact if_pos point
  next other =>
    split at h
    next value read =>
      obtain ⟨rfl, rfl, -⟩ := token.inj h
      refine ⟨by simp, ds, starts, ?_⟩
      rw [← starts, again]
      simp only [if_neg other, read]
    next => cases h

theorem wordKind_ne_eof {word : String} : wordKind word ≠ some .eof := by
  unfold wordKind
  split_ifs
  · simp
  · simp
  · simp
  · split <;> simp

theorem word_alone (start : isWordStart c) (h : word (c :: cs) = token kind lexeme rest) :
    kind ≠ .eof ∧ ∃ ds, lexeme = c :: ds ∧ word (c :: ds) = token kind lexeme [] := by
  obtain ⟨ds, starts⟩ := exists_cons_of_splits (by simpa [h] using splits_word start cs)
  dsimp only [word] at h ⊢
  split at h
  next kind' read =>
    obtain ⟨rfl, rfl, -⟩ := token.inj h
    refine ⟨fun eof => wordKind_ne_eof (eof ▸ read), ds, starts, ?_⟩
    have letters : ∀ d ∈ (c :: cs).takeWhile isWordChar, isWordChar d = true :=
      fun d found => List.mem_takeWhile_imp found
    rw [← starts, List.takeWhile_eq_self_iff.2 letters, List.dropWhile_eq_nil_iff.2 letters]
    simp only [read]
  next => cases h

/-- A token is read the same with nothing behind its lexeme. -/
theorem step_alone (h : step c cs = token kind lexeme rest) :
    kind ≠ .eof ∧ ∃ ds, lexeme = c :: ds ∧ step c ds = token kind lexeme [] := by
  unfold step at h ⊢
  by_cases blank : Text.isBlank c = true
  · simp [blank] at h
  by_cases divides : c = '/'
  · subst divides
    simpa [blank] using slash_alone (by simpa [blank] using h)
  by_cases quote : c = '"'
  · subst quote
    simpa [blank] using string_alone (by simpa [blank] using h)
  by_cases number : c.isDigit ∨ c = '.'
  · simp only [blank, divides, quote, number, if_true, if_false, Bool.false_eq_true] at h ⊢
    exact numeral_alone number h
  by_cases letter : isWordStart c = true
  · simp only [blank, divides, quote, number, letter, if_true, if_false, Bool.false_eq_true] at h ⊢
    exact word_alone letter h
  · simp only [blank, divides, quote, number, letter, if_false, Bool.false_eq_true] at h ⊢
    exact symbol_alone h

/-! ## faults -/

/-- The signs that tokens start with. -/
def signs : List Char :=
  [';', ':', ',', '#', '\\', '(', ')', '\x7b', '\x7d', '+', '-', '*', '/', '%', '^', '=', '!', '<',
    '>', '&', '|', '.', '"']

/-- Tokens start with a letter, a digit, an underscore or one of the `signs`. -/
def startsToken (c : Char) : Bool := isWordChar c || signs.contains c

end Scan

/-- The text starts with something that is no token, for which `cause` is given with its message. -/
inductive Malformed : List Char → Cause → String → Prop where
  /-- A string is open to the end: an odd number of backslashes stands before each quote. -/
  | openString {body} :
      (∀ before after, body = before ++ '"' :: after →
        (before.rtakeWhile (· == '\\')).length % 2 = 1) →
      Malformed ('"' :: body) .unterminatedString "Unterminated string literal."
  | openComment {body} : ¬ ['*', '/'] <:+: body →
      Malformed ('/' :: '*' :: body) .unterminatedComment "Unterminated block comment."
  | stray {c cs} : Text.isBlank c = false → Scan.startsToken c = false →
      Malformed (c :: cs) (.unexpectedCharacter c)
        ("Unexpected character '" ++ Text.showChar c ++ "'.")

namespace Scan

variable {c : Char} {cs : List Char} {cause : Cause}

theorem malformed_of_symbol (blank : Text.isBlank c = false) (letter : isWordChar c = false)
    (quote : c ≠ '"') (point : c ≠ '.') (h : symbol c cs = fault cause) :
    Malformed (c :: cs) cause cause.message := by
  unfold symbol at h
  split at h <;> try unfold operatorOrSet at h
  all_goals try split at h
  all_goals cases h
  refine .stray blank ?_
  simp_all [startsToken, signs]

theorem symbol_of_not_startsToken (h : startsToken c = false) :
    symbol c cs = fault (.unexpectedCharacter c) := by
  unfold symbol
  split <;> first | rfl | exact absurd h (by decide)

/-- A number is never refused. -/
theorem numeral_ne_fault (start : c.isDigit ∨ c = '.') : numeral (c :: cs) ≠ fault cause := by
  intro h
  have nonempty : (spanNumeral false (c :: cs)).1 ≠ [] := by
    by_cases point : c = '.'
    · simp [spanNumeral, point]
    · simp [spanNumeral, point, start.resolve_right point]
  dsimp only [numeral] at h
  split at h
  · cases h
  next other =>
    rw [Number.ofNumeral?, if_pos (isNumeral_spanNumeral nonempty other)] at h
    cases h

theorem isWordChar_eq_false (digit : ¬ (c.isDigit ∨ c = '.')) (letter : ¬ isWordStart c = true) :
    isWordChar c = false := by
  simp only [isWordStart, Bool.or_eq_true, not_or] at letter digit
  simp [isWordChar, Char.isAlphanum, letter, digit]

/-- A step finds a fault exactly where the text is malformed. -/
theorem step_eq_fault_iff : step c cs = fault cause ↔ Malformed (c :: cs) cause cause.message := by
  constructor
  · intro h
    unfold step at h
    split at h
    · cases h
    next blank =>
    split at h
    next divides =>
      subst divides
      unfold slash at h
      split at h
      · cases h
      · split at h
        · cases h
        next none =>
          cases h
          exact .openComment (spanComment_eq_none_iff.1 none)
      · unfold operatorOrSet at h
        split at h <;> cases h
    next divides =>
    split at h
    next quote =>
      subst quote
      unfold string at h
      split at h
      · cases h
      next none =>
        cases h
        refine .openString fun before after split => ?_
        exact escapedAfter_iff.1 (spanString_eq_none_iff.1 none before after split)
    next quote =>
    split at h
    next number => exact absurd h (numeral_ne_fault number)
    next number =>
    split at h
    · dsimp only [word] at h
      split at h <;> cases h
    next letter =>
      exact malformed_of_symbol (by simpa using blank) (isWordChar_eq_false number letter) quote
        (fun point => number (.inr point)) h
  · generalize message : cause.message = text
    intro malformed
    cases malformed with
    | openString all =>
        have none := spanString_eq_none_iff.2 fun before after split =>
          escapedAfter_iff.2 (all before after split)
        rw [step, if_neg (by decide), if_neg (by decide), if_pos rfl, string, none]
    | openComment never =>
        rw [step, if_neg (by decide), if_pos rfl, slash, spanComment_eq_none_iff.2 never]
    | stray blank other =>
        have word : isWordChar c = false ∧ signs.contains c = false := by
          simpa only [startsToken, Bool.or_eq_false_iff] using other
        rw [step, if_neg (by simp [blank]), if_neg, if_neg, if_neg, if_neg]
        · exact symbol_of_not_startsToken other
        all_goals simp_all [isWordChar, isWordStart, Char.isAlphanum, signs]

/-- A filler that is followed by a quote at once is a blank. -/
theorem isBlank_of_filler {lexeme rest : List Char} (h : Filler lexeme rest)
    (append : lexeme ++ rest = [c, '"']) : Text.isBlank c = true := by
  cases h with
  | blank blank =>
      obtain ⟨rfl, -⟩ := List.cons.inj append
      exact blank
  | _ => simp at append

/-- The characters that a token can start with. -/
theorem exists_token_iff : (∃ cs kind lexeme rest, step c cs = token kind lexeme rest) ↔
    Text.isBlank c = false ∧ startsToken c = true := by
  constructor
  · rintro ⟨cs, kind, lexeme, rest, h⟩
    have visible : Text.isBlank c = false := by
      rw [← Bool.not_eq_true]
      intro blank
      simp [step, blank] at h
    refine ⟨visible, ?_⟩
    by_contra other
    have stray : Malformed (c :: cs) _ _ := .stray visible (by simpa using other)
    rw [step_eq_fault_iff.2 stray] at h
    cases h
  · rintro ⟨visible, starts⟩
    -- the quote serves for a string that ends, and is no part of any other token
    have splits := splits_step c ['"']
    cases found : step c ['"'] with
    | gap lexeme rest =>
        rw [found] at splits
        have blank := isBlank_of_filler (filler_of_step found) splits.2
        rw [visible] at blank
        cases blank
    | token kind lexeme rest => exact ⟨_, _, _, _, found⟩
    | fault cause =>
        have malformed := step_eq_fault_iff.1 found
        generalize cause.message = message at malformed
        cases malformed with
        | openString all => exact absurd (all [] [] rfl) (by simp)
        | stray _ other =>
            rw [other] at starts
            cases starts

end Scan

end HostScript
