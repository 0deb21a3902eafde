import HostScript.Proofs.Tokenization

/-!
# HostScript.Proofs.Lines

Reading a script line by line.  A line break ends whatever stands before it that has an end of its
own: no operator, number, word or line comment goes on behind it, and a string or block comment that
is complete does not either.  So every step of reading a text is the same if a line break and more
text follow (`Scan.step_newline`), and the tokens of two texts on lines of their own are those of
the first one, without its end, and those of the second one, from its line on.
-/

namespace HostScript

namespace Scan

variable {c : Char} {cs text rest : List Char}

/-- What is found if more text follows: it is left over as well. -/
def followedBy (more : List Char) : Scan → Scan
  | gap lexeme rest => gap lexeme (rest ++ more)
  | token kind lexeme rest => token kind lexeme (rest ++ more)
  | fault cause => fault cause

/-! ## spans -/

/-- A string that ends does so whatever follows. -/
theorem spanString_more {escaped : Bool} {raw : List Char}
    (h : spanString escaped text = some (raw, rest)) (more : List Char) :
    spanString escaped (text ++ more) = some (raw, rest ++ more) := by
  rw [← spanString_append h, List.append_assoc, List.cons_append]
  exact spanString_append_quote h (rest ++ more)

/-- A comment that ends does so whatever follows. -/
theorem spanComment_more {comment : List Char} (h : spanComment text = some (comment, rest))
    (more : List Char) : spanComment (text ++ more) = some (comment, rest ++ more) := by
  fun_induction spanComment text generalizing comment rest with
  | case1 => simp at h
  | case2 =>
      obtain ⟨rfl, rfl⟩ : ['*', '/'] = comment ∧ _ = rest := by simpa using h
      rfl
  | case3 c cs goesOn ih =>
      obtain ⟨⟨comment', rest'⟩, span, same⟩ := Option.map_eq_some_iff.1 h
      obtain ⟨rfl, rfl⟩ : c :: comment' = comment ∧ rest' = rest := by simpa using same
      have open_ (following : List Char) (star : c = '*') : cs ++ more ≠ '/' :: following := by
        intro closes
        cases cs with
        | nil => cases span
        | cons d ds =>
            obtain ⟨rfl, -⟩ := List.cons.inj closes
            exact goesOn ds star rfl
      rw [List.cons_append, spanComment, ih span, Option.map_some]
      exact open_

/-- A numeral ends at a line break. -/
theorem spanNumeral_newline (seen : Bool) (text more : List Char) :
    spanNumeral seen (text ++ '\n' :: more) =
      ((spanNumeral seen text).1, (spanNumeral seen text).2 ++ '\n' :: more) := by
  fun_induction spanNumeral seen text with
  | case1 => rfl
  | case2 seen c cs point numeral rest span ih =>
      rw [List.cons_append, spanNumeral, if_pos point, ih, span]
  | case3 seen c cs point digit numeral rest span ih =>
      rw [List.cons_append, spanNumeral, if_neg point, if_pos digit, ih, span]
  | case4 seen c cs point digit =>
      rw [List.cons_append, spanNumeral, if_neg point, if_neg digit]

section whiles

variable {p : Char → Bool} (stops : p '\n' = false)
include stops

/-- A word ends at a line break. -/
theorem takeWhile_newline (text more : List Char) :
    (text ++ '\n' :: more).takeWhile p = text.takeWhile p := by
  induction text with
  | nil => simp [stops]
  | cons c text ih => simp [List.takeWhile_cons, ih]

theorem dropWhile_newline (text more : List Char) :
    (text ++ '\n' :: more).dropWhile p = text.dropWhile p ++ '\n' :: more := by
  induction text with
  | nil => simp [stops]
  | cons c text ih =>
      rw [List.cons_append, List.dropWhile_cons, List.dropWhile_cons, ih]
      split <;> rfl

end whiles

/-! ## one step -/

/-- A character that the text starts with, other than a line break, is there already without what
follows. -/
theorem append_newline_eq_cons {d : Char} (other : d ≠ '\n') {more : List Char} :
    text ++ '\n' :: more = d :: rest ↔ ∃ ds, text = d :: ds ∧ rest = ds ++ '\n' :: more := by
  rw [List.append_eq_cons_iff]
  simp [other.symm]

/-- Whether an operator is one with an assignment does not depend on what is behind a line break. -/
theorem operatorOrSet_newline (op : BinaryOperator) (c : Char) (cs more : List Char) :
    operatorOrSet op c (cs ++ '\n' :: more) =
      (operatorOrSet op c cs).followedBy ('\n' :: more) := by
  conv_rhs => unfold operatorOrSet
  split <;> simp_all [operatorOrSet, followedBy, append_newline_eq_cons]

theorem symbol_newline (c : Char) (cs more : List Char) :
    symbol c (cs ++ '\n' :: more) = (symbol c cs).followedBy ('\n' :: more) := by
  conv_rhs => unfold symbol
  split <;> simp_all [symbol, followedBy, operatorOrSet_newline, append_newline_eq_cons]

/-- A slash that is in order begins the same comment or operator before a line break. -/
theorem slash_newline (complete : ∀ cause, slash cs ≠ fault cause) (more : List Char) :
    slash (cs ++ '\n' :: more) = (slash cs).followedBy ('\n' :: more) := by
  conv_rhs => unfold slash
  split
  next rest =>
    rw [List.cons_append, slash, takeWhile_newline (by decide), dropWhile_newline (by decide)]
    rfl
  next rest =>
    rw [List.cons_append, slash]
    cases span : spanComment rest with
    | none => exact absurd (by rw [slash, span]) (complete .unterminatedComment)
    | some found =>
        rw [spanComment_more span]
        rfl
  next =>
    rw [slash]
    · exact operatorOrSet_newline ..
    all_goals simp_all [append_newline_eq_cons]

/-- A string that is in order is the same before a line break. -/
theorem string_newline (complete : ∀ cause, string cs ≠ fault cause) (more : List Char) :
    string (cs ++ '\n' :: more) = (string cs).followedBy ('\n' :: more) := by
  unfold string at complete ⊢
  cases span : spanString false cs with
  | none => exact absurd (by rw [span]) (complete .unterminatedString)
  | some found =>
      rw [spanString_more span]
      rfl

/-- A numeral is the same before a line break. -/
theorem numeral_newline (text more : List Char) :
    numeral (text ++ '\n' :: more) = (numeral text).followedBy ('\n' :: more) := by
  dsimp only [numeral]
  rw [spanNumeral_newline]
  dsimp only
  split
  · rfl
  · cases Number.ofNumeral? (spanNumeral false text).1 with
    | none => rfl
    | some value => rfl

/-- A word is the same before a line break. -/
theorem word_newline (text more : List Char) :
    word (text ++ '\n' :: more) = (word text).followedBy ('\n' :: more) := by
  dsimp only [word]
  rw [takeWhile_newline (by decide), dropWhile_newline (by decide)]
  cases wordKind (String.ofList (text.takeWhile isWordChar)) with
  | none => rfl
  | some kind => rfl

/-- A step that finds no fault finds the same if a line break follows. -/
theorem step_newline {found : Scan} (h : step c cs = found)
    (complete : ∀ cause, found ≠ fault cause) (more : List Char) :
    step c (cs ++ '\n' :: more) = found.followedBy ('\n' :: more) := by
  subst h
  unfold step at complete ⊢
  split at complete
  next blank =>
    rw [if_pos blank, if_pos blank]
    rfl
  next visible =>
  rw [if_neg visible, if_neg visible]
  split at complete
  next divides =>
    rw [if_pos divides, if_pos divides]
    exact slash_newline complete more
  next sign =>
  rw [if_neg sign, if_neg sign]
  split at complete
  next quote =>
    rw [if_pos quote, if_pos quote]
    exact string_newline complete more
  next bare =>
  rw [if_neg bare, if_neg bare]
  split
  · exact numeral_newline (c :: cs) more
  split
  · exact word_newline (c :: cs) more
  · exact symbol_newline c cs more

end Scan

/-! ## whole texts -/

section texts

variable {source : Option String} {position : Position} {text : List Char} {tokens : List Token}

/-- The tokens of a text are the first ones of a longer text that goes on in the next line. -/
theorem tokensFrom_newline (more : List Char) :
    tokensFrom source position ('\n' :: more) =
      tokensFrom source (.lineStart (position.line + 1)) more := by
  have step : Scan.step '\n' more = .gap ['\n'] more := if_pos (by decide)
  rw [tokensFrom_gap step]
  rfl

/-- Tokens before others, and one more before them. -/
theorem map_append_cons (t : Token) (front : List Token) (r : Except CompileError (List Token)) :
    (r.map (front ++ ·)).map (t :: ·) = r.map (t :: front ++ ·) := by
  cases r with
  | ok later => rfl
  | error e => rfl

/-- The tokens of a text come first, whatever follows on the next line.  The induction is along the
steps of reading the text, and the line break is reached where the text alone has its end. -/
theorem exists_front (h : tokensFrom source position text = .ok tokens) :
    ∃ front, tokens = front ++
        [⟨.eof, .ofPosition source (.lineStart ((position.after text).line + 1))⟩] ∧
      (∀ t ∈ front, t.kind ≠ .eof) ∧
      ∀ more, tokensFrom source position (text ++ '\n' :: more) =
        (tokensFrom source (.lineStart ((position.after text).line + 1)) more).map
          (front ++ ·) := by
  fun_induction tokensFrom source position text generalizing tokens with
  | case1 position =>
      obtain rfl := Except.ok.inj h
      refine ⟨[], rfl, by simp, fun more => ?_⟩
      rw [List.nil_append, tokensFrom_newline]
      exact (congrFun Except.map_id _).symm
  | case2 position c cs lexeme rest step ih =>
      have splits := Scan.splits_step c cs
      rw [step, Scan.splits_gap] at splits
      obtain ⟨front, rfl, proper, follows⟩ := ih h
      rw [← splits.2, Position.after_append]
      refine ⟨front, rfl, proper, fun more => ?_⟩
      rw [splits.2, List.cons_append, tokensFrom_gap (Scan.step_newline step (by simp) more)]
      exact follows more
  | case3 position c cs kind lexeme rest step tokens found ih =>
      have splits := Scan.splits_step c cs
      rw [step, Scan.splits_token] at splits
      obtain rfl := Except.ok.inj h
      obtain ⟨front, rfl, proper, follows⟩ := ih found
      rw [← splits.2, Position.after_append]
      refine ⟨⟨kind, .ofPosition source position⟩ :: front, rfl, ?_, fun more => ?_⟩
      · rw [List.forall_mem_cons]
        exact ⟨(Scan.step_alone step).1, proper⟩
      rw [splits.2, List.cons_append, tokensFrom_token (Scan.step_newline step (by simp) more),
        follows more]
      exact map_append_cons _ front _
  | case4 => cases h
  | case5 => cases h

/-- A text that has tokens can be read apart from what follows on the next line.  Together, the
tokens are those of the first text without its end, and then those of the second one if it starts
on its line of the whole, at the same places.  If the second one has none there, the whole has none
and the error is the same. -/
theorem tokenize_append_newline {line : Nat} {first : String}
    (h : tokenize source line first = .ok tokens) (second : String) :
    ∃ front stop, tokens = front ++ [⟨.eof, stop⟩] ∧ (∀ t ∈ front, t.kind ≠ .eof) ∧
      tokenize source line (first ++ "\n" ++ second) =
        (tokenize source (line + first.toList.count '\n' + 1) second).map (front ++ ·) := by
  obtain ⟨front, rfl, proper, follows⟩ := exists_front h
  refine ⟨front, _, rfl, proper, ?_⟩
  have whole : (first ++ "\n" ++ second).toList = first.toList ++ '\n' :: second.toList := by simp
  rw [tokenize, whole, follows, Position.after_lineStart]
  rfl

end texts

/-- The word at the end of the text does not go on in the next line, which has a number of its
own. -/
theorem tokenize_append_newline_mixedText :
    tokenize none 4 mixedText = .ok mixedTokens ∧
    tokenize none 4 (mixedText ++ "\n" ++ "z") = .ok (mixedTokens.dropLast ++
      [⟨.identifier "z", ⟨none, 8, 1⟩⟩, ⟨.eof, ⟨none, 9, 1⟩⟩]) ∧
    tokenize none 4 (mixedText ++ "\n" ++ " @") =
      .error ⟨⟨none, 8, 2⟩, .unexpectedCharacter '@'⟩ := by
  have line : 4 + mixedText.toList.count '\n' + 1 = 8 := by decide +kernel
  refine ⟨tokenize_mixedText, ?_, ?_⟩
  · obtain ⟨front, stop, tokens, -, whole⟩ := tokenize_append_newline tokenize_mixedText "z"
    have read : tokenize none 8 "z" =
        .ok [⟨.identifier "z", ⟨none, 8, 1⟩⟩, ⟨.eof, ⟨none, 9, 1⟩⟩] := by decide +kernel
    rw [whole, line, read, tokens, List.dropLast_concat]
    rfl
  · obtain ⟨front, stop, tokens, -, whole⟩ := tokenize_append_newline tokenize_mixedText " @"
    have unread : tokenize none 8 " @" =
        .error ⟨⟨none, 8, 2⟩, .unexpectedCharacter '@'⟩ := by decide +kernel
    rw [whole, line, unread]
    rfl

end HostScript
