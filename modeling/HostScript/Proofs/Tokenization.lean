import HostScript.Proofs.Lexemes
import HostScript.Proofs.Spacing

/-!
# HostScript.Proofs.Tokenization

Which texts have tokens, and what their tokens have to do with them.

A text that is read into tokens is cut into parts, each a gap and a lexeme, with one more gap at the
end.  Nothing of it is lost: every lexeme by itself has just the one token, the gaps hold blanks,
comments and the word `var` only, and the place of a token counts the lines and the characters
before its lexeme.  A text has no tokens exactly if such a cut comes to a place where the rest is
malformed, and that place is the one in the error.

Both are said of texts whose lines can be counted in a machine word, up to the line behind the last
one, where the end stands.
-/

namespace HostScript

/-! ## places -/

/-- The place behind a text from the start of a line: its line counts the line breaks, and its
column the characters behind the last one. -/
theorem Position.after_lineStart (line : Nat) (text : List Char) :
    (lineStart line).after text =
      ⟨line + text.count '\n', 1 + (text.rtakeWhile (· != '\n')).length⟩ := by
  induction text using List.reverseRecOn with
  | nil => rfl
  | append_singleton text c ih =>
      rw [after_append, ih, after_cons, after_nil, next, List.count_append]
      by_cases newline : c = '\n'
      · rw [if_pos newline, List.rtakeWhile_concat_neg _ _ _ (by simp [newline])]
        simp [newline, lineStart, Nat.add_assoc]
      · rw [if_neg newline, List.rtakeWhile_concat_pos _ _ _ (by simp [newline])]
        simp [newline, Nat.add_assoc]

/-- The lines of a text that starts on `line` have numbers below the size of a machine word, and so
has the line behind them, where its end is reported. -/
def LinesFit (line : Nat) (text : String) : Prop :=
  line + text.toList.count '\n' + 1 < UInt64.size

instance (line : Nat) (text : String) : Decidable (LinesFit line text) :=
  inferInstanceAs (Decidable (_ < _))

/-- No place within the text is on a line that does not fit. -/
theorem LinesFit.within {line : Nat} {text : String} {front rest : List Char}
    (fits : LinesFit line text) (split : text.toList = front ++ rest) :
    line + front.count '\n' < UInt64.size := by
  rw [LinesFit, split, List.count_append] at fits
  omega

/-! ## parts -/

/-- A gap, with the text behind it: fillers one behind the other. -/
inductive Gap : List Char → List Char → Prop where
  | nil {rest} : Gap [] rest
  | cons {filler gap rest} : Filler filler (gap ++ rest) → Gap gap rest → Gap (filler ++ gap) rest

/-- A token, with its lexeme and the gap before that. -/
structure Part where
  gap : List Char
  lexeme : List Char
  token : Token

namespace Part

/-- The text that parts come from. -/
def text (parts : List Part) : List Char := parts.flatMap fun p => p.gap ++ p.lexeme

@[simp] theorem text_nil : text [] = [] := rfl

@[simp] theorem text_cons (p : Part) (parts : List Part) :
    text (p :: parts) = p.gap ++ (p.lexeme ++ text parts) := by
  simp [text]

/-- By itself, the lexeme is read as just this token. -/
def Alone (p : Part) : Prop :=
  ∀ source position, ∃ last, tokensFrom source position p.lexeme =
    .ok [⟨p.token.kind, .ofPosition source position⟩, ⟨.eof, last⟩]

end Part

/-- A text from `start` on is cut into `parts`, and `last` is the gap at its end. -/
structure Cut (source : Option String) (start : Position) (text : List Char) (parts : List Part)
    (last : List Char) : Prop where
  text_eq : text = Part.text parts ++ last
  gaps : ∀ before p after, parts = before ++ p :: after →
    Gap p.gap (p.lexeme ++ Part.text after ++ last)
  places : ∀ before p after, parts = before ++ p :: after →
    p.token.location = .ofPosition source (start.after (Part.text before ++ p.gap))
  lexemes : ∀ p ∈ parts, p.token.kind ≠ .eof ∧ p.Alone
  last : Gap last []

namespace Cut

variable {source : Option String} {start : Position} {text filler lexeme last : List Char}
  {parts : List Part} {kind : TokenKind}

theorem nil : Cut source start [] [] [] where
  text_eq := rfl
  gaps := by simp
  places := by simp
  lexemes := by simp
  last := .nil

/-- A filler before the text belongs to its first gap. -/
theorem fill (cut : Cut source (start.after filler) text parts last)
    (fills : Filler filler text) :
    ∃ parts' last', Cut source start (filler ++ text) parts' last' ∧
      parts'.map (·.token) = parts.map (·.token) := by
  obtain ⟨rfl, gaps, places, lexemes, ends⟩ := cut
  cases parts with
  | nil =>
      rw [Part.text_nil, List.nil_append] at fills
      have ends' : Gap (filler ++ last) [] := .cons (by simpa using fills) ends
      exact ⟨[], filler ++ last, ⟨by simp, by simp, by simp, by simp, ends'⟩, rfl⟩
  | cons p parts =>
      refine ⟨{ p with gap := filler ++ p.gap } :: parts, last, ⟨by simp, ?_, ?_, ?_, ends⟩, rfl⟩
      · intro before q after split
        cases before with
        | nil =>
            obtain ⟨rfl, rfl⟩ := List.cons.inj split
            exact .cons (by simpa using fills) (gaps [] p parts rfl)
        | cons b before =>
            obtain ⟨-, rfl⟩ := List.cons.inj split
            exact gaps (p :: before) q after rfl
      · intro before q after split
        cases before with
        | nil =>
            obtain ⟨rfl, rfl⟩ := List.cons.inj split
            simpa using places [] p parts rfl
        | cons b before =>
            obtain ⟨rfl, rfl⟩ := List.cons.inj split
            simpa using places (p :: before) q after rfl
      · rw [List.forall_mem_cons] at lexemes ⊢
        exact lexemes

/-- A token before the text is a part by itself. -/
theorem cons (cut : Cut source (start.after lexeme) text parts last) (proper : kind ≠ .eof)
    (alone : Part.Alone ⟨[], lexeme, kind, .ofPosition source start⟩) :
    Cut source start (lexeme ++ text) (⟨[], lexeme, kind, .ofPosition source start⟩ :: parts)
      last := by
  obtain ⟨rfl, gaps, places, lexemes, ends⟩ := cut
  refine ⟨by simp, ?_, ?_, ?_, ends⟩
  · intro before q after split
    cases before with
    | nil =>
        obtain ⟨rfl, rfl⟩ := List.cons.inj split
        exact .nil
    | cons b before =>
        obtain ⟨-, rfl⟩ := List.cons.inj split
        exact gaps before q after rfl
  · intro before q after split
    cases before with
    | nil =>
        obtain ⟨rfl, rfl⟩ := List.cons.inj split
        rfl
    | cons b before =>
        obtain ⟨rfl, rfl⟩ := List.cons.inj split
        simpa using places before q after rfl
  · rw [List.forall_mem_cons]
    exact ⟨⟨proper, alone⟩, lexemes⟩

end Cut

/-! ## one step of reading -/

section Steps

variable {source : Option String} {position : Position} {c : Char} {cs lexeme rest : List Char}
  {kind : TokenKind} {cause : Cause}

theorem tokensFrom_nil : tokensFrom source position [] =
    .ok [⟨.eof, .ofPosition source (.lineStart (position.line + 1))⟩] := by
  unfold tokensFrom
  rfl

theorem tokensFrom_gap (h : Scan.step c cs = .gap lexeme rest) :
    tokensFrom source position (c :: cs) = tokensFrom source (position.after lexeme) rest := by
  conv_lhs => unfold tokensFrom
  split
  next found =>
    rw [h] at found
    cases found
    rfl
  all_goals
    next found =>
      rw [h] at found
      cases found

theorem tokensFrom_token (h : Scan.step c cs = .token kind lexeme rest) :
    tokensFrom source position (c :: cs) =
      (tokensFrom source (position.after lexeme) rest).map
        (⟨kind, .ofPosition source position⟩ :: ·) := by
  conv_lhs => unfold tokensFrom
  split
  case h_2 found =>
    rw [h] at found
    cases found
    split <;> simp_all [Except.map]
  all_goals
    next found =>
      rw [h] at found
      cases found

theorem tokensFrom_fault (h : Scan.step c cs = .fault cause) :
    tokensFrom source position (c :: cs) = .error ⟨.ofPosition source position, cause⟩ := by
  conv_lhs => unfold tokensFrom
  split
  case h_3 found =>
    rw [h] at found
    cases found
    rfl
  all_goals
    next found =>
      rw [h] at found
      cases found

/-- A lexeme has its token by itself. -/
theorem alone_of_step (h : Scan.step c cs = .token kind lexeme rest) (gap : List Char)
    (l : Location) : Part.Alone ⟨gap, lexeme, kind, l⟩ := by
  intro source position
  obtain ⟨-, ds, rfl, alone⟩ := Scan.step_alone h
  have read := @tokensFrom_token source position _ _ _ _ _ alone
  rw [tokensFrom_nil] at read
  exact ⟨_, read⟩

end Steps

/-! ## texts with tokens -/

section Tokens

variable {source : Option String} {position : Position} {text : List Char} {tokens : List Token}

/-- A text that has tokens is cut into parts that have these, and the end of the text comes on a
line behind them. -/
theorem exists_cut (h : tokensFrom source position text = .ok tokens) :
    ∃ parts last, Cut source position text parts last ∧
      tokens = parts.map (·.token) ++
        [⟨.eof, .ofPosition source (.lineStart ((position.after text).line + 1))⟩] := by
  fun_induction tokensFrom source position text generalizing tokens with
  | case1 position =>
      obtain rfl := Except.ok.inj h
      exact ⟨[], [], .nil, rfl⟩
  | case2 position c cs lexeme rest step ih =>
      have splits := Scan.splits_step c cs
      rw [step, Scan.splits_gap] at splits
      obtain ⟨parts, last, cut, rfl⟩ := ih h
      obtain ⟨parts', last', cut', same⟩ := cut.fill (Scan.filler_of_step step)
      rw [← splits.2, Position.after_append, ← same]
      exact ⟨parts', last', cut', rfl⟩
  | case3 position c cs kind lexeme rest step tokens found ih =>
      have splits := Scan.splits_step c cs
      rw [step, Scan.splits_token] at splits
      obtain rfl := Except.ok.inj h
      obtain ⟨parts, last, cut, rfl⟩ := ih found
      rw [← splits.2, Position.after_append]
      exact ⟨_, last, cut.cons (Scan.step_alone step).1 (alone_of_step step _ _), rfl⟩
  | case4 => cases h
  | case5 => cases h

/-- A text that has tokens is made of gaps and lexemes, one lexeme for each token but the last.  The
gaps are filler, each lexeme by itself is read as its token, and a token stands where the characters
before its lexeme end.  The places of the tokens increase, and the only end is behind them.  All of
this is about texts whose lines fit into a machine word, and then the lines of the tokens do. -/
theorem tokenize_partitions_text {line : Nat} {text : String} (fits : LinesFit line text)
    (h : tokenize source line text = .ok tokens) :
    ∃ (parts : List Part) (last : List Char),
      text.toList = Part.text parts ++ last ∧
      tokens = parts.map (·.token) ++
        [⟨.eof, ⟨source, line + text.toList.count '\n' + 1, 1⟩⟩] ∧
      (∀ before p after, parts = before ++ p :: after →
        Gap p.gap (p.lexeme ++ Part.text after ++ last) ∧
        p.token.location = ⟨source, line + (Part.text before ++ p.gap).count '\n',
          1 + ((Part.text before ++ p.gap).rtakeWhile (· != '\n')).length⟩) ∧
      (∀ p ∈ parts, p.token.kind ≠ .eof ∧ ∀ source' line', ∃ l,
        tokenize source' line' (String.ofList p.lexeme) =
          .ok [⟨p.token.kind, ⟨source', line', 1⟩⟩, ⟨.eof, l⟩]) ∧
      Gap last [] ∧
      (∀ t ∈ tokens, t.location.line < UInt64.size) ∧
      tokens.Pairwise fun t u => t.location.position.Before u.location.position := by
  obtain ⟨parts, last, cut, rfl⟩ := exists_cut h
  have ordered := (tokensFrom_follow h).ordered
  rw [Position.after_lineStart] at ordered ⊢
  refine ⟨parts, last, cut.text_eq, rfl, fun before p after split => ?_, fun p member => ?_,
    cut.last, fun t member => ?_, ordered⟩
  · refine ⟨cut.gaps before p after split, ?_⟩
    rw [cut.places before p after split, Position.after_lineStart]
    rfl
  · obtain ⟨proper, alone⟩ := cut.lexemes p member
    refine ⟨proper, fun source' line' => ?_⟩
    rw [tokenize, String.toList_ofList]
    exact alone source' (.lineStart line')
  · rcases List.mem_append.1 member with part | ends
    · obtain ⟨p, known, rfl⟩ := List.mem_map.1 part
      obtain ⟨before, after, split⟩ := List.append_of_mem known
      have within : text.toList =
          (Part.text before ++ p.gap) ++ (p.lexeme ++ Part.text after ++ last) := by
        rw [cut.text_eq, split]
        simp [Part.text]
      rw [cut.places before p after split, Position.after_lineStart]
      exact fits.within within
    · obtain rfl := List.mem_singleton.1 ends
      exact fits

end Tokens

/-- A comment and a string that go over a line break, and operators with nothing between them. -/
def mixedText : String := "var x/* a\n**/=\"b\n\\\"\" // c\n<<=y"

def mixedTokens : List Token :=
  [⟨.identifier "x", ⟨none, 4, 5⟩⟩, ⟨.set none, ⟨none, 5, 4⟩⟩, ⟨.string "b\n\"", ⟨none, 5, 5⟩⟩,
    ⟨.operator .shl, ⟨none, 7, 1⟩⟩, ⟨.set none, ⟨none, 7, 3⟩⟩, ⟨.identifier "y", ⟨none, 7, 4⟩⟩,
    ⟨.eof, ⟨none, 8, 1⟩⟩]

theorem tokenize_mixedText : tokenize none 4 mixedText = .ok mixedTokens := by
  have known : (tokenize none 4 mixedText).toOption = some mixedTokens := by decide +kernel
  cases read : tokenize none 4 mixedText with
  | error e =>
      rw [read] at known
      cases known
  | ok tokens =>
      rw [read] at known
      rw [Option.some.inj known]

theorem mixedText_partitioned :
    LinesFit 4 mixedText ∧ tokenize none 4 mixedText = .ok mixedTokens ∧
    ∃ parts last, mixedText.toList = Part.text parts ++ last ∧
      mixedTokens = parts.map (·.token) ++ [⟨.eof, ⟨none, 8, 1⟩⟩] ∧
      (∀ p ∈ parts, ∀ source line, ∃ l, tokenize source line (String.ofList p.lexeme) =
        .ok [⟨p.token.kind, ⟨source, line, 1⟩⟩, ⟨.eof, l⟩]) ∧ Gap last [] := by
  have fits : LinesFit 4 mixedText := by decide
  refine ⟨fits, tokenize_mixedText, ?_⟩
  obtain ⟨parts, last, text, tokens, -, alone, ends, -, -⟩ :=
    tokenize_partitions_text fits tokenize_mixedText
  exact ⟨parts, last, text, tokens, fun p member => (alone p member).2, ends⟩

/-! ## texts without tokens -/

/-- The scanner goes through a text, lexeme by lexeme, up to `rest` behind it. -/
inductive Scanned (rest : List Char) : List Char → Prop where
  | nil : Scanned rest []
  | gap {c cs lexeme front} : Scan.step c cs = .gap lexeme (front ++ rest) → Scanned rest front →
      Scanned rest (lexeme ++ front)
  | token {c cs kind lexeme front} : Scan.step c cs = .token kind lexeme (front ++ rest) →
      Scanned rest front → Scanned rest (lexeme ++ front)

section Faults

variable {source : Option String} {position : Position} {text front rest : List Char}
  {e : CompileError}

/-- An error comes from a place that the scanner reaches. -/
theorem malformed_of_tokensFrom (h : tokensFrom source position text = .error e) :
    ∃ front rest, text = front ++ rest ∧ Scanned rest front ∧ Malformed rest e.cause e.message ∧
      e.location = .ofPosition source (position.after front) := by
  fun_induction tokensFrom source position text generalizing e with
  | case1 => cases h
  | case2 position c cs lexeme rest step ih =>
      have splits := Scan.splits_step c cs
      rw [step, Scan.splits_gap] at splits
      obtain ⟨front, rest, rfl, scanned, malformed, place⟩ := ih h
      rw [← Position.after_append] at place
      exact ⟨lexeme ++ front, rest, by simp [← splits.2], .gap step scanned, malformed, place⟩
  | case3 => cases h
  | case4 position c cs kind lexeme rest step error found ih =>
      have splits := Scan.splits_step c cs
      rw [step, Scan.splits_token] at splits
      obtain rfl := Except.error.inj h
      obtain ⟨front, rest, rfl, scanned, malformed, place⟩ := ih found
      rw [← Position.after_append] at place
      exact ⟨lexeme ++ front, rest, by simp [← splits.2], .token step scanned, malformed, place⟩
  | case5 position c cs cause step =>
      obtain rfl := Except.error.inj h
      exact ⟨[], c :: cs, rfl, .nil, Scan.step_eq_fault_iff.1 step, rfl⟩

/-- Where the scanner gets to a malformed rest, there is an error. -/
theorem tokensFrom_of_malformed (scanned : Scanned rest front)
    (malformed : Malformed rest e.cause e.message)
    (place : e.location = .ofPosition source (position.after front)) :
    tokensFrom source position (front ++ rest) = .error e := by
  induction scanned generalizing position with
  | nil =>
      cases rest with
      | nil => cases malformed
      | cons c cs =>
          rw [List.nil_append, tokensFrom_fault (Scan.step_eq_fault_iff.2 malformed)]
          rw [Position.after_nil] at place
          rw [← place]
  | @gap c cs lexeme front step scanned ih =>
      have splits := Scan.splits_step c cs
      rw [step, Scan.splits_gap] at splits
      rw [List.append_assoc, splits.2, tokensFrom_gap step]
      exact ih (by rw [place, Position.after_append])
  | @token c cs kind lexeme front step scanned ih =>
      have splits := Scan.splits_step c cs
      rw [step, Scan.splits_token] at splits
      rw [List.append_assoc, splits.2, tokensFrom_token step,
        ih (by rw [place, Position.after_append])]
      rfl

theorem Malformed.lexical {cause : Cause} {message : String}
    (h : Malformed text cause message) : cause.kind = .lexical := by
  cases h <;> rfl

theorem Malformed.not_invalidNumber {numeral message : String} :
    ¬ Malformed text (.invalidNumber numeral) message := by
  intro h
  cases h

/-- A text has no tokens exactly if the scanner gets to a rest that is malformed: an open string or
comment, or a character that is neither blank nor starts a token.  The error is lexical, it stands
at that place, and its message says which of these it is.  A number is never refused.  As with the
tokens, the lines of the text fit into a machine word, and so does the line of the error. -/
theorem tokenize_eq_error_iff_malformed (source : Option String) (line : Nat) (text : String)
    (fits : LinesFit line text) (e : CompileError) :
    (tokenize source line text = .error e ↔
      ∃ front rest, text.toList = front ++ rest ∧ Scanned rest front ∧
        Malformed rest e.cause e.message ∧ e.kind = .lexical ∧
        e.location = ⟨source, line + front.count '\n',
          1 + (front.rtakeWhile (· != '\n')).length⟩) ∧
    (tokenize source line text = .error e → e.location.line < UInt64.size) ∧
    (∀ numeral, e.cause = .invalidNumber numeral → tokenize source line text ≠ .error e) ∧
    ∀ c, (Text.isBlank c = false ∧ Scan.startsToken c = true ↔
      ∃ cs kind lexeme rest, Scan.step c cs = .token kind lexeme rest) := by
  have place (front : List Char) :
      Location.ofPosition source ((Position.lineStart line).after front) =
      ⟨source, line + front.count '\n', 1 + (front.rtakeWhile (· != '\n')).length⟩ := by
    rw [Position.after_lineStart]
    rfl
  refine ⟨⟨fun h => ?_, ?_⟩, fun h => ?_, fun numeral cause h => ?_,
    fun c => Scan.exists_token_iff.symm⟩
  · obtain ⟨front, rest, split, scanned, malformed, at_⟩ := malformed_of_tokensFrom h
    exact ⟨front, rest, split, scanned, malformed, malformed.lexical, at_.trans (place front)⟩
  · rintro ⟨front, rest, split, scanned, malformed, -, at_⟩
    rw [tokenize, split]
    exact tokensFrom_of_malformed scanned malformed (at_.trans (place front).symm)
  · obtain ⟨front, rest, split, -, -, at_⟩ := malformed_of_tokensFrom h
    rw [at_.trans (place front)]
    exact fits.within split
  · obtain ⟨front, rest, -, -, malformed, -⟩ := malformed_of_tokensFrom h
    rw [cause] at malformed
    exact malformed.not_invalidNumber

/-- A string that is open to the end, on the second line of a script that starts on the seventh. -/
theorem tokenize_eq_error_iff_malformed_open :
    LinesFit 7 "x\n \"y" ∧ ∃ front rest, "x\n \"y".toList = front ++ rest ∧ Scanned rest front ∧
      Malformed rest .unterminatedString "Unterminated string literal." ∧
      front.count '\n' = 1 := by
  have fits : LinesFit 7 "x\n \"y" := by decide
  have refused : tokenize none 7 "x\n \"y" = .error ⟨⟨none, 8, 2⟩, .unterminatedString⟩ := by
    decide +kernel
  obtain ⟨front, rest, split, scanned, malformed, -, place⟩ :=
    (tokenize_eq_error_iff_malformed none 7 _ fits _).1.1 refused
  have lines : 8 = 7 + front.count '\n' := congrArg Location.line place
  exact ⟨fits, front, rest, split, scanned, malformed, by omega⟩

end Faults

end HostScript
