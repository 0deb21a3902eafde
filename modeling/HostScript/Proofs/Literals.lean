import HostScript.Proofs.Tokenization

/-!
# HostScript.Proofs.Literals

String literals.  Two passes decide what a backslash in a literal does: the scanner, which looks for
the closing quote with a flag for an escaped character, and `unescape`, which takes backslashes
together with what follows them.  Both see the same `Glyph`s: a literal is what stands up to the
first quote that is a glyph of its own, and its value has one character for each glyph.  So every
string has a literal, with a backslash before each quote and each backslash, and a literal never
ends within a glyph.
-/

namespace HostScript

namespace Text

/-! ## glyphs -/

/-- What stands for one character of a string in its literal. -/
inductive Glyph where
  | plain (c : Char)
  /-- A character with a backslash before it. -/
  | escaped (c : Char)
deriving DecidableEq, Repr

namespace Glyph

def text : Glyph → List Char
  | plain c => [c]
  | escaped c => ['\\', c]

/-- The character that the glyph stands for. -/
def value : Glyph → Char
  | plain c => c
  | escaped c => Text.escaped c

/-- A glyph that neither ends a literal nor lacks the character behind its backslash. -/
def Proper : Glyph → Prop
  | plain c => c ≠ '"' ∧ c ≠ '\\'
  | escaped _ => True

end Glyph

/-- The glyphs of a text.  A backslash with nothing behind it is one by itself. -/
def glyphs : List Char → List Glyph
  | [] => []
  | ['\\'] => [.plain '\\']
  | '\\' :: c :: rest => .escaped c :: glyphs rest
  | c :: rest => .plain c :: glyphs rest

/-- A character that is neither a backslash at the end nor one before another character is none. -/
theorem ne_backslash {c : Char} {rest : List Char} (lone : c = '\\' → rest = [] → False)
    (pair : ∀ d more, c = '\\' → rest = d :: more → False) : c ≠ '\\' := by
  rintro rfl
  cases rest with
  | nil => exact lone rfl rfl
  | cons d more => exact pair d more rfl rfl

theorem flatMap_text_glyphs (text : List Char) : (glyphs text).flatMap Glyph.text = text := by
  fun_induction glyphs text with
  | case1 => rfl
  | case2 => rfl
  | case3 c rest ih => simp [Glyph.text, ih]
  | case4 c rest _ _ ih => simp [Glyph.text, ih]

/-- Escapes are resolved glyph by glyph. -/
theorem unescape_eq_map (text : List Char) : unescape text = (glyphs text).map Glyph.value := by
  fun_induction glyphs text with
  | case1 => rfl
  | case2 => rfl
  | case3 c rest ih => simp [unescape, Glyph.value, ih]
  | case4 c rest lone pair ih => simp [unescape, Glyph.value, ih]

/-! ## strings as literals -/

/-- A backslash before each double quote and each backslash. -/
def escape (text : List Char) : List Char :=
  text.flatMap fun c => if c = '"' ∨ c = '\\' then ['\\', c] else [c]

/-- How a character is written between quotes. -/
def glyphOf (c : Char) : Glyph := if c = '"' ∨ c = '\\' then .escaped c else .plain c

theorem glyphs_escape (text : List Char) : glyphs (escape text) = text.map glyphOf := by
  induction text with
  | nil => rfl
  | cons c text ih =>
      rw [List.map_cons, ← ih, escape, List.flatMap_cons, ← escape, glyphOf]
      split
      · rfl
      next plain =>
        rw [not_or] at plain
        simp [glyphs, plain]

theorem proper_glyphOf (c : Char) : (glyphOf c).Proper := by
  unfold glyphOf
  split
  · trivial
  next plain => exact not_or.1 plain

theorem value_glyphOf (c : Char) : (glyphOf c).value = c := by
  unfold glyphOf
  split
  next special => rcases special with rfl | rfl <;> rfl
  next => rfl

/-- Escapes give back what they were written for. -/
theorem unescape_escape (text : List Char) : unescape (escape text) = text := by
  rw [unescape_eq_map, glyphs_escape, List.map_map]
  exact List.map_id'' value_glyphOf text

end Text

namespace Scan

open Text

variable {escaped : Bool} {text raw rest : List Char}

/-! ## the scanner -/

/-- One step within a literal. -/
theorem spanString_cons_iff {c : Char} (goesOn : ¬ (c = '"' ∧ escaped = false)) :
    spanString escaped (c :: text) = some (c :: raw, rest) ↔
      spanString (!escaped && c == '\\') text = some (raw, rest) := by
  rw [spanString, if_neg goesOn, Option.map_eq_some_iff]
  simp

/-- A literal goes up to the first quote that is a glyph of its own, and it has no backslash that
is one.  The induction takes a glyph at a time, where the scanner takes one step or two. -/
theorem spanString_append_quote_iff : spanString false (raw ++ '"' :: rest) = some (raw, rest) ↔
    ∀ g ∈ glyphs raw, g.Proper := by
  fun_induction glyphs raw with
  | case1 => simp [spanString]
  | case2 =>
      -- the backslash takes the quote with it
      rw [List.cons_append, spanString_cons_iff (by decide)]
      simp [spanString, Glyph.Proper]
  | case3 c raw ih =>
      rw [List.cons_append, spanString_cons_iff (by simp), List.cons_append,
        spanString_cons_iff (by simp), List.forall_mem_cons, ← ih]
      simp [Glyph.Proper]
  | case4 c raw lone pair ih =>
      have other := ne_backslash lone pair
      rw [List.cons_append, List.forall_mem_cons, ← ih]
      by_cases quote : c = '"'
      · simp [quote, spanString, Glyph.Proper]
      · rw [spanString_cons_iff (by simp [quote])]
        simp [Glyph.Proper, quote, other, beq_false_of_ne other]

/-- A literal that is complete does not leave a backslash open. -/
theorem escapedAfter_of_spanString (h : spanString escaped text = some (raw, rest)) :
    escapedAfter escaped raw = false := by
  fun_induction spanString escaped text generalizing raw rest with
  | case1 => simp at h
  | case2 escaped c cs ends =>
      obtain ⟨rfl, -⟩ : [] = raw ∧ cs = rest := by simpa using h
      exact ends.2
  | case3 escaped c cs goesOn ih =>
      obtain ⟨⟨raw', rest'⟩, span, same⟩ := Option.map_eq_some_iff.1 h
      obtain ⟨rfl, -⟩ : c :: raw' = raw ∧ rest' = rest := by simpa using same
      exact ih span

/-- Where the scanner goes on without its flag, a quote would end the literal. -/
theorem spanString_quote_instead {before : List Char}
    (h : spanString escaped (before ++ text) = some (before ++ raw, rest))
    (free : escapedAfter escaped before = false) (more : List Char) :
    spanString escaped (before ++ '"' :: more) = some (before, more) := by
  induction before generalizing escaped with
  | nil =>
      obtain rfl : escaped = false := free
      simp [spanString]
  | cons b before ih =>
      have goesOn : ¬ (b = '"' ∧ escaped = false) := by
        intro ends
        simp [spanString, ends] at h
      rw [List.cons_append, List.cons_append, spanString_cons_iff goesOn] at h
      rw [List.cons_append, spanString_cons_iff goesOn]
      exact ih h free

/-- Within a literal, the flag says whether a quote would not end it. -/
theorem escapedAfter_iff_quote {before after : List Char} {c : Char}
    (h : spanString false text = some (before ++ c :: after, rest)) :
    escapedAfter false before = true ↔
      ∀ more, spanString false (before ++ '"' :: more) ≠ some (before, more) := by
  constructor
  · intro flag more span
    rw [escapedAfter_of_spanString span] at flag
    cases flag
  · intro never
    rw [← spanString_append h, List.append_assoc] at h
    by_contra free
    exact never [] (spanString_quote_instead h (by simpa using free) [])

/-- An escape behind the first glyph. -/
theorem exists_escaped_cons_iff {g : Glyph} {gs : List Glyph} {before : List Char} {c : Char} :
    (∃ front back, g :: gs = front ++ .escaped c :: back ∧
      g.text ++ before = front.flatMap Glyph.text ++ ['\\']) ↔
    ∃ front back, gs = front ++ .escaped c :: back ∧
      before = front.flatMap Glyph.text ++ ['\\'] := by
  constructor
  · rintro ⟨_ | ⟨g', front⟩, back, same, ends⟩
    · obtain ⟨rfl, -⟩ := List.cons.inj same
      simp [Glyph.text] at ends
    · obtain ⟨rfl, rfl⟩ := List.cons.inj same
      rw [List.flatMap_cons, List.append_assoc] at ends
      exact ⟨front, back, rfl, List.append_cancel_left ends⟩
  · rintro ⟨front, back, rfl, rfl⟩
    exact ⟨g :: front, back, rfl, by rw [List.flatMap_cons, List.append_assoc]⟩

/-- The scanner takes a character as escaped exactly if it is behind the backslash of a glyph. -/
theorem escapedAfter_iff_glyphs {before after : List Char} {c : Char}
    (split : raw = before ++ c :: after) :
    escapedAfter false before = true ↔ ∃ front back, glyphs raw = front ++ .escaped c :: back ∧
      before = front.flatMap Glyph.text ++ ['\\'] := by
  fun_induction glyphs raw generalizing before with
  | case1 => simp at split
  | case2 =>
      rcases before with _ | ⟨b, before⟩
      · simp [escapedAfter]
      · simp at split
  | case3 d raw ih =>
      rcases before with _ | ⟨b, _ | ⟨b', before⟩⟩
      · simp [escapedAfter]
      · obtain ⟨rfl, rfl, -⟩ : '\\' = b ∧ d = c ∧ raw = after := by simpa using split
        exact iff_of_true rfl ⟨[], glyphs raw, rfl, rfl⟩
      · obtain ⟨rfl, rfl, rest⟩ : '\\' = b ∧ d = b' ∧ raw = before ++ c :: after := by
          simpa using split
        exact (ih rest).trans exists_escaped_cons_iff.symm
  | case4 d raw lone pair ih =>
      have other := ne_backslash lone pair
      rcases before with _ | ⟨b, before⟩
      · simp [escapedAfter]
      · obtain ⟨rfl, rest⟩ : d = b ∧ raw = before ++ c :: after := by simpa using split
        have same : escapedAfter false (d :: before) = escapedAfter false before := by
          simp [escapedAfter, beq_false_of_ne other]
        rw [same]
        exact (ih rest).trans exists_escaped_cons_iff.symm

/-! ## literals in scripts -/

theorem step_quote (text : List Char) : step '"' text = string text := by
  rw [step, if_neg (by decide), if_neg (by decide), if_pos rfl]

/-- The literal of a string is read as that string, whatever follows. -/
theorem step_escape (s : String) (more : List Char) :
    step '"' (escape s.toList ++ '"' :: more) =
      token (.string s) ('"' :: escape s.toList ++ ['"']) more := by
  have span : spanString false (escape s.toList ++ '"' :: more) =
      some (escape s.toList, more) := by
    rw [spanString_append_quote_iff, glyphs_escape, List.forall_mem_map]
    exact fun c _ => proper_glyphOf c
  rw [step_quote, string, span]
  simp only [unescape_escape, String.ofList_toList]

theorem spanString_of_step {kind : TokenKind} {lexeme : List Char}
    (h : step '"' text = token kind lexeme rest) :
    ∃ raw, spanString false text = some (raw, rest) ∧ lexeme = '"' :: raw ++ ['"'] ∧
      kind = .string (String.ofList (unescape raw)) := by
  rw [step_quote, string] at h
  split at h
  next raw rest' span =>
    obtain ⟨rfl, rfl, rfl⟩ := token.inj h
    exact ⟨raw, span, rfl, rfl⟩
  next => cases h

end Scan

/-- Every string has a literal.  Wherever it starts, it is read as that string at its place, and
what follows is read from the place behind its closing quote on.  A literal that is read does not
end within a glyph: an even number of backslashes stands before its closing quote, and each
backslash that `unescape` resolves has a character behind it.  These are the characters that the
scanner takes as escaped, where a quote would not end the literal. -/
theorem literals_delimit_strings :
    (∀ (source : Option String) (position : Position) (s : String) (more : List Char),
      tokensFrom source position ('"' :: Text.escape s.toList ++ '"' :: more) =
        (tokensFrom source (position.after ('"' :: Text.escape s.toList ++ ['"'])) more).map
          (⟨.string s, .ofPosition source position⟩ :: ·)) ∧
    ∀ text kind lexeme rest, Scan.step '"' text = .token kind lexeme rest →
      ∃ raw, text = raw ++ '"' :: rest ∧ lexeme = '"' :: raw ++ ['"'] ∧
        kind = .string (String.ofList (Text.unescape raw)) ∧
        (raw.rtakeWhile (· == '\\')).length % 2 = 0 ∧
        raw = (Text.glyphs raw).flatMap (·.text) ∧
        Text.unescape raw = (Text.glyphs raw).map (·.value) ∧
        (∀ g ∈ Text.glyphs raw, g.Proper) ∧
        ∀ before c after, raw = before ++ c :: after →
          ((∀ more, Scan.spanString false (before ++ '"' :: more) ≠ some (before, more)) ↔
            ∃ front back, Text.glyphs raw = front ++ .escaped c :: back ∧
              before = front.flatMap (·.text) ++ ['\\']) := by
  constructor
  · exact fun source position s more => tokensFrom_token (Scan.step_escape s more)
  · intro text kind lexeme rest step
    obtain ⟨raw, span, lexeme_eq, kind_eq⟩ := Scan.spanString_of_step step
    have text_eq := (Scan.spanString_append span).symm
    have even : (raw.rtakeWhile (· == '\\')).length % 2 ≠ 1 := by
      rw [ne_eq, ← Scan.escapedAfter_iff, Scan.escapedAfter_of_spanString span]
      exact Bool.false_ne_true
    have proper : ∀ g ∈ Text.glyphs raw, g.Proper := by
      rw [← Scan.spanString_append_quote_iff, ← text_eq]
      exact span
    refine ⟨raw, text_eq, lexeme_eq, kind_eq, by omega, (Text.flatMap_text_glyphs raw).symm,
      Text.unescape_eq_map raw, proper, ?_⟩
    rintro before c after rfl
    rw [← Scan.escapedAfter_iff_quote span]
    exact Scan.escapedAfter_iff_glyphs rfl

/-- A string with a quote, a line break and a backslash at its end, before a variable and before a
fault; and a literal whose first quote is escaped by the last of three backslashes. -/
theorem literals_delimit_strings_backslashes :
    tokensFrom none ⟨2, 5⟩ ('"' :: Text.escape "a\"\n\\".toList ++ '"' :: [';', 'x']) =
      .ok [⟨.string "a\"\n\\", ⟨none, 2, 5⟩⟩, ⟨.semicolon, ⟨none, 3, 4⟩⟩,
        ⟨.identifier "x", ⟨none, 3, 5⟩⟩, ⟨.eof, ⟨none, 4, 1⟩⟩] ∧
    tokensFrom none ⟨2, 5⟩ ('"' :: Text.escape "a\"\n\\".toList ++ '"' :: ['@']) =
      .error ⟨⟨none, 3, 4⟩, .unexpectedCharacter '@'⟩ ∧
    ∃ raw, "\\\\\\\"\\\\\";".toList = raw ++ '"' :: [';'] ∧
      TokenKind.string "\\\"\\" = .string (String.ofList (Text.unescape raw)) ∧
      (raw.rtakeWhile (· == '\\')).length % 2 = 0 ∧ ∀ g ∈ Text.glyphs raw, g.Proper := by
  have step : Scan.step '"' "\\\\\\\"\\\\\";".toList =
      .token (.string "\\\"\\") "\"\\\\\\\"\\\\\"".toList [';'] := by decide +kernel
  obtain ⟨raw, text, -, kind, even, -, -, proper, -⟩ := literals_delimit_strings.2 _ _ _ _ step
  refine ⟨?_, ?_, raw, text, kind, even, proper⟩
  · rw [literals_delimit_strings.1]
    decide +kernel
  · rw [literals_delimit_strings.1]
    decide +kernel

end HostScript
