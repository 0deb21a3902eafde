import HostScript.Error
import HostScript.Text.Blank

/-!
# HostScript.Token.Lexeme

One step of reading a script: what its next characters are.  A step takes a nonempty lexeme off the
text, which is a gap (white space, a comment or the word `var`) or a token, or it finds that no
token starts here.
-/

namespace HostScript

/-- The outcome of one step: the characters taken and the text that is left, or a fault. -/
inductive Scan where
  | gap (lexeme rest : List Char)
  | token (kind : TokenKind) (lexeme rest : List Char)
  | fault (cause : Cause)
deriving DecidableEq, Repr, Inhabited

namespace Scan

/-! ## character classes -/

def isWordStart (c : Char) : Bool := c.isAlpha || c == '_'

def isWordChar (c : Char) : Bool := c.isAlphanum || c == '_'

/-! ## spans -/

/-- Splits off digits with at most one point among them, none if one was `seen` before. -/
def spanNumeral (seen : Bool) : List Char → List Char × List Char
  | [] => ([], [])
  | c :: cs =>
    if c = '.' ∧ seen = false then
      let (numeral, rest) := spanNumeral true cs
      (c :: numeral, rest)
    else if c.isDigit then
      let (numeral, rest) := spanNumeral seen cs
      (c :: numeral, rest)
    else ([], c :: cs)

/-- Splits a text at the double quote that ends a string, which is in neither part.  A quote that
follows an escaping backslash does not end it. -/
def spanString (escaped : Bool) : List Char → Option (List Char × List Char)
  | [] => none
  | c :: cs =>
    if c = '"' ∧ escaped = false then some ([], cs)
    else (spanString (!escaped && c == '\\') cs).map fun (raw, rest) => (c :: raw, rest)

/-- Splits a text behind the first `*/`. -/
def spanComment : List Char → Option (List Char × List Char)
  | [] => none
  | '*' :: '/' :: rest => some (['*', '/'], rest)
  | c :: cs => (spanComment cs).map fun (comment, rest) => (c :: comment, rest)

/-! ## the step -/

/-- The operator `op`, or the compound assignment if an equals sign follows. -/
def operatorOrSet (op : BinaryOperator) (c : Char) : List Char → Scan
  | '=' :: rest => token (.set (some op)) [c, '='] rest
  | rest => token (.operator op) [c] rest

/-- What a word stands for, unless it means nothing. -/
def wordKind (word : String) : Option TokenKind :=
  if word = "true" then some (.number Number.one)
  else if word = "false" then some (.number Number.zero)
  else if word = "var" then none
  else
    match Keyword.ofText? word with
    | some keyword => some (.keyword keyword)
    | none => some (.identifier word)

/-- Everything that starts with a character of its own. -/
def symbol (c : Char) (rest : List Char) : Scan :=
  match c, rest with
  | ';', rest => token .semicolon [';'] rest
  | ':', rest => token .colon [':'] rest
  | ',', rest => token .comma [','] rest
  | '#', rest => token .pound ['#'] rest
  | '\\', rest => token .backslash ['\\'] rest
  | '(', rest => token .parenOpen ['('] rest
  | ')', rest => token .parenClose [')'] rest
  | '\x7b', rest => token .braceOpen ['\x7b'] rest
  | '\x7d', rest => token .braceClose ['\x7d'] rest
  | '+', '+' :: rest => token (.adjust .up) ['+', '+'] rest
  | '-', '-' :: rest => token (.adjust .down) ['-', '-'] rest
  | '+', rest => operatorOrSet .add '+' rest
  | '-', rest => operatorOrSet .sub '-' rest
  | '*', rest => operatorOrSet .mul '*' rest
  | '/', rest => operatorOrSet .div '/' rest
  | '%', rest => operatorOrSet .mod '%' rest
  | '^', rest => operatorOrSet .bitXor '^' rest
  | '=', '=' :: rest => token (.operator .eq) ['=', '='] rest
  | '=', rest => token (.set none) ['='] rest
  | '!', '=' :: rest => token (.operator .neq) ['!', '='] rest
  | '!', rest => token (.unary .not) ['!'] rest
  | '<', '=' :: rest => token (.operator .lte) ['<', '='] rest
  | '<', '<' :: rest => token (.operator .shl) ['<', '<'] rest
  | '<', rest => token (.operator .lt) ['<'] rest
  | '>', '=' :: rest => token (.operator .gte) ['>', '='] rest
  | '>', '>' :: rest => token (.operator .shr) ['>', '>'] rest
  | '>', rest => token (.operator .gt) ['>'] rest
  | '&', '&' :: rest => token (.operator .and) ['&', '&'] rest
  | '&', rest => operatorOrSet .bitAnd '&' rest
  | '|', '|' :: rest => token (.operator .or) ['|', '|'] rest
  | '|', rest => operatorOrSet .bitOr '|' rest
  | c, _ => fault (.unexpectedCharacter c)

/-- A slash: a comment or an operator.  The newline behind a line comment is not part of it. -/
def slash : List Char → Scan
  | '/' :: rest => gap ('/' :: '/' :: rest.takeWhile (· != '\n')) (rest.dropWhile (· != '\n'))
  | '*' :: rest =>
    match spanComment rest with
    | some (comment, rest) => gap ('/' :: '*' :: comment) rest
    | none => fault .unterminatedComment
  | rest => operatorOrSet .div '/' rest

/-- A string literal behind its opening quote. -/
def string (rest : List Char) : Scan :=
  match spanString false rest with
  | some (raw, rest) =>
    token (.string (String.ofList (Text.unescape raw))) ('"' :: raw ++ ['"']) rest
  | none => fault .unterminatedString

/-- A number, or a point that stands alone. -/
def numeral (text : List Char) : Scan :=
  let (numeral, rest) := spanNumeral false text
  if numeral = ['.'] then token .period numeral rest
  else
    match Number.ofNumeral? numeral with
    | some value => token (.number value) numeral rest
    | none => fault (.invalidNumber (String.ofList numeral))

/-- A word: a literal, a keyword, an identifier, or `var`, which is skipped. -/
def word (text : List Char) : Scan :=
  let word := text.takeWhile isWordChar
  let rest := text.dropWhile isWordChar
  match wordKind (String.ofList word) with
  | some kind => token kind word rest
  | none => gap word rest

/-- The step on a text that starts with `c`. -/
def step (c : Char) (cs : List Char) : Scan :=
  if Text.isBlank c then gap [c] cs
  else if c = '/' then slash cs
  else if c = '"' then string cs
  else if c.isDigit ∨ c = '.' then numeral (c :: cs)
  else if isWordStart c then word (c :: cs)
  else symbol c cs

/-! ## nothing is lost -/

/-- The lexeme is not empty, and the text is the lexeme and what is left. -/
def Splits (text : List Char) : Scan → Prop
  | gap lexeme rest | token _ lexeme rest => lexeme ≠ [] ∧ lexeme ++ rest = text
  | fault _ => True

@[simp] theorem splits_gap {text lexeme rest : List Char} :
    (gap lexeme rest).Splits text ↔ lexeme ≠ [] ∧ lexeme ++ rest = text := .rfl

@[simp] theorem splits_token {kind : TokenKind} {text lexeme rest : List Char} :
    (token kind lexeme rest).Splits text ↔ lexeme ≠ [] ∧ lexeme ++ rest = text := .rfl

@[simp] theorem splits_fault {cause : Cause} {text : List Char} :
    (fault cause).Splits text ↔ True := .rfl

theorem spanNumeral_append (seen : Bool) (text : List Char) :
    (spanNumeral seen text).1 ++ (spanNumeral seen text).2 = text := by
  fun_induction spanNumeral seen text <;> simp_all

theorem spanString_append {escaped : Bool} {text raw rest : List Char}
    (h : spanString escaped text = some (raw, rest)) : raw ++ '"' :: rest = text := by
  fun_induction spanString escaped text generalizing raw rest with
  | case1 => simp at h
  | case2 escaped c cs hc =>
    obtain ⟨rfl, rfl⟩ : [] = raw ∧ cs = rest := by simpa using h
    simp [hc.1]
  | case3 escaped c cs hc ih =>
    obtain ⟨⟨raw', rest'⟩, hspan, heq⟩ := Option.map_eq_some_iff.1 h
    obtain ⟨rfl, rfl⟩ : c :: raw' = raw ∧ rest' = rest := by simpa using heq
    simp [ih hspan]

theorem spanComment_append {text comment rest : List Char}
    (h : spanComment text = some (comment, rest)) : comment ++ rest = text := by
  fun_induction spanComment text generalizing comment rest with
  | case1 => simp at h
  | case2 =>
    obtain ⟨rfl, rfl⟩ : _ = comment ∧ _ = rest := by simpa using h
    rfl
  | case3 c cs _ ih =>
    obtain ⟨⟨comment', rest'⟩, hspan, heq⟩ := Option.map_eq_some_iff.1 h
    obtain ⟨rfl, rfl⟩ : c :: comment' = comment ∧ rest' = rest := by simpa using heq
    simp [ih hspan]

theorem splits_operatorOrSet (op : BinaryOperator) (c : Char) (cs : List Char) :
    (operatorOrSet op c cs).Splits (c :: cs) := by
  unfold operatorOrSet
  split <;> simp

theorem splits_symbol (c : Char) (cs : List Char) : (symbol c cs).Splits (c :: cs) := by
  unfold symbol
  split <;> simp [splits_operatorOrSet]

theorem splits_slash (cs : List Char) : (slash cs).Splits ('/' :: cs) := by
  unfold slash
  split
  · simp
  · split
    next h => simp [spanComment_append h]
    next => trivial
  · exact splits_operatorOrSet ..

theorem splits_string (cs : List Char) : (string cs).Splits ('"' :: cs) := by
  unfold string
  split
  next h => simp [spanString_append h]
  next => trivial

theorem splits_numeral {c : Char} (h : c.isDigit ∨ c = '.') (cs : List Char) :
    (numeral (c :: cs)).Splits (c :: cs) := by
  have nonempty : (spanNumeral false (c :: cs)).1 ≠ [] := by
    by_cases hc : c = '.'
    · simp [spanNumeral, hc]
    · simp [spanNumeral, hc, h.resolve_right hc]
  have append := spanNumeral_append false (c :: cs)
  unfold numeral
  split
  next numeral rest heq =>
    rw [heq] at nonempty append
    split
    · exact ⟨nonempty, append⟩
    · split
      · exact ⟨nonempty, append⟩
      · trivial

theorem splits_word {c : Char} (h : isWordStart c) (cs : List Char) :
    (word (c :: cs)).Splits (c :: cs) := by
  have hc : isWordChar c = true := by
    simp only [isWordStart, isWordChar, Char.isAlphanum, Bool.or_eq_true] at h ⊢
    exact h.imp_left .inl
  have nonempty : (c :: cs).takeWhile isWordChar ≠ [] := by simp [hc]
  dsimp only [word]
  split <;> exact ⟨nonempty, List.takeWhile_append_dropWhile⟩

/-- A step loses nothing and takes at least one character. -/
theorem splits_step (c : Char) (cs : List Char) : (step c cs).Splits (c :: cs) := by
  unfold step
  split
  · simp
  split
  next h => exact h ▸ splits_slash cs
  split
  next h => exact h ▸ splits_string cs
  split
  next h => exact splits_numeral h cs
  split
  next h => exact splits_word h cs
  next => exact splits_symbol c cs

theorem length_rest_lt {text lexeme rest : List Char} (h : lexeme ≠ [] ∧ lexeme ++ rest = text) :
    rest.length < text.length := by
  have := List.length_pos_iff.2 h.1
  rw [← h.2, List.length_append]
  omega

end Scan

end HostScript
