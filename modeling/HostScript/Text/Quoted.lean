import HostScript.Text.Unprintable

/-!
# HostScript.Text.Quoted

Backslash escapes, both ways.

`unescape` resolves the escapes that a script writes in its string literals, where an unknown
escape stands for the escaped character itself.  `quote` writes a string between double quotes for
messages, listings and dumps; its escapes are a richer set, with `\u{…}` for what cannot be shown.
-/

namespace HostScript.Text

/-- The character that a backslash followed by `c` stands for in a script. -/
def escaped (c : Char) : Char :=
  match c with
  | 'n' => '\n'
  | 't' => '\t'
  | 'r' => '\r'
  | '0' => '\x00'
  | other => other

/-- Resolves the escapes of a string literal.  A backslash with nothing behind it stays. -/
def unescape : List Char → List Char
  | [] => []
  | ['\\'] => ['\\']
  | '\\' :: c :: rest => escaped c :: unescape rest
  | c :: rest => c :: unescape rest

/-- A character by its code point in hexadecimal. -/
def codePoint (c : Char) : List Char :=
  ['\\', 'u', '\x7b'] ++ Nat.toDigits 16 c.toNat ++ ['\x7d']

/-- A character inside quotes of the kind `mark`, which is escaped as well. -/
def quoteChar (isMark : Char → Bool) (c : Char) : List Char :=
  match c with
  | '\x00' => ['\\', '0']
  | '\t' => ['\\', 't']
  | '\r' => ['\\', 'r']
  | '\n' => ['\\', 'n']
  | '\\' => ['\\', '\\']
  | c => if isMark c then ['\\', c] else if isUnprintable c then codePoint c else [c]

/-- The string between double quotes; single quotes stay as they are. -/
def quote (s : String) : String :=
  String.ofList ('"' :: s.toList.flatMap (quoteChar (· == '"')) ++ ['"'])

/-- One character as messages show it between single quotes; both kinds of quotes are escaped. -/
def showChar (c : Char) : String :=
  String.ofList (quoteChar (fun c => c == '"' || c == '\x27') c)

end HostScript.Text
