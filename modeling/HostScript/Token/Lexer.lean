import HostScript.Log
import HostScript.Token.Lexeme

/-!
# HostScript.Token.Lexer

Scripts as lists of tokens, each with the place of its first character.  The last token stands for
the end of the script, at the start of the line behind it.
-/

namespace HostScript

/-- The tokens of a text whose first character stands at `position`. -/
def tokensFrom (source : Option String) (position : Position) (text : List Char) :
    Except CompileError (List Token) :=
  match text with
  | [] => .ok [⟨.eof, .ofPosition source (.lineStart (position.line + 1))⟩]
  | c :: cs =>
    match _h : Scan.step c cs with
    | .gap lexeme rest => tokensFrom source (position.after lexeme) rest
    | .token kind lexeme rest =>
      match tokensFrom source (position.after lexeme) rest with
      | .ok tokens => .ok (⟨kind, .ofPosition source position⟩ :: tokens)
      | .error error => .error error
    | .fault cause => .error ⟨.ofPosition source position, cause⟩
termination_by text.length
decreasing_by
  all_goals
    have splits := Scan.splits_step c cs
    rw [_h] at splits
    exact Scan.length_rest_lt splits

/-- The tokens of a script whose first line has the number `line`. -/
def tokenize (source : Option String) (line : Nat) (text : String) :
    Except CompileError (List Token) :=
  tokensFrom source (.lineStart line) text.toList

/-- The report of a script that was read into so many tokens: it names the place behind the last
character. -/
def tokenizedRecord (source : Option String) (line : Nat) (text : String) (tokens : Nat) :
    LogRecord :=
  .tokenized (.ofPosition source ((Position.lineStart line).after text.toList)) tokens

end HostScript
