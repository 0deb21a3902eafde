import HostScript.Session

/-!
# HostScript.Substitution

A preprocessor that puts the tokens of a text in place of an identifier.
-/

namespace HostScript

/-- The identifier `name` stands for the tokens of `text`, which come from `source`. -/
structure Substitution where
  name : String
  text : String
  source : Option String
deriving DecidableEq, Repr, Inhabited

namespace Substitution

/-- The tokens of the text without the end of it. -/
def replacement (s : Substitution) : EStateM CompileError Log (List Token) :=
  return (← readTokens s.source 1 s.text).dropLast

/-- Replaces every occurrence of the identifier, but none inside of replacements. -/
def apply (s : Substitution) : Preprocessor
  | [] => return []
  | token :: tokens => do
    if token.kind = .identifier s.name then
      let tokens' ← s.replacement
      return tokens' ++ (← apply s tokens)
    else return token :: (← apply s tokens)

/-- Applies substitutions one after the other, each to what those before it left. -/
def applyAll : List Substitution → Preprocessor
  | [], tokens => return tokens
  | s :: rest, tokens => do applyAll rest (← s.apply tokens)

end Substitution

end HostScript
