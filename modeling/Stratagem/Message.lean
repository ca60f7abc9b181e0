import Stratagem.Settings.Basic
import Stratagem.Entity.Basic

/-!
# Diagnostic messages

The messages of Error and Warning nodes are templates in which tokens stand for the names of the
actors. A template is cut from left to right: where a token begins, the longest one is replaced by
its name; any other character is kept. A name that was put in is not looked at again.

* `Parties.tokens`: the tokens in force. An empty token is never in force, and the target's is not
  while there is no target.
-/

namespace Stratagem

/-- The actors that a branch of an evaluation is about. -/
structure Parties where
  conspirator : Actor
  target : Option Actor
deriving DecidableEq, Repr

/-- A token and the name that it stands for. -/
structure Token where
  text : List Char
  name : List Char
deriving DecidableEq, Repr

namespace Token

/-- The token of a text, which must not be empty. -/
def ofText? (text name : String) : Option Token :=
  if text.isEmpty then none else some ⟨text.toList, name.toList⟩

/-- The longer of two tokens comes first, the first of two equally long. -/
def longestFirst (tokens : List Token) : List Token :=
  tokens.mergeSort fun a b => b.text.length ≤ a.text.length

end Token

/-- The tokens in force, the longest first. -/
def Parties.tokens (p : Parties) (settings : WalkSettings) : List Token :=
  Token.longestFirst <|
    (Token.ofText? settings.conspiratorToken p.conspirator.name).toList
      ++ (p.target.bind fun t => Token.ofText? settings.targetToken t.name).toList

namespace Template

/-- The first of the tokens that a text begins with. -/
def tokenAt? (tokens : List Token) (text : List Char) : Option Token :=
  tokens.find? fun t => t.text.isPrefixOf text

/-- Replace tokens by names, after passing over `skip` characters that a token has taken up. -/
def fill (tokens : List Token) : (skip : Nat) → List Char → List Char
  | _, [] => []
  | skip + 1, _ :: rest => fill tokens skip rest
  | 0, c :: rest =>
    match tokenAt? tokens (c :: rest) with
    | some t => t.name ++ fill tokens (t.text.length - 1) rest
    | none => c :: fill tokens 0 rest

/-- Passing over characters is dropping them. -/
theorem fill_skip (tokens : List Token) (skip : Nat) (text : List Char) :
    fill tokens skip text = fill tokens 0 (text.drop skip) := by
  induction skip generalizing text with
  | zero => rfl
  | succ skip ih =>
    cases text with
    | nil => simp [fill]
    | cons c rest => simpa [fill] using ih rest

end Template

/-- The message that a template makes for the given parties. -/
def Parties.render (p : Parties) (settings : WalkSettings) (template : String) : String :=
  String.ofList (Template.fill (p.tokens settings) 0 template.toList)

end Stratagem
