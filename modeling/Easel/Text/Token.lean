import Easel.Text.Blank

/-!
# Tokens

A line is read as its tokens: the longest runs of characters that are not blank, from left to
right. Blanks at either end and between two tokens, however many, are skipped.

* `tokensFrom` — the tokens of the rest of a line, given the part of a token already passed;
* `tokens` — the tokens of a text.
-/

namespace Easel.Text

/-- The token whose characters have been passed, last first; there is none before its first
character. -/
def closeToken : List Char → List (List Char)
  | [] => []
  | passed => [passed.reverse]

/-- The tokens of a line, where `passed` holds the characters of the token under way, last
first. -/
def tokensFrom (passed : List Char) : List Char → List (List Char)
  | [] => closeToken passed
  | c :: rest =>
    if isBlank c then closeToken passed ++ tokensFrom [] rest
    else tokensFrom (c :: passed) rest

/-- The tokens of a text, from left to right. -/
def tokens (text : String) : List String :=
  (tokensFrom [] text.toList).map String.ofList

/-- Between tokens there is nothing to close. -/
@[simp] theorem closeToken_nil : closeToken [] = [] := rfl

/-- The characters of a token have been passed in reverse. -/
@[simp] theorem closeToken_cons (c : Char) (passed : List Char) :
    closeToken (c :: passed) = [(c :: passed).reverse] := rfl

end Easel.Text
