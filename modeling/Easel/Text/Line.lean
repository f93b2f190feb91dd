/-!
# Lines

A text, or a row of bytes, is cut into lines at its line feeds. One carriage return right before a
line feed belongs to the line ending; any other carriage return is content. What follows the last
line feed is a line too if it is not empty, one that nothing terminates.

* `splitLines` — the lines of a list of symbols, with the two control symbols as parameters;
* `lines` — the lines of a text.
-/

namespace Easel.Text

/-- One line: its content without the line ending, and whether a line feed ended it. -/
structure Line (α : Type) where
  content : List α
  terminated : Bool
deriving DecidableEq, Repr

variable {α : Type} [DecidableEq α]

/-- Drops one carriage return from the front, where the content of a line is held last symbol
first. -/
def dropReturn (carriageReturn : α) : List α → List α
  | [] => []
  | a :: rest => if a = carriageReturn then rest else a :: rest

/-- The lines of a list of symbols, where `passed` holds the content of the line under way, last
symbol first. -/
def splitLinesFrom (lineFeed carriageReturn : α) (passed : List α) : List α → List (Line α)
  | [] => if passed.isEmpty then [] else [⟨passed.reverse, false⟩]
  | a :: rest =>
    if a = lineFeed then
      ⟨(dropReturn carriageReturn passed).reverse, true⟩ ::
        splitLinesFrom lineFeed carriageReturn [] rest
    else splitLinesFrom lineFeed carriageReturn (a :: passed) rest

/-- The lines of a list of symbols, from its beginning. -/
def splitLines (lineFeed carriageReturn : α) (symbols : List α) : List (Line α) :=
  splitLinesFrom lineFeed carriageReturn [] symbols

/-- The contents of the lines of a text, without their endings. Whether the last line was terminated
makes no difference here. -/
def lines (text : String) : List String :=
  (splitLines '\n' '\r' text.toList).map fun line => String.ofList line.content

end Easel.Text
