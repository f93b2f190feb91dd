import Easel.Canvas.Color

/-!
# Keywords

The seven words that begin a command, the number of arguments that each one takes, and the
backgrounds that some of them select. Keywords are spelled exactly, in lower case.
-/

namespace Easel.Script

/-- The words that begin a command. -/
inductive Keyword where
  | white | green | update | reset | bgrect | figure | move
deriving DecidableEq, Repr

namespace Keyword

/-- The spelling in a script. -/
def name : Keyword → String
  | .white => "white"
  | .green => "green"
  | .update => "update"
  | .reset => "reset"
  | .bgrect => "bgrect"
  | .figure => "figure"
  | .move => "move"

/-- How many numbers follow the keyword. -/
def arity : Keyword → Nat
  | .white | .green | .update | .reset => 0
  | .bgrect => 4
  | .figure | .move => 2

/-- All keywords. Each one is spelled in one way only, so their order does not matter. -/
def all : List Keyword := [.white, .green, .update, .reset, .bgrect, .figure, .move]

/-- The keyword with a spelling. -/
def ofName? (word : String) : Option Keyword := all.find? fun keyword => keyword.name = word

/-- A keyword is found under its own spelling, since no two are spelled alike. -/
@[simp] theorem ofName?_name (keyword : Keyword) : ofName? keyword.name = some keyword := by
  cases keyword <;> decide

/-- What is found has the spelling that was looked for. -/
theorem name_of_ofName? {word : String} {keyword : Keyword} (h : ofName? word = some keyword) :
    keyword.name = word := by
  simpa using List.find?_some h

/-- Looking a word up is the inverse of spelling. -/
theorem ofName?_eq_some_iff {word : String} {keyword : Keyword} :
    ofName? word = some keyword ↔ keyword.name = word :=
  ⟨name_of_ofName?, fun h => h ▸ ofName?_name keyword⟩

end Keyword

/-- The backgrounds that a script can select. -/
inductive Background where
  /-- Black: what a new session and a reset select. -/
  | reset
  | white
  | green
deriving DecidableEq, Repr

namespace Background

/-- The color that the whole surface is filled with. -/
def color : Background → Color
  | .reset => .black
  | .white => .white
  | .green => .pureGreen

/-- The keyword that selects the background. -/
def keyword : Background → Keyword
  | .reset => .reset
  | .white => .white
  | .green => .green

end Background

end Easel.Script
