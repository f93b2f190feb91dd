import Easel.Numeric.Decimal
import Easel.Script.ParseError
import Easel.Text.Token

/-!
# Commands

One line of a script holds at most one command: a keyword and its numbers, separated by blanks. The
numbers stay as they are written; what they mean in pixels is for the session to say.

Of several faults in one line the first of these is reported: the keyword is unknown; the number of
arguments is wrong; an argument, the leftmost one, is no finite number.

* `Command.parseLine` — the command of one line, or none for a blank line;
* `Command.parseText`, `Command.parseSource` — the commands of all lines, up to the first bad one.
-/

namespace Easel.Script

/-- What one line of a script says. Numbers are doubles that are neither infinite nor NaNs when they
come from a line, though nothing here depends on it. -/
inductive Command where
  /-- Selects the background. -/
  | background (shade : Background)
  /-- Asks for the surface to be shown. -/
  | update
  /-- Lays a black rectangle over the background, given by two opposite corners. -/
  | bgrect (x1 y1 x2 y2 : Binary64)
  /-- Adds a figure by its center. -/
  | figure (x y : Binary64)
  /-- Moves all figures that exist by now. -/
  | move (dx dy : Binary64)
  /-- Forgets everything and selects the black background. -/
  | reset
deriving DecidableEq

namespace Command

/-- The keyword that a command begins with. -/
def keyword : Command → Keyword
  | .background shade => shade.keyword
  | .update => .update
  | .bgrect .. => .bgrect
  | .figure .. => .figure
  | .move .. => .move
  | .reset => .reset

/-- The word that a command begins with. -/
def name (command : Command) : String := command.keyword.name

/-- The numbers of a command, in order. -/
def arguments : Command → List Binary64
  | .background _ | .update | .reset => []
  | .bgrect x1 y1 x2 y2 => [x1, y1, x2, y2]
  | .figure x y => [x, y]
  | .move dx dy => [dx, dy]

/-- One argument of a keyword that has been given the right number of them. The error names the
token as it is written, and gives the count that was right. -/
def number (line : Nat) (keyword : Keyword) (token : String) : Except ParseError Binary64 :=
  match Decimal.finite? token with
  | some x => .ok x
  | none => .error (.malformedArguments line keyword keyword.arity (some token))

/-- The command of a keyword with its arguments. Arguments are read from the left, so the first of
them that is no number is the one reported. -/
def ofTokens (line : Nat) : Keyword → List String → Except ParseError Command
  | .white, [] => .ok (.background .white)
  | .green, [] => .ok (.background .green)
  | .update, [] => .ok .update
  | .reset, [] => .ok .reset
  | .bgrect, [a, b, c, d] => do
    let x1 ← number line .bgrect a
    let y1 ← number line .bgrect b
    let x2 ← number line .bgrect c
    let y2 ← number line .bgrect d
    return .bgrect x1 y1 x2 y2
  | .figure, [a, b] => do
    let x ← number line .figure a
    let y ← number line .figure b
    return .figure x y
  | .move, [a, b] => do
    let dx ← number line .move a
    let dy ← number line .move b
    return .move dx dy
  -- Every keyword with its right number of arguments is matched above.
  | keyword, arguments => .error (.malformedArguments line keyword arguments.length none)

/-- The command of one line, `none` if the line is blank. A line without tokens is blank whatever
its blanks are. -/
def parseLine (text : String) (line : Nat) : Except ParseError (Option Command) :=
  match Text.tokens text with
  | [] => .ok none
  | word :: arguments =>
    match Keyword.ofName? word with
    | none => .error (.unknownCommand line word)
    | some keyword => (ofTokens line keyword arguments).map some

/-- The commands of lines that are numbered from `line` on. The first line that cannot be read or
holds no command ends it all. -/
def parseLinesFrom (line : Nat) :
    List (Except Text.ReadError String) → Except ParseError (List Command)
  | [] => .ok []
  | .error cause :: _ => .error (.unreadable cause)
  | .ok text :: rest =>
    match parseLine text line with
    | .error e => .error e
    | .ok command? =>
      match parseLinesFrom (line + 1) rest with
      | .error e => .error e
      | .ok commands => .ok (command?.toList ++ commands)

/-- The commands of a text, with its lines counted from one. -/
def parseText (script : String) : Except ParseError (List Command) :=
  parseLinesFrom 1 ((Text.lines script).map .ok)

/-- The commands of a byte source. A line that cannot be read ends the reading with its cause, and
that error has no line number. -/
def parseSource (source : Text.ByteSource) : Except ParseError (List Command) :=
  parseLinesFrom 1 source.lines

end Command

end Easel.Script
