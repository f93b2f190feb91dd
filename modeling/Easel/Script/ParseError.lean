import Easel.Script.Keyword
import Easel.Text.ByteSource

/-!
# Parse errors

Why a script was refused. Every error but a failed read carries the number of the offending line,
counted from one, and the word that the line begins with.

* `ParseError.command?`, `ParseError.line?` — that word and that number;
* `ParseError.expected?` — how many arguments the keyword takes;
* `ParseError.message` — the wording.
-/

namespace Easel.Script

/-- Why a script was refused. The error keeps what its message needs; the word and the line are read
off it by the functions below. -/
inductive ParseError where
  /-- The first word of a line is no keyword. The word is kept as it is written. -/
  | unknownCommand (line : Nat) (command : String)
  /-- A keyword with the wrong number of arguments, or, where the number is right, the first
  argument that is no finite number. -/
  | malformedArguments (line : Nat) (keyword : Keyword) (actual : Nat) (invalid? : Option String)
  | unreadable (cause : Text.ReadError)
deriving DecidableEq, Repr

namespace ParseError

/-- The word that the offending line begins with. A failed read has none. -/
def command? : ParseError → Option String
  | .unknownCommand _ command => some command
  | .malformedArguments _ keyword _ _ => some keyword.name
  | .unreadable _ => none

/-- The number of the offending line, counted from one. A failed read has none. -/
def line? : ParseError → Option Nat
  | .unknownCommand line _ => some line
  | .malformedArguments line _ _ _ => some line
  | .unreadable _ => none

/-- How many arguments the keyword of the offending line takes, if it is a keyword. -/
def expected? : ParseError → Option Nat
  | .malformedArguments _ keyword _ _ => some keyword.arity
  | .unknownCommand .. | .unreadable _ => none

/-- The wording of the error. An argument that is no number is named behind the counts. -/
def message : ParseError → String
  | .unknownCommand line command => s!"line {line}: unknown command `{command}`"
  | .malformedArguments line keyword actual invalid? =>
    let counts :=
      s!"line {line}: `{keyword.name}` expects {keyword.arity} argument(s), got {actual}"
    match invalid? with
    | some token => s!"{counts} (`{token}` is not a number)"
    | none => counts
  | .unreadable cause => s!"failed to read script: {cause.message}"

end ParseError

end Easel.Script
