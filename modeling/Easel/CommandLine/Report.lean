import Easel.Player
import Easel.Terminal.Presenter
import Easel.Text.ByteSource

/-!
# Reports

Running scripts from the command line: first all of them are read, then they are played in order.
A report is what the scripts have shown and what went wrong, if anything did.

* `loadAll` — the texts of all scripts, or the first one that cannot be read;
* `Report.ofScripts` — plays scripts for a receiver of frames;
* `Frame.collect` — the receiver that summarises each frame in one line, `Report.plain`;
* `Drawing.draw` — the receiver that draws each frame on a terminal, `Report.drawn`.
-/

namespace Easel.CommandLine

/-! ### Failures -/

/-- Why a file could not be opened or read. The first three are told apart because the program words
them itself. -/
inductive FileError where
  | notFound
  | isDirectory
  | notDirectory
  | other (message : String)
deriving DecidableEq, Repr

/-- The wording of the error, as a system words it. -/
def FileError.message : FileError → String
  | .notFound => "No such file or directory (os error 2)"
  | .isDirectory => "Is a directory (os error 21)"
  | .notDirectory => "Not a directory (os error 20)"
  | .other message => message

/-- Where a script comes from. -/
inductive Origin where
  | file (name : String)
  | standardInput
deriving DecidableEq, Repr

/-- The name of a script in messages. -/
def Origin.name : Origin → String
  | .file name => name
  | .standardInput => "<stdin>"

/-- Why a run ended early. There are three stages at which it can: a file is opened and read, its
bytes are decoded, and its text is parsed. -/
inductive Failure where
  | unopened (origin : Origin) (cause : FileError)
  | undecoded (origin : Origin) (cause : Text.ReadError)
  | refused (origin : Origin) (cause : Script.ParseError)
deriving DecidableEq, Repr

namespace Failure

/-- What could not be read. -/
def readContext : Origin → String
  | .file name => s!"failed to read {name}"
  | .standardInput => "failed to read script from stdin"

/-- What was being done when the run ended, and with which script. -/
def context : Failure → String
  | .unopened origin _ => readContext origin
  | .undecoded origin _ => readContext origin
  | .refused origin _ => s!"failed to parse {origin.name}"

/-- The reason, in the words of the stage that failed. -/
def cause : Failure → String
  | .unopened _ cause => cause.message
  | .undecoded _ cause => cause.message
  | .refused _ cause => cause.message

/-- The text that is written to the error output. -/
def message (f : Failure) : String :=
  s!"Error: {f.context}\n\nCaused by:\n    {f.cause}\n"

end Failure

/-! ### Reading -/

/-- A script as it was found: its bytes, or why there are none. Reading is over by then, so
everything that follows is a function of these. -/
structure RawScript where
  origin : Origin
  content : Except FileError (List UInt8)

/-- A script that can be compiled: its text, and where it comes from. -/
structure LoadedScript where
  origin : Origin
  text : String
deriving DecidableEq, Repr

/-- Reads one script as UTF-8. -/
def RawScript.load (raw : RawScript) : Except Failure LoadedScript :=
  match raw.content with
  | .error cause => .error (.unopened raw.origin cause)
  | .ok bytes =>
    match Text.decode bytes with
    | .error cause => .error (.undecoded raw.origin cause)
    | .ok text => .ok ⟨raw.origin, text⟩

/-- Reads all scripts. The first one that cannot be read ends it all, before any script is
compiled. -/
def loadAll : List RawScript → Except Failure (List LoadedScript)
  | [] => .ok []
  | raw :: rest =>
    match raw.load with
    | .error e => .error e
    | .ok script =>
      match loadAll rest with
      | .error e => .error e
      | .ok scripts => .ok (script :: scripts)

/-! ### Frames -/

/-- The summary of a frame: its size, and how many pixels have each of the colors that scripts can
draw with. With the standard settings these are all colors there are. -/
structure Frame where
  size : Size
  black : Nat
  white : Nat
  green : Nat
  red : Nat
deriving DecidableEq

namespace Frame

/-- The summary of what a pixmap shows. -/
def ofPixmap (p : Pixmap) : Frame :=
  ⟨p.size, p.count .black, p.count .white, p.count .pureGreen, p.count .pureRed⟩

/-- The line for the frame with a number. -/
def describe (number : Nat) (f : Frame) : String :=
  s!"frame {number}: {f.size.width}x{f.size.height} black={f.black} white={f.white} " ++
    s!"green={f.green} red={f.red}\n"

/-- Keeps the summaries of all frames, in order. It never fails. -/
def collect : Receiver Pixmap (List Frame) := fun frames p => ⟨frames ++ [ofPixmap p], true⟩

/-- The lines for frames that are numbered from `number` on. -/
def describeFrom (number : Nat) : List Frame → String
  | [] => ""
  | f :: rest => f.describe number ++ describeFrom (number + 1) rest

end Frame

/-! ### Drawing -/

/-- Frames drawn on a terminal: the presenter and what it has written. -/
structure Drawing where
  presenter : Terminal.Presenter
  writer : Terminal.BoundedWriter

namespace Drawing

/-- Nothing drawn yet, on a writer that takes everything. -/
def blank (grid : Terminal.Grid) : Drawing := ⟨.new grid, .new none .refuse⟩

/-- Draws a frame after the frames before it. A writer that always has room never fails, so the
result of delivering is not looked at. -/
def draw : Receiver Pixmap Drawing := fun drawing p =>
  match drawing.presenter.present p drawing.writer with
  | (_, presenter, writer) => ⟨⟨presenter, writer⟩, true⟩

end Drawing

/-! ### Running -/

/-- What a run has shown, and why it ended early if it did. What was shown before stays shown. -/
structure Report (ρ : Type) where
  shown : ρ
  failure? : Option Failure

namespace Report

variable {ρ : Type}

/-- Plays scripts in order. The first one that is refused ends it all, with the loop left as it is;
otherwise the loop is stopped at the end. -/
def playAll (receive : Receiver Pixmap ρ) (player : Player ρ) : List LoadedScript → Report ρ
  | [] => ⟨(player.finish receive).2, none⟩
  | script :: rest =>
    match player.play receive script.text with
    | .error e => ⟨player.loop.receiver, some (.refused script.origin e)⟩
    | .ok player => playAll receive player rest

/-- What frames are drawn on: black, of the size that a loop has by default. -/
def canvas : Pixmap := .blank Loop.defaultSize (by decide)

/-- Reads scripts, then plays them with the standard settings. If one cannot be read, nothing is
played. -/
def ofScripts (receive : Receiver Pixmap ρ) (receiver : ρ) (raws : List RawScript) : Report ρ :=
  match loadAll raws with
  | .error e => ⟨receiver, some e⟩
  | .ok scripts => playAll receive (.start .standard canvas receiver) scripts

/-- The run went to its end. -/
def Succeeded (r : Report ρ) : Prop := r.failure? = none

instance (r : Report ρ) : Decidable r.Succeeded :=
  match h : r.failure? with
  | none => .isTrue h
  | some _ => .isFalse fun e => by simp [Succeeded, h] at e

/-- The status that the program ends with. -/
def exitCode (r : Report ρ) : Nat := if r.Succeeded then 0 else 1

/-- What is written to the error output, which is nothing if all went well. -/
def errorOutput (r : Report ρ) : String := (r.failure?.map Failure.message).getD ""

/-- A run whose frames are summarised. -/
def plain (raws : List RawScript) : Report (List Frame) := ofScripts Frame.collect [] raws

/-- What such a run writes to standard output: a line for each frame, numbered from one. -/
def plainOutput (r : Report (List Frame)) : String := Frame.describeFrom 1 r.shown

/-- A run whose frames are drawn on a grid of terminal cells. -/
def drawn (grid : Terminal.Grid) (raws : List RawScript) : Report Drawing :=
  ofScripts Drawing.draw (.blank grid) raws

end Report

end Easel.CommandLine
