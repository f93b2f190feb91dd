import Easel.CommandLine.Arguments
import Easel.CommandLine.Report

/-!
# The program

The outer layer: reads the files that the command line names, or standard input, and writes what the
report says. All decisions are taken in `Easel.CommandLine`.
-/

namespace Easel.CommandLine

/-- The grid that frames are drawn on: a terminal of usual size without its last row. -/
def usualGrid : Terminal.Grid := .new 80 23

/-- What an error that the system reported for a file means. Only the kinds that the program words
itself are told apart. -/
def FileError.ofSystem : IO.Error → FileError
  | .noFileOrDirectory .. => .notFound
  -- Two different errors are reported as one type; the code of the system tells a directory that
  -- was to be read from a file that was taken for a directory.
  | .inappropriateType _ code _ => if code = 21 then .isDirectory else .notDirectory
  | e => .other (toString e)

/-- Reads a file as it is. An error is kept in the place of the bytes, so that it is reported in the
order of the scripts and not in the order of reading. -/
def readFile (name : String) : IO RawScript := do
  try
    let bytes ← IO.FS.readBinFile name
    return ⟨.file name, .ok bytes.data.toList⟩
  catch e =>
    return ⟨.file name, .error (.ofSystem e)⟩

/-- Reads standard input to its end. -/
def readStandardInput : IO RawScript := do
  try
    let bytes ← (← IO.getStdin).readBinToEnd
    return ⟨.standardInput, .ok bytes.data.toList⟩
  catch e =>
    return ⟨.standardInput, .error (.ofSystem e)⟩

/-- Waits for a number of milliseconds, at most as many as the clock can count. -/
def wait (milliseconds : Nat) : IO Unit := IO.sleep (min milliseconds 4294967295).toUInt32

/-- Runs scripts and writes what they show. -/
def runScripts (o : Options) : IO UInt32 := do
  let raws ← if o.scripts.isEmpty then pure [← readStandardInput] else o.scripts.mapM readFile
  -- The pauses between the scripts are taken together, before anything is written.
  wait (o.intervalMs * (raws.length - 1))
  if o.plain then
    let report := Report.plain raws
    IO.print report.plainOutput
    IO.eprint report.errorOutput
    return report.exitCode.toUInt32
  else
    let report := Report.drawn usualGrid raws
    (← IO.getStdout).write ⟨report.shown.writer.taken.toArray⟩
    -- A frame that was never delivered is not held.
    if 0 < report.shown.presenter.frames then wait o.holdMs
    IO.eprint report.errorOutput
    return report.exitCode.toUInt32

end Easel.CommandLine

open Easel.CommandLine in
/-- The program: one request is read off the arguments and carried out, and the exit code says how
it went. -/
def main (arguments : List String) : IO UInt32 := do
  match Request.parse arguments with
  | .error e =>
    IO.eprintln e.message
    return UsageError.exitCode.toUInt32
  | .ok .showVersion =>
    IO.print versionText
    return 0
  | .ok .showHelp =>
    IO.print helpText
    return 0
  | .ok (.run o) => runScripts o
