import Easel.Script.Session

/-!
# The compiler

A compiler turns scripts into batches, one after another, and carries its session from each script
to the next. A script that is refused leaves everything as it was.

* `Compiler.start` — a compiler with an empty session;
* `Compiler.compile`, `Compiler.compileSource` — the batch of a script, given as text or as bytes;
* `Compiler.reset` — what the command of that name does, from outside.
-/

namespace Easel.Script

/-- A compiler: its settings and what it has heard so far. The scenes are not part of it, since they
are shared with those who apply its batches. -/
structure Compiler where
  settings : Settings
  session : Session
deriving DecidableEq

namespace Compiler

/-- What compiling a script leaves behind: the batch to be applied, the compiler for the next
script, and the scenes with the new figures. -/
structure Compiled where
  batch : Batch
  compiler : Compiler
  scenes : Scenes

/-- A compiler with an empty session, in a scene that is created for it. -/
def start (settings : Settings) (scenes : Scenes) : Compiler × Scenes :=
  match scenes.create with
  | (scene, scenes) => (⟨settings, .new scene⟩, scenes)

/-- How many figures the session has. -/
def figureCount (c : Compiler) : Nat := c.session.figures.length

/-- Starts the session over, in a new scene. -/
def reset (c : Compiler) (scenes : Scenes) : Compiler × Scenes :=
  match Session.reset scenes with
  | (session, scenes) => (⟨c.settings, session⟩, scenes)

/-- Carries out the commands of one script and assembles the batch. -/
def run (c : Compiler) (scenes : Scenes) (commands : List Command) : Compiled :=
  match c.session.begin.executeAll c.settings scenes commands with
  | (session, scenes) =>
    match session.assemble with
    | (batch, session) => ⟨batch, ⟨c.settings, session⟩, scenes⟩

/-- Compiles a script given as text. The commands are all parsed before the first of them is carried
out, so a script that is refused has no effect at all. -/
def compile (c : Compiler) (scenes : Scenes) (script : String) : Except ParseError Compiled :=
  (Command.parseText script).map (c.run scenes)

/-- Compiles a script given as bytes, which differs in nothing but how the lines are read. -/
def compileSource (c : Compiler) (scenes : Scenes) (source : Text.ByteSource) :
    Except ParseError Compiled :=
  (Command.parseSource source).map (c.run scenes)

end Compiler

end Easel.Script
