import Easel.Canvas.Pixmap
import Easel.Render.Loop
import Easel.Script.Compiler

/-!
# Players

A player compiles scripts one after another in one session and posts each batch to one render loop
over pixmaps. The loop catches up after every script, so the frames of a script are shown before the
next script is compiled.

* `Player.start` — a player for a canvas;
* `Player.play` — one script;
* `Player.finish` — the end of the loop, with its counts.
-/

namespace Easel

/-- A compiler and a loop that work together. Both see the same scenes: the compiler adds figures to
them and the loop moves figures. -/
structure Player (ρ : Type) where
  compiler : Script.Compiler
  scenes : Scenes
  loop : Loop Pixmap ρ

namespace Player

variable {ρ : Type}

/-- A player that has played nothing, with two copies of a canvas to draw on. -/
def start (settings : Script.Settings) (canvas : Pixmap) (receiver : ρ) : Player ρ :=
  match Script.Compiler.start settings .empty with
  | (compiler, scenes) => ⟨compiler, scenes, .start canvas canvas receiver⟩

/-- Posts a batch and lets the loop catch up. The batch of a script is never empty, so this is
always one message. -/
def perform (receive : Receiver Pixmap ρ) (loop : Loop Pixmap ρ) (c : Script.Compiler.Compiled) :
    Player ρ :=
  match (loop.post (.batch c.batch)).drain receive c.scenes with
  | (loop, scenes) => ⟨c.compiler, scenes, loop⟩

/-- Plays one script. A script that is refused changes nothing: neither the session nor the scenes
nor the loop. -/
def play (receive : Receiver Pixmap ρ) (player : Player ρ) (script : String) :
    Except Script.ParseError (Player ρ) :=
  match player with
  | ⟨compiler, scenes, loop⟩ => (compiler.compile scenes script).map (perform receive loop)

/-- Stops the loop, and answers its counts and the state of its receiver. -/
def finish (receive : Receiver Pixmap ρ) (player : Player ρ) : Tally × ρ :=
  match player with
  | ⟨_, scenes, loop⟩ =>
    match loop.stop receive scenes with
    | (tally, loop, _) => (tally, loop.receiver)

end Player

end Easel
