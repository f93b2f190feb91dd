import Easel.Operation.Apply
import Easel.Render.Queue

/-!
# The render loop

A render loop applies posted operations, in the order of posting, to one of two surfaces. When an
operation makes the surface ready, the receiver is shown that surface and the two change places, so
showing a frame copies nothing. Surfaces are never cleared.

The worker takes one message at a time; `Loop.step` is what it does with one. Everything around it
only posts messages: operations, and at the end the request to halt, which stands behind all
operations posted before. A receiver may fail while it is shown a frame; then the worker dies with
the message at hand, and later messages stay where they are.

* `Loop.start`, `Loop.post`, `Loop.requestStop` — the messages;
* `Loop.step`, `Loop.drain` — the work;
* `Loop.join` — the end, with what the worker has counted.
-/

namespace Easel

/-- Where a loop is in its life, as far as others can see it. -/
inductive Lifecycle where
  | running
  /-- The request to halt is posted; what was posted before it is still being applied. -/
  | stopRequested
  /-- No worker is left. -/
  | stopped
deriving DecidableEq, Repr

namespace Lifecycle

/-- The name of a state in diagnostic texts. -/
def describe : Lifecycle → String
  | .running => "Running"
  | .stopRequested => "StopRequested"
  | .stopped => "Stopped"

end Lifecycle

/-- What is posted to a worker. Operations and the request to halt share one queue, so the request
is met after all operations posted before it. -/
inductive Message where
  /-- Apply an operation to the surface under way. -/
  | apply (op : Operation)
  | halt
deriving DecidableEq

/-- What a worker counts. Both counts are natural numbers, without the limit of `2 ^ 64` that a
counter of 64 bits has. -/
structure Tally where
  /-- Messages that were applied completely or died on; a batch counts once. -/
  applied : Nat
  /-- Frames that the receiver has taken. -/
  presented : Nat
deriving DecidableEq, Repr

/-- Nothing counted yet; also what is reported of a worker that died. -/
def Tally.zero : Tally := ⟨0, 0⟩

/-- How a worker is. It leaves the first of these states at most once and never comes back to it. -/
inductive Worker where
  | alive
  /-- It has taken the request to halt and left. -/
  | finished
  /-- Its receiver failed. -/
  | dead
deriving DecidableEq, Repr

/-- What showing a frame does to a receiver: its state afterwards, and whether it survived.
Receivers are code of others, and one that fails takes the worker with it. -/
structure Shown (ρ : Type) where
  receiver : ρ
  survived : Bool

/-- How frames are shown: from the state of a receiver and a surface to what comes of it. A receiver
sees the surface only while it is shown, and cannot change it. -/
abbrev Receiver (σ ρ : Type) := ρ → σ → Shown ρ

/-- A loop over two surfaces of type `σ` with a receiver whose state is of type `ρ`. The scenes are
kept outside, since compilers and other loops use them too. -/
structure Loop (σ ρ : Type) where
  lifecycle : Lifecycle
  queue : Queue Message
  worker : Worker
  /-- The surface under way. -/
  drawing : σ
  /-- The other surface. -/
  standby : σ
  receiver : ρ
  tally : Tally

namespace Loop

variable {σ ρ : Type}

/-- The size of the two surfaces unless another one is asked for. -/
def defaultSize : Size := ⟨800, 800, by decide, by decide⟩

/-- The name that a worker goes by. -/
def workerName : String := "painter-loop"

/-- A running loop over two surfaces, the first of which is drawn to first. Nothing is cleared: the
surfaces are taken as they are. -/
def start (first second : σ) (receiver : ρ) : Loop σ ρ where
  lifecycle := .running
  queue := .empty
  worker := .alive
  drawing := first
  standby := second
  receiver := receiver
  tally := .zero

/-- Posts an operation. An empty batch is not worth a message; all other operations are posted,
batches of empty batches too. -/
def post (loop : Loop σ ρ) (op : Operation) : Loop σ ρ :=
  match op with
  | .batch [] => loop
  | op => { loop with queue := loop.queue.push (.apply op) }

/-- How many messages wait for the worker. -/
def pending (loop : Loop σ ρ) : Nat := loop.queue.size

/-- Makes it known that the loop is to stop. This comes before the request to halt is posted, and is
seen by others in between. -/
def announceStop (loop : Loop σ ρ) : Loop σ ρ := { loop with lifecycle := .stopRequested }

/-- Posts the request to halt, behind all that waits already. -/
def postHalt (loop : Loop σ ρ) : Loop σ ρ := { loop with queue := loop.queue.push .halt }

/-- Asks the worker to halt after everything posted so far. -/
def requestStop (loop : Loop σ ρ) : Loop σ ρ := loop.announceStop.postHalt

/-- What a live worker does with one message. A message is counted whether its frame is taken or
not; a frame is counted only if it is taken. -/
def handle [Surface σ] (receive : Receiver σ ρ) (loop : Loop σ ρ) (scenes : Scenes) :
    Message → Loop σ ρ × Scenes
  | .halt => ({ loop with lifecycle := .stopped, worker := .finished }, scenes)
  | .apply op =>
    match loop with
    | ⟨lifecycle, queue, worker, drawing, standby, receiver, ⟨applied, presented⟩⟩ =>
      match op.apply scenes drawing with
      | ⟨false, scenes, drawing⟩ =>
        (⟨lifecycle, queue, worker, drawing, standby, receiver, ⟨applied + 1, presented⟩⟩,
          scenes)
      | ⟨true, scenes, drawing⟩ =>
        match receive receiver drawing with
        | ⟨receiver, true⟩ =>
          -- The surfaces change places.
          (⟨lifecycle, queue, worker, standby, drawing, receiver,
            ⟨applied + 1, presented + 1⟩⟩, scenes)
        | ⟨receiver, false⟩ =>
          -- The worker dies before the frame counts as presented.
          (⟨lifecycle, queue, .dead, drawing, standby, receiver, ⟨applied + 1, presented⟩⟩,
            scenes)

/-- The worker takes one message, if it is alive and there is one. A worker that has left or died
takes nothing, so messages behind the request to halt stay where they are. -/
def step [Surface σ] (receive : Receiver σ ρ) (loop : Loop σ ρ) (scenes : Scenes) :
    Loop σ ρ × Scenes :=
  match loop with
  | ⟨lifecycle, queue, .alive, drawing, standby, receiver, tally⟩ =>
    match queue.pull? with
    | none => (⟨lifecycle, queue, .alive, drawing, standby, receiver, tally⟩, scenes)
    | some (message, queue) =>
      handle receive ⟨lifecycle, queue, .alive, drawing, standby, receiver, tally⟩ scenes
        message
  | loop => (loop, scenes)

/-- The worker takes up to `n` messages. -/
def steps [Surface σ] (receive : Receiver σ ρ) (loop : Loop σ ρ) (scenes : Scenes) :
    Nat → Loop σ ρ × Scenes
  | 0 => (loop, scenes)
  | n + 1 =>
    match loop.step receive scenes with
    | (loop, scenes) => loop.steps receive scenes n

/-- The worker takes all messages that wait. Handling a message posts none, so there are as many to
take as waited in the beginning. -/
def drain [Surface σ] (receive : Receiver σ ρ) (loop : Loop σ ρ) (scenes : Scenes) :
    Loop σ ρ × Scenes :=
  let waiting := loop.pending
  loop.steps receive scenes waiting

/-- Collects the worker once it has left or died: its counts, or zeros if it died, and the loop,
which is stopped for good. -/
def join (loop : Loop σ ρ) : Tally × Loop σ ρ :=
  let tally := match loop.worker with
    | .dead => .zero
    | .alive | .finished => loop.tally
  (tally, { loop with lifecycle := .stopped })

/-- Asks the worker to halt, lets it finish and collects it. -/
def stop [Surface σ] (receive : Receiver σ ρ) (loop : Loop σ ρ) (scenes : Scenes) :
    Tally × Loop σ ρ × Scenes :=
  match loop.requestStop.drain receive scenes with
  | (loop, scenes) =>
    match loop.join with
    | (tally, loop) => (tally, loop, scenes)

/-- The form `EventLoop { state: Running, pending: 1 }`. -/
def describe (loop : Loop σ ρ) : String :=
  s!"EventLoop \x7b state: {loop.lifecycle.describe}, pending: {loop.pending} \x7d"

end Loop

end Easel
