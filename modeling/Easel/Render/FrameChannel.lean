/-!
# Frame channels

A frame channel hands frames from any number of senders to one listener and holds at most
`capacity` of them. A sender never waits. A frame that finds the channel full is dropped, and the
sender counts it; a frame that finds the listener gone is forgotten without being counted. A channel
of capacity zero is always full.

Senders are numbered in the order of their creation; a closed sender keeps its number.

* `FrameChannel.present` — hands a frame over, or drops it;
* `FrameChannel.receive` — takes the oldest frame, or says why there is none;
* `FrameChannel.clone`, `FrameChannel.close`, `FrameChannel.hangUp` — the life of its ends.
-/

namespace Easel

/-- A bounded channel of frames with its ends. The ends are part of it: what a sender or the
listener may do depends on whether the others are still there. -/
structure FrameChannel (α : Type) where
  capacity : Nat
  /-- The frames in the channel, oldest first. -/
  frames : List α
  /-- Whether the listener is still there. -/
  listening : Bool
  /-- For each sender how many frames it has dropped; `none` once it is closed. The counts are
  natural numbers, without the limit of `2 ^ 64` that a counter of 64 bits has. -/
  senders : Array (Option Nat)
deriving DecidableEq

/-- What a listener is told when it asks for a frame without waiting. -/
inductive Reception (α : Type) where
  | frame (a : α)
  /-- There is no frame now. -/
  | empty
  /-- There is no frame, and no sender is left to bring one. -/
  | disconnected
  /-- The listener has hung up itself. -/
  | closed
deriving DecidableEq, Repr

namespace FrameChannel

variable {α : Type}

/-- A channel with a listener and one sender, number zero. -/
def bounded (capacity : Nat) : FrameChannel α := ⟨capacity, [], true, #[some 0]⟩

/-- How many frames a sender has dropped; `none` if there is no such sender, or not any more. Every
question about an open sender is asked through this. -/
def dropped? (ch : FrameChannel α) (sender : Nat) : Option Nat := (ch.senders[sender]?).join

/-- A frame put into the channel now would find no room. -/
def IsFull (ch : FrameChannel α) : Prop := ch.capacity ≤ ch.frames.length

instance (ch : FrameChannel α) : Decidable ch.IsFull := inferInstanceAs (Decidable (_ ≤ _))

/-- Hands a frame to the channel through a sender. A closed sender hands over nothing. -/
def present (ch : FrameChannel α) (sender : Nat) (a : α) : FrameChannel α :=
  match ch.dropped? sender with
  | none => ch
  | some dropped =>
    -- A listener that is gone outranks a full channel: nobody misses the frame.
    if ¬ ch.listening then ch
    else if ch.IsFull then
      { ch with senders := ch.senders.setIfInBounds sender (some (dropped + 1)) }
    else { ch with frames := ch.frames ++ [a] }

/-- Adds a sender that starts from the count of another one, if that one is open, and answers the
number of the new sender. -/
def clone? (ch : FrameChannel α) (sender : Nat) : Option (Nat × FrameChannel α) :=
  (ch.dropped? sender).map fun dropped =>
    (ch.senders.size, { ch with senders := ch.senders.push (some dropped) })

/-- Closes a sender for good. Its number is not given out again. -/
def close (ch : FrameChannel α) (sender : Nat) : FrameChannel α :=
  { ch with senders := ch.senders.setIfInBounds sender none }

/-- Takes the oldest frame, or says why there is none. -/
def receive (ch : FrameChannel α) : Reception α × FrameChannel α :=
  if ¬ ch.listening then (.closed, ch)
  else
    match ch.frames with
    | a :: rest => (.frame a, { ch with frames := rest })
    -- Frames that are still in the channel come before the news that all senders are gone.
    | [] => (if ch.senders.any Option.isSome then .empty else .disconnected, ch)

/-- The listener leaves; frames still in the channel are lost. -/
def hangUp (ch : FrameChannel α) : FrameChannel α := { ch with listening := false, frames := [] }

end FrameChannel

end Easel
