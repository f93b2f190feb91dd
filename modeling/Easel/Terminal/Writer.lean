/-!
# Writers

A `Writer` takes bytes, as many of them at a time as it likes, or fails. `writeAll` goes on until
every byte is taken. A writer that takes none of the bytes offered would never get there, so that is
an error of its own. An offer that is interrupted is made again, so it counts as one with the next.
A writer may hold back what it has taken until it is flushed.

* `Writer` — what a type of writers has to provide;
* `writeAll` — the whole of some bytes;
* `deliver` — the whole of some bytes, and nothing held back;
* `BoundedWriter` — a writer with room for so many bytes and no more.
-/

namespace Easel.Terminal

/-- Why bytes could not be written. Interruptions are not among the reasons, since an offer that is
interrupted is made again. -/
inductive WriteError where
  /-- The writer took none of the bytes it was offered. -/
  | nothingTaken
  /-- The writer itself failed. -/
  | failed (message : String)
deriving DecidableEq, Repr

/-- The wording of the error. A writer that fails brings its own words. -/
def WriteError.message : WriteError → String
  | .nothingTaken => "failed to write whole buffer"
  | .failed message => message

/-- What takes bytes. That no more is taken than was offered is part of the type of an answer. -/
class Writer (ω : Type) where
  /-- Offers bytes. The writer takes some number of them from the front, at most all, or fails. -/
  offer : ω → (bytes : List UInt8) → Except WriteError (Fin (bytes.length + 1)) × ω
  /-- Has the writer pass on what it has held back, which may fail as well. -/
  flush : ω → Except WriteError Unit × ω

/-- Writes all of some bytes, offering again what was left over. The recursion ends because an offer
of which nothing is taken ends it, and any other one makes the rest shorter. -/
def writeAll {ω : Type} [Writer ω] (w : ω) (bytes : List UInt8) : Except WriteError Unit × ω :=
  if bytes = [] then (.ok (), w)
  else
    match Writer.offer w bytes with
    | (.error e, w) => (.error e, w)
    -- Offering the same bytes again could go on for ever.
    | (.ok n, w) => if n.val = 0 then (.error .nothingTaken, w) else writeAll w (bytes.drop n)
termination_by bytes.length
decreasing_by
  have := List.length_pos_iff.2 (by assumption : bytes ≠ [])
  rw [List.length_drop]
  omega

/-- Writes all of some bytes and flushes the writer, unless it has failed before. Only after the
flush can the bytes be said to be delivered. -/
def deliver {ω : Type} [Writer ω] (w : ω) (bytes : List UInt8) : Except WriteError Unit × ω :=
  match writeAll w bytes with
  | (.ok (), w) => Writer.flush w
  | (.error e, w) => (.error e, w)

/-- What a writer does when it has no room left: it refuses, or takes nothing without an error. -/
inductive WhenFull where
  | refuse
  | takeNothing
deriving DecidableEq, Repr

/-- A writer that keeps what it has taken and has room for a number of bytes, or for any number. It
is the writer that frames are drawn to, and one to try failures with. -/
structure BoundedWriter where
  /-- The bytes taken so far. -/
  taken : List UInt8
  /-- How many more bytes there is room for; `none` if there always is. -/
  room? : Option Nat
  whenFull : WhenFull
deriving DecidableEq

namespace BoundedWriter

/-- A writer that has taken nothing yet. -/
def new (room? : Option Nat) (whenFull : WhenFull) : BoundedWriter := ⟨[], room?, whenFull⟩

/-- Takes what there is room for. An offer of no bytes at all is refused too when there is no room
and the writer refuses. -/
def offer (w : BoundedWriter) (bytes : List UInt8) :
    Except WriteError (Fin (bytes.length + 1)) × BoundedWriter :=
  match w.room? with
  | none => (.ok (Fin.last bytes.length), { w with taken := w.taken ++ bytes })
  | some room =>
    if room = 0 ∧ w.whenFull = .refuse then (.error (.failed "sink full"), w)
    else
      let count := min room bytes.length
      (.ok ⟨count, Nat.lt_succ_of_le (Nat.min_le_right _ _)⟩,
        ⟨w.taken ++ bytes.take count, some (room - count), w.whenFull⟩)

/-- Nothing is held back. -/
def flush (w : BoundedWriter) : Except WriteError Unit × BoundedWriter := (.ok (), w)

/-- Offers are taken as far as there is room, and a flush has nothing to do. -/
instance : Writer BoundedWriter := ⟨offer, flush⟩

end BoundedWriter

end Easel.Terminal
