import Easel.Proofs.Operation.Leaves
import Easel.Proofs.Render.Worker
import Easel.Script.Compiler

/-!
# A studio

Authors compile scripts and post the batches, while the worker of a loop applies them. They share
the scenes, and they take turns in any order: `Studio.run` follows a schedule, and to speak of all
schedules is to speak of all interleavings. A turn is as short as the scenes allow: an author
carries out one command, the worker applies one leaf of an operation.

* `Author.turn` — what an author does next: it takes up a call, carries out a command, or posts a
  batch;
* `Studio.work` — what the worker does next: it takes a message, applies a leaf, or concludes;
* `Studio.exists_run_compile`, `Studio.exists_run_step` — an author and the worker who are not
  interrupted do what `Compiler.run` and `Loop.step` do;
* `Studio.exists_run_calls`, `Studio.exists_run_atRest` — so they can always get done.
-/

namespace Easel

open Script (Command Compiler Settings Session)

/-- A call of a compiler. -/
inductive Call where
  | text (script : String)
  | source (bytes : Text.ByteSource)
  | reset

namespace Call

/-- The commands that a call has carried out, unless the script is refused. A reset is no script,
and is left to itself. -/
def commands? : Call → Option (List Command)
  | .text script => (Command.parseText script).toOption
  | .source bytes => (Command.parseSource bytes).toOption
  | .reset => none

/-- What a call lets the session hear. A script that is refused lets it hear nothing, not even the
lines before the bad one. -/
def heard : Call → List Command
  | .reset => [.reset]
  | call => call.commands?.getD []

/-- A script that can be read lets the session hear its commands. -/
theorem heard_of_commands? {call : Call} {commands : List Command}
    (h : call.commands? = some commands) : call.heard = commands := by
  cases call with
  | reset => exact absurd h nofun
  | text script => rw [heard, h]; rfl; exact Call.noConfusion
  | source bytes => rw [heard, h]; rfl; exact Call.noConfusion

/-- A script that is refused lets the session hear nothing. -/
theorem heard_of_refused {call : Call} (hreset : call ≠ .reset) (h : call.commands? = none) :
    call.heard = [] := by
  cases call with
  | reset => exact absurd rfl hreset
  | text script => rw [heard, h]; rfl; exact Call.noConfusion
  | source bytes => rw [heard, h]; rfl; exact Call.noConfusion

end Call

/-- An author: a compiler, and what there is to be done with it. -/
structure Author where
  compiler : Compiler
  /-- All calls, in order. -/
  calls : List Call
  /-- How many of them are done. -/
  done : Nat
  /-- What is left of the commands of the call under way. -/
  underway : Option (List Command)

namespace Author

/-- An author who has got done with all calls, and is not in the middle of one. -/
def IsDone (author : Author) : Prop :=
  author.underway = none ∧ author.calls.length ≤ author.done

instance (author : Author) : Decidable author.IsDone := inferInstanceAs (Decidable (_ ∧ _))

/-- The next turn of an author: the author afterwards, the scenes, and the batch to be posted if it
is complete. -/
def turn (author : Author) (scenes : Scenes) : Author × Scenes × Option Batch :=
  match author with
  | ⟨⟨settings, session⟩, calls, done, some (command :: rest)⟩ =>
    match session.execute settings scenes command with
    | (session, scenes) => (⟨⟨settings, session⟩, calls, done, some rest⟩, scenes, none)
  | ⟨⟨settings, session⟩, calls, done, some []⟩ =>
    match session.assemble with
    | (batch, session) => (⟨⟨settings, session⟩, calls, done + 1, none⟩, scenes, some batch)
  | ⟨⟨settings, session⟩, calls, done, none⟩ =>
    match calls[done]? with
    | none => (⟨⟨settings, session⟩, calls, done, none⟩, scenes, none)
    | some .reset =>
      match Session.reset scenes with
      | (session, scenes) => (⟨⟨settings, session⟩, calls, done + 1, none⟩, scenes, none)
    | some call =>
      match call.commands? with
      | some commands => (⟨⟨settings, session.begin⟩, calls, done, some commands⟩, scenes, none)
      | none => (⟨⟨settings, session⟩, calls, done + 1, none⟩, scenes, none)

section Turn

variable {settings : Settings} {session : Session} {calls : List Call} {done : Nat} {call : Call}

/-- A script that can be read is taken up: the session begins with it, and its commands are
underway. -/
theorem turn_begin (hcall : calls[done]? = some call) {commands : List Command}
    (hcommands : call.commands? = some commands) (scenes : Scenes) :
    turn ⟨⟨settings, session⟩, calls, done, none⟩ scenes =
      (⟨⟨settings, session.begin⟩, calls, done, some commands⟩, scenes, none) := by
  cases call with
  | reset => exact absurd hcommands nofun
  | text script => simp only [turn, hcall, hcommands]
  | source bytes => simp only [turn, hcall, hcommands]

/-- A script that is refused is done with at once. -/
theorem turn_refused (hcall : calls[done]? = some call) (hreset : call ≠ .reset)
    (hcommands : call.commands? = none) (scenes : Scenes) :
    turn ⟨⟨settings, session⟩, calls, done, none⟩ scenes =
      (⟨⟨settings, session⟩, calls, done + 1, none⟩, scenes, none) := by
  cases call with
  | reset => exact absurd rfl hreset
  | text script => simp only [turn, hcall, hcommands]
  | source bytes => simp only [turn, hcall, hcommands]

/-- A call for a reset is done with at once, and opens a scene. -/
theorem turn_reset (hcall : calls[done]? = some .reset) (scenes : Scenes) :
    turn ⟨⟨settings, session⟩, calls, done, none⟩ scenes =
      (⟨⟨settings, (Session.reset scenes).1⟩, calls, done + 1, none⟩, (Session.reset scenes).2,
        none) := by
  simp only [turn, hcall]

/-- An author who has got done with all calls does nothing. -/
theorem turn_idle (hcall : calls[done]? = none) (scenes : Scenes) :
    turn ⟨⟨settings, session⟩, calls, done, none⟩ scenes =
      (⟨⟨settings, session⟩, calls, done, none⟩, scenes, none) := by
  simp only [turn, hcall]

end Turn

end Author

/-- A batch that has been posted. -/
structure Posting (ι : Type) where
  author : ι
  /-- The call, among those of the author, that the batch comes from. -/
  call : Nat
  batch : Batch
deriving DecidableEq

/-- Authors, a loop and the scenes that they share. -/
structure Studio (ι σ ρ : Type) where
  authors : ι → Author
  scenes : Scenes
  loop : Loop σ ρ
  /-- What is left of the operation that the worker has taken, and whether the part that it has
  applied presents. -/
  hand : Option (List Operation × Bool)
  /-- All batches that have been posted, in order. -/
  posted : List (Posting ι)

/-- Whose turn it is. -/
inductive Turn (ι : Type) where
  | author (i : ι)
  | worker

namespace Studio

variable {ι σ ρ : Type} [DecidableEq ι] [Surface σ]

/-- A turn of an author. A batch that it posts is noted, together with the call that it comes
from. -/
def write (studio : Studio ι σ ρ) (i : ι) : Studio ι σ ρ :=
  match (studio.authors i).turn studio.scenes with
  | (author, scenes, none) =>
    { studio with authors := Function.update studio.authors i author, scenes }
  | (author, scenes, some batch) =>
    { studio with
      authors := Function.update studio.authors i author
      scenes
      loop := studio.loop.post (.batch batch)
      posted := studio.posted ++ [⟨i, (studio.authors i).done, batch⟩] }

/-- A turn of the worker. The leaves in its hand come first, then the conclusion, then the queue. -/
def work (receive : Receiver σ ρ) (studio : Studio ι σ ρ) : Studio ι σ ρ :=
  match studio.hand with
  | some (leaf :: rest, ready) =>
    match leaf.apply studio.scenes studio.loop.drawing with
    | ⟨now, scenes, drawing⟩ =>
      { studio with
        scenes
        loop := { studio.loop with drawing }
        hand := some (rest, ready || now) }
  | some ([], ready) =>
    { studio with
      loop := studio.loop.conclude receive ⟨ready, studio.scenes, studio.loop.drawing⟩
      hand := none }
  | none =>
    match studio.loop.worker, studio.loop.queue.pull? with
    | .alive, some (.apply op, queue) =>
      { studio with loop := { studio.loop with queue }, hand := some (op.leaves, false) }
    | .alive, some (.halt, queue) =>
      { studio with
        loop := ({ studio.loop with queue }.handle receive studio.scenes .halt).1 }
    | _, _ => studio

section Empty

variable (receive : Receiver σ ρ) {studio : Studio ι σ ρ}

omit [DecidableEq ι]

/-- A worker with an empty hand and an empty queue waits. -/
theorem work_of_empty (hhand : studio.hand = none) (hqueue : studio.loop.queue.items = []) :
    studio.work receive = studio := by
  obtain ⟨authors, scenes, ⟨lifecycle, ⟨items⟩, worker, drawing, standby, receiver, tally⟩, hand,
    posted⟩ := studio
  subst hhand hqueue
  cases worker <;> rfl

/-- A worker that has nothing in its hand takes the operation at the head of the queue. -/
theorem work_of_apply (hhand : studio.hand = none) (halive : studio.loop.worker = .alive)
    {op : Operation} {rest : List Message} (hqueue : studio.loop.queue.items = .apply op :: rest) :
    studio.work receive =
      { studio with
        loop := { studio.loop with queue := ⟨rest⟩ }
        hand := some (op.leaves, false) } := by
  obtain ⟨authors, scenes, ⟨lifecycle, ⟨items⟩, worker, drawing, standby, receiver, tally⟩, hand,
    posted⟩ := studio
  subst hhand halive hqueue
  rfl

end Empty

/-- A turn of a studio. -/
def turn (receive : Receiver σ ρ) (studio : Studio ι σ ρ) : Turn ι → Studio ι σ ρ
  | .author i => studio.write i
  | .worker => studio.work receive

/-- Turns are taken in the order of a schedule. -/
def run (receive : Receiver σ ρ) (studio : Studio ι σ ρ) (schedule : List (Turn ι)) :
    Studio ι σ ρ := schedule.foldl (turn receive) studio

/-! ### Turns that are not interrupted -/

section Uninterrupted

variable (receive : Receiver σ ρ)

/-- A schedule may be cut anywhere. -/
theorem run_append (studio : Studio ι σ ρ) (schedule later : List (Turn ι)) :
    studio.run receive (schedule ++ later) = (studio.run receive schedule).run receive later :=
  List.foldl_append

/-- An author that has begun with a script carries out its commands and posts the batch. It ends
with the session that `Session.executeAll` and `Session.assemble` lead to. -/
theorem exists_run_execute (studio : Studio ι σ ρ) {i : ι} {settings : Settings} {session : Session}
    {calls : List Call} {done : Nat} {commands : List Command}
    (h : studio.authors i = ⟨⟨settings, session⟩, calls, done, some commands⟩) :
    ∃ n, studio.run receive (List.replicate n (.author i)) =
      let last := session.executeAll settings studio.scenes commands
      { studio with
        authors := Function.update studio.authors i
          ⟨⟨settings, last.1.assemble.2⟩, calls, done + 1, none⟩
        scenes := last.2
        loop := studio.loop.post (.batch last.1.assemble.1)
        posted := studio.posted ++ [⟨i, done, last.1.assemble.1⟩] } := by
  -- One turn for each command, and one for the batch.
  induction commands generalizing studio session with
  | nil =>
    refine ⟨1, ?_⟩
    change studio.write i = _
    rw [write, h]
    rfl
  | cons command rest ih =>
    -- The first turn carries out one command; from there the induction hypothesis goes on.
    let next : Studio ι σ ρ := { studio with
      authors := Function.update studio.authors i
        ⟨⟨settings, (session.execute settings studio.scenes command).1⟩, calls, done, some rest⟩
      scenes := (session.execute settings studio.scenes command).2 }
    have hnext : studio.write i = next := by
      rw [write, h]
      rfl
    obtain ⟨n, hn⟩ := ih next (Function.update_self i _ _)
    refine ⟨n + 1, ?_⟩
    change (studio.write i).run receive (List.replicate n (.author i)) = _
    rw [hnext, hn]
    simp only [next, Function.update_idem]
    rfl

/-- **An author who is not interrupted compiles a script and posts the batch.** The compiler, the
scenes and the batch are those of `Compiler.run`. -/
theorem exists_run_compile (studio : Studio ι σ ρ) {i : ι} {c : Compiler} {calls : List Call}
    {done : Nat} (h : studio.authors i = ⟨c, calls, done, none⟩) {call : Call}
    (hcall : calls[done]? = some call) {commands : List Command}
    (hcommands : call.commands? = some commands) :
    ∃ n, studio.run receive (List.replicate n (.author i)) =
      { studio with
        authors := Function.update studio.authors i
          ⟨(c.run studio.scenes commands).compiler, calls, done + 1, none⟩
        scenes := (c.run studio.scenes commands).scenes
        loop := studio.loop.post (.batch (c.run studio.scenes commands).batch)
        posted := studio.posted ++ [⟨i, done, (c.run studio.scenes commands).batch⟩] } := by
  obtain ⟨settings, session⟩ := c
  -- The first turn takes up the call, the others carry out its commands.
  let begun : Studio ι σ ρ := { studio with
    authors := Function.update studio.authors i
      ⟨⟨settings, session.begin⟩, calls, done, some commands⟩ }
  have hbegun : studio.write i = begun := by
    rw [write, h, Author.turn_begin hcall hcommands]
  obtain ⟨n, hn⟩ := exists_run_execute receive begun (Function.update_self i _ _)
  refine ⟨n + 1, ?_⟩
  change (studio.write i).run receive (List.replicate n (.author i)) = _
  rw [hbegun, hn]
  simp only [begun, Function.update_idem]
  rfl

/-- The worker applies the leaves in its hand one by one. Taken together, they do what
`Operation.applyAll` does. -/
theorem run_leaves [LawfulSurface σ] (studio : Studio ι σ ρ) {leaves : List Operation}
    {ready : Bool}
    (h : studio.hand = some (leaves, ready)) :
    studio.run receive (List.replicate leaves.length .worker) =
      { studio with
        scenes := (Operation.applyAll leaves studio.scenes studio.loop.drawing).scenes
        loop := { studio.loop with
          drawing := (Operation.applyAll leaves studio.scenes studio.loop.drawing).surface }
        hand := some ([], ready ||
          (Operation.applyAll leaves studio.scenes studio.loop.drawing).ready) } := by
  -- One turn for each leaf, with the surface and the scenes that the ones before have left.
  induction leaves generalizing studio ready with
  | nil =>
    obtain ⟨authors, scenes, loop, hand, posted⟩ := studio
    subst h
    simp [run]
  | cons leaf rest ih =>
    -- What one leaf has done is the start of the next turn, with the rest in the hand.
    let applied := leaf.apply studio.scenes studio.loop.drawing
    let next : Studio ι σ ρ := { studio with
      scenes := applied.scenes
      loop := { studio.loop with drawing := applied.surface }
      hand := some (rest, ready || applied.ready) }
    have hnext : studio.work receive = next := by
      rw [work, h]
    change (studio.work receive).run receive (List.replicate rest.length .worker) = _
    rw [hnext, ih next rfl, Operation.applyAll_cons, ← Bool.or_assoc]

/-- **A worker who is not interrupted deals with a message as `Loop.step` does.** Taken apart into
turns, it takes the operation, applies its leaves and concludes. -/
theorem exists_run_step [LawfulSurface σ] (studio : Studio ι σ ρ) (h : studio.hand = none) :
    ∃ n, studio.run receive (List.replicate n .worker) =
      { studio with
        scenes := (studio.loop.step receive studio.scenes).2
        loop := (studio.loop.step receive studio.scenes).1 } := by
  obtain ⟨authors, scenes, ⟨lifecycle, ⟨items⟩, worker, drawing, standby, receiver, tally⟩, hand,
    posted⟩ := studio
  subst h
  -- Nothing is done by a worker who has gone, and one turn is enough for a request to halt.
  cases worker with
  | finished => exact ⟨0, rfl⟩
  | dead => exact ⟨0, rfl⟩
  | alive =>
    cases items with
    | nil => exact ⟨0, rfl⟩
    | cons message rest =>
      cases message with
      | halt => exact ⟨1, rfl⟩
      | apply op =>
        -- It takes the operation, applies its leaves and concludes.
        let taken : Studio ι σ ρ := ⟨authors, scenes, ⟨lifecycle, ⟨rest⟩, .alive, drawing, standby,
          receiver, tally⟩, some (op.leaves, false), posted⟩
        have hleaves := run_leaves receive taken rfl
        refine ⟨1 + (op.leaves.length + 1), ?_⟩
        rw [← List.replicate_append_replicate, run_append]
        change taken.run receive _ = _
        rw [← List.replicate_append_replicate, run_append, hleaves, Operation.applyAll_leaves,
          Bool.false_or, Loop.step_of_apply receive scenes rfl rfl, ← Loop.conclude_with_queue,
          ← Loop.conclude_with_drawing receive _ _ (op.apply scenes drawing).surface]
        rfl

/-- A worker who is not interrupted deals with any number of messages as `Loop.steps` does. -/
theorem exists_run_steps [LawfulSurface σ] (studio : Studio ι σ ρ) (h : studio.hand = none)
    (n : Nat) : ∃ m, studio.run receive (List.replicate m .worker) =
      { studio with
        scenes := (studio.loop.steps receive studio.scenes n).2
        loop := (studio.loop.steps receive studio.scenes n).1 } := by
  -- The hand is empty again after each step, so that the next one can begin.
  induction n generalizing studio with
  | zero => exact ⟨0, rfl⟩
  | succ n ih =>
    obtain ⟨m, hm⟩ := exists_run_step receive studio h
    obtain ⟨more, hmore⟩ := ih { studio with
      scenes := (studio.loop.step receive studio.scenes).2
      loop := (studio.loop.step receive studio.scenes).1 } h
    refine ⟨m + more, ?_⟩
    rw [← List.replicate_append_replicate, run_append, hm, hmore]
    rfl

/-- An author who is not interrupted gets done with a call, whatever the call is and however far it
has come with it. -/
theorem exists_run_call (studio : Studio ι σ ρ) {i : ι} {c : Compiler} {calls : List Call}
    {done : Nat} {underway : Option (List Command)}
    (h : studio.authors i = ⟨c, calls, done, underway⟩) {call : Call}
    (hcall : calls[done]? = some call) :
    ∃ (n : Nat) (after : Compiler), (studio.run receive (List.replicate n (.author i))).authors i =
      ⟨after, calls, done + 1, none⟩ := by
  obtain ⟨settings, session⟩ := c
  -- A call under way has been begun already, and only the rest of it is left to do.
  cases underway with
  | some commands =>
    obtain ⟨n, hn⟩ := exists_run_execute receive studio h
    refine ⟨n, ⟨settings, (session.executeAll settings studio.scenes commands).1.assemble.2⟩, ?_⟩
    rw [hn]
    exact Function.update_self i _ _
  | none =>
    by_cases hreset : call = .reset
    · subst hreset
      -- A reset takes one turn, and so does a script that cannot be read.
      refine ⟨1, ⟨settings, (Session.reset studio.scenes).1⟩, ?_⟩
      change (studio.write i).authors i = _
      rw [write, h, Author.turn_reset hcall]
      exact Function.update_self i _ _
    · cases hcommands : call.commands? with
      | none =>
        refine ⟨1, ⟨settings, session⟩, ?_⟩
        change (studio.write i).authors i = _
        rw [write, h, Author.turn_refused hcall hreset hcommands]
        exact Function.update_self i _ _
      | some commands =>
        obtain ⟨n, hn⟩ := exists_run_compile receive studio h hcall hcommands
        refine ⟨n, (Compiler.run ⟨settings, session⟩ studio.scenes commands).compiler, ?_⟩
        rw [hn]
        exact Function.update_self i _ _

/-- **An author who is not interrupted gets done with all calls.** It takes finitely many turns for
each of them, and does not wait for anything. -/
theorem exists_run_calls (studio : Studio ι σ ρ) (i : ι) :
    ∃ n, ((studio.run receive (List.replicate n (.author i))).authors i).calls =
        (studio.authors i).calls ∧
      (studio.authors i).calls.length ≤
        ((studio.run receive (List.replicate n (.author i))).authors i).done := by
  -- The induction is on the number of calls that are left.
  have hleft : ∀ (left : Nat) (studio : Studio ι σ ρ),
      (studio.authors i).calls.length ≤ (studio.authors i).done + left →
      ∃ n, ((studio.run receive (List.replicate n (.author i))).authors i).calls =
          (studio.authors i).calls ∧
        (studio.authors i).calls.length ≤
          ((studio.run receive (List.replicate n (.author i))).authors i).done := by
    intro left
    induction left with
    | zero => exact fun studio hle => ⟨0, rfl, hle⟩
    | succ left ih =>
      intro studio hle
      cases hcall : (studio.authors i).calls[(studio.authors i).done]? with
      | none => exact ⟨0, rfl, List.getElem?_eq_none_iff.mp hcall⟩
      | some call =>
        -- One call is done, so one fewer is left.
        obtain ⟨n, after, hn⟩ := exists_run_call receive studio rfl hcall
        have hnext := ih (studio.run receive (List.replicate n (.author i))) (by
          rw [hn]
          dsimp only
          rwa [Nat.add_assoc, Nat.add_comm 1])
        rw [hn] at hnext
        obtain ⟨m, hm⟩ := hnext
        refine ⟨n + m, ?_⟩
        rw [← List.replicate_append_replicate, run_append]
        exact hm
  exact hleft (studio.authors i).calls.length studio (Nat.le_add_left _ _)

omit [DecidableEq ι] [Surface σ] in
/-- A studio in which the worker has nothing left to do. -/
def IsAtRest (studio : Studio ι σ ρ) : Prop :=
  studio.hand = none ∧ studio.loop.queue.items = []

/-- **A worker who is not interrupted, and whose receiver never fails, comes to rest.** It ends with
nothing in its hand and nothing in the queue, and leaves the authors alone. -/
theorem exists_run_atRest [LawfulSurface σ] (taken : ρ → σ → ρ) (studio : Studio ι σ ρ)
    (halive : studio.loop.worker = .alive) {ops : List Operation}
    (hqueue : studio.loop.queue.items = ops.map .apply) :
    ∃ n, let last := studio.run (.steady taken) (List.replicate n .worker)
      last.authors = studio.authors ∧ last.posted = studio.posted ∧ last.IsAtRest := by
  -- With an empty hand, the induction is on the queue.
  have hidle : ∀ (ops : List Operation) (studio : Studio ι σ ρ), studio.hand = none →
      studio.loop.worker = .alive → studio.loop.queue.items = ops.map .apply →
      ∃ n, let last := studio.run (.steady taken) (List.replicate n .worker)
        last.authors = studio.authors ∧ last.posted = studio.posted ∧ last.IsAtRest := by
    intro ops
    induction ops with
    | nil => exact fun studio hhand _ hqueue => ⟨0, rfl, rfl, hhand, hqueue⟩
    | cons op rest ih =>
      intro studio hhand halive hqueue
      obtain ⟨n, hn⟩ := exists_run_step (.steady taken) studio hhand
      rw [Loop.step_of_apply _ _ halive hqueue] at hn
      have hworker := (Loop.conclude_steady_worker taken studio.loop
        (op.apply studio.scenes studio.loop.drawing)).trans halive
      obtain ⟨m, hm⟩ := ih (studio.run (.steady taken) (List.replicate n .worker))
        (by rw [hn]; exact hhand) (by rw [hn]; exact hworker) (by rw [hn])
      refine ⟨n + m, ?_⟩
      rw [← List.replicate_append_replicate, run_append]
      rw [hn] at hm ⊢
      exact hm
  cases hhand : studio.hand with
  | none => exact hidle ops studio hhand halive hqueue
  | some held =>
    obtain ⟨leaves, ready⟩ := held
    -- The operation in the hand is finished first, and then those in the queue.
    have hleaves := run_leaves (.steady taken) studio hhand
    let concluded := (studio.run (.steady taken) (List.replicate leaves.length .worker)).work
      (.steady taken)
    obtain ⟨n, hn⟩ := hidle ops concluded (by simp only [concluded, hleaves, work])
      (by simp only [concluded, hleaves, work, Loop.conclude_steady_worker, halive])
      (by simp only [concluded, hleaves, work, Loop.conclude_queue, hqueue])
    refine ⟨leaves.length + (1 + n), ?_⟩
    rw [← List.replicate_append_replicate, run_append, ← List.replicate_append_replicate,
      run_append]
    change let last := concluded.run (.steady taken) (List.replicate n .worker)
      last.authors = studio.authors ∧ last.posted = studio.posted ∧ last.IsAtRest
    have hsame : concluded.authors = studio.authors ∧ concluded.posted = studio.posted := by
      simp only [concluded, hleaves, work, and_self]
    rw [← hsame.1, ← hsame.2]
    exact hn

end Uninterrupted

end Studio

end Easel
