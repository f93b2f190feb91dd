import Easel.Proofs.Studio.Ledger

/-!
# Exchanging turns

The turns of an author and of the worker may be exchanged, as long as the leaves in the hand of the
worker are known: a turn of an author lets the scenes grow and puts a message at the end of the
queue, a turn of the worker applies one leaf or takes a message from the head. Nothing is asked of
the receiver, which may fail, or of the surfaces.

* `Studio.write_eq` — what an author's turn does to a studio;
* `Studio.work_of_leaf`, `Studio.work_of_done`, `Studio.work_of_halt` — what the worker's turn does;
* `Studio.unapplied_work` — the leaves that the worker has not applied;
* `Studio.work_write` — the two turns may be exchanged, unless the worker has nothing to do;
* `Studio.work_requestStop` — and so may the worker's turn and the request to halt.
-/

namespace Easel

open Operation

/-- The leaves that a message brings to the worker, none if it is the request to halt. -/
def Message.leaves : Message → List Operation
  | .apply op => op.leaves
  | .halt => []

namespace Studio

/-- The messages that a batch is worth: one, or none if there is nothing in it, or no batch. -/
def mail (batch? : Option Batch) : List Message :=
  batch?.toList.flatMap fun batch => if batch = [] then [] else [.apply (.batch batch)]

/-- The leaves of what is posted are the batch itself, if it is flat. -/
theorem leaves_mail {batch? : Option Batch}
    (hflat : ∀ leaf ∈ batch?.getD [], leaf.leaves = [leaf]) :
    (mail batch?).flatMap Message.leaves = batch?.getD [] := by
  cases batch? with
  | none => rfl
  | some batch =>
    have hleaves : (Operation.batch batch).leaves = batch := leavesAll_of_forall hflat
    cases batch with
    -- An empty batch is not worth a message, and has no leaves.
    | nil => rfl
    | cons op rest => simp [mail, Message.leaves, hleaves]

/-- An author posts no request to halt. -/
theorem halt_notMem_mail (batch? : Option Batch) : .halt ∉ mail batch? := by
  simp [mail]

section Write

variable {ι σ ρ : Type} [DecidableEq ι]

/-- An author's turn changes the author and the scenes, and adds to the queue. It touches neither
the surfaces nor what the worker has in its hand. -/
theorem write_eq (studio : Studio ι σ ρ) (i : ι) : studio.write i =
    let next := (studio.authors i).turn studio.scenes
    { studio with
      authors := Function.update studio.authors i next.1
      scenes := next.2.1
      loop := { studio.loop with queue := ⟨studio.loop.queue.items ++ mail next.2.2⟩ }
      posted := studio.posted ++ next.2.2.toList.map fun batch =>
        ⟨i, (studio.authors i).done, batch⟩ } := by
  obtain ⟨authors, scenes, loop, hand, posted⟩ := studio
  rw [write]
  cases (authors i).turn scenes with
  | mk author rest =>
    obtain ⟨after, batch?⟩ := rest
    cases batch? with
    | none => simp [mail]
    | some batch =>
      -- An empty batch is recorded as posted, and not worth a message.
      cases batch with
      | nil => simp [mail, Loop.post]
      | cons op ops => simp [mail, Loop.post, Queue.push]

end Write

section Work

variable {ι σ ρ : Type} [Surface σ] (receive : Receiver σ ρ) {studio : Studio ι σ ρ}

omit [Surface σ] in
/-- A worker that has nothing but leaves in its hand applies a leaf next, never a batch. -/
theorem ne_batch (hflat : ∀ members, .batch members ∉ studio.todo) {leaf : Operation}
    {rest : List Operation} {ready : Bool} (hhand : studio.hand = some (leaf :: rest, ready))
    (members : List Operation) : leaf ≠ .batch members := by
  rintro rfl
  refine hflat members ?_
  rw [todo, hhand]
  exact List.mem_cons_self

/-- The worker applies the leaf: its fills to the surface under way, its move to the scenes. -/
theorem work_of_leaf {leaf : Operation} {rest : List Operation} {ready : Bool}
    (hhand : studio.hand = some (leaf :: rest, ready)) (hleaf : ∀ members, leaf ≠ .batch members) :
    studio.work receive =
      { studio with
        scenes := ownMove studio.scenes leaf
        loop := { studio.loop with
          drawing := Surface.paint
            (ownFills (Surface.bounds studio.loop.drawing) studio.scenes leaf) studio.loop.drawing }
        hand := some (rest, ready || leaf.presents) } := by
  rw [work, hhand]
  dsimp only
  rw [apply_of_leaf hleaf]

/-- The worker is done with an operation, and concludes. -/
theorem work_of_done {ready : Bool} (hhand : studio.hand = some ([], ready)) :
    studio.work receive =
      { studio with
        loop := studio.loop.conclude receive ⟨ready, studio.scenes, studio.loop.drawing⟩
        hand := none } := by
  rw [work, hhand]

/-- The worker comes to the request to halt, and leaves. -/
theorem work_of_halt (hhand : studio.hand = none) (halive : studio.loop.worker = .alive)
    {rest : List Message} (hqueue : studio.loop.queue.items = .halt :: rest) :
    studio.work receive =
      { studio with
        loop := { studio.loop with
          lifecycle := .stopped
          queue := ⟨rest⟩
          worker := .finished } } := by
  obtain ⟨authors, scenes, ⟨lifecycle, ⟨items⟩, worker, drawing, standby, receiver, tally⟩, hand,
    posted⟩ := studio
  subst hhand halive hqueue
  rfl

/-- A worker that is gone lets its turn pass. -/
theorem work_of_gone (hhand : studio.hand = none) (hgone : studio.loop.worker ≠ .alive) :
    studio.work receive = studio := by
  rw [work, hhand]
  cases hworker : studio.loop.worker with
  | alive => exact absurd hworker hgone
  | finished => rfl
  | dead => rfl

/-- The worker leaves the authors and the list of what they have posted alone, whatever it does. -/
theorem work_keeps (studio : Studio ι σ ρ) :
    (studio.work receive).authors = studio.authors ∧
      (studio.work receive).posted = studio.posted := by
  unfold work
  split
  · exact ⟨rfl, rfl⟩
  · exact ⟨rfl, rfl⟩
  · split <;> exact ⟨rfl, rfl⟩

/-- Only the request to halt changes the life of a loop, when the worker comes to it. -/
theorem lifecycle_work (studio : Studio ι σ ρ) :
    (studio.work receive).loop.lifecycle = studio.loop.lifecycle ∨
      (.halt ∈ studio.loop.queue.items ∧ (studio.work receive).loop.lifecycle = .stopped) := by
  unfold work
  split
  · exact Or.inl rfl
  · exact Or.inl (Loop.conclude_lifecycle receive _ _)
  · split
    · exact Or.inl rfl
    · -- The worker has come to the request to halt, so it has been in the queue.
      next hpull =>
      rw [Queue.pull?_eq_some_iff] at hpull
      exact Or.inr ⟨by rw [hpull]; exact List.mem_cons_self, rfl⟩
    · exact Or.inl rfl

/-- The worker adds nothing to the queue. -/
theorem items_work_subset (studio : Studio ι σ ρ) :
    (studio.work receive).loop.queue.items ⊆ studio.loop.queue.items := by
  unfold work
  split
  · exact List.Subset.refl _
  · dsimp only
    rw [Loop.conclude_queue]
    exact List.Subset.refl _
  · split
    · -- A message that is taken leaves the others as they are.
      next hpull =>
      rw [Queue.pull?_eq_some_iff] at hpull
      rw [hpull]
      exact List.subset_cons_self _ _
    · next hpull =>
      rw [Queue.pull?_eq_some_iff] at hpull
      rw [hpull]
      exact List.subset_cons_self _ _
    · exact List.Subset.refl _

/-- The leaves that the worker has not applied: those in its hand and those in the queue, in the
order in which it will apply them. -/
def unapplied (studio : Studio ι σ ρ) : List Operation :=
  studio.todo ++ studio.loop.queue.items.flatMap Message.leaves

/-- The scenes as they will be once the worker has applied everything. This is where the authors are
looked at, as no turn of the worker changes it. -/
def ahead (studio : Studio ι σ ρ) : Scenes := settle studio.unapplied studio.scenes

/-- What the worker takes into its hand are leaves, as an operation is taken apart when it comes
from the queue. -/
theorem batch_notMem_todo_work (hflat : ∀ members, .batch members ∉ studio.todo)
    (members : List Operation) : .batch members ∉ (studio.work receive).todo := by
  unfold work
  split
  · next hhand =>
    rw [todo, hhand] at hflat
    exact fun hc => hflat members (List.mem_cons_of_mem _ hc)
  · exact List.not_mem_nil
  · split
    · -- What has just been taken from the queue has been taken apart.
      exact batch_notMem_leaves members _
    · exact hflat members
    · exact hflat members

/-- **The worker applies the leaves one by one**, and changes the scenes in no other way. Turns that
apply nothing keep the leaves as they are. -/
theorem unapplied_work (hflat : ∀ members, .batch members ∉ studio.todo) :
    ((studio.work receive).unapplied = studio.unapplied ∧
        (studio.work receive).scenes = studio.scenes) ∨
      ∃ leaf, studio.unapplied = leaf :: (studio.work receive).unapplied ∧
        (studio.work receive).scenes = ownMove studio.scenes leaf := by
  cases hhand : studio.hand with
  | some held =>
    obtain ⟨leaves, ready⟩ := held
    cases leaves with
    | cons leaf rest =>
      have hleaf := ne_batch hflat hhand
      rw [work_of_leaf receive hhand hleaf]
      refine Or.inr ⟨leaf, ?_, rfl⟩
      rw [unapplied, todo, hhand]
      rfl
    | nil =>
      rw [work_of_done receive hhand]
      -- There is no leaf left in the hand, and concluding does not touch the queue.
      refine Or.inl ⟨?_, rfl⟩
      rw [unapplied, unapplied, todo, todo, hhand, Loop.conclude_queue]
      rfl
  | none =>
    left
    by_cases halive : studio.loop.worker = .alive
    · -- What the worker takes from the queue is now in its hand.
      obtain ⟨authors, scenes, ⟨lifecycle, ⟨items⟩, worker, drawing, standby, receiver, tally⟩,
        hand, posted⟩ := studio
      subst hhand halive
      cases items with
      | nil => exact ⟨rfl, rfl⟩
      | cons message rest => cases message <;> exact ⟨rfl, rfl⟩
    · rw [work_of_gone receive hhand halive]
      exact ⟨rfl, rfl⟩

/-- The worker does not change what lies ahead: a leaf that it applies is one less to come. -/
theorem ahead_work (hflat : ∀ members, .batch members ∉ studio.todo) :
    (studio.work receive).ahead = studio.ahead := by
  rw [ahead, ahead]
  rcases unapplied_work receive hflat with ⟨hsame, hscenes⟩ | ⟨leaf, hleaf, hscenes⟩
  · rw [hsame, hscenes]
  · -- The leaf goes from those that wait into the scenes.
    rw [hleaf, settle_cons, hscenes]

end Work

section Ahead

variable {ι σ ρ : Type} [DecidableEq ι] {studio : Studio ι σ ρ} {i : ι}

/-- What an author posts waits behind everything else, even what is in the hand of the worker. -/
theorem unapplied_write
    (hflat : ∀ leaf ∈ ((studio.authors i).turn studio.scenes).2.2.getD [], leaf.leaves = [leaf]) :
    (studio.write i).unapplied =
      studio.unapplied ++ ((studio.authors i).turn studio.scenes).2.2.getD [] := by
  rw [write_eq, unapplied]
  dsimp only
  rw [List.flatMap_append, leaves_mail hflat, ← List.append_assoc]
  rfl

omit [DecidableEq ι] in
/-- An author may as well take its turn when the worker has applied everything, as it does not
notice known leaves. -/
theorem turn_ahead (hknown : ∀ leaf ∈ studio.unapplied, leaf.Known studio.scenes)
    (author : Author) :
    author.turn studio.ahead =
      ((author.turn studio.scenes).1, settle studio.unapplied (author.turn studio.scenes).2.1,
        (author.turn studio.scenes).2.2) :=
  Author.turn_settle hknown author

/-- **To what lies ahead, an author who takes a turn adds what it does, and what it posts.** How far
the worker has come does not occur in this. -/
theorem ahead_write (hknown : ∀ leaf ∈ studio.unapplied, leaf.Known studio.scenes)
    (hflat : ∀ leaf ∈ ((studio.authors i).turn studio.ahead).2.2.getD [], leaf.leaves = [leaf]) :
    (studio.write i).ahead =
      settle (((studio.authors i).turn studio.ahead).2.2.getD [])
        ((studio.authors i).turn studio.ahead).2.1 := by
  rw [turn_ahead hknown] at hflat ⊢
  rw [ahead, unapplied_write hflat, settle_append, write_eq]

end Ahead

section Exchange

variable {ι σ ρ : Type} [DecidableEq ι] [Surface σ] (receive : Receiver σ ρ) {studio : Studio ι σ ρ}

omit [DecidableEq ι] [Surface σ] in
/-- An author notices no leaf that is known, and the fills of the leaf do not notice the author: a
turn and a leaf come to the same in either order. -/
theorem turn_ownMove {leaf : Operation} (hknown : leaf.Known studio.scenes) (i : ι) :
    (studio.authors i).turn (ownMove studio.scenes leaf) =
        (((studio.authors i).turn studio.scenes).1,
          ownMove ((studio.authors i).turn studio.scenes).2.1 leaf,
          ((studio.authors i).turn studio.scenes).2.2) ∧
      ∀ bounds, ownFills bounds ((studio.authors i).turn studio.scenes).2.1 leaf =
        ownFills bounds studio.scenes leaf := by
  refine ⟨?_, fun bounds => ?_⟩
  · have hone : ∀ only ∈ [leaf], only.Known studio.scenes := by
      intro only honly
      rw [List.mem_singleton.mp honly]
      exact hknown
    -- One leaf is a list of one leaf.
    exact Author.turn_settle hone (studio.authors i)
  · rw [Author.turn_scenes]
    cases (studio.authors i).growth? with
    | none => rfl
    | some growth => exact ownFills_grow hknown bounds growth

/-- **An author and the worker may exchange their turns**, unless the worker has nothing to do. In
that case what the author posts might be what it is waiting for. -/
theorem work_write (hknown : ∀ leaf ∈ studio.todo, leaf.Known studio.scenes)
    (hflat : ∀ members, .batch members ∉ studio.todo) (hbusy : studio.work receive ≠ studio)
    (i : ι) : (studio.write i).work receive = (studio.work receive).write i := by
  cases hhand : studio.hand with
  | some held =>
    obtain ⟨leaves, ready⟩ := held
    have hwritten : (studio.write i).hand = some (leaves, ready) := by
      rw [write_eq]
      exact hhand
    cases leaves with
    | cons leaf rest =>
      have hmem : leaf ∈ studio.todo := by
        rw [todo, hhand]
        exact List.mem_cons_self
      have hleaf := ne_batch hflat hhand
      -- What the leaf draws and what the author does are the same in either order.
      obtain ⟨hturn, hfills⟩ := turn_ownMove (hknown leaf hmem) i
      rw [work_of_leaf receive hwritten hleaf, work_of_leaf receive hhand hleaf, write_eq, write_eq]
      simp only [hturn, hfills]
    | nil =>
      rw [work_of_done receive hwritten, work_of_done receive hhand, write_eq, write_eq]
      dsimp only
      -- The queue plays no part in what the worker concludes.
      unfold Loop.conclude
      cases ready with
      | false => rfl
      | true =>
        cases hsurvived : (receive studio.loop.receiver studio.loop.drawing).survived <;>
          simp [hsurvived]
  | none =>
    by_cases halive : studio.loop.worker = .alive
    · rw [write_eq, write_eq]
      obtain ⟨authors, scenes, ⟨lifecycle, ⟨items⟩, worker, drawing, standby, receiver, tally⟩,
        hand, posted⟩ := studio
      subst hhand halive
      -- What is posted stands behind the message that the worker takes.
      cases items with
      | nil => exact absurd rfl hbusy
      | cons message rest => cases message <;> rfl
    · exact absurd (work_of_gone receive hhand halive) hbusy

omit [DecidableEq ι] [Surface σ] in
/-- The request to halt, as the owner of the loop posts it. -/
def requestStop (studio : Studio ι σ ρ) : Studio ι σ ρ :=
  { studio with loop := studio.loop.requestStop }

omit [DecidableEq ι] in
/-- The worker does not notice that it is asked to halt, unless it has nothing to do or has been
asked before. -/
theorem work_requestStop (hflat : ∀ members, .batch members ∉ studio.todo)
    (hbusy : studio.work receive ≠ studio) (hhalt : .halt ∉ studio.loop.queue.items) :
    studio.requestStop.work receive = (studio.work receive).requestStop := by
  cases hhand : studio.hand with
  | some held =>
    obtain ⟨leaves, ready⟩ := held
    have hasked : studio.requestStop.hand = some (leaves, ready) := hhand
    cases leaves with
    | cons leaf rest =>
      have hleaf := ne_batch hflat hhand
      rw [work_of_leaf receive hasked hleaf, work_of_leaf receive hhand hleaf]
      rfl
    | nil =>
      rw [work_of_done receive hasked, work_of_done receive hhand]
      -- Whether the receiver survives does not depend on what is in the queue.
      unfold requestStop Loop.requestStop Loop.announceStop Loop.postHalt Loop.conclude
      cases ready with
      | false => rfl
      | true =>
        cases hsurvived : (receive studio.loop.receiver studio.loop.drawing).survived <;>
          simp [hsurvived]
  | none =>
    by_cases halive : studio.loop.worker = .alive
    · obtain ⟨authors, scenes, ⟨lifecycle, ⟨items⟩, worker, drawing, standby, receiver, tally⟩,
        hand, posted⟩ := studio
      subst hhand halive
      cases items with
      | nil => exact absurd rfl hbusy
      | cons message rest =>
        cases message with
        | apply op => rfl
        -- There is no earlier request that the worker could come to.
        | halt => exact absurd List.mem_cons_self hhalt
    · exact absurd (work_of_gone receive hhand halive) hbusy

end Exchange

end Studio

end Easel
