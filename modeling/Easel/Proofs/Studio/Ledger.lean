import Easel.Proofs.Studio.Authors

/-!
# The ledger of a studio

The batches that have been posted are applied one after another, while the authors go on. A ledger
tells which of them the worker has finished, which one is in its hand, and which ones wait.

* `Ledger.Agrees` — the invariant: the frames show the finished batches, the hand and the queue hold
  the rest, and what they will draw is what they owe;
* `Ledger.Agrees.write` — the turns of authors keep it, since growth does not reach the leaves that
  are known already;
* `Ledger.Agrees.work` — the turns of the worker keep it;
* `Ledger.Agrees.run` — so does every schedule.
-/

namespace Easel

open Operation

namespace Posting

variable {ι : Type}

/-- The fills that a batch owes to the call that it comes from. They are known from the program of
its author, and the other authors have no part in them. -/
def due (programs : ι → Program) (bounds : Rect) (posting : Posting ι) : List Fill :=
  (programs posting.author).due bounds posting.call posting.batch

/-- Whether a frame is shown when the batch is finished. -/
def presents (posting : Posting ι) : Bool := presentsAny posting.batch

/-- The operations of batches, in order. -/
def operations (postings : List (Posting ι)) : List Operation := postings.flatMap (·.batch)

/-- Batches that issue what they owe when they are applied one after another. Each of them finds the
scenes as the moves of those before it have left them. -/
def Owing (programs : ι → Program) (bounds : Rect) : List (Posting ι) → Scenes → Prop
  | [], _ => True
  | posting :: rest, scenes =>
    fills bounds posting.batch scenes = posting.due programs bounds ∧
      Owing programs bounds rest (settle posting.batch scenes)

section Owing

variable {programs : ι → Program} {bounds : Rect} {postings : List (Posting ι)} {scenes : Scenes}

/-- One more batch is owed last. It issues what it owes in the scenes that all others lead to. -/
theorem Owing.concat (h : Owing programs bounds postings scenes) {posting : Posting ι}
    (hlast : fills bounds posting.batch (settle (operations postings) scenes) =
      posting.due programs bounds) :
    Owing programs bounds (postings ++ [posting]) scenes := by
  -- The batches before it are settled one by one, until only the last one is left.
  induction postings generalizing scenes with
  | nil => exact ⟨hlast, trivial⟩
  | cons first rest ih =>
    refine ⟨h.1, ih h.2 ?_⟩
    rw [← settle_append]
    exact hlast

/-- Growth does not reach the leaves that are known already, so they issue what they would have
issued. -/
theorem Owing.grow (h : Owing programs bounds postings scenes)
    (hknown : ∀ leaf ∈ operations postings, leaf.Known scenes) (growth : Scenes.Growth) :
    Owing programs bounds postings (scenes.grow growth) := by
  -- Growth passes through the moves of each batch to the batches behind it.
  induction postings generalizing scenes with
  | nil => trivial
  | cons posting rest ih =>
    have hfirst : ∀ leaf ∈ posting.batch, leaf.Known scenes :=
      fun leaf hleaf => hknown leaf (List.mem_append_left _ hleaf)
    refine ⟨?_, ?_⟩
    · rw [fills_grow hfirst]
      exact h.1
    · rw [settle_grow hfirst]
      refine ih h.2 fun leaf hleaf => Known.settle (hknown leaf ?_) posting.batch
      exact List.mem_append_right _ hleaf

end Owing

/-- The frame of a batch: what the batch owes, over whatever was there before. Which batch was
painted on that surface before is left open. -/
def Frame (programs : ι → Program) (size : Size) (posting : Posting ι) (frame : Pixmap) : Prop :=
  ∃ before : Pixmap, before.size = size ∧
    frame = Surface.paint (posting.due programs (.ofSize size)) before

/-- What the worker has in its hand, and what it has drawn of it. What has been painted so far and
what is still to come make up what the batch owes. -/
inductive Held (programs : ι → Program) (size : Size) (scenes : Scenes) (drawing : Pixmap) :
    Option (List Operation × Bool) → Option (Posting ι) → Prop
  | empty : Held programs size scenes drawing none none
  | part {posting : Posting ι} {applied todo : List Operation} {painted : List Fill}
      {before : Pixmap} (hbatch : posting.batch = applied ++ todo)
      (hdue : posting.due programs (.ofSize size) = painted ++ fills (.ofSize size) todo scenes)
      (hbefore : before.size = size) (hdrawing : drawing = Surface.paint painted before) :
      Held programs size scenes drawing (some (todo, presentsAny applied)) (some posting)

variable {programs : ι → Program} {size : Size} {scenes : Scenes}

/-- What is still to come from the hand is not changed when an author makes the scenes grow. -/
theorem Held.grow {drawing : Pixmap} {hand : Option (List Operation × Bool)}
    {current : Option (Posting ι)} (h : Held programs size scenes drawing hand current)
    (hknown : ∀ leaf ∈ (hand.map Prod.fst).getD [], leaf.Known scenes)
    (growth : Scenes.Growth) : Held programs size (scenes.grow growth) drawing hand current := by
  cases h with
  | empty => exact .empty
  | @part posting applied todo painted before hbatch hdue hbefore hdrawing =>
    have htodo : ∀ leaf ∈ todo, leaf.Known scenes := hknown
    refine .part hbatch ?_ hbefore hdrawing
    rw [fills_grow htodo]
    exact hdue

/-- A leaf that is applied moves on from what is to come to what has been painted. -/
theorem Held.apply {drawing : Pixmap} {leaf : Operation} {rest : List Operation} {ready : Bool}
    {current : Option (Posting ι)}
    (h : Held programs size scenes drawing (some (leaf :: rest, ready)) current) :
    Held programs size (ownMove scenes leaf)
      (Surface.paint (ownFills (.ofSize size) scenes leaf) drawing)
      (some (rest, ready || leaf.presents)) current := by
  cases h with
  | @part posting applied todo painted before hbatch hdue hbefore hdrawing =>
    -- What the leaf draws goes from what is left to what has been painted.
    have hready : (presentsAny applied || leaf.presents) = presentsAny (applied ++ [leaf]) := by
      rw [presentsAny_append, presentsAny, presentsAny, Bool.or_false]
    rw [hready, hdrawing, ← Surface.paint_append]
    refine .part ?_ ?_ hbefore rfl
    · rw [hbatch, List.append_assoc, List.singleton_append]
    · rw [hdue, fills_cons, List.append_assoc]

/-- When nothing is to come, all that is owed has been painted, and the surface is the frame. -/
theorem Held.finish {drawing : Pixmap} {ready : Bool} {current : Option (Posting ι)}
    (h : Held programs size scenes drawing (some ([], ready)) current) :
    ∃ posting, current = some posting ∧ posting.presents = ready ∧
      Frame programs size posting drawing := by
  cases h with
  | @part posting applied todo painted before hbatch hdue hbefore hdrawing =>
    rw [List.append_nil] at hbatch
    rw [fills_nil, List.append_nil] at hdue
    refine ⟨posting, rfl, ?_, before, hbefore, ?_⟩
    · rw [Posting.presents, hbatch]
    · rw [hdrawing, hdue]

/-- A batch that is taken up has painted nothing, and owes all of it. -/
theorem Owing.held {posting : Posting ι} {rest : List (Posting ι)} {drawing : Pixmap}
    (h : Owing programs (.ofSize size) (posting :: rest) scenes) (hdrawing : drawing.size = size) :
    Held programs size scenes drawing (some (posting.batch, false)) (some posting) := by
  have hready : false = presentsAny [] := rfl
  have hnothing : drawing = Surface.paint [] drawing := rfl
  rw [hready]
  exact .part rfl h.1.symm hdrawing hnothing

/-- The operations of a batch that is added come last. -/
theorem operations_concat (postings : List (Posting ι)) (posting : Posting ι) :
    operations (postings ++ [posting]) = operations postings ++ posting.batch := by
  rw [operations, List.flatMap_append, operations, List.flatMap_singleton]

end Posting

/-- What is left of the operation in the hand of the worker. -/
def Studio.todo {ι σ ρ : Type} (studio : Studio ι σ ρ) : List Operation :=
  (studio.hand.map Prod.fst).getD []

/-- The batches that have been posted, as the worker knows them. It is not a part of a studio, which
knows of its past only what is on the surfaces and in the receiver. -/
structure Ledger (ι : Type) where
  finished : List (Posting ι)
  current : Option (Posting ι)
  waiting : List (Posting ι)
  /-- The frames that have been shown. -/
  frames : List Pixmap

namespace Ledger

open Posting

variable {ι ρ : Type} [DecidableEq ι]

omit [DecidableEq ι] in
/-- The operations that have not been applied. -/
def ahead (ledger : Ledger ι) (studio : Studio ι Pixmap ρ) : List Operation :=
  studio.todo ++ operations ledger.waiting

/-- A ledger tells the truth about a studio. The worker and the authors meet in the leaves that have
not been applied: the worker finds them in the scenes as they are, and the authors have gone on to
the scenes that these leaves lead to. -/
structure Agrees (programs : ι → Program) (size : Size) (taken : ρ → Pixmap → ρ) (receiver : ρ)
    (ledger : Ledger ι) (studio : Studio ι Pixmap ρ) : Prop where
  posted : studio.posted = ledger.finished ++ ledger.current.toList ++ ledger.waiting
  worker : studio.loop.worker = .alive
  queue : studio.loop.queue.items =
    ledger.waiting.map fun posting => .apply (.batch posting.batch)
  receiver : studio.loop.receiver = ledger.frames.foldl taken receiver
  /-- There is one frame for each finished batch that presents. -/
  frames : List.Forall₂ (Frame programs size) (ledger.finished.filter (·.presents)) ledger.frames
  drawing : studio.loop.drawing.size = size
  standby : studio.loop.standby.size = size
  hand : Held programs size studio.scenes studio.loop.drawing studio.hand ledger.current
  flat : ∀ leaf ∈ ledger.ahead studio, leaf.leaves = [leaf]
  known : ∀ leaf ∈ ledger.ahead studio, leaf.Known studio.scenes
  owing : Owing programs (.ofSize size) ledger.waiting (settle studio.todo studio.scenes)
  /-- Each author has posted the batches of the calls that it has answered. -/
  answered : ∀ i, (studio.posted.filter (·.author = i)).map (·.call) =
    (programs i).answered (studio.authors i).done
  /-- The authors do not wait for the worker. -/
  authors : Author.Together programs studio.authors
    (settle (ledger.ahead studio) studio.scenes)

section Steps

variable {programs : ι → Program} {size : Size} {taken : ρ → Pixmap → ρ} {receiver : ρ}
  {ledger : Ledger ι} {studio : Studio ι Pixmap ρ}

/-- The worker does not notice that an author makes the scenes grow. Growth adds scenes and figures,
and the leaves that have not been applied name none of the new ones. -/
theorem Agrees.unnoticed (h : ledger.Agrees programs size taken receiver studio) (i : ι) :
    Held programs size ((studio.authors i).turn studio.scenes).2.1
      studio.loop.drawing studio.hand ledger.current ∧
    (∀ leaf ∈ ledger.ahead studio, leaf.Known ((studio.authors i).turn studio.scenes).2.1) ∧
    Owing programs (.ofSize size) ledger.waiting
      (settle studio.todo ((studio.authors i).turn studio.scenes).2.1) := by
  -- The leaves in the hand are known now, and those that wait are known after these.
  have htodo : ∀ leaf ∈ studio.todo, leaf.Known studio.scenes :=
    fun leaf hleaf => h.known leaf (List.mem_append_left _ hleaf)
  have hwaiting : ∀ leaf ∈ operations ledger.waiting,
      leaf.Known (settle studio.todo studio.scenes) :=
    fun leaf hleaf => (h.known leaf (List.mem_append_right _ hleaf)).settle studio.todo
  rw [Author.turn_scenes]
  cases (studio.authors i).growth? with
  | none => exact ⟨h.hand, h.known, h.owing⟩
  | some growth =>
    refine ⟨h.hand.grow htodo growth, fun leaf hleaf => (h.known leaf hleaf).grow growth, ?_⟩
    change Owing programs _ ledger.waiting (settle studio.todo (studio.scenes.grow growth))
    rw [settle_grow htodo]
    exact h.owing.grow hwaiting growth

/-- The batch that an author posts answers the call that it gets done with. The calls of all other
authors stand as they did. -/
theorem Agrees.answered_turn (h : ledger.Agrees programs size taken receiver studio) (i j : ι) :
    (programs j).answered
      (Function.update studio.authors i ((studio.authors i).turn studio.scenes).1 j).done =
        (studio.posted.filter (·.author = j)).map (·.call) ++
          if i = j then ((studio.authors i).turn studio.scenes).2.2.toList.map
            fun _ => (studio.authors i).done
          else [] := by
  -- The author sees the scenes as they are or as they will be when all is applied, and does the
  -- same in both.
  by_cases hj : i = j
  · subst hj
    have hdone := (h.authors.follows i).answered_turn
    rw [Author.turn_settle h.known] at hdone
    rw [Function.update_self, if_pos rfl, h.answered]
    exact hdone
  · rw [Function.update_of_ne (Ne.symm hj), if_neg hj, h.answered, List.append_nil]

/-- **The turns of authors keep the ledger true.** What they post waits, and nothing that was posted
before it issues anything else on that account. -/
theorem Agrees.write (h : ledger.Agrees programs size taken receiver studio) (i : ι) :
    ∃ more : List (Posting ι), Agrees programs size taken receiver
      { ledger with waiting := ledger.waiting ++ more } (studio.write i) := by
  have hunnoticed := h.unnoticed i
  have hanswered := h.answered_turn i
  -- The author does not notice how far the worker has come.
  have hauthors := h.authors.turn i
  have hposts := (h.authors.follows i).turn.2
  rw [Author.turn_settle h.known] at hauthors hposts
  rw [Studio.write]
  generalize (studio.authors i).turn studio.scenes = result at *
  obtain ⟨author, scenes, batch?⟩ := result
  obtain ⟨hhand, hknown, howing⟩ := hunnoticed
  cases batch? with
  | none =>
    refine ⟨[], ?_⟩
    rw [List.append_nil]
    refine ⟨h.posted, h.worker, h.queue, h.receiver, h.frames, h.drawing, h.standby, hhand,
      h.flat, hknown, howing, fun j => ?_, hauthors⟩
    have hnothing := hanswered j
    rw [Option.toList_none, List.map_nil, ite_self, List.append_nil] at hnothing
    exact hnothing.symm
  | some batch =>
    -- The batch waits behind all others.
    obtain ⟨hflat, hnew, -, hnonempty, hfills⟩ := hposts batch rfl
    let posting : Posting ι := ⟨i, (studio.authors i).done, batch⟩
    have hahead : studio.todo ++ operations (ledger.waiting ++ [posting]) =
        ledger.ahead studio ++ batch := by
      rw [operations_concat, ← List.append_assoc]
      rfl
    refine ⟨[posting], ?_, ?_, ?_, ?_, h.frames, ?_, ?_, ?_, ?_, ?_, ?_, fun j => ?_, ?_⟩
    · dsimp only
      rw [h.posted, List.append_assoc]
    · exact (Loop.worker_post _ _).trans h.worker
    · dsimp only
      rw [Loop.items_post, if_neg fun hc => hnonempty (Operation.batch.inj hc), h.queue,
        List.map_append]
      rfl
    · dsimp only
      rw [Loop.post_eq]
      exact h.receiver
    · dsimp only
      rw [Loop.post_eq]
      exact h.drawing
    · dsimp only
      rw [Loop.post_eq]
      exact h.standby
    · dsimp only
      rw [Loop.post_eq]
      exact hhand
    · intro leaf hleaf
      change leaf ∈ studio.todo ++ operations (ledger.waiting ++ [posting]) at hleaf
      rw [hahead, List.mem_append] at hleaf
      exact hleaf.elim (h.flat leaf) (hflat leaf)
    · intro leaf hleaf
      change leaf ∈ studio.todo ++ operations (ledger.waiting ++ [posting]) at hleaf
      rw [hahead, List.mem_append] at hleaf
      refine hleaf.elim (hknown leaf) fun hleaf => (hnew leaf hleaf).mono ?_
      intro scene
      exact Nat.le_of_eq (size_figures_settle _ _ _)
    · refine howing.concat ?_
      rw [← settle_append]
      exact hfills _
    · refine Eq.trans ?_ (hanswered j).symm
      dsimp only
      rw [List.filter_append, List.map_append, List.filter_singleton]
      by_cases hj : i = j <;> simp [hj]
    · change Author.Together programs _
        (settle (studio.todo ++ operations (ledger.waiting ++ [posting])) scenes)
      rw [hahead, settle_append]
      exact hauthors

/-- The worker takes up the first batch that waits. -/
theorem Agrees.take (h : ledger.Agrees programs size taken receiver studio)
    (hempty : studio.hand = none) {posting : Posting ι} {rest : List (Posting ι)}
    (hwaiting : ledger.waiting = posting :: rest) :
    Agrees programs size taken receiver { ledger with current := some posting, waiting := rest }
      { studio with
        loop := { studio.loop with
          queue := ⟨rest.map fun posting => .apply (.batch posting.batch)⟩ }
        hand := some (posting.batch, false) } := by
  obtain ⟨authors, scenes, loop, hand, posted⟩ := studio
  obtain ⟨finished, current, waiting, frames⟩ := ledger
  subst hempty hwaiting
  obtain ⟨hposted, hworker, -, hreceiver, hframes, hdrawing, hstandby, hhand, hflat, hknown,
    howing, hanswered, hauthors⟩ := h
  dsimp only at hposted hhand howing
  cases hhand
  -- What was owed first is what is now in the hand.
  refine ⟨?_, hworker, rfl, hreceiver, hframes, hdrawing, hstandby, howing.held hdrawing, hflat,
    hknown, howing.2, hanswered, hauthors⟩
  dsimp only
  rw [hposted, Option.toList_none, List.append_nil, Option.toList_some, List.append_assoc,
    List.singleton_append]

/-- The worker applies a leaf, and what the leaf paints is no longer to come. -/
theorem Agrees.apply (h : ledger.Agrees programs size taken receiver studio) {leaf : Operation}
    {rest : List Operation} {ready : Bool} (hhand : studio.hand = some (leaf :: rest, ready)) :
    Agrees programs size taken receiver ledger
      { studio with
        scenes := ownMove studio.scenes leaf
        loop := { studio.loop with
          drawing :=
            Surface.paint (ownFills (.ofSize size) studio.scenes leaf) studio.loop.drawing }
        hand := some (rest, ready || leaf.presents) } := by
  obtain ⟨authors, scenes, loop, hand, posted⟩ := studio
  subst hhand
  obtain ⟨hposted, hworker, hqueue, hreceiver, hframes, hdrawing, hstandby, hheld, hflat, hknown,
    howing, hanswered, hauthors⟩ := h
  -- The leaves ahead lose their first one, and the scenes have moved on by it.
  refine ⟨hposted, hworker, hqueue, hreceiver, hframes, ?_, hstandby, hheld.apply, ?_, ?_, howing,
    hanswered, hauthors⟩
  · dsimp only
    rw [Pixmap.size_paint]
    exact hdrawing
  · exact fun later hlater => hflat later (List.mem_cons_of_mem _ hlater)
  · exact fun later hlater => (hknown later (List.mem_cons_of_mem _ hlater)).ownMove leaf

/-- The worker concludes a batch. If it presents, the surface is its frame, and the receiver gets
it. -/
theorem Agrees.conclude (h : ledger.Agrees programs size taken receiver studio) {ready : Bool}
    (hhand : studio.hand = some ([], ready)) :
    ∃ next : Ledger ι, next.Agrees programs size taken receiver
      { studio with
        loop := studio.loop.conclude (.steady taken) ⟨ready, studio.scenes, studio.loop.drawing⟩
        hand := none } := by
  obtain ⟨authors, scenes, loop, hand, posted⟩ := studio
  obtain ⟨finished, current, waiting, frames⟩ := ledger
  subst hhand
  obtain ⟨hposted, hworker, hqueue, hreceiver, hframes, hdrawing, hstandby, hheld, hflat, hknown,
    howing, hanswered, hauthors⟩ := h
  obtain ⟨posting, rfl, hpresents, hframe⟩ := hheld.finish
  -- Whether it is shown or not, the batch counts as finished.
  have hnow :
      posted = (finished ++ [posting]) ++ (none : Option (Posting ι)).toList ++ waiting := by
    rw [Option.toList_none, List.append_nil]
    exact hposted
  cases ready with
  | false =>
    have hsame : (finished ++ [posting]).filter (·.presents) = finished.filter (·.presents) := by
      rw [List.filter_append, List.filter_singleton, hpresents]
      exact List.append_nil _
    refine ⟨⟨finished ++ [posting], none, waiting, frames⟩, ?_⟩
    rw [Loop.conclude_of_not_ready loop _ rfl]
    refine ⟨hnow, hworker, hqueue, hreceiver, ?_, hdrawing, hstandby, .empty, hflat, hknown, howing,
      hanswered, hauthors⟩
    dsimp only
    rw [hsame]
    exact hframes
  | true =>
    have hmore : (finished ++ [posting]).filter (·.presents) =
        finished.filter (·.presents) ++ [posting] := by
      rw [List.filter_append, List.filter_singleton, hpresents]
      rfl
    -- The surface is shown, and the other one is under way from now on.
    refine ⟨⟨finished ++ [posting], none, waiting, frames ++ [loop.drawing]⟩, ?_⟩
    rw [Loop.conclude_steady_of_ready taken loop rfl]
    refine ⟨hnow, hworker, hqueue, ?_, ?_, hstandby, hdrawing, .empty, hflat, hknown, howing,
      hanswered, hauthors⟩
    · dsimp only
      rw [List.foldl_append]
      exact congrArg (taken · loop.drawing) hreceiver
    · dsimp only
      rw [hmore]
      exact List.rel_append hframes (.cons hframe .nil)

/-- **The turns of the worker keep the ledger true.** A turn takes up a batch, applies a leaf or
concludes a batch, as the hand and the queue have it. -/
theorem Agrees.work (h : ledger.Agrees programs size taken receiver studio) :
    ∃ next : Ledger ι, next.Agrees programs size taken receiver (studio.work (.steady taken)) := by
  have hqueue := h.queue
  cases hhand : studio.hand with
  | none =>
    cases hwaiting : ledger.waiting with
    | nil =>
      rw [hwaiting] at hqueue
      rw [Studio.work_of_empty _ hhand hqueue]
      exact ⟨ledger, h⟩
    | cons posting rest =>
      -- There are no batches inside the batch.
      have hleaves : (Operation.batch posting.batch).leaves = posting.batch := by
        refine leavesAll_of_forall fun leaf hleaf => h.flat leaf (List.mem_append_right _ ?_)
        rw [hwaiting]
        exact List.mem_append_left _ hleaf
      rw [hwaiting, List.map_cons] at hqueue
      rw [Studio.work_of_apply _ hhand h.worker hqueue, hleaves]
      exact ⟨_, h.take hhand hwaiting⟩
  | some held =>
    obtain ⟨todo, ready⟩ := held
    cases todo with
    | nil =>
      rw [Studio.work, hhand]
      exact h.conclude hhand
    | cons leaf rest =>
      have hleaf : leaf.leaves = [leaf] := by
        refine h.flat leaf (List.mem_append_left _ ?_)
        rw [Studio.todo, hhand]
        exact List.mem_cons_self
      have hbounds : Surface.bounds studio.loop.drawing = .ofSize size := by
        rw [← h.drawing]
        rfl
      rw [Studio.work, hhand]
      dsimp only
      rw [apply_eq, hleaf, hbounds, fills_cons, fills_nil, List.append_nil]
      exact ⟨ledger, h.apply hhand⟩

/-- **Every schedule keeps the ledger true.** One turn keeps it true, whoever takes it, and a
schedule is one turn after another. -/
theorem Agrees.run (h : ledger.Agrees programs size taken receiver studio)
    (schedule : List (Turn ι)) : ∃ last : Ledger ι,
      last.Agrees programs size taken receiver (studio.run (.steady taken) schedule) := by
  induction schedule generalizing ledger studio with
  | nil => exact ⟨ledger, h⟩
  | cons turn rest ih =>
    have hturn : ∃ next : Ledger ι,
        next.Agrees programs size taken receiver (studio.turn (.steady taken) turn) := by
      cases turn with
      | author i =>
        obtain ⟨more, hmore⟩ := h.write i
        exact ⟨_, hmore⟩
      | worker => exact h.work
    obtain ⟨next, hnext⟩ := hturn
    exact ih hnext

end Steps

end Ledger

end Easel
