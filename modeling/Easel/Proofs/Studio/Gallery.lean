import Easel.Proofs.Studio.Company
import Easel.Proofs.Studio.Outcome

/-!
# What the surfaces hold

The surfaces of a loop are never cleared, so what a frame shows may have been left there long
before. A gallery follows the two surfaces of a loop from batch to batch. Since the schedule makes
no difference, it is enough to look at the one on which all batches are posted before the first one
is applied.

* `Gallery.after` — the two surfaces, and the frames that have been shown, after some batches;
* `Gallery.Tells` — what is on a surface: the picture of the last batch, if this one did not
  present, and else the frame before the last one;
* `Posting.Owing.handleAll_gallery` — the worker leads from gallery to gallery;
* `Studio.exists_ending` — one way to the end, with the frames that are shown there.
-/

namespace Easel

open Operation
open Script (Command)

/-- The two surfaces of a loop, and the frames that have been shown. Nothing else of a loop has to
do with what the next frame will look like. -/
structure Gallery where
  drawing : Pixmap
  standby : Pixmap
  frames : List Pixmap

namespace Gallery

/-- The gallery once the surface under way has been painted, and shown if it is to be shown. The
surfaces change places after a frame, and keep theirs otherwise. -/
def paint (gallery : Gallery) (fills : List Fill) (presents : Bool) : Gallery :=
  let painted := Surface.paint fills gallery.drawing
  if presents then ⟨gallery.standby, painted, gallery.frames ++ [painted]⟩
  else ⟨painted, gallery.standby, gallery.frames⟩

variable {ι : Type} (programs : ι → Program) (size : Size)

/-- The gallery after some batches, each of which paints what it owes. -/
def after (postings : List (Posting ι)) (gallery : Gallery) : Gallery :=
  postings.foldl
    (fun gallery posting => gallery.paint (posting.due programs (.ofSize size)) posting.presents)
    gallery

/-- Batches lead on from the gallery that those before them have led to. -/
theorem after_append (postings later : List (Posting ι)) (gallery : Gallery) :
    after programs size (postings ++ later) gallery =
      after programs size later (after programs size postings gallery) :=
  List.foldl_append

/-- One more batch paints the surface that is under way by then. -/
theorem after_concat (postings : List (Posting ι)) (posting : Posting ι) (gallery : Gallery) :
    after programs size (postings ++ [posting]) gallery =
      (after programs size postings gallery).paint (posting.due programs (.ofSize size))
        posting.presents :=
  List.foldl_append

/-- What has been shown is not taken back by the next batch. -/
theorem frames_paint (gallery : Gallery) (fills : List Fill) (presents : Bool) :
    gallery.frames <+: (gallery.paint fills presents).frames := by
  cases presents with
  | true => exact List.prefix_append _ _
  | false => exact List.prefix_rfl

/-- Frames that have been shown stay as they are. Later batches add to the end of the list. -/
theorem frames_prefix (postings : List (Posting ι)) (gallery : Gallery) :
    gallery.frames <+: (after programs size postings gallery).frames := by
  induction postings generalizing gallery with
  | nil => exact List.prefix_rfl
  | cons posting rest ih => exact (gallery.frames_paint _ _).trans (ih _)

/-- What a gallery tells about the batches that have led to it from two surfaces. A surface is in
use for every other frame, so the one under way is next but one in the list of the two surfaces and
all frames. -/
structure Tells (programs : ι → Program) (size : Size) (first second : Pixmap)
    (postings : List (Posting ι)) (gallery : Gallery) : Prop where
  count : gallery.frames.length = (postings.filter (·.presents)).length
  drawing_size : gallery.drawing.size = size
  standby_size : gallery.standby.size = size
  standby : (first :: second :: gallery.frames)[gallery.frames.length + 1]? = some gallery.standby
  /-- Nothing has been painted since the last frame. -/
  left : (∀ posting ∈ postings.getLast?, posting.presents = true) →
    (first :: second :: gallery.frames)[gallery.frames.length]? = some gallery.drawing
  /-- The last batch has been painted and not shown. -/
  painted : ∀ posting ∈ postings.getLast?, posting.presents = false →
    posting.Frame programs size gallery.drawing

section Tells

variable {programs size} {first second : Pixmap} {postings : List (Posting ι)} {gallery : Gallery}

/-- Before the first batch nothing has been shown, and the two surfaces are as they were given. -/
theorem tells_start (hfirst : first.size = size) (hsecond : second.size = size) :
    Tells programs size first second [] ⟨first, second, []⟩ where
  count := rfl
  drawing_size := hfirst
  standby_size := hsecond
  standby := rfl
  left := fun _ => rfl
  painted := fun _ hmem => absurd hmem (Option.not_mem_none _)

/-- A batch that presents moves the surfaces on by one place in the list, and any other batch leaves
them where they are. -/
theorem Tells.paint (h : Tells programs size first second postings gallery) (posting : Posting ι) :
    Tells programs size first second (postings ++ [posting])
      (gallery.paint (posting.due programs (.ofSize size)) posting.presents) := by
  have hsize :
      (Surface.paint (posting.due programs (.ofSize size)) gallery.drawing).size = size := by
    rw [Pixmap.size_paint, h.drawing_size]
  -- What holds of this batch holds of the last one.
  have hlast : ∀ {property : Posting ι → Prop}, property posting →
      ∀ last ∈ (postings ++ [posting]).getLast?, property last := by
    intro property hproperty last hmem
    rw [List.getLast?_concat] at hmem
    exact Option.some.inj hmem ▸ hproperty
  -- A frame swaps the surfaces; without one, the surface under way is only painted over.
  cases hpresents : posting.presents with
  | true =>
    refine ⟨?_, h.standby_size, hsize, ?_, fun _ => ?_, ?_⟩
    · simp only [Gallery.paint, if_true, List.length_append, List.length_singleton,
        List.filter_append, List.filter_singleton, hpresents, h.count, cond_true]
    · -- The new frame is the last one in the list.
      simp only [Gallery.paint, if_true, List.length_append, List.length_singleton]
      exact List.getElem?_concat_length
    · simp only [Gallery.paint, if_true, List.length_append, List.length_singleton]
      rw [← List.cons_append, ← List.cons_append, List.getElem?_append_left (by simp)]
      exact h.standby
    · refine hlast fun hc => ?_
      rw [hpresents] at hc
      exact absurd hc.symm Bool.false_ne_true
  | false =>
    refine ⟨?_, hsize, h.standby_size, h.standby, fun hc => ?_, ?_⟩
    · simp only [Gallery.paint, Bool.false_eq_true, if_false, List.filter_append,
        List.filter_singleton, hpresents, h.count, cond_false, List.append_nil]
    -- The last batch is this one, and it has not presented.
    · have := hc posting (by rw [List.getLast?_concat]; rfl)
      exact absurd (hpresents.symm.trans this) Bool.false_ne_true
    · exact hlast fun _ => ⟨gallery.drawing, h.drawing_size, rfl⟩

/-- **Every gallery tells what has led to it.** The induction is on the batches from the last one,
since it is the last one that says what is on the surface under way. -/
theorem tells_after (hfirst : first.size = size) (hsecond : second.size = size)
    (postings : List (Posting ι)) :
    Tells programs size first second postings
      (after programs size postings ⟨first, second, []⟩) := by
  induction postings using List.reverseRecOn with
  | nil => exact tells_start hfirst hsecond
  | append_singleton postings posting ih =>
    rw [after_concat]
    exact ih.paint posting

/-- **The frame of a batch is what the batch paints over the surface under way.** Its place among
the frames is the number of batches before it that present. -/
theorem frame_of_presents (hfirst : first.size = size) (hsecond : second.size = size)
    {postings : List (Posting ι)} {k : Nat} {posting : Posting ι}
    (hget : postings[k]? = some posting) (hpresents : posting.presents = true) :
    (after programs size postings ⟨first, second, []⟩).frames[
        ((postings.take k).filter (·.presents)).length]? =
      some (Surface.paint (posting.due programs (.ofSize size))
        (after programs size (postings.take k) ⟨first, second, []⟩).drawing) := by
  have htells : Tells programs size first second (postings.take k) _ :=
    tells_after hfirst hsecond (postings.take k)
  have hnext := after_concat programs size (postings.take k) posting ⟨first, second, []⟩
  have hlater := frames_prefix programs size (postings.drop (k + 1))
    (after programs size (postings.take k ++ [posting]) ⟨first, second, []⟩)
  have hsplit : postings.take k ++ [posting] = postings.take (k + 1) := by
    rw [List.take_add_one, hget]
    rfl
  -- The frame is shown at once, and stays.
  rw [← after_append, hsplit, List.take_append_drop, ← hsplit, hnext, hpresents] at hlater
  obtain ⟨later, hframes⟩ := hlater
  rw [← hframes, ← htells.count]
  refine (List.getElem?_append_left ?_).trans List.getElem?_concat_length
  rw [paint, if_pos rfl, List.length_append]
  exact Nat.lt_succ_self _

end Tells

end Gallery

/-- **The worker leads from gallery to gallery**, if the batches issue what they owe. What is issued
depends on the scenes at the time, and what is owed does not, so the scenes are not needed to say
what the receiver gets. -/
theorem Posting.Owing.handleAll_gallery {ι ρ : Type} {programs : ι → Program} {size : Size}
    {postings : List (Posting ι)} {scenes : Scenes}
    (h : Owing programs (.ofSize size) postings scenes)
    (hflat : ∀ leaf ∈ operations postings, leaf.leaves = [leaf]) (taken : ρ → Pixmap → ρ)
    {loop : Loop Pixmap ρ} (hdrawing : loop.drawing.size = size)
    (hstandby : loop.standby.size = size) {receiver : ρ} {frames : List Pixmap}
    (hreceiver : loop.receiver = frames.foldl taken receiver) :
    (loop.handleAll (.steady taken) scenes
        (postings.map fun posting => .batch posting.batch)).1.receiver =
      (Gallery.after programs size postings ⟨loop.drawing, loop.standby, frames⟩).frames.foldl taken
        receiver := by
  -- The receiver has taken exactly the frames of the gallery so far: this is kept by each batch.
  induction postings generalizing loop scenes frames with
  | nil => exact hreceiver
  | cons posting rest ih =>
    have hrest : ∀ leaf ∈ operations rest, leaf.leaves = [leaf] :=
      fun leaf hleaf => hflat leaf (List.mem_append_right _ hleaf)
    have hbounds : Surface.bounds loop.drawing = .ofSize size := by
      rw [← hdrawing]
      rfl
    have hleaves : (Operation.batch posting.batch).leaves = posting.batch :=
      leavesAll_of_forall fun leaf hleaf => hflat leaf (List.mem_append_left _ hleaf)
    -- What the batch does to the surface is to paint what it owes.
    have happly : (Operation.batch posting.batch).apply scenes loop.drawing =
        ⟨posting.presents, settle posting.batch scenes,
          Surface.paint (posting.due programs (.ofSize size)) loop.drawing⟩ := by
      rw [apply_eq, hleaves, hbounds, h.1]
      rfl
    have hpainted :
        (Surface.paint (posting.due programs (.ofSize size)) loop.drawing).size = size := by
      rw [Pixmap.size_paint, hdrawing]
    rw [List.map_cons, Loop.handleAll_cons, happly]
    change _ = (Gallery.after programs size rest (Gallery.paint _ _ _)).frames.foldl taken receiver
    cases hpresents : posting.presents with
    | true =>
      rw [Loop.conclude_steady_of_ready taken loop rfl]
      refine ih h.2 hrest hstandby hpainted ?_
      rw [List.foldl_append, ← hreceiver]
      rfl
    | false =>
      rw [Loop.conclude_of_not_ready loop _ rfl]
      refine ih h.2 hrest ?_ ?_ ?_
      · exact hpainted
      · exact hstandby
      · exact hreceiver

namespace Studio

section Uninterrupted

variable {ι σ ρ : Type} [DecidableEq ι] [Surface σ] (receive : Receiver σ ρ)

/-- Of the loop and the worker, authors touch the queue only. The surfaces, the receiver and the
batch in the hand of the worker are as they were. -/
theorem exists_run_authors (studio : Studio ι σ ρ) (i : ι) (n : Nat) :
    (studio.run receive (List.replicate n (.author i))).hand = studio.hand ∧
      ∃ queue, (studio.run receive (List.replicate n (.author i))).loop =
        { studio.loop with queue } := by
  induction n generalizing studio with
  | zero => exact ⟨rfl, studio.loop.queue, rfl⟩
  | succ n ih =>
    obtain ⟨hhand, queue, hloop⟩ := ih (studio.write i)
    change ((studio.write i).run receive (List.replicate n (.author i))).hand = studio.hand ∧
      ∃ queue, ((studio.write i).run receive (List.replicate n (.author i))).loop =
        { studio.loop with queue }
    rw [hhand, hloop, write_eq]
    exact ⟨rfl, queue, rfl⟩

/-- A worker that is not interrupted applies what stands before the request to halt, and leaves. -/
theorem exists_run_halt [LawfulSurface σ] (taken : ρ → σ → ρ) {studio : Studio ι σ ρ}
    (hhand : studio.hand = none) (halive : studio.loop.worker = .alive) {ops : List Operation}
    (hqueue : studio.loop.queue.items = ops.map .apply ++ [.halt]) :
    ∃ n, let last := studio.run (.steady taken) (List.replicate n .worker)
      last.authors = studio.authors ∧ last.posted = studio.posted ∧ last.hand = none ∧
      last.loop.lifecycle = .stopped ∧ last.loop.worker = .finished ∧
      last.loop.receiver = ({ studio.loop with queue := ⟨[.halt]⟩ }.handleAll (.steady taken)
        studio.scenes ops).1.receiver := by
  obtain ⟨n, hrun⟩ := exists_run_steps (.steady taken) studio hhand ops.length
  rw [Loop.steps_eq_handleAll taken studio.scenes halive hqueue] at hrun
  obtain ⟨hlast, hworker⟩ := Loop.handleAll_steady taken { studio.loop with queue := ⟨[.halt]⟩ }
    studio.scenes ops
  -- The turns of the worker up to the last one apply what stands before the request.
  refine ⟨n + 1, ?_⟩
  rw [List.replicate_succ', run_append, run, List.foldl_cons, List.foldl_nil, turn]
  generalize studio.run (.steady taken) (List.replicate n .worker) = between at hrun
  -- What the last turn needs to know: the hand is empty, the worker is there, and the request is
  -- next.
  have hempty : between.hand = none := by rw [hrun, hhand]
  have hready : between.loop.worker = .alive := by rw [hrun, hworker, halive]
  have hnext : between.loop.queue.items = .halt :: [] := by rw [hrun, hlast]
  rw [work_of_halt (.steady taken) hempty hready hnext, hrun]
  exact ⟨rfl, rfl, hhand, rfl, rfl, rfl⟩

/-- A worker does not know whether it will be stopped. Its turns are the same in both kinds of
run. -/
theorem runToStop_worker (receive : Receiver σ ρ) (studio : Studio Unit σ ρ) (n : Nat) :
    studio.runToStop receive (List.replicate n .worker) =
      studio.run receive (List.replicate n .worker) := by
  induction n generalizing studio with
  | zero => rfl
  | succ n ih => exact ih (studio.work receive)

end Uninterrupted

end Studio

/-- An author who is not interrupted leaves everything that it posts to be applied. The batches that
are finished and the frames are those of before. -/
theorem Ledger.Agrees.run_author {ι ρ : Type} [DecidableEq ι] {programs : ι → Program} {size : Size}
    {taken : ρ → Pixmap → ρ} {receiver : ρ} {ledger : Ledger ι} {studio : Studio ι Pixmap ρ}
    (h : ledger.Agrees programs size taken receiver studio) (i : ι) (n : Nat) :
    ∃ more : List (Posting ι), Agrees programs size taken receiver
      { ledger with waiting := ledger.waiting ++ more }
      (studio.run (.steady taken) (List.replicate n (.author i))) := by
  induction n generalizing ledger studio with
  | zero =>
    refine ⟨[], ?_⟩
    rw [List.append_nil]
    exact h
  | succ n ih =>
    -- One turn adds at most one batch, and all of them go to the back of those that wait.
    obtain ⟨first, hfirst⟩ := h.write i
    obtain ⟨more, hmore⟩ := ih hfirst
    refine ⟨first ++ more, ?_⟩
    rw [← List.append_assoc]
    exact hmore

namespace Studio

variable {ρ : Type}

/-- At the beginning an author has the first scene of the arena for its own, and it has no
figures. -/
theorem mirrored_opening {σ : Type} (program : Program) (first second : σ) (receiver : ρ) :
    Author.Mirrored (fun _ : Unit => program) (opening program first second receiver).authors
      (fun _ => [⟨0⟩]) [] (opening program first second receiver).ahead where
  mirrors _ := by
    refine ⟨fun _ => ⟨rfl, rfl, rfl, fun i scene hget => ?_, fun scene hscene => ?_,
      List.nodup_singleton _⟩, nofun⟩
    · exact (Scenes.figures_blank 1 scene).trans (Scenes.figures_blank 1 ⟨i⟩).symm
    · rw [List.mem_singleton.mp hscene]
      exact Nat.lt_succ_self 0
  apart := fun _ _ hne => absurd rfl hne
  answers := fun _ hposting => absurd hposting List.not_mem_nil

/-- An author who is not interrupted gets done, and everything that it has posted waits. The loop is
as it was but for the queue, and each of the batches answers its call. -/
theorem exists_written (taken : ρ → Pixmap → ρ) (receiver : ρ) (program : Program)
    {first second : Pixmap} {size : Size} (hfirst : first.size = size)
    (hsecond : second.size = size) :
    ∃ (n : Nat) (postings : List (Posting Unit)),
      let written := (opening program first second receiver).runToStop (.steady taken)
        (List.replicate n (.author ()))
      (written.authors ()).IsDone ∧ written.hand = none ∧
      (∃ queue, written.loop = { Loop.start first second receiver with queue }) ∧
      Ledger.Agrees (fun _ => program) size taken receiver ⟨[], none, postings, []⟩ written ∧
      ∃ owned, ∀ posting ∈ postings, program.Answers owned posting.call posting.batch := by
  have hstart := Ledger.agrees_start program.settings program.calls taken receiver hfirst hsecond
  obtain ⟨n, hsame, hdone⟩ :=
    (orderly_opening program first second receiver).exists_isDone (.steady taken)
  obtain ⟨postings, hpostings⟩ := hstart.run_author () n
  -- The same turns are followed by the company of mirrors, which says what each batch answers.
  obtain ⟨-, owned, -, hmirrored⟩ := hstart.run_mirrored
    (mirrored_opening program first second receiver) (List.replicate n (.author ()))
  obtain ⟨hhand, hloop⟩ :=
    exists_run_authors (.steady taken) (opening program first second receiver) () n
  have hposted := hpostings.posted
  refine ⟨n, postings, ?_⟩
  rw [hsame]
  refine ⟨hdone, hhand, hloop, hpostings, owned (), fun posting hposting => ?_⟩
  refine hmirrored.answers posting ?_
  rw [hposted]
  exact hposting

/-- **One way to the end of a studio**: the author goes first, then the worker. -/
theorem exists_ending (taken : ρ → Pixmap → ρ) (receiver : ρ) (program : Program)
    {first second : Pixmap} {size : Size} (hfirst : first.size = size)
    (hsecond : second.size = size) :
    ∃ schedule,
      let last :=
        (opening program first second receiver).runToStop (.steady taken) schedule
      last.IsOver ∧
      last.loop.receiver = (Gallery.after (fun _ => program) size last.posted
        ⟨first, second, []⟩).frames.foldl taken receiver ∧
      last.posted.map (·.call) = program.answered program.calls.length ∧
      ∃ owned, ∀ posting ∈ last.posted, program.Answers owned posting.call posting.batch := by
  obtain ⟨n, postings, hdone, hhand, ⟨queue, hloop⟩, hledger, owned, hanswers⟩ :=
    exists_written taken receiver program hfirst hsecond
  generalize hwritten : (opening program first second receiver).runToStop (.steady taken)
    (List.replicate n (.author ())) = written at *
  -- The request to halt stands behind everything else.
  have hstop : written.proceed = written.requestStop :=
    proceed_of_running hdone (by rw [hloop]; rfl)
  have hqueue : written.requestStop.loop.queue.items =
      (postings.map fun posting => Operation.batch posting.batch).map .apply ++ [.halt] := by
    rw [List.map_map]
    exact congrArg (· ++ [.halt]) hledger.queue
  -- The worker applies all batches, takes the request to halt, and has finished.
  obtain ⟨m, hauthors, hposted, hempty, hstopped, hfinished, hreceiver⟩ :=
    written.requestStop.exists_run_halt taken hhand hledger.worker hqueue
  have hlast : (opening program first second receiver).runToStop (.steady taken)
      (List.replicate n (.author ()) ++ .author () :: List.replicate m .worker) =
      written.requestStop.run (.steady taken) (List.replicate m .worker) := by
    rw [runToStop_append, hwritten, ← hstop, ← runToStop_worker]
    rfl
  refine ⟨List.replicate n (.author ()) ++ .author () :: List.replicate m .worker, ?_⟩
  rw [hlast]
  generalize written.requestStop.run (.steady taken) (List.replicate m .worker) = last at *
  have hpostings : last.posted = postings := hposted.trans hledger.posted
  have hdrawing : written.loop.drawing = first := by rw [hloop]; rfl
  have hstandby : written.loop.standby = second := by rw [hloop]; rfl
  refine ⟨⟨?_, ?_, ?_, hempty⟩, ?_, ?_, owned, ?_⟩
  · rw [hauthors]
    exact hdone
  · rw [hstopped]
    exact nofun
  · rw [hfinished]
    exact nofun
  · have howing := hledger.owing
    rw [Studio.todo, hhand] at howing
    have hflat : ∀ leaf ∈ Posting.operations postings, leaf.leaves = [leaf] :=
      fun leaf hleaf => hledger.flat leaf (List.mem_append_right _ hleaf)
    rw [hreceiver, hpostings, ← hdrawing, ← hstandby]
    refine howing.handleAll_gallery hflat taken ?_ ?_ ?_
    · exact hledger.drawing
    · exact hledger.standby
    · exact hledger.receiver
  · have hcalls := hledger.answered ()
    rw [List.filter_eq_self.mpr fun _ _ => decide_eq_true rfl, hledger.posted] at hcalls
    rw [hpostings]
    refine Eq.trans hcalls (program.answered_of_le ?_)
    rw [← (hledger.authors.follows ()).calls]
    exact hdone.2
  · rw [hpostings]
    exact hanswers

end Studio

end Easel
