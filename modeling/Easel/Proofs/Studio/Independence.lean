import Easel.Proofs.Canvas.Places
import Easel.Proofs.Studio.Company

/-!
# Authors do not disturb each other

What an author has drawn, where its figures end up and which frames show its pictures: all this is
the same whether the author works alone or in company, whatever the others post, present or move in
between. A batch that draws anything fills the whole surface first, no two authors ever share a
scene, and no batch is interrupted by another one.

* `Studio.framesOf` — the frames of the batches of one author, but for batches that do nothing but
  present;
* `Program.shown`, `Posting.ends` — which calls lead to a frame, and where the figures end up;
* `Ledger.Agrees.framesOf_depict` — the frames of an author, on every schedule;
* `Studio.author_undisturbed` — an author in company and an author alone.
-/

namespace Easel

open Operation
open Script (Session)

/-- **A picture leaves no pixel open**: of a size there is one pixmap that depicts it. So two frames
are compared by what they depict, however they have come about. -/
theorem Pixmap.eq_of_depicts {settings : Script.Settings} {commands : List Script.Command}
    {p q : Pixmap} (hsize : p.size = q.size) (hp : p.Depicts settings commands)
    (hq : q.Depicts settings commands) : p = q := by
  refine Pixmap.ext_pixel? hsize fun x hx y hy => ?_
  rw [hp x y hx hy, hq x y (hsize ▸ hx) (hsize ▸ hy)]

/-- A receiver that keeps all frames. -/
def Receiver.keeping {σ : Type} : Receiver σ (List σ) :=
  .steady fun frames frame => frames ++ [frame]

namespace Posting

variable {ι : Type}

/-- Where the figures that a batch draws are in the end. A figure is looked up in the scene for
which the batch has been compiled, whether or not the session still uses this scene. -/
def ends (posting : Posting ι) (scenes : Scenes) : List (Option Figure) :=
  (posting.batch.filterMap drawn?).map (·.get? scenes)

end Posting

namespace Studio

variable {ι : Type} [DecidableEq ι]

/-- The batches of one author, in the order of posting. -/
def postingsOf {σ ρ : Type} (studio : Studio ι σ ρ) (i : ι) : List (Posting ι) :=
  studio.posted.filter (·.author = i)

/-- The frames that a receiver has kept of the batches of one author, but for those batches that do
nothing but present. -/
def framesOf (studio : Studio ι Pixmap (List Pixmap)) (i : ι) : List Pixmap :=
  ((studio.posted.filter (·.presents)).zip studio.loop.receiver).filterMap fun shown =>
    if shown.1.author = i ∧ shown.1.batch ≠ [.present] then some shown.2 else none

end Studio

namespace Program

/-- Whether the answer to a call is a batch that presents more than what is there. This is known
from the calls of the author alone. -/
def shows (program : Program) (call : Nat) : Bool :=
  (program.answer? call).any fun desk =>
    presentsAny desk.session.assemble.1 && decide (desk.session.assemble.1 ≠ [.present])

/-- The calls whose batches present more than what is there. -/
def shown (program : Program) : List Nat :=
  (program.answered program.calls.length).filter program.shows

/-- Where the figures end up that the answer to a call draws, if the author is alone: in the scenes
that it has at its own desk when all calls are done. -/
def ends (program : Program) (call : Nat) : List (Option Figure) :=
  ((program.answer? call).toList.flatMap fun desk =>
    (desk.session.assemble.1.map (.into desk.session.scene)).filterMap drawn?).map
      (·.get? (program.desk program.calls.length).scenes)

section Answers

variable {program : Program} {owned : List SceneId} {call : Nat} {batch : Batch}

/-- A batch presents more than what is there if the answer to its call does. -/
theorem Answers.shows_iff (h : program.Answers owned call batch) :
    program.shows call = true ↔ presentsAny batch = true ∧ batch ≠ [.present] := by
  obtain ⟨desk, scene, hanswer, -, rfl⟩ := h
  rw [shows, hanswer, Option.any_some, Bool.and_eq_true, decide_eq_true_iff, presentsAny_map_into,
    Ne, Ne, map_into_eq_present_iff]

/-- The figures that a batch draws end up where they would end up if the author were alone. The
scene of the batch is another one in the arena, but it has the same figures. -/
theorem Answers.ends_eq (h : program.Answers owned call batch) {s : Session} {scenes : Scenes}
    (hcopy : (program.desk program.calls.length).Copy owned s scenes) :
    (batch.filterMap drawn?).map (·.get? scenes) = program.ends call := by
  obtain ⟨desk, scene, hanswer, hscene, rfl⟩ := h
  rw [figures_map_into (hcopy.rows _ _ hscene), ends, hanswer, Option.toList_some,
    List.flatMap_singleton]

end Answers

end Program

/-- Pairs are kept together when some of the first parts are left out. The second parts go with the
first ones. -/
private theorem forall₂_filterMap_zip {α β : Type} {R : α → β → Prop} {l : List α} {l' : List β}
    (h : List.Forall₂ R l l') (p : α → Prop) [DecidablePred p] :
    List.Forall₂ R (l.filter (p ·))
      ((l.zip l').filterMap fun pair => if p pair.1 then some pair.2 else none) := by
  induction h with
  | nil => exact .nil
  | @cons a b l l' hab _ ih =>
    rw [List.filter_cons, List.zip_cons_cons, List.filterMap_cons]
    -- The pair at the head is kept or left out as a whole.
    by_cases hp : p a
    · simp only [hp, decide_true, if_true]
      exact .cons hab ih
    · simp only [hp, decide_false, if_false]
      exact ih

namespace Ledger.Agrees

variable {ι : Type} [DecidableEq ι] {programs : ι → Program} {size : Size}
  {ledger : Ledger ι} {studio : Studio ι Pixmap (List Pixmap)} {owned : ι → List SceneId}

/-- In the end the receiver has one frame for each batch that presents. -/
theorem frames_of_isAtRest
    (h : ledger.Agrees programs size (fun frames frame => frames ++ [frame]) [] studio)
    (hrest : studio.IsAtRest) :
    List.Forall₂ (Posting.Frame programs size) (studio.posted.filter (·.presents))
      studio.loop.receiver := by
  have hcount := h.length_finished
  rw [hrest.1, hrest.2] at hcount
  -- A receiver that keeps all frames has kept just the frames.
  have hreceiver := h.receiver
  rw [List.foldl_append_eq_append, List.nil_append, ← List.flatMap_def, List.flatMap_singleton']
    at hreceiver
  rw [hreceiver, ← h.finished_prefix.eq_of_length hcount]
  exact h.frames

/-- The calls that an author's batches come from: all those that could be read, in order. -/
theorem calls_of_isDone
    (h : ledger.Agrees programs size (fun frames frame => frames ++ [frame]) [] studio)
    {i : ι} (hdone : (studio.authors i).IsDone) :
    (studio.postingsOf i).map (·.call) = (programs i).answered (programs i).calls.length := by
  -- All calls are done, and how many there are is the same in the program and in the author.
  have hle := hdone.2
  rw [(h.authors.follows i).calls] at hle
  rw [Studio.postingsOf, h.answered i, Program.answered_of_le hle]

/-- In the end an author has a copy of what it would have if it were alone. All that has been posted
has been applied, so the scenes ahead are the scenes as they are. -/
theorem copy_of_isComplete
    (h : ledger.Agrees programs size (fun frames frame => frames ++ [frame]) [] studio)
    (hmirrored : Author.Mirrored programs studio.authors owned studio.posted studio.ahead)
    (hcomplete : studio.IsComplete) (i : ι) :
    ((programs i).desk (programs i).calls.length).Copy (owned i)
      (studio.authors i).compiler.session studio.scenes := by
  have hcopy := (hmirrored.mirrors i).between (hcomplete.1 i).1
  have hle := (hcomplete.1 i).2
  rw [(h.authors.follows i).calls] at hle
  rwa [Program.desk_of_le hle, hcomplete.2.ahead_eq] at hcopy

/-- The figures that an author draws end up where they would end up if the author were alone. -/
theorem ends_of_isComplete
    (h : ledger.Agrees programs size (fun frames frame => frames ++ [frame]) [] studio)
    (hmirrored : Author.Mirrored programs studio.authors owned studio.posted studio.ahead)
    (hcomplete : studio.IsComplete) (i : ι) :
    (studio.postingsOf i).map (·.ends studio.scenes) =
      ((programs i).answered (programs i).calls.length).map (programs i).ends := by
  rw [← h.calls_of_isDone (hcomplete.1 i), List.map_map]
  refine List.map_congr_left fun posting hposting => ?_
  obtain ⟨hmem, hauthor⟩ := List.mem_filter.mp hposting
  -- A posting of the author answers its call, and that settles which figures it draws.
  have hanswers := hmirrored.answers posting hmem
  rw [of_decide_eq_true hauthor] at hanswers
  exact hanswers.ends_eq (h.copy_of_isComplete hmirrored hcomplete i)

/-- **The frames of an author**, in whatever company: one picture for each call that shows
something, of all that its own session has heard by then. -/
theorem framesOf_depict
    (h : ledger.Agrees programs size (fun frames frame => frames ++ [frame]) [] studio)
    (hmirrored : Author.Mirrored programs studio.authors owned studio.posted studio.ahead)
    (hcomplete : studio.IsComplete) (hwidth : size.width ≤ 2147483647)
    (hheight : size.height ≤ 2147483647) (i : ι) :
    List.Forall₂
      (fun call (frame : Pixmap) => frame.size = size ∧
        frame.Depicts (programs i).settings ((programs i).heard (call + 1)))
      (programs i).shown (studio.framesOf i) := by
  -- Of the postings that present, those of the author that are not bare.
  have hshown : ((studio.posted.filter (·.presents)).filter fun posting =>
      posting.author = i ∧ posting.batch ≠ [.present]).map (·.call) = (programs i).shown := by
    rw [Program.shown, ← h.calls_of_isDone (hcomplete.1 i), List.filter_map, Studio.postingsOf,
      List.filter_filter, List.filter_filter]
    refine congrArg (List.map _) (List.filter_congr fun posting hposting => ?_)
    have hanswers := hmirrored.answers posting hposting
    by_cases hi : posting.author = i
    · rw [hi] at hanswers
      rw [Bool.eq_iff_iff]
      simp only [Function.comp_apply, Bool.and_eq_true, decide_eq_true_iff, hi, true_and, and_true,
        hanswers.shows_iff, Posting.presents]
      exact and_comm
    · simp [hi]
  have hframes := forall₂_filterMap_zip (h.frames_of_isAtRest hcomplete.2)
    fun posting => posting.author = i ∧ posting.batch ≠ [.present]
  -- Both lists run over the same postings, so that each frame meets its own call.
  rw [← hshown, List.forall₂_map_left_iff]
  have hown : ∀ posting ∈ (studio.posted.filter (·.presents)).filter fun posting =>
      posting.author = i ∧ posting.batch ≠ [.present],
      posting.author = i ∧ posting.batch ≠ [.present] :=
    fun posting hposting => of_decide_eq_true (List.mem_filter.mp hposting).2
  refine ((List.forall₂_and_left _ _).mpr ⟨hown, hframes⟩).imp ?_
  rintro posting frame ⟨⟨rfl, hbare⟩, hframe⟩
  exact ⟨hframe.size_eq, hframe.depicts hwidth hheight hbare⟩

end Ledger.Agrees

namespace Studio

/-- **Authors do not disturb each other.** Any number of authors feed calls to compilers of their
own and post the batches to one loop over two pixmaps. Every schedule can be completed. When all
have got done, the receiver has one frame for each batch that presents, and unless the batch does
nothing but present, this is a picture of what the session of its author had heard. Compared with a
studio in which one of the authors has been alone, this author has posted as many batches, for the
same calls; the frames of these, but for those of batches that do nothing but present, are the same,
pixel for pixel; the figures of its session are in the same places, and so are those that its
batches draw, in sessions that have been reset as well. -/
theorem author_undisturbed {n : Nat} (programs : Fin n → Program) (i : Fin n)
    {first second soloFirst soloSecond : Pixmap} {size : Size} (hfirst : first.size = size)
    (hsecond : second.size = size) (hsoloFirst : soloFirst.size = size)
    (hsoloSecond : soloSecond.size = size) (hwidth : size.width ≤ 2147483647)
    (hheight : size.height ≤ 2147483647) :
    let start := company programs first second []
    let alone := company (fun _ : Fin 1 => programs i) soloFirst soloSecond []
    (∀ schedule, ∃ more, (start.run .keeping (schedule ++ more)).IsComplete) ∧
    ∀ schedule soloSchedule,
      let joint := start.run .keeping schedule
      let solo := alone.run .keeping soloSchedule
      joint.IsComplete → solo.IsComplete →
        List.Forall₂
          (fun posting (frame : Pixmap) => posting.batch ≠ [.present] →
            frame.Depicts (programs posting.author).settings
              ((programs posting.author).heard (posting.call + 1)))
          (joint.posted.filter (·.presents)) joint.loop.receiver ∧
        (joint.postingsOf i).map (·.call) = (solo.postingsOf 0).map (·.call) ∧
        joint.framesOf i = solo.framesOf 0 ∧
        joint.scenes.figures (joint.authors i).scene = solo.scenes.figures (solo.authors 0).scene ∧
        (joint.postingsOf i).map (·.ends joint.scenes) =
          (solo.postingsOf 0).map (·.ends solo.scenes) := by
  intro start alone
  have hstart :=
    Ledger.agrees_company programs (fun frames frame => frames ++ [frame]) [] hfirst hsecond
  refine ⟨fun schedule => ?_, ?_⟩
  · obtain ⟨ledger, hledger⟩ := hstart.run schedule
    obtain ⟨more, hmore⟩ := hledger.exists_isComplete (List.mem_finRange ·)
    refine ⟨more, ?_⟩
    rw [run_append]
    exact hmore
  · intro schedule soloSchedule joint solo hjoint hsolo
    -- Both are compared with what the author would have at a desk of its own.
    obtain ⟨ledger, owned, hledger, hmirrored⟩ :=
      hstart.run_mirrored (Author.mirrored_company programs first second []) schedule
    obtain ⟨soloLedger, soloOwned, hsoloLedger, hsoloMirrored⟩ :=
      (Ledger.agrees_company (fun _ : Fin 1 => programs i) (fun frames frame => frames ++ [frame])
        [] hsoloFirst hsoloSecond).run_mirrored
        (Author.mirrored_company (fun _ : Fin 1 => programs i) soloFirst soloSecond []) soloSchedule
    refine ⟨?_, ?_, ?_, ?_, ?_⟩
    · exact (hledger.frames_of_isAtRest hjoint.2).imp fun _ _ hframe =>
        hframe.depicts hwidth hheight
    · exact (hledger.calls_of_isDone (hjoint.1 i)).trans
        (hsoloLedger.calls_of_isDone (hsolo.1 0)).symm
    -- Two frames of a size that depict the same are the same.
    · have hunique : Relator.RightUnique fun (call : Nat) (frame : Pixmap) => frame.size = size ∧
          frame.Depicts (programs i).settings ((programs i).heard (call + 1)) :=
        fun _ _ _ hp hq => Pixmap.eq_of_depicts (hp.1.trans hq.1.symm) hp.2 hq.2
      exact List.right_unique_forall₂' hunique
        (hledger.framesOf_depict hmirrored hjoint hwidth hheight i)
        (hsoloLedger.framesOf_depict hsoloMirrored hsolo hwidth hheight 0)
    · exact (hledger.copy_of_isComplete hmirrored hjoint i).row.trans
        (hsoloLedger.copy_of_isComplete hsoloMirrored hsolo 0).row.symm
    · exact (hledger.ends_of_isComplete hmirrored hjoint i).trans
        (hsoloLedger.ends_of_isComplete hsoloMirrored hsolo 0).symm

/-- Two authors: one shows a figure and moves it, the other one shows something else in between, and
then what is left on the surface. -/
def twoAuthors : Fin 2 → Program
  | 0 => ⟨.standard, [.text "white\nfigure 0 0\nupdate", .text "move 1 0\nupdate"]⟩
  | 1 => ⟨.standard, [.text "green\nfigure 1 0\nupdate", .text "reset\nupdate"]⟩

/-- The two on two pixels. Both begin before the worker does, and the second one goes on while the
first one waits. -/
def inCompany : Studio (Fin 2) Pixmap (List Pixmap) :=
  (company twoAuthors twoPixels twoPixels []).run .keeping
    (List.replicate 3 (.author 0) ++ List.replicate 5 (.author 1) ++ List.replicate 2 (.author 0) ++
      List.replicate 9 .worker ++ List.replicate 4 (.author 1) ++ List.replicate 4 (.author 0) ++
      List.replicate 20 .worker)

/-- The first one without the other. -/
def onItsOwn : Studio (Fin 1) Pixmap (List Pixmap) :=
  (company (fun _ : Fin 1 => twoAuthors 0) twoPixels twoPixels []).run .keeping
    (List.replicate 9 (.author 0) ++ List.replicate 20 .worker)

/-- The first author has shown two frames, and there are four in all. Both runs are complete, so
they may be compared. -/
theorem author_undisturbed_by_another :
    (inCompany.IsComplete ∧ onItsOwn.IsComplete) ∧ inCompany.loop.receiver.length = 4 ∧
      inCompany.framesOf 0 = onItsOwn.framesOf 0 ∧ (inCompany.framesOf 0).length = 2 := by
  have hcanvas : twoPixels.size = ⟨2, 1, by decide, by decide⟩ := rfl
  have hjoint : inCompany.IsComplete := by decide +kernel
  have hsolo : onItsOwn.IsComplete := by decide +kernel
  have hall : inCompany.loop.receiver.length = 4 := by decide +kernel
  have hown : (onItsOwn.framesOf 0).length = 2 := by decide +kernel
  unfold inCompany onItsOwn at *
  obtain ⟨-, -, hframes, -⟩ :=
    (author_undisturbed twoAuthors 0 hcanvas hcanvas hcanvas hcanvas (by decide) (by decide)).2 _ _
      hjoint hsolo
  exact ⟨⟨hjoint, hsolo⟩, hall, hframes, by rw [hframes]; exact hown⟩

end Studio

end Easel
