import Easel.Proofs.Studio.Ledger

/-!
# The frames of a studio

What a receiver sees when an author feeds scripts to a compiler and posts the batches, while the
worker of the loop goes on in whatever order the two happen to take turns.

* `Posting.Frame.depicts` — a frame is the picture of all that the session has heard, whatever was
  on the surface before;
* `Ledger.Agrees.start` — the ledger of a studio in which nothing has happened;
* `Studio.frames_show_session` — the frames of all scripts, on every schedule.
-/

namespace Easel

open Script (Command Compiler Settings Session Picture)

/-- Calls whose scripts can all be read let the session hear the commands of these scripts. -/
theorem Call.map_heard {calls : List Call} {scripts : List (List Command)}
    (h : calls.map Call.commands? = scripts.map some) : calls.map Call.heard = scripts := by
  -- The two lists are taken apart together, since `some` keeps them in step.
  induction calls generalizing scripts with
  | nil =>
    cases scripts with
    | nil => rfl
    | cons commands rest => exact absurd h nofun
  | cons call calls ih =>
    cases scripts with
    | nil => exact absurd h nofun
    | cons commands rest =>
      rw [List.map_cons, List.map_cons] at h
      obtain ⟨hcall, hcalls⟩ := List.cons.inj h
      rw [List.map_cons, Call.heard_of_commands? hcall, ih hcalls]

namespace Program

variable {program : Program} {scripts : List (List Command)}

/-- If all scripts can be read, the session has heard the commands of as many scripts as calls are
done, one script after another. -/
theorem heard_eq (h : program.calls.map Call.commands? = scripts.map some) (done : Nat) :
    program.heard done = (scripts.take done).flatten := by
  rw [heard, List.flatMap_def, List.map_take, Call.map_heard h]

/-- If all scripts can be read, all calls that are done have been answered, and they have been in
the order in which they were made. -/
theorem answered_eq (h : program.calls.map Call.commands? = scripts.map some) (done : Nat) :
    program.answered done = List.range (min done program.calls.length) := by
  -- A call can be read if there is one.
  have hsome : ∀ call, ((program.calls[call]?).bind Call.commands?).isSome =
      decide (call < program.calls.length) := by
    intro call
    have hcall : (program.calls[call]?).map Call.commands? = (scripts[call]?).map some := by
      rw [← List.getElem?_map, h, List.getElem?_map]
    cases hget : program.calls[call]? with
    | none =>
      rw [decide_eq_false (Nat.not_lt.mpr (List.getElem?_eq_none_iff.mp hget))]
      rfl
    | some found =>
      rw [hget] at hcall
      rw [decide_eq_true (List.getElem?_eq_some_iff.mp hget).1]
      cases hscript : scripts[call]? with
      | none =>
        rw [hscript] at hcall
        exact absurd hcall nofun
      | some commands =>
        rw [hscript] at hcall
        rw [Option.bind_some, Option.some.inj hcall]
        rfl
  induction done with
  | zero => rw [Nat.zero_min]; rfl
  | succ done ih =>
    rw [answered_succ, ih, hsome]
    by_cases hdone : done < program.calls.length
    · rw [decide_eq_true hdone, if_pos rfl, Nat.min_eq_left (Nat.le_of_lt hdone),
        Nat.min_eq_left hdone, List.range_succ]
    · rw [decide_eq_false hdone, if_neg Bool.false_ne_true, List.append_nil,
        Nat.min_eq_right (Nat.le_of_not_lt hdone),
        Nat.min_eq_right (Nat.le_succ_of_le (Nat.le_of_not_lt hdone))]

end Program

/-- Every pixel of a pixmap has the color that the picture of some commands has there. The pixmap
brings its own size, so this says nothing about pixels off its edges. -/
def Pixmap.Depicts (settings : Settings) (commands : List Command) (pixmap : Pixmap) : Prop :=
  ∀ x y : Nat, x < pixmap.size.width → y < pixmap.size.height →
    pixmap.pixel? x y = some ((Picture.of settings commands).colorAt settings x y)

/-- **A frame is the picture of all that the session has heard**, whatever was on the surface
before. A batch that does more than present begins with a fill of the whole surface, so nothing of
what was there shows through. -/
theorem Posting.Frame.depicts {ι : Type} {programs : ι → Program} {size : Size}
    {posting : Posting ι} {frame : Pixmap} (h : posting.Frame programs size frame)
    (hwidth : size.width ≤ 2147483647) (hheight : size.height ≤ 2147483647)
    (hbare : posting.batch ≠ [.present]) :
    frame.Depicts (programs posting.author).settings
      ((programs posting.author).heard (posting.call + 1)) := by
  obtain ⟨before, rfl, rfl⟩ := h
  intro x y hx hy
  rw [Pixmap.size_paint] at hx hy
  -- A pixel of the frame lies on the surface, so a fill of all of it covers the pixel.
  have hcovers : (Rect.ofSize before.size).Covers x y :=
    before.covers_bounds hwidth hheight hx hy
  rw [Pixmap.pixel?_paint _ _ hx hy, due, Program.due, if_neg hbare,
    Picture.lastCovering_fills _ _ hcovers (by omega) (by omega) (by omega) (by omega)]
  rfl

/-- A frame has the size of the surfaces. -/
theorem Posting.Frame.size_eq {ι : Type} {programs : ι → Program} {size : Size}
    {posting : Posting ι} {frame : Pixmap} (h : posting.Frame programs size frame) :
    frame.size = size := by
  obtain ⟨before, hsize, rfl⟩ := h
  rw [Pixmap.size_paint, hsize]

/-- A studio with one author, in which nothing has happened. -/
def Studio.start {ρ : Type} (settings : Settings) (calls : List Call) (first second : Pixmap)
    (receiver : ρ) : Studio Unit Pixmap ρ where
  authors _ := ⟨(Compiler.start settings .empty).1, calls, 0, none⟩
  scenes := (Compiler.start settings .empty).2
  loop := .start first second receiver
  hand := none
  posted := []

section Start

variable {ρ : Type} (settings : Settings) (calls : List Call) {first second : Pixmap} {size : Size}
  (taken : ρ → Pixmap → ρ) (receiver : ρ)

/-- The ledger of a studio in which nothing has happened is empty: no batch is finished, in the hand
or waiting, and no frame has been taken. -/
theorem Ledger.agrees_start (hfirst : first.size = size) (hsecond : second.size = size) :
    Agrees (fun _ : Unit => ⟨settings, calls⟩) size taken receiver ⟨[], none, [], []⟩
      (Studio.start settings calls first second receiver) where
  posted := rfl
  worker := rfl
  queue := rfl
  receiver := rfl
  frames := .nil
  drawing := hfirst
  standby := hsecond
  hand := .empty
  flat := fun _ hleaf => absurd hleaf List.not_mem_nil
  known := fun _ hleaf => absurd hleaf List.not_mem_nil
  owing := trivial
  answered := fun _ => rfl
  authors := by
    -- The scene of a new session has no figures, and the session shows none.
    have hempty : (Compiler.start settings .empty).2.figures
        (Compiler.start settings .empty).1.session.scene = #[] := rfl
    refine ⟨fun _ => ⟨rfl, rfl, Session.sound_new .empty, fun _ => ?_, nofun⟩,
      fun _ _ hne => absurd rfl hne⟩
    have hshows := Session.shows_new settings (Compiler.start settings .empty).1.session.scene
    rw [← hempty] at hshows
    exact hshows

end Start

section Agrees

variable {ι ρ : Type} [DecidableEq ι] {programs : ι → Program} {size : Size}
  {taken : ρ → Pixmap → ρ} {receiver : ρ} {ledger : Ledger ι}

/-- All batches are finished but the one in the hand and those in the queue. -/
theorem Ledger.Agrees.length_finished {studio : Studio ι Pixmap ρ}
    (h : ledger.Agrees programs size taken receiver studio) :
    ledger.finished.length + studio.hand.toList.length + studio.loop.queue.items.length =
      studio.posted.length := by
  -- The ledger has a batch in the hand exactly if the worker has one.
  have hhand : studio.hand.toList.length = ledger.current.toList.length := by
    have hheld := h.hand
    generalize studio.hand = hand at hheld ⊢
    generalize ledger.current = current at hheld ⊢
    cases hheld <;> rfl
  rw [h.posted, h.queue, hhand, List.length_map, List.length_append, List.length_append]

/-- Batches are finished in the order in which they are posted. -/
theorem Ledger.Agrees.finished_prefix {studio : Studio ι Pixmap ρ}
    (h : ledger.Agrees programs size taken receiver studio) :
    ledger.finished <+: studio.posted := by
  rw [h.posted, List.append_assoc]
  exact List.prefix_append _ _

/-- The batches of one author are posted in the order of the calls. -/
theorem Ledger.Agrees.posted_eq {program : Program} {ledger : Ledger Unit}
    {studio : Studio Unit Pixmap ρ}
    (h : ledger.Agrees (fun _ => program) size taken receiver studio)
    {scripts : List (List Command)}
    (hscripts : program.calls.map Call.commands? = scripts.map some) :
    studio.posted.map (·.call) =
      List.range (min (studio.authors ()).done program.calls.length) := by
  have hanswered := h.answered ()
  rw [program.answered_eq hscripts] at hanswered
  -- There is but one author, so no posting is left out.
  rwa [List.filter_eq_self.mpr fun posting _ => decide_eq_true rfl] at hanswered

/-- The frames of one author show what is owed, and that is the picture of all commands up to then.
Batches that do nothing but present show the surface as it is, and are left out here. -/
theorem Ledger.Agrees.depicts {program : Program} {ledger : Ledger Unit}
    {studio : Studio Unit Pixmap ρ}
    (h : ledger.Agrees (fun _ => program) size taken receiver studio)
    {scripts : List (List Command)}
    (hscripts : program.calls.map Call.commands? = scripts.map some)
    (hwidth : size.width ≤ 2147483647) (hheight : size.height ≤ 2147483647) :
    List.Forall₂
      (fun posting frame => frame.size = size ∧ (posting.batch ≠ [.present] →
        frame.Depicts program.settings (scripts.take (posting.call + 1)).flatten))
      (ledger.finished.filter (·.presents)) ledger.frames := by
  refine h.frames.imp fun posting frame hframe => ⟨hframe.size_eq, fun hbare => ?_⟩
  have hdepicts := hframe.depicts hwidth hheight hbare
  rwa [program.heard_eq hscripts] at hdepicts

/-- **An author and the worker can always get done.** The author goes on to the end of the calls,
and the worker then takes what is in the queue. -/
theorem Ledger.Agrees.exists_run_done {studio : Studio ι Pixmap ρ}
    (h : ledger.Agrees programs size taken receiver studio) (i : ι) :
    ∃ more, (programs i).calls.length ≤ ((studio.run (.steady taken) more).authors i).done ∧
      (studio.run (.steady taken) more).IsAtRest := by
  obtain ⟨n, -, hdone⟩ := studio.exists_run_calls (.steady taken) i
  -- The author goes first, then the worker, who finds nothing but batches.
  obtain ⟨after, hafter⟩ := h.run (List.replicate n (.author i))
  have hqueue : (studio.run (.steady taken) (List.replicate n (.author i))).loop.queue.items =
      (after.waiting.map fun posting => .batch posting.batch).map .apply := by
    rw [List.map_map]
    exact hafter.queue
  obtain ⟨m, hauthors, -, hrest⟩ := Studio.exists_run_atRest taken _ hafter.worker hqueue
  refine ⟨List.replicate n (.author i) ++ List.replicate m .worker, ?_, ?_⟩
  · rw [Studio.run_append, hauthors, ← (h.authors.follows i).calls]
    exact hdone
  · rw [Studio.run_append]
    exact hrest

end Agrees

namespace Studio

/-- **The frames of all scripts**, on every schedule. One author feeds scripts to a compiler and
posts the batches, while the worker applies them. The batches are posted in the order of the
scripts. The worker has finished all of them but the one in its hand and those in the queue. The
receiver has got one frame for each finished batch that presents, in order, and unless the batch
does nothing but present, this frame is the picture of all commands up to then. No schedule keeps
all this from being completed. -/
theorem frames_show_session {ρ : Type} (taken : ρ → Pixmap → ρ) (receiver : ρ) (settings : Settings)
    {calls : List Call} {scripts : List (List Command)}
    (hscripts : calls.map Call.commands? = scripts.map some) {first second : Pixmap} {size : Size}
    (hfirst : first.size = size) (hsecond : second.size = size)
    (hwidth : size.width ≤ 2147483647) (hheight : size.height ≤ 2147483647)
    (schedule : List (Turn Unit)) :
    let studio := (start settings calls first second receiver).run (.steady taken) schedule
    (studio.posted.map (·.call) = List.range studio.posted.length ∧
      studio.posted.length ≤ scripts.length) ∧
    (∃ (finished : List (Posting Unit)) (frames : List Pixmap),
      finished <+: studio.posted ∧
      finished.length + studio.hand.toList.length + studio.loop.queue.items.length =
        studio.posted.length ∧
      studio.loop.receiver = frames.foldl taken receiver ∧
      List.Forall₂
        (fun posting frame => frame.size = size ∧ (posting.batch ≠ [.present] →
          frame.Depicts settings (scripts.take (posting.call + 1)).flatten))
        (finished.filter (·.presents)) frames) ∧
    ∃ more, (studio.run (.steady taken) more).posted.length = scripts.length ∧
      (studio.run (.steady taken) more).IsAtRest := by
  intro studio
  -- The receiver's part is read off the ledger that the schedule leads to.
  have hlength : calls.length = scripts.length := by
    have hlengths := congrArg List.length hscripts
    rwa [List.length_map, List.length_map] at hlengths
  obtain ⟨ledger, hledger⟩ :=
    (Ledger.agrees_start settings calls taken receiver hfirst hsecond).run schedule
  refine ⟨?_, ⟨ledger.finished, ledger.frames, hledger.finished_prefix, hledger.length_finished,
    hledger.receiver, hledger.depicts hscripts hwidth hheight⟩, ?_⟩
  · -- As many batches have been posted as calls are done.
    have hposted := hledger.posted_eq hscripts
    have hcount := congrArg List.length hposted
    rw [List.length_map, List.length_range] at hcount
    refine ⟨?_, ?_⟩
    · rw [hcount]
      exact hposted
    · rw [hcount, hlength]
      exact Nat.min_le_right _ _
  · obtain ⟨more, hdone, hrest⟩ := hledger.exists_run_done ()
    obtain ⟨last, hlast⟩ := hledger.run more
    have hcount := congrArg List.length (hlast.posted_eq hscripts)
    rw [List.length_map, List.length_range, Nat.min_eq_right hdone, hlength] at hcount
    exact ⟨more, hcount, hrest⟩

/-- A canvas of two pixels. -/
def twoPixels : Pixmap := .blank ⟨2, 1, by decide, by decide⟩ (by decide)

/-- Two scripts on two pixels: one shows a figure, the other one moves it away. The worker begins
with the first batch while the second one is being compiled. -/
def onTwoPixels : Studio Unit Pixmap (List Pixmap) :=
  (start .standard [.text "white\nfigure 0 0\nupdate", .text "move 1 0\nupdate"] twoPixels
    twoPixels []).run (.steady fun frames frame => frames ++ [frame])
      (List.replicate 7 (.author ()) ++ List.replicate 3 .worker ++
        List.replicate 2 (.author ()) ++ List.replicate 10 .worker)

/-- The second frame does not show the figure any more. -/
theorem frames_show_session_moved : ∃ shown moved : Pixmap,
    onTwoPixels.loop.receiver = [shown, moved] ∧
      shown.pixel? 0 0 = some .pureRed ∧ moved.pixel? 0 0 = some .white := by
  have hscripts : [Call.text "white\nfigure 0 0\nupdate", .text "move 1 0\nupdate"].map
      Call.commands? = [[Command.background .white, .figure (.zero false) (.zero false), .update],
        [.move ⟨false, 0x3FF0000000000000, by decide⟩ (.zero false), .update]].map some := by
    decide +kernel
  have hcanvas : twoPixels.size = ⟨2, 1, by decide, by decide⟩ := rfl
  obtain ⟨-, ⟨finished, frames, hinitial, hcount, hreceiver, hframes⟩, -⟩ :=
    frames_show_session (fun frames frame => frames ++ [frame]) [] .standard hscripts hcanvas
      hcanvas
      (by decide) (by decide) (List.replicate 7 (.author ()) ++ List.replicate 3 .worker ++
        List.replicate 2 (.author ()) ++ List.replicate 10 .worker)
  -- Both batches are finished, and both present.
  have hidle : onTwoPixels.hand.toList.length + onTwoPixels.loop.queue.items.length = 0 := by
    decide +kernel
  have hposted : onTwoPixels.posted.filter (·.presents) =
      [⟨(), 0, [.fill .white, .figure ⟨⟨0⟩, ⟨0⟩⟩, .present]⟩,
        ⟨(), 1, [.fill .white, .move ⟨400, 0, ⟨0⟩, [⟨0⟩]⟩, .figure ⟨⟨0⟩, ⟨0⟩⟩, .present]⟩] := by
    decide +kernel
  unfold onTwoPixels at hidle hposted ⊢
  -- There is nothing in the hand or in the queue, so the frames are those of all batches posted.
  rw [Nat.add_assoc, hidle] at hcount
  rw [hinitial.eq_of_length hcount, hposted] at hframes
  obtain ⟨shown, later, ⟨hsize, hshown⟩, hlater, rfl⟩ := List.forall₂_cons_left_iff.mp hframes
  obtain ⟨moved, others, ⟨hsize', hmoved⟩, hothers, rfl⟩ := List.forall₂_cons_left_iff.mp hlater
  obtain rfl : others = [] := List.forall₂_nil_left_iff.mp hothers
  refine ⟨shown, moved, hreceiver, ?_, ?_⟩
  · have hcolor := hshown (by decide) 0 0 (by rw [hsize]; decide) (by rw [hsize]; decide)
    rw [hcolor]
    decide +kernel
  · have hcolor := hmoved (by decide) 0 0 (by rw [hsize']; decide) (by rw [hsize']; decide)
    rw [hcolor]
    decide +kernel

end Studio

end Easel
