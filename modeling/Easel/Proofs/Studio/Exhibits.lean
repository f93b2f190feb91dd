import Easel.Proofs.Canvas.Palette
import Easel.Proofs.Studio.Outcome
import Easel.Proofs.Studio.Players
import Mathlib.Data.List.ReduceOption

/-!
# Exhibits

Scripts are compiled one after another, and each batch is applied to one of two surfaces. If the
batch presents, the surface is the exhibit of its script, and the surfaces change places.

* `Script.Compiler.exhibit` — for each script its exhibit, if it has one;
* `Script.Compiler.isSome_exhibit` — the scripts that have one are those that ask to be shown;
* `Script.Compiler.Sound.exhibit` — exhibits have the size of the surfaces, and colors that scripts
  can draw with;
* `Player.exists_playAll` — a player shows the exhibits, in order;
* `Studio.receiver_of_isOver` — and so does a studio, on every schedule.
-/

namespace Easel

open Operation
open Script (Command Compiler Settings Session)

/-- A palette with everything that scripts draw with. Whatever colors such a palette has besides, no
script can bring another one onto a surface. -/
structure Script.Settings.Suits (settings : Settings) (palette : Finset Color) : Prop where
  background : ∀ shade : Background, shade.color ∈ palette
  overlay : overlayColor ∈ palette
  figure : settings.figureColor ∈ palette

namespace Script.Compiler

/-- What scripts show, one after another, that are compiled in one session and drawn on two
surfaces. The first surface is the one under way. An answer is `none` for a script that does not ask
to be shown: what it paints stays on the surface, and the next script goes on there. -/
def exhibit (c : Compiler) (scenes : Scenes) (drawing standby : Pixmap) :
    List (List Command) → List (Option Pixmap)
  | [] => []
  | commands :: rest =>
    let compiled := c.run scenes commands
    let painted := (Operation.batch compiled.batch).apply compiled.scenes drawing
    if painted.ready then
      some painted.surface ::
        exhibit compiled.compiler painted.scenes standby painted.surface rest
    else none :: exhibit compiled.compiler painted.scenes painted.surface standby rest

section Exhibit

variable {settings : Settings} {c : Compiler} {scenes : Scenes}

/-- A batch is what a session describes. It is the session after the commands of the script, which
keeps its invariant and has a background, so that its batch is never empty. -/
theorem Sound.exists_run (h : c.Sound settings scenes) (commands : List Command) :
    ∃ last : Session, (c.run scenes commands).batch = last.assemble.1 ∧
      last.Sound settings (c.run scenes commands).scenes ∧ last.background? ≠ none := by
  obtain ⟨rfl, hsession, -⟩ := h
  have hbegin : c.session.begin.background? ≠ none := by
    rw [hsession.background?_begin]
    exact Option.some_ne_none _
  exact ⟨_, rfl, hsession.begin.executeAll hbegin commands⟩

/-- Any operation may be applied between two calls. It changes the scenes, and a session stands
whatever has been done to the figures, as long as none has gone. -/
theorem Sound.apply {σ : Type} [Surface σ] [LawfulSurface σ] (h : c.Sound settings scenes)
    (op : Operation) (surface : σ) : c.Sound settings (op.apply scenes surface).scenes := by
  rw [Operation.apply_eq]
  exact ⟨h.configured, h.session.intact (c.session.intact_settle op.leaves scenes), h.moves⟩

/-- A script has an exhibit if it asks to be shown. Whether the batch presents is decided when it is
compiled, and does not depend on the surface or on the scenes at the time it is applied. -/
theorem ready_apply_run {σ : Type} [Surface σ] [LawfulSurface σ] (c : Compiler)
    (scenes after : Scenes) (commands : List Command) (surface : σ) :
    ((Operation.batch (c.run scenes commands).batch).apply after surface).ready =
      decide (IsShown commands) := by
  rw [Operation.apply_batch, Operation.applyAll_eq]
  change presentsAny (c.session.begin.executeAll c.settings scenes commands).1.assemble.1 = _
  rw [Session.presentsAny_assemble]
  exact Bool.eq_iff_iff.mpr
    ((Session.presentRequested_executeAll rfl scenes commands).trans decide_eq_true_iff.symm)

/-- **The scripts that have an exhibit are those that ask to be shown.** -/
theorem isSome_exhibit (c : Compiler) (scenes : Scenes) (drawing standby : Pixmap)
    (scripts : List (List Command)) : (c.exhibit scenes drawing standby scripts).map Option.isSome =
      scripts.map fun commands => decide (IsShown commands) := by
  induction scripts generalizing c scenes drawing standby with
  | nil => rfl
  | cons commands rest ih =>
    have hready := c.ready_apply_run scenes (c.run scenes commands).scenes commands drawing
    rw [exhibit, List.map_cons, ← hready]
    split
    · next hshown => rw [List.map_cons, ih, hshown, Option.isSome_some]
    · next hhidden =>
      rw [List.map_cons, ih, Bool.eq_false_of_not_eq_true hhidden, Option.isSome_none]

/-! ### What is on an exhibit -/

variable {palette : Finset Color}

/-- Operations of a session draw with colors that suit it. The induction is over the operations,
with the scenes as the operations before have left them. -/
theorem color_of_mem_fills {s : Session} (hsound : s.Sound settings scenes)
    (hsuits : settings.Suits palette) {ops : List Operation}
    (hops : ∀ op ∈ ops, op ∈ s.assemble.1) (bounds : Rect) {f : Fill}
    (hf : f ∈ fills bounds ops scenes) : f.2 ∈ palette := by
  induction ops generalizing scenes with
  | nil => exact absurd hf List.not_mem_nil
  | cons op rest ih =>
    obtain ⟨hop, hrest⟩ := List.forall_mem_cons.mp hops
    rw [fills_cons] at hf
    rcases List.mem_append.mp hf with hown | hlater
    · -- What a batch can hold is known: a fill, a figure, a move or a present.
      rcases Session.mem_assemble hop with
        ⟨shade, rfl⟩ | ⟨rect, rfl⟩ | ⟨m, -, rfl⟩ | ⟨id, -, rfl⟩ | rfl
      · rw [List.mem_singleton.mp hown]
        exact hsuits.background shade
      · rw [List.mem_singleton.mp hown]
        exact hsuits.overlay
      · exact absurd hown List.not_mem_nil
      · rw [ownFills] at hown
        split at hown
        -- A figure that is found has the color that the session has given it.
        · next figure hfigure =>
          have hcolor : figure.color = settings.figureColor :=
            hsound.colors figure (Array.mem_of_getElem? hfigure)
          rcases List.mem_pair.mp hown with rfl | rfl
          · exact hcolor ▸ hsuits.figure
          · exact hcolor ▸ hsuits.figure
        · exact absurd hown List.not_mem_nil
      · exact absurd hown List.not_mem_nil
    · -- Moves do not change the colors of figures.
      exact ih (hsound.intact (s.intact_settle [op] scenes)) hrest hlater

/-- What a script paints on a surface has its size, and keeps to a palette that suits the session.
Painting never resizes, and it adds no colors but those of the fills. -/
theorem Sound.keepsTo_apply_run (h : c.Sound settings scenes) (hsuits : settings.Suits palette)
    (commands : List Command) {p : Pixmap} (hp : p.KeepsTo palette) :
    let compiled := c.run scenes commands
    let painted := (Operation.batch compiled.batch).apply compiled.scenes p
    painted.surface.KeepsTo palette ∧ painted.surface.size = p.size := by
  obtain ⟨last, hbatch, hlast, -⟩ := h.exists_run commands
  intro compiled painted
  -- A batch is one operation for the surface, and its leaves are what the session has listed.
  have hleaves : (Operation.batch compiled.batch).leaves = compiled.batch := by
    refine leavesAll_of_forall fun leaf hleaf => ?_
    rw [hbatch] at hleaf
    exact Session.leaves_of_mem_assemble hleaf
  have hsurface : painted.surface =
      Surface.paint (fills (Surface.bounds p) compiled.batch compiled.scenes) p := by
    rw [show painted = _ from Operation.apply_eq _ _ _, hleaves]
  rw [hsurface]
  refine ⟨hp.paint fun f hf => ?_, Pixmap.size_paint _ _⟩
  exact color_of_mem_fills hlast hsuits (fun op hop => hbatch ▸ hop) _ hf

/-- **Exhibits have the size of the surfaces, and colors that scripts can draw with.** -/
theorem Sound.exhibit (h : c.Sound settings scenes) (hsuits : settings.Suits palette)
    {drawing standby : Pixmap} {size : Size}
    (hdrawing : drawing.KeepsTo palette ∧ drawing.size = size)
    (hstandby : standby.KeepsTo palette ∧ standby.size = size) (scripts : List (List Command)) :
    ∀ frame ∈ (c.exhibit scenes drawing standby scripts).reduceOption,
      frame.KeepsTo palette ∧ frame.size = size := by
  induction scripts generalizing c scenes drawing standby with
  | nil => exact fun _ hmem => absurd hmem List.not_mem_nil
  | cons commands rest ih =>
    obtain ⟨hkeeps, hsize⟩ := h.keepsTo_apply_run hsuits commands hdrawing.1
    have hpainted := And.intro hkeeps (hsize.trans hdrawing.2)
    have hnext := (h.run commands).apply (Operation.batch (c.run scenes commands).batch) drawing
    rw [Compiler.exhibit]
    -- Whether or not the surfaces change places, both of them keep to the palette afterwards.
    split
    · rw [List.reduceOption_cons_of_some]
      exact List.forall_mem_cons.mpr ⟨hpainted, ih hnext hstandby hpainted⟩
    · rw [List.reduceOption_cons_of_none]
      exact ih hnext hpainted hstandby

end Exhibit

end Script.Compiler

namespace Player

variable {ρ : Type} {settings : Settings}

/-- A player that is ready applies a batch as one message. The queue is empty and the worker alive,
so draining is one step, and the loop is as the batch leaves it. -/
theorem perform_eq (taken : ρ → Pixmap → ρ) {loop : Loop Pixmap ρ} (halive : loop.worker = .alive)
    (hqueue : loop.queue.items = []) {compiled : Compiler.Compiled} (hne : compiled.batch ≠ []) :
    let painted := (Operation.batch compiled.batch).apply compiled.scenes loop.drawing
    perform (.steady taken) loop compiled =
      ⟨compiled.compiler, painted.scenes,
        { loop.conclude (.steady taken) painted with queue := ⟨[]⟩ }⟩ := by
  intro painted
  have hpost : loop.post (.batch compiled.batch) =
      { loop with queue := loop.queue.push (.apply (.batch compiled.batch)) } := by
    obtain ⟨member, rest, hbatch⟩ := List.exists_cons_of_ne_nil hne
    rw [hbatch]
    rfl
  have hitems : (loop.post (.batch compiled.batch)).queue.items =
      [.apply (.batch compiled.batch)] := by
    rw [hpost, Queue.items_push, hqueue]
    rfl
  -- There is just one message, so draining takes one step.
  have hpending : (loop.post (.batch compiled.batch)).pending = 1 := by
    rw [Loop.pending, Queue.size, hitems]
    rfl
  have hworker : (loop.post (.batch compiled.batch)).worker = .alive :=
    (Loop.worker_post _ _).trans halive
  have hstep := Loop.step_of_apply (.steady taken) compiled.scenes hworker hitems
  have hdrain : (loop.post (.batch compiled.batch)).drain (.steady taken) compiled.scenes =
      ({ loop.conclude (.steady taken) painted with queue := ⟨[]⟩ }, painted.scenes) := by
    rw [Loop.drain, hpending, Loop.steps_succ, hstep, hpost, Loop.conclude_with_queue]
    rfl
  rw [perform, hdrain]

/-- **A player shows the exhibits of the scripts that it plays**, in order. It ends ready for the
next script, and it never fails, since all scripts can be read. -/
theorem exists_playAll (taken : ρ → Pixmap → ρ) {player : Player ρ} (hready : player.IsReady)
    (hsound : player.compiler.Sound settings player.scenes) {texts : List String}
    {scripts : List (List Command)}
    (hparse : texts.map Command.parseText = scripts.map .ok) :
    ∃ last, player.playAll (.steady taken) texts = .ok last ∧ last.IsReady ∧
      last.loop.receiver = (player.compiler.exhibit player.scenes player.loop.drawing
        player.loop.standby scripts).reduceOption.foldl taken player.loop.receiver := by
  induction texts generalizing player scripts with
  | nil =>
    obtain rfl : scripts = [] := List.map_eq_nil_iff.mp hparse.symm
    exact ⟨player, rfl, hready, rfl⟩
  | cons text rest ih =>
    cases scripts with
    | nil => exact absurd hparse nofun
    -- The player after this script is named, since the hypothesis of the induction is about it.
    | cons commands later =>
      obtain ⟨htext, hrest⟩ := List.cons.inj hparse
      let compiled := player.compiler.run player.scenes commands
      let painted := (Operation.batch compiled.batch).apply compiled.scenes player.loop.drawing
      let next : Player ρ := ⟨compiled.compiler, painted.scenes,
        { player.loop.conclude (.steady taken) painted with queue := ⟨[]⟩ }⟩
      have hne : compiled.batch ≠ [] := by
        obtain ⟨last, hbatch, -, hbackground⟩ := hsound.exists_run commands
        rw [hbatch]
        exact Session.assemble_ne_nil hbackground
      have hplay : player.play (.steady taken) text = .ok next := by
        rw [play, Compiler.compile, htext]
        exact congrArg Except.ok (perform_eq taken hready.1 hready.2 hne)
      have hnextReady : next.IsReady :=
        ⟨(Loop.conclude_steady_worker taken player.loop painted).trans hready.1, rfl⟩
      have hnextSound : next.compiler.Sound settings next.scenes :=
        (hsound.run commands).apply (Operation.batch compiled.batch) player.loop.drawing
      obtain ⟨last, hlast, hlastReady, hreceiver⟩ := ih hnextReady hnextSound hrest
      refine ⟨last, ?_, hlastReady, ?_⟩
      · rw [playAll, List.foldlM_cons, hplay]
        exact hlast
      · have hloop : next.loop =
            { player.loop.conclude (.steady taken) painted with queue := ⟨[]⟩ } :=
          rfl
        rw [hreceiver, Compiler.exhibit]
        -- The receiver gets the surface if the batch presents, and nothing otherwise.
        cases hshown : painted.ready with
        | true =>
          rw [Loop.conclude_steady_of_ready taken player.loop hshown] at hloop
          rw [if_pos rfl, List.reduceOption_cons_of_some, hloop]
          rfl
        | false =>
          rw [Loop.conclude_of_not_ready player.loop _ hshown] at hloop
          rw [if_neg Bool.false_ne_true, List.reduceOption_cons_of_none, hloop]

end Player

namespace Studio

variable {ρ : Type}

/-- An author who has got done with all calls does nothing more. -/
theorem write_of_isDone {ι σ : Type} [DecidableEq ι] {studio : Studio ι σ ρ} {i : ι}
    (h : (studio.authors i).IsDone) : studio.write i = studio := by
  obtain ⟨hunderway, hdone⟩ := h
  have hturn : (studio.authors i).turn studio.scenes = (studio.authors i, studio.scenes, none) := by
    generalize studio.authors i = author at *
    obtain ⟨⟨settings, session⟩, calls, done, underway⟩ := author
    obtain rfl : underway = none := hunderway
    exact Author.turn_idle (List.getElem?_eq_none hdone) studio.scenes
  rw [write, hturn]
  exact congrArg (fun authors => { studio with authors }) (Function.update_eq_self i studio.authors)

/-- A schedule may be followed by an author who would stop the loop at the end, but does not come to
that. Turns of an author who has got done are left out, for they would be the stop. -/
theorem exists_runToStop_eq {σ : Type} [Surface σ] (receive : Receiver σ ρ)
    (studio : Studio Unit σ ρ) (schedule : List (Turn Unit)) :
    ∃ same, studio.runToStop receive same = studio.run receive schedule := by
  induction schedule generalizing studio with
  | nil => exact ⟨[], rfl⟩
  | cons turn rest ih =>
    obtain ⟨same, hsame⟩ := ih (studio.turn receive turn)
    cases turn with
    | worker => exact ⟨.worker :: same, hsame⟩
    | author i =>
      by_cases hdone : (studio.authors i).IsDone
      · -- This turn is left out.
        have hidle : studio.turn receive (.author i) = studio := write_of_isDone hdone
        rw [hidle] at hsame
        exact ⟨same, hsame.trans (by rw [run, run, List.foldl_cons, hidle])⟩
      · refine ⟨.author i :: same, ?_⟩
        rw [runToStop, List.foldl_cons, turnToStop, proceed_of_not_isDone hdone]
        exact hsame

/-- Among the schedules that come to an end there is the one of a player. It is the schedule on
which the worker catches up after every script, with a stop at the end. -/
theorem exists_isOver_of_playAll (taken : ρ → Pixmap → ρ) (receiver : ρ) (settings : Settings)
    (canvas : Pixmap) {texts : List String} {last : Player ρ}
    (hplay : (Player.start settings canvas receiver).playAll (.steady taken) texts = .ok last) :
    ∃ schedule,
      let played := (opening ⟨settings, texts.map .text⟩ canvas canvas receiver).runToStop
        (.steady taken) schedule
      played.IsOver ∧ played.loop.receiver = last.loop.receiver := by
  have hready : (Player.start settings canvas receiver).IsReady := ⟨rfl, rfl⟩
  obtain ⟨hlast, schedule, posted, hrun⟩ := Player.exists_run_playAll taken hready hplay
    (List.drop_zero (l := texts.map Call.text)) []
  obtain ⟨same, hsame⟩ := exists_runToStop_eq (.steady taken)
    (opening ⟨settings, texts.map .text⟩ canvas canvas receiver) schedule
  have hplayed := hsame.trans hrun
  have horderly := (orderly_opening ⟨settings, texts.map .text⟩ canvas canvas receiver).runToStop
    (.steady taken) same
  rw [hplayed] at horderly
  generalize hstudio : ofPlayer last (texts.map .text) (0 + texts.length) posted = played
    at hplayed horderly
  have hloop : played.loop = last.loop := hstudio ▸ rfl
  have hdone : (played.authors ()).IsDone := by
    refine hstudio ▸ ⟨rfl, ?_⟩
    change (texts.map Call.text).length ≤ 0 + texts.length
    rw [List.length_map, Nat.zero_add]
  have halive : played.loop.worker = .alive := hloop ▸ hlast.1
  -- Nobody has asked for a stop, since neither is there one in the queue nor has the worker gone.
  have hrunning : played.loop.lifecycle = .running := by
    by_contra hasked
    rcases horderly.halting hasked with hmem | hgone
    · rw [hloop, hlast.2] at hmem
      exact List.not_mem_nil hmem
    · exact hgone halive
  -- What is left to do is to stop the loop.
  have hqueue : played.requestStop.loop.queue.items = [.halt] := by
    change played.loop.queue.items ++ [Message.halt] = _
    rw [hloop, hlast.2]
    rfl
  have hhand : played.requestStop.hand = none := hstudio ▸ rfl
  have hstop := work_of_halt (.steady taken) hhand halive hqueue
  refine ⟨same ++ [.author (), .worker], ?_⟩
  rw [runToStop_append, hplayed]
  change (played.proceed.work (.steady taken)).IsOver ∧
    (played.proceed.work (.steady taken)).loop.receiver = _
  rw [proceed_of_running hdone hrunning, hstop]
  exact ⟨⟨hdone, nofun, nofun, hhand⟩, congrArg (·.receiver) hloop⟩

/-- **The receiver of a studio is shown the exhibits**, on every schedule. It is enough to know what
one schedule shows, and the one of a player shows the exhibits. -/
theorem receiver_of_isOver (taken : ρ → Pixmap → ρ) (receiver : ρ) (settings : Settings)
    {texts : List String} {scripts : List (List Command)}
    (hparse : texts.map Command.parseText = scripts.map .ok) (canvas : Pixmap)
    {schedule : List (Turn Unit)}
    (hover : ((opening ⟨settings, texts.map .text⟩ canvas canvas receiver).runToStop (.steady taken)
      schedule).IsOver) :
    ((opening ⟨settings, texts.map .text⟩ canvas canvas receiver).runToStop (.steady taken)
        schedule).loop.receiver =
      ((Compiler.start settings .empty).1.exhibit (Compiler.start settings .empty).2 canvas canvas
        scripts).reduceOption.foldl taken receiver := by
  have hready : (Player.start settings canvas receiver).IsReady := ⟨rfl, rfl⟩
  obtain ⟨last, hplay, -, hreceiver⟩ :=
    Player.exists_playAll taken hready (Compiler.Reached.start .empty).sound hparse
  obtain ⟨played, hplayed, hlast⟩ := exists_isOver_of_playAll taken receiver settings canvas hplay
  -- All schedules that come to an end come to the same end.
  have horderly := orderly_opening ⟨settings, texts.map .text⟩ canvas canvas receiver
  rw [horderly.runToStop_eq (.steady taken) hover hplayed, hlast]
  exact hreceiver

end Studio

end Easel
