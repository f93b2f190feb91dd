import Easel.Canvas.Recording
import Easel.Proofs.Canvas.Painting
import Easel.Proofs.Script.Showing
import Easel.Proofs.Text.Joining

/-!
# Scripts that are split

It makes no difference whether a script is compiled as a whole or cut in two, as long as the batch
of the first part is applied before the second part is compiled. The two ways hand over the moves at
different times: one at the cut, the other at the end.

* `Session.Alike` — sessions that differ only in which of their moves have been handed over;
* `Session.Alike.executeAll`, `Session.Sound.alike_cut` — commands keep them alike, and so does a
  cut;
* `Session.Alike.fills_assemble` — they draw the same;
* `Compiler.Reached.split_unobservable` — the comparison of the two ways.
-/

namespace Easel.Script

namespace Session

/-- The present state of a figure of the session, given by its place among them. Two sessions are
compared by places, as their scenes may have different names. -/
def figure? (s : Session) (scenes : Scenes) (place : Nat) : Option Figure :=
  s.figures[place]?.bind fun id => scenes.get? s.scene id

/-- Two sessions that say the same, if one counts the moves that wait as carried out. Which moves
wait, and so the scenes, may differ between them. -/
structure Alike (s : Session) (scenes : Scenes) (t : Session) (others : Scenes) : Prop where
  background : s.background? = t.background?
  overlay : s.overlay? = t.overlay?
  pushed : s.pushed scenes = t.pushed others

section Alike

variable {settings : Settings} {s t : Session} {scenes others : Scenes}

/-- A session has as many figures as its scene. -/
theorem length_pushed (s : Session) (scenes : Scenes) :
    (s.pushed scenes).length = (scenes.figures s.scene).size := by
  rw [Session.pushed, Array.length_toList, Move.size_pushAll]

/-- The list of figures is told by how many there are. -/
theorem Sound.figures_eq (h : s.Sound settings scenes) :
    s.figures = (List.range (s.pushed scenes).length).map FigureId.mk := by
  rw [length_pushed]
  exact h.figures

/-- **Sessions that are alike stay so**, whatever they hear: a command changes what is said in the
same way on both sides. -/
theorem Alike.execute (h : s.Alike scenes t others) (hs : s.Sound settings scenes)
    (ht : t.Sound settings others) (command : Command) :
    (s.execute settings scenes command).1.Alike (s.execute settings scenes command).2
      (t.execute settings others command).1 (t.execute settings others command).2 := by
  by_cases hcommand : command = .reset
  · -- Both forget everything.
    subst hcommand
    exact ⟨rfl, rfl, (pushed_reset scenes).trans (pushed_reset others).symm⟩
  · have hpushed :
        (s.execute settings scenes command).1.pushed (s.execute settings scenes command).2 =
        (t.execute settings others command).1.pushed (t.execute settings others command).2 := by
      rw [hs.pushed_execute hcommand, ht.pushed_execute hcommand, h.pushed]
    cases command with
    | reset => exact absurd rfl hcommand
    | background shade => exact ⟨rfl, h.overlay, hpushed⟩
    | bgrect x1 y1 x2 y2 => exact ⟨h.background, rfl, hpushed⟩
    | _ => exact ⟨h.background, h.overlay, hpushed⟩

/-- Sessions that are alike stay so under any commands. -/
theorem Alike.executeAll (h : s.Alike scenes t others) (hs : s.Sound settings scenes)
    (ht : t.Sound settings others) (hbackground : s.background? ≠ none) (commands : List Command) :
    (s.executeAll settings scenes commands).1.Alike (s.executeAll settings scenes commands).2
      (t.executeAll settings others commands).1 (t.executeAll settings others commands).2 := by
  induction commands generalizing s t scenes others with
  | nil => exact h
  | cons command rest ih =>
    obtain ⟨hs', hbackground'⟩ := hs.execute hbackground command
    obtain ⟨ht', -⟩ := ht.execute (h.background ▸ hbackground) command
    exact ih (h.execute hs ht command) hs' ht' hbackground'

/-- **A cut makes no difference.** Hand over the moves, apply the batch and begin with another
script: what the session says is the same as if it had gone on. -/
theorem Sound.alike_cut (h : s.Sound settings scenes) (hbackground : s.background? ≠ none) :
    s.assemble.2.begin.Alike (Operation.settle s.assemble.1 scenes) s scenes := by
  have hassembled := (h.assemble hbackground).1
  refine ⟨?_, ?_, ?_⟩
  · -- The session has a background by now, so beginning anew does not bring in another one.
    obtain ⟨shade, hshade⟩ := Option.ne_none_iff_exists'.mp hbackground
    rw [hassembled.background?_begin, assemble_snd]
    show some (s.background?.getD .reset) = s.background?
    rw [hshade]
    rfl
  · rw [assemble_snd]
    rfl
  · -- The moves have been carried out by the batch instead.
    have hrow := h.figures_settle_assemble
    rw [assemble_snd]
    exact congrArg Array.toList hrow

/-- Figures are told apart by their places, and are where the moves push them, once the batch has
been applied. -/
theorem Sound.figure?_settle_assemble (h : s.Sound settings scenes) (place : Nat) :
    s.assemble.2.figure? (Operation.settle s.assemble.1 scenes) place =
      (s.pushed scenes)[place]? := by
  have hrow : ∀ id : FigureId, (Operation.settle s.assemble.1 scenes).get? s.scene id =
      (s.pushed scenes)[id.index]? := by
    intro id
    rw [Scenes.get?, h.figures_settle_assemble, Session.pushed, Array.getElem?_toList]
  rw [figure?, assemble_snd]
  dsimp only
  rw [h.figures_eq, List.getElem?_map]
  rcases Nat.lt_or_ge place (s.pushed scenes).length with hlt | hge
  · rw [List.getElem?_range hlt]
    exact hrow ⟨place⟩
  · rw [List.getElem?_eq_none (by rwa [List.length_range]), List.getElem?_eq_none hge]
    rfl

/-- A batch that does more than present draws what the session says: its background, its overlay,
and its figures where the moves take them. -/
theorem Sound.fills_assemble (h : s.Sound settings scenes) (hbare : s.assemble.1 ≠ [.present])
    (bounds : Rect) : Operation.fills bounds s.assemble.1 scenes =
      (s.background?.toList.map fun shade => (bounds, shade.color)) ++
        (s.overlay?.toList.map fun rect => (rect, Operation.overlayColor)) ++
        (s.pushed scenes).flatMap Figure.fills := by
  rw [assemble_eq] at hbare ⊢
  dsimp only at hbare ⊢
  split
  · next hc =>
    rw [if_pos hc] at hbare
    exact absurd rfl hbare
  · exact h.fills_operations bounds

/-- **Sessions that are alike draw the same**, unless one of them does nothing but present. -/
theorem Alike.fills_assemble (h : s.Alike scenes t others) (hs : s.Sound settings scenes)
    (ht : t.Sound settings others) (hsbare : s.assemble.1 ≠ [.present])
    (htbare : t.assemble.1 ≠ [.present]) (bounds : Rect) :
    Operation.fills bounds s.assemble.1 scenes = Operation.fills bounds t.assemble.1 others := by
  rw [hs.fills_assemble hsbare, ht.fills_assemble htbare, h.background, h.overlay, h.pushed]

/-- **Sessions that are alike have the same background, overlay and figures** once the batches have
been applied. -/
theorem Alike.assemble (h : s.Alike scenes t others) (hs : s.Sound settings scenes)
    (ht : t.Sound settings others) :
    s.assemble.2.background? = t.assemble.2.background? ∧
      s.assemble.2.overlay? = t.assemble.2.overlay? ∧
      s.assemble.2.figures.length = t.assemble.2.figures.length ∧
      ∀ place < t.assemble.2.figures.length, ∃ figure,
        s.assemble.2.figure? (Operation.settle s.assemble.1 scenes) place = some figure ∧
          t.assemble.2.figure? (Operation.settle t.assemble.1 others) place = some figure := by
  -- Figures are numbered in the order of their creation, so their number says which ones there are.
  have hfigures : s.figures = t.figures := by rw [hs.figures_eq, ht.figures_eq, h.pushed]
  refine ⟨?_, ?_, ?_, fun place hplace => ?_⟩
  · rw [assemble_snd, assemble_snd]
    exact h.background
  · rw [assemble_snd, assemble_snd]
    exact h.overlay
  · rw [assemble_snd, assemble_snd]
    exact congrArg List.length hfigures
  · have hlt : place < (t.pushed others).length := by
      rw [assemble_snd, ht.figures_eq] at hplace
      simpa using hplace
    rw [hs.figure?_settle_assemble, ht.figure?_settle_assemble, h.pushed]
    exact ⟨_, List.getElem?_eq_getElem hlt, List.getElem?_eq_getElem hlt⟩

/-- A script that is cut in two, and the same script as a whole, lead to sessions that are alike.
Both are sound, which is what comparing their batches takes. -/
theorem Sound.alike_split (h : s.Sound settings scenes) (commands later : List Command) :
    let cut := s.begin.executeAll settings scenes commands
    let second := cut.1.assemble.2.begin.executeAll settings
      (Operation.settle cut.1.assemble.1 cut.2) later
    let whole := s.begin.executeAll settings scenes (commands ++ later)
    second.1.Sound settings second.2 ∧ whole.1.Sound settings whole.2 ∧
      second.1.Alike second.2 whole.1 whole.2 := by
  intro cut second whole
  have hbegin : s.begin.background? ≠ none := by
    rw [h.background?_begin]
    exact Option.some_ne_none _
  -- The two ways part at the cut, where the batch of the first part is applied or not.
  obtain ⟨hcut, hbackground⟩ : cut.1.Sound settings cut.2 ∧ cut.1.background? ≠ none :=
    h.begin.executeAll hbegin commands
  have halike := hcut.alike_cut hbackground
  have hanew : cut.1.assemble.2.begin.Sound settings (Operation.settle cut.1.assemble.1 cut.2) :=
    ((hcut.assemble hbackground).1.intact (intact_settle _ _ _)).begin
  have hanewBackground : cut.1.assemble.2.begin.background? ≠ none := by
    rw [halike.background]
    exact hbackground
  have hwhole : whole = cut.1.executeAll settings cut.2 later := executeAll_append _ _ _ _ _
  rw [hwhole]
  exact ⟨(hanew.executeAll hanewBackground later).1, (hcut.executeAll hbackground later).1,
    halike.executeAll hanew hcut hanewBackground later⟩

end Alike

end Session

namespace Compiler

/-- The batch of a script is applied to a surface, in the scenes that compiling has left. -/
def Compiled.apply {σ : Type} [Surface σ] (done : Compiled) (surface : σ) : Applied σ :=
  Operation.applyAll done.batch done.scenes surface

/-- Batches are not nested, so they are their own leaves, and what applying one does can be read off
the session. -/
theorem apply_run {σ : Type} [Surface σ] [LawfulSurface σ] (c : Compiler) (scenes : Scenes)
    (commands : List Command) (surface : σ) :
    let last := c.session.begin.executeAll c.settings scenes commands
    (c.run scenes commands).apply surface =
      ⟨last.1.presentRequested, Operation.settle last.1.assemble.1 last.2,
        Surface.paint (Operation.fills (Surface.bounds surface) last.1.assemble.1 last.2)
          surface⟩ := by
  intro last
  have hleaves : Operation.leavesAll last.1.assemble.1 = last.1.assemble.1 :=
    Operation.leavesAll_of_forall fun _ => Session.leaves_of_mem_assemble
  rw [← Session.presentsAny_assemble]
  conv_rhs => rw [← hleaves]
  rw [Operation.presentsAny_leavesAll]
  exact Operation.applyAll_eq _ _ _

/-- **It makes no difference whether a script is split.** On the one hand, compile a script, apply
its batch, compile another one and apply that batch. On the other, join the scripts by a line feed,
compile them as one and apply the batch.

Both ways lead to the same background, overlay and figures, in the same places. The last batches
issue the same fills, unless one of them does nothing but present. And the batch of the joined
scripts presents if the later one asks for it, or if the earlier one does and the later one does not
reset. -/
theorem Reached.split_unobservable {settings : Settings} {c : Compiler} {scenes : Scenes}
    (history : Reached settings c scenes) {script later : String}
    {commands laterCommands : List Command} (hscript : Command.parseText script = .ok commands)
    (hlater : Command.parseText later = .ok laterCommands) {σ : Type} [Surface σ] [LawfulSurface σ]
    (surface : σ) (canvas : Recording) :
    ∃ first second whole : Compiled,
      c.compile scenes script = .ok first ∧
      first.compiler.compile (first.apply surface).scenes later = .ok second ∧
      c.compile scenes (script ++ "\n" ++ later) = .ok whole ∧
      second.compiler.session.background? = whole.compiler.session.background? ∧
      second.compiler.session.overlay? = whole.compiler.session.overlay? ∧
      second.compiler.figureCount = whole.compiler.figureCount ∧
      (∀ place < whole.compiler.figureCount, ∃ figure,
        second.compiler.session.figure? (second.apply canvas).scenes place = some figure ∧
          whole.compiler.session.figure? (whole.apply canvas).scenes place = some figure) ∧
      (second.batch ≠ [.present] → whole.batch ≠ [.present] →
        (second.apply canvas).surface = (whole.apply canvas).surface) ∧
      ((whole.apply canvas).ready = true ↔
        IsShown laterCommands ∨ (.reset ∉ laterCommands ∧ IsShown commands)) := by
  obtain ⟨rfl, hsound, -⟩ := history.sound
  obtain ⟨hsecond, hwhole, halike⟩ := hsound.alike_split commands laterCommands
  -- What is compiled, by its commands.
  let first := c.run scenes commands
  let settled := Operation.settle first.batch first.scenes
  let second := first.compiler.run settled laterCommands
  let whole := c.run scenes (commands ++ laterCommands)
  -- The surface of the first batch does not matter for the scenes that it leaves.
  have hfirst : (first.apply surface).scenes = settled :=
    congrArg Applied.scenes (c.apply_run scenes commands surface)
  have hsecondApply := first.compiler.apply_run settled laterCommands canvas
  have hwholeApply := c.apply_run scenes (commands ++ laterCommands) canvas
  obtain ⟨hbackground, hoverlay, hcount, hfigures⟩ := halike.assemble hsecond hwhole
  refine ⟨first, second, whole, ?_, ?_, ?_, hbackground, hoverlay, hcount, ?_, ?_, ?_⟩
  · exact congrArg (Except.map (c.run scenes)) hscript
  · rw [hfirst]
    exact congrArg (Except.map (first.compiler.run settled)) hlater
  · exact congrArg (Except.map (c.run scenes)) (Command.parseText_append hscript hlater)
  · rw [hsecondApply, hwholeApply]
    exact hfigures
  · intro hsecondBare hwholeBare
    rw [hsecondApply, hwholeApply]
    -- The two batches issue the same fills, so they paint the same on any canvas.
    exact congrArg (Surface.paint · canvas)
      (halike.fills_assemble hsecond hwhole hsecondBare hwholeBare (Surface.bounds canvas))
  · rw [hwholeApply, ← isShown_append]
    exact Session.presentRequested_executeAll rfl scenes (commands ++ laterCommands)

/-- A figure that is moved before and after the cut, where the earlier script asks to be shown and
ends in a carriage return. -/
theorem split_unobservable_moved :
    let origin := start .standard .empty
    let canvas := Recording.ofSize 0 ⟨2, 1, by decide, by decide⟩
    ∃ first second whole : Compiled,
      origin.1.compile origin.2 "figure 0 0\nmove 1 0\nupdate\r" = .ok first ∧
      first.compiler.compile (first.apply canvas).scenes "move 0 1" = .ok second ∧
      origin.1.compile origin.2 ("figure 0 0\nmove 1 0\nupdate\r" ++ "\n" ++ "move 0 1") =
        .ok whole ∧
      second.compiler.figureCount = whole.compiler.figureCount ∧
      (whole.apply canvas).ready = true := by
  intro origin canvas
  -- Texts are read by computation, which needs a result without errors to compare.
  have hparse : ∀ {script : String} {commands : List Command},
      (Command.parseText script).toOption = some commands →
        Command.parseText script = .ok commands := by
    intro script commands h
    cases hread : Command.parseText script with
    | ok found =>
      rw [hread] at h
      exact congrArg Except.ok (Option.some.inj h)
    | error e =>
      rw [hread] at h
      exact absurd h nofun
  let one : Binary64 := .ofBits 0x3FF0000000000000
  have hscript : Command.parseText "figure 0 0\nmove 1 0\nupdate\r" =
      .ok [.figure (.zero false) (.zero false), .move one (.zero false), .update] :=
    hparse (by decide +kernel)
  have hlater : Command.parseText "move 0 1" = .ok [.move (.zero false) one] :=
    hparse (by decide +kernel)
  obtain ⟨first, second, whole, hfirst, hsecond, hwhole, -, -, hcount, -, -, hready⟩ :=
    Reached.split_unobservable (.start .empty) hscript hlater canvas canvas
  exact ⟨first, second, whole, hfirst, hsecond, hwhole, hcount,
    hready.mpr (Or.inr ⟨by decide +kernel, by decide +kernel⟩)⟩

end Compiler

end Easel.Script
