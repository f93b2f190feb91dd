import Easel.Proofs.Operation.Leaves
import Easel.Script.Compiler

/-!
# The history of a compiler

A compiler is reached by any calls from its start, refused scripts included. Between the calls
others use the scenes too: batches are applied, and other compilers work in scenes of their own.

* `Session.Sound` — what always holds of a session and the scenes;
* `Session.Sound.execute`, `Session.Sound.executeAll` — commands keep it;
* `Compiler.Reached` — the compilers that a history leads to;
* `Compiler.Reached.sound` — their sessions are sound, and batches have been given all moves.
-/

namespace Easel.Script

namespace Session

/-- What holds of a session and the scenes at any time. The clauses are about the scene of the
session only, so that others may use the scenes too. -/
structure Sound (settings : Settings) (s : Session) (scenes : Scenes) : Prop where
  /-- The scene of the session exists. -/
  has : scenes.Has s.scene
  /-- The session lists the figures of its scene, all of them and in order. -/
  figures : s.figures = (List.range (scenes.figures s.scene).size).map FigureId.mk
  /-- They have the color of the settings. -/
  colors : ∀ figure ∈ scenes.figures s.scene, figure.color = settings.figureColor
  /-- A move reaches the figures that existed at some time. -/
  moves : ∀ m ∈ s.moves, m.scene = s.scene ∧ m.targets <+: s.figures
  /-- The edges of the overlay are in order. -/
  overlay : ∀ rect, s.overlay? = some rect → rect.left ≤ rect.right ∧ rect.top ≤ rect.bottom
  /-- A background is missing only as long as all else is. -/
  background : s.background? = none → s.IsUntouched

/-- What others do to the scenes, as far as a session sees it: they move figures. They may open
scenes and change others as they like. -/
structure Intact (s : Session) (before after : Scenes) : Prop where
  size_all : before.all.size ≤ after.all.size
  colors : (after.figures s.scene).map Figure.color = (before.figures s.scene).map Figure.color

section Sound

variable {settings : Settings} {s : Session} {scenes : Scenes}

/-- What others do leaves the number of figures as it is. -/
theorem Intact.size_figures {after : Scenes} (h : s.Intact scenes after) :
    (after.figures s.scene).size = (scenes.figures s.scene).size := by
  have hsize := congrArg Array.size h.colors
  rwa [Array.size_map, Array.size_map] at hsize

/-- What others do keeps a session sound. -/
theorem Sound.intact {after : Scenes} (h : s.Sound settings scenes)
    (hintact : s.Intact scenes after) :
    s.Sound settings after where
  has := Nat.lt_of_lt_of_le h.has hintact.size_all
  figures := by rw [hintact.size_figures, h.figures]
  colors := by
    intro figure hfigure
    -- Figures may have been moved, but each of them has the color of one that was there before.
    have hcolor : figure.color ∈ (after.figures s.scene).map Figure.color :=
      Array.mem_map_of_mem hfigure
    rw [hintact.colors] at hcolor
    obtain ⟨former, hformer, hsame⟩ := Array.mem_map.mp hcolor
    rw [← hsame]
    exact h.colors former hformer
  moves := h.moves
  overlay := h.overlay
  background := h.background

/-- All that operations do to the scenes is to move figures, so applying a batch is something that
others may do. -/
theorem intact_settle (s : Session) (leaves : List Operation) (scenes : Scenes) :
    s.Intact scenes (Operation.settle leaves scenes) := by
  exact ⟨Nat.le_of_eq (Operation.size_all_settle _ _).symm, Operation.colors_settle _ _ _⟩

/-- A session without figures, moves and overlay is sound in an empty scene. -/
theorem sound_of_empty (hhas : scenes.Has s.scene) (hempty : scenes.figures s.scene = #[])
    (hoverlay : s.overlay? = none) (hfigures : s.figures = []) (hmoves : s.moves = []) :
    s.Sound settings scenes where
  has := hhas
  figures := by rw [hempty, hfigures]; rfl
  colors := by rw [hempty]; exact fun _ h => absurd h (Array.not_mem_empty _)
  moves := by rw [hmoves]; exact fun _ h => absurd h List.not_mem_nil
  overlay := fun rect hrect => absurd (hoverlay ▸ hrect) nofun
  background := fun h => ⟨h, hoverlay, hfigures, hmoves⟩

/-- A new session is sound in the scene that is opened for it. -/
theorem sound_new (scenes : Scenes) : (new scenes.create.1).Sound settings scenes.create.2 := by
  refine sound_of_empty ?_ ?_ rfl rfl rfl
  · exact Nat.lt_of_lt_of_eq (Nat.lt_succ_self _) (Scenes.size_all_create scenes).symm
  · rw [Scenes.figures_create]
    exact scenes.figures_fresh

/-- A session that has been reset is sound in its new scene. -/
theorem sound_reset (scenes : Scenes) : (reset scenes).1.Sound settings (reset scenes).2 := by
  have h : (new scenes.create.1).Sound settings scenes.create.2 := sound_new scenes
  exact sound_of_empty h.has (by rw [reset, Scenes.figures_create]; exact scenes.figures_fresh)
    rfl rfl rfl

/-- Beginning a script keeps a session sound. It may select the black background, of a session that
nothing was done with. -/
theorem Sound.begin (h : s.Sound settings scenes) : s.begin.Sound settings scenes where
  has := h.has
  figures := h.figures
  colors := h.colors
  moves := h.moves
  overlay := h.overlay
  background := by
    intro hnone
    by_cases huntouched : s.IsUntouched
    · rw [Session.begin, if_pos huntouched] at hnone
      exact absurd hnone nofun
    · rw [Session.begin, if_neg huntouched] at hnone
      exact absurd (h.background hnone) huntouched

/-- When a script begins, there is a background: the one selected before, or black. -/
theorem Sound.background?_begin (h : s.Sound settings scenes) :
    s.begin.background? = some (s.background?.getD .reset) := by
  cases hbackground : s.background? with
  -- Without a background nothing has been done with the session, and black is selected.
  | none => rw [Session.begin, if_pos (h.background hbackground)]; rfl
  | some shade =>
    have huntouched : ¬ s.IsUntouched := fun hc => absurd (hbackground.symm.trans hc.1) nofun
    rw [Session.begin, if_neg huntouched, hbackground]; rfl

/-- The rectangle of two corners has its edges in order, whichever corners they are. -/
theorem ofCorners_ordered (xa ya xb yb : Coord) :
    (Rect.ofCorners xa ya xb yb).left ≤ (Rect.ofCorners xa ya xb yb).right ∧
      (Rect.ofCorners xa ya xb yb).top ≤ (Rect.ofCorners xa ya xb yb).bottom := by
  simp only [Rect.ofCorners, Coord.le_iff, Coord.min_val, Coord.max_val]
  omega

/-- **Every command keeps a session sound**, and the background that was there stays or is
replaced. -/
theorem Sound.execute (h : s.Sound settings scenes) (hbackground : s.background? ≠ none)
    (command : Command) :
    (s.execute settings scenes command).1.Sound settings (s.execute settings scenes command).2 ∧
      (s.execute settings scenes command).1.background? ≠ none := by
  obtain ⟨hhas, hfigures, hcolors, hmoves, hoverlay, -⟩ := h
  -- Only a new figure and a reset touch the scenes, only a move touches the moves.
  cases command with
  | background shade =>
    exact ⟨⟨hhas, hfigures, hcolors, hmoves, hoverlay, nofun⟩, nofun⟩
  | update =>
    exact ⟨⟨hhas, hfigures, hcolors, hmoves, hoverlay, fun hnone => absurd hnone hbackground⟩,
      hbackground⟩
  | bgrect x1 y1 x2 y2 =>
    -- The corners are sorted, in whatever order they are given.
    refine ⟨⟨hhas, hfigures, hcolors, hmoves, fun rect hrect => ?_,
      fun hnone => absurd hnone hbackground⟩, hbackground⟩
    rw [← Option.some.inj hrect]
    exact ofCorners_ordered _ _ _ _
  | figure x y =>
    -- The figure stands at the end of the row, with the number that the session lists for it.
    have hrow : (s.execute settings scenes (.figure x y)).2.figures
          (s.execute settings scenes (.figure x y)).1.scene =
        (scenes.figures s.scene).push ⟨settings.scale x, settings.scale y, settings.figureColor⟩ :=
      Scenes.figures_update_self hhas (·.push _)
    refine ⟨⟨?_, ?_, ?_, fun m hm => ?_, hoverlay, fun hnone => absurd hnone hbackground⟩,
      hbackground⟩
    · exact Nat.lt_of_lt_of_eq hhas (Scenes.size_all_insert scenes s.scene _).symm
    · change s.figures ++ [⟨(scenes.figures s.scene).size⟩] = _
      rw [hrow, Array.size_push, List.range_succ, List.map_append, hfigures]
      rfl
    · intro figure hfigure
      rw [hrow, Array.mem_push] at hfigure
      rcases hfigure with hfigure | rfl
      · exact hcolors figure hfigure
      · rfl
    · -- The targets are still an initial part of the figures.
      exact ⟨(hmoves m hm).1, (hmoves m hm).2.trans (List.prefix_append _ _)⟩
  | move dx dy =>
    refine ⟨⟨hhas, hfigures, hcolors, fun m hm => ?_, hoverlay,
      fun hnone => absurd hnone hbackground⟩, hbackground⟩
    rcases List.mem_append.mp hm with hm | hm
    · exact hmoves m hm
    · rw [List.mem_singleton.mp hm]
      exact ⟨rfl, List.prefix_rfl⟩
  | reset => exact ⟨sound_reset scenes, nofun⟩

/-- How a command makes the scenes grow: by a figure, by a scene, or not at all. -/
def growth? (settings : Settings) (s : Session) : Command → Option Scenes.Growth
  | .figure x y =>
    some (.figure s.scene ⟨settings.scale x, settings.scale y, settings.figureColor⟩)
  | .reset => some .scene
  | .background _ | .update | .bgrect .. | .move .. => none

/-- All that a command does to the scenes is to make them grow. It moves nothing, as moves wait for
the batch. -/
theorem execute_scenes (settings : Settings) (s : Session) (scenes : Scenes) (command : Command) :
    (s.execute settings scenes command).2 =
      (s.growth? settings command).elim scenes scenes.grow := by
  cases command <;> rfl

/-- A command leaves all figures that there are. -/
theorem extends_execute (settings : Settings) (s : Session) (scenes : Scenes) (command : Command) :
    (s.execute settings scenes command).2.Extends scenes := by
  rw [execute_scenes]
  cases s.growth? settings command with
  | none => exact .refl scenes
  | some growth => exact scenes.extends_grow growth

/-- Commands leave all figures that there are. -/
theorem extends_executeAll (settings : Settings) (s : Session) (scenes : Scenes)
    (commands : List Command) : (s.executeAll settings scenes commands).2.Extends scenes := by
  induction commands generalizing s scenes with
  | nil => exact .refl scenes
  | cons command rest ih => exact (ih _ _).trans (extends_execute settings s scenes command)

/-- Commands in two parts are carried out one part after the other. -/
theorem executeAll_append (settings : Settings) (s : Session) (scenes : Scenes)
    (commands later : List Command) :
    s.executeAll settings scenes (commands ++ later) =
      (s.executeAll settings scenes commands).1.executeAll settings
        (s.executeAll settings scenes commands).2 later := by
  induction commands generalizing s scenes with
  | nil => rfl
  | cons command rest ih => exact ih _ _

/-- The last command is carried out after all others. -/
theorem executeAll_concat (settings : Settings) (s : Session) (scenes : Scenes)
    (commands : List Command) (command : Command) :
    s.executeAll settings scenes (commands ++ [command]) =
      (s.executeAll settings scenes commands).1.execute settings
        (s.executeAll settings scenes commands).2 command :=
  executeAll_append settings s scenes commands [command]

/-- **Any list of commands keeps a session sound.** Each of them does, and the background is there
for the next one. -/
theorem Sound.executeAll (h : s.Sound settings scenes) (hbackground : s.background? ≠ none)
    (commands : List Command) :
    (s.executeAll settings scenes commands).1.Sound settings
        (s.executeAll settings scenes commands).2 ∧
      (s.executeAll settings scenes commands).1.background? ≠ none := by
  induction commands generalizing s scenes with
  | nil => exact ⟨h, hbackground⟩
  | cons command rest ih =>
    obtain ⟨hnext, hnextBackground⟩ := h.execute hbackground command
    exact ih hnext hnextBackground

/-- A session that has handed over its moves keeps the rest. The bare present is no exception, as
there are no moves then. -/
theorem assemble_eq (s : Session) : s.assemble =
    (if s.IsBarePresent then [.present] else s.operations, { s with moves := [] }) := by
  unfold assemble
  split
  · next hbare =>
    obtain ⟨background?, overlay?, scene, figures, moves, requested⟩ := s
    obtain ⟨-, -, -, -, rfl : moves = []⟩ := hbare
    rfl
  · rfl

/-- Handing over takes the moves away, and nothing else. -/
theorem assemble_snd (s : Session) : s.assemble.2 = { s with moves := [] } :=
  congrArg Prod.snd s.assemble_eq

/-- What a batch consists of: besides background, overlay and the request to present there are the
moves of the session, and the figures of its scene. -/
theorem mem_assemble {s : Session} {op : Operation} (hop : op ∈ s.assemble.1) :
    (∃ shade : Background, op = .fill shade.color) ∨ (∃ rect, op = .overlay rect) ∨
      (∃ m ∈ s.moves, op = .move m) ∨ (∃ id ∈ s.figures, op = .figure ⟨s.scene, id⟩) ∨
      op = .present := by
  rw [assemble_eq] at hop
  dsimp only at hop
  split at hop
  · exact Or.inr (Or.inr (Or.inr (Or.inr (List.mem_singleton.mp hop))))
  · -- The five parts of a batch, from the last one back to the first.
    simp only [operations, List.mem_append, List.mem_map] at hop
    rcases hop with (((⟨shade, -, rfl⟩ | ⟨rect, -, rfl⟩) | ⟨m, hm, rfl⟩) | ⟨id, hid, rfl⟩) | hop
    · exact Or.inl ⟨shade, rfl⟩
    · exact Or.inr (Or.inl ⟨rect, rfl⟩)
    · exact Or.inr (Or.inr (Or.inl ⟨m, hm, rfl⟩))
    · exact Or.inr (Or.inr (Or.inr (Or.inl ⟨id, hid, rfl⟩)))
    · split at hop
      · exact Or.inr (Or.inr (Or.inr (Or.inr (List.mem_singleton.mp hop))))
      · exact absurd hop List.not_mem_nil

/-- Handing over keeps a session sound, and leaves it without moves. -/
theorem Sound.assemble (h : s.Sound settings scenes) (hbackground : s.background? ≠ none) :
    s.assemble.2.Sound settings scenes ∧ s.assemble.2.moves = [] := by
  unfold Session.assemble
  split
  · next hbare => exact ⟨h, hbare.2.2.2.2⟩
  · refine ⟨⟨h.has, h.figures, h.colors, ?_, h.overlay, ?_⟩, rfl⟩
    · exact fun _ hm => absurd hm List.not_mem_nil
    · exact fun hnone => absurd hnone hbackground

end Sound

end Session

namespace Compiler

/-- What holds of a compiler and the scenes between two calls. While a script is compiled there may
be moves that wait, but not when it is done. -/
structure Sound (settings : Settings) (c : Compiler) (scenes : Scenes) : Prop where
  configured : c.settings = settings
  session : c.session.Sound settings scenes
  /-- Batches have been given all moves. -/
  moves : c.session.moves = []

/-- What a call leaves behind: a script that is refused changes nothing. -/
def after (c : Compiler) (scenes : Scenes) : Except ParseError Compiled → Compiler × Scenes
  | .ok done => (done.compiler, done.scenes)
  | .error _ => (c, scenes)

/-- The compilers that a history leads to, each with the scenes at that time. Between the calls
anything may happen that leaves the session intact. -/
inductive Reached (settings : Settings) : Compiler → Scenes → Prop where
  | start (scenes : Scenes) :
      Reached settings (Compiler.start settings scenes).1 (Compiler.start settings scenes).2
  | compile {c : Compiler} {scenes : Scenes} (script : String) : Reached settings c scenes →
      Reached settings (c.after scenes (c.compile scenes script)).1
        (c.after scenes (c.compile scenes script)).2
  | compileSource {c : Compiler} {scenes : Scenes} (source : Text.ByteSource) :
      Reached settings c scenes →
      Reached settings (c.after scenes (c.compileSource scenes source)).1
        (c.after scenes (c.compileSource scenes source)).2
  | reset {c : Compiler} {scenes : Scenes} : Reached settings c scenes →
      Reached settings (c.reset scenes).1 (c.reset scenes).2
  | meanwhile {c : Compiler} {scenes after : Scenes} : Reached settings c scenes →
      c.session.Intact scenes after → Reached settings c after

section Reached

variable {settings : Settings} {c : Compiler} {scenes : Scenes}

/-- Compiling commands keeps a compiler sound. -/
theorem Sound.run (h : c.Sound settings scenes) (commands : List Command) :
    (c.run scenes commands).compiler.Sound settings (c.run scenes commands).scenes := by
  obtain ⟨rfl, hsession, -⟩ := h
  have hbackground : c.session.begin.background? ≠ none := by
    rw [hsession.background?_begin]
    exact Option.some_ne_none _
  -- The commands keep it sound, and handing over takes the moves away.
  obtain ⟨hall, hbackground⟩ := hsession.begin.executeAll hbackground commands
  obtain ⟨hassembled, hmoves⟩ := hall.assemble hbackground
  exact ⟨rfl, hassembled, hmoves⟩

/-- A call keeps a compiler sound, whether the script is refused or not. -/
theorem Sound.after (h : c.Sound settings scenes) (commands? : Except ParseError (List Command)) :
    (c.after scenes (commands?.map (c.run scenes))).1.Sound settings
      (c.after scenes (commands?.map (c.run scenes))).2 := by
  cases commands? with
  | error e => exact h
  | ok commands => exact h.run commands

/-- **Every compiler that a history leads to is sound**: each call keeps it so, and so does what
happens in between. -/
theorem Reached.sound (h : Reached settings c scenes) : c.Sound settings scenes := by
  induction h with
  | start scenes => exact ⟨rfl, Session.sound_new scenes, rfl⟩
  | compile script _ ih => exact ih.after (Command.parseText script)
  | compileSource source _ ih => exact ih.after (Command.parseSource source)
  | reset _ ih => exact ⟨ih.configured, Session.sound_reset _, rfl⟩
  | meanwhile _ hintact ih => exact ⟨ih.configured, ih.session.intact hintact, ih.moves⟩

/-- Any operation may be applied between two calls, the batch of the compiler itself or another
one. -/
theorem Reached.apply {σ : Type} [Surface σ] [LawfulSurface σ] (h : Reached settings c scenes)
    (op : Operation) (surface : σ) : Reached settings c (op.apply scenes surface).scenes := by
  rw [Operation.apply_eq]
  exact h.meanwhile (c.session.intact_settle op.leaves scenes)

end Reached

end Compiler

end Easel.Script
