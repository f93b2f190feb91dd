import Easel.Proofs.Script.History
import Easel.Proofs.Script.Reading

/-!
# What a script compiles to

Carrying out the commands of a script one after another leaves exactly what the commands after the
last reset say, added to what the session has carried so far (`Session.told`).

* `Session.Follows` — how a session and the scenes stand to the commands carried out so far;
* `Session.follows_executeAll` — they always do;
* `Compiler.Reached.run_specification` — the batch of a script, and all that compiling it leaves
  behind.
-/

namespace Easel.Script

namespace Session

/-- The session that commands without a reset leave to one that has carried something. The last
background and overlay win over the carried ones, and figures are added to the carried figures. -/
def told (settings : Settings) (carried : Session) (tail : List Command) : Session where
  background? := some (((lastBackground? tail).or carried.background?).getD .reset)
  overlay? := (lastOverlay? settings tail).or carried.overlay?
  scene := carried.scene
  figures := carried.figures ++ createdIds carried.figures.length tail
  moves := movesAmong settings carried.scene carried.figures tail
  presentRequested := .update ∈ tail

/-- What the commands after the last reset start from: a new session if there is a reset, and else
what there was. -/
def carried (s : Session) (scene : SceneId) (commands : List Command) : Session :=
  if .reset ∈ commands then new scene else s

/-- How a session and the scenes stand to the ones before, once commands have been carried out: the
session is the one that is told, and the scenes have got its figures. -/
structure Follows (settings : Settings) (s : Session) (scenes : Scenes) (commands : List Command)
    (last : Session) (after : Scenes) : Prop where
  told : last = told settings (s.carried last.scene commands) (sinceReset commands)
  /-- A reset opens a scene that did not exist. -/
  fresh : .reset ∈ commands → ¬ scenes.Has last.scene
  /-- The figures created since the last reset stand behind the ones that were there. -/
  row : after.figures last.scene =
    (if .reset ∈ commands then #[] else scenes.figures s.scene) ++
      (created settings (sinceReset commands)).toArray
  /-- Figures that existed stay as they were. -/
  extension : after.Extends scenes

section Follows

variable {settings : Settings} {s last : Session} {scenes after : Scenes} {commands : List Command}

/-- A session that has been told something is told one more thing, by carrying it out. -/
theorem execute_told (carried : Session) (tail : List Command) {command : Command}
    (hcommand : command ≠ .reset)
    (hsize : (scenes.figures carried.scene).size =
      carried.figures.length + tail.countP Command.isFigure) :
    ((told settings carried tail).execute settings scenes command).1 =
      told settings carried (tail ++ [command]) := by
  simp only [told, lastBackground?_concat, lastOverlay?_concat, createdIds_concat,
    movesAmong_concat]
  -- A new figure is numbered by the size of the scene, which is the number of figures so far.
  cases command with
  | reset => exact absurd rfl hcommand
  | background shade => simp [execute, Command.background?, Command.overlay?, Command.isFigure]
  | update => simp [execute, Command.background?, Command.overlay?, Command.isFigure]
  | bgrect x1 y1 x2 y2 =>
    simp [execute, Command.background?, Command.overlay?, Command.isFigure]
  | figure x y =>
    simp [execute, Command.background?, Command.overlay?, Command.isFigure, Scenes.insert, hsize]
  | move dx dy => simp [execute, Command.background?, Command.overlay?, Command.isFigure]

/-- What the last commands start from is in the scene of the session already. -/
theorem Follows.scene_carried (h : s.Follows settings scenes commands last after) :
    (s.carried last.scene commands).scene = last.scene := by
  conv_rhs => rw [h.told]
  rfl

/-- A session that does not hear of a reset stays in its scene, and its figures in their row. -/
theorem Follows.scene_of_not_mem (h : s.Follows settings scenes commands last after)
    (hmem : .reset ∉ commands) : last.scene = s.scene := by
  rw [← h.scene_carried, carried, if_neg hmem]

/-- A reset begins a tail in a scene that did not exist, with nothing in it. -/
theorem Follows.reset (h : s.Follows settings scenes commands last after) :
    s.Follows settings scenes (commands ++ [.reset]) (reset after).1 (reset after).2 := by
  have hmem : Command.reset ∈ commands ++ [.reset] :=
    List.mem_append_right _ (List.mem_singleton.mpr rfl)
  refine ⟨?_, fun _ hhas => ?_, ?_, (after.extends_grow .scene).trans h.extension⟩
  · rw [sinceReset_concat_reset, carried, if_pos hmem]
    rfl
  · exact Nat.not_lt_of_le h.extension.size_all hhas
  · rw [sinceReset_concat_reset, if_pos hmem]
    exact (Scenes.figures_create after _).trans after.figures_fresh

/-- Any other command is told to the session, and its figure, if it makes one, stands behind the
others. -/
theorem Follows.execute (h : s.Follows settings scenes commands last after)
    (hsound : last.Sound settings after) (hcarried : s.Sound settings scenes) {command : Command}
    (hcommand : command ≠ .reset) :
    s.Follows settings scenes (commands ++ [command]) (last.execute settings after command).1
      (last.execute settings after command).2 := by
  have hscene : (last.execute settings after command).1.scene = last.scene := by
    cases command with
    | reset => exact absurd rfl hcommand
    | _ => rfl
  -- The command is no reset, so the tail starts from where it did.
  have hmem : Command.reset ∈ commands ++ [command] ↔ .reset ∈ commands := by
    rw [List.mem_append, List.mem_singleton]
    exact or_iff_left fun hc => hcommand hc.symm
  have hsame : s.carried last.scene (commands ++ [command]) = s.carried last.scene commands := by
    simp only [carried, hmem]
  have hcarriedScene := h.scene_carried
  obtain ⟨htold, hfresh, hrow, hextension⟩ := h
  have htail := sinceReset_concat commands hcommand
  refine ⟨?_, ?_, ?_, (extends_execute settings last after command).trans hextension⟩
  · rw [hscene, hsame, htail]
    -- The next figure gets the number that the reading gives it.
    have hsize : (after.figures (s.carried last.scene commands).scene).size =
        (s.carried last.scene commands).figures.length +
          (sinceReset commands).countP Command.isFigure := by
      have hcreated : (created settings (sinceReset commands)).toArray.size = _ :=
        length_created settings (sinceReset commands)
      rw [hcarriedScene, hrow, Array.size_append, hcreated, carried]
      split
      · rfl
      · rw [hcarried.figures, List.length_map, List.length_range]
    rw [← execute_told _ _ hcommand hsize, ← htold]
  · rw [hscene, hmem]
    exact hfresh
  · rw [hscene, htail, created_concat, ← List.append_toArray, ← Array.append_assoc]
    simp only [hmem]
    rw [← hrow]
    -- Only a new figure changes the row, and it is added at its end.
    cases command with
    | reset => exact absurd rfl hcommand
    | figure x y => exact Scenes.figures_update_self hsound.has (·.push _)
    | _ => exact (Array.append_empty).symm

/-- **A session follows the commands that it carries out.** The commands are taken from the end, as
the reading does: one more command is one more thing that is told. -/
theorem follows_executeAll (h : s.Sound settings scenes) {shade : Background}
    (hbackground : s.background? = some shade) (hmoves : s.moves = [])
    (hrequest : s.presentRequested = false) (commands : List Command) :
    s.Follows settings scenes commands (s.executeAll settings scenes commands).1
      (s.executeAll settings scenes commands).2 := by
  induction commands using List.reverseRecOn with
  | nil =>
    obtain ⟨background?, overlay?, scene, figures, moves, requested⟩ := s
    subst hbackground hmoves hrequest
    refine ⟨?_, fun hmem => absurd hmem List.not_mem_nil, ?_, .refl scenes⟩
    · simp [executeAll, told, carried, lastBackground?, lastOverlay?, createdIds, movesAmong]
    · simp [executeAll, created]
  | append_singleton commands command ih =>
    rw [executeAll_concat]
    -- A reset begins a new tail; any other command makes the tail longer.
    by_cases hcommand : command = .reset
    · rw [hcommand]
      exact ih.reset
    · have hsome : s.background? ≠ none := by rw [hbackground]; exact Option.some_ne_none _
      exact ih.execute (h.executeAll hsome commands).1 h hcommand

/-- Beginning with a script adds nothing to what a session carries but the black background, and
black is what a background is read as when there is none. -/
theorem told_carried_begin (h : s.Sound settings scenes) (scene : SceneId)
    (commands tail : List Command) :
    told settings (s.begin.carried scene commands) tail =
      told settings (s.carried scene commands) tail := by
  rw [carried, carried]
  split
  · rfl
  · have hbackground : ((lastBackground? tail).or s.begin.background?).getD .reset =
        ((lastBackground? tail).or s.background?).getD .reset := by
      rw [h.background?_begin]
      cases lastBackground? tail <;> rfl
    rw [told, hbackground]
    rfl

end Follows

/-- The batch of a session that has been told something, by the parts of the reading. -/
theorem assemble_told (settings : Settings) (carried : Session) (tail : List Command) :
    (told settings carried tail).assemble.1 =
      (let background := ((lastBackground? tail).or carried.background?).getD .reset
      let overlay? := (lastOverlay? settings tail).or carried.overlay?
      let moves := movesAmong settings carried.scene carried.figures tail
      let figures := carried.figures ++ createdIds carried.figures.length tail
      if .update ∈ tail ∧ background = .reset ∧ overlay? = none ∧ figures = [] ∧ moves = [] then
        [.present]
      else
        [.fill background.color] ++ overlay?.toList.map .overlay ++ moves.map .move ++
          (figures.map fun id => .figure ⟨carried.scene, id⟩) ++
          if .update ∈ tail then [.present] else []) := by
  rw [assemble_eq]
  refine if_congr ?_ rfl ?_
  · simp [IsBarePresent, told]
  · simp [operations, told]

end Session

namespace Compiler

/-- A script is compiled by running the commands that have been read, from a text or from bytes. -/
theorem compile_of_parse (c : Compiler) (scenes : Scenes) (commands : List Command) :
    (∀ script, Command.parseText script = .ok commands →
      c.compile scenes script = .ok (c.run scenes commands)) ∧
    ∀ source, Command.parseSource source = .ok commands →
      c.compileSource scenes source = .ok (c.run scenes commands) := by
  refine ⟨?_, ?_⟩
  · intro script hscript
    rw [Compiler.compile, hscript]
    rfl
  · intro source hsource
    rw [Compiler.compileSource, hsource]
    rfl

/-- **A compiler follows the commands that it runs**, and hands over the moves. All that compiling
leaves behind is read off the last session and its scenes. -/
theorem Reached.exists_run_follows {settings : Settings} {c : Compiler} {scenes : Scenes}
    (history : Reached settings c scenes) (commands : List Command) :
    ∃ (last : Session) (after : Scenes),
      c.run scenes commands =
        ⟨last.assemble.1, ⟨settings, { last with moves := [] }⟩, after⟩ ∧
      c.session.Follows settings scenes commands last after ∧ last.Sound settings after := by
  obtain ⟨rfl, hsession, hmoves⟩ := history.sound
  have hbegin := hsession.background?_begin
  have hsome : c.session.begin.background? ≠ none := by
    rw [hbegin]
    exact Option.some_ne_none _
  obtain ⟨htold, hfresh, hrow, hextension⟩ :=
    Session.follows_executeAll hsession.begin hbegin hmoves rfl commands
  -- What is carried into a script is what was there before it began.
  rw [Session.told_carried_begin hsession] at htold
  have hlast := (hsession.begin.executeAll hsome commands).1
  have hleft : ∀ last : Session, last.assemble.2 = { last with moves := [] } :=
    fun last => congrArg Prod.snd last.assemble_eq
  refine ⟨_, _, ?_, ⟨htold, hfresh, hrow, hextension⟩, hlast⟩
  rw [← hleft]
  rfl

/-- **A script compiles to what its commands say.** Of the commands only those after the last reset
count, and they add to what the session has carried so far, or to nothing if there is a reset.

The batch fills the surface with the background, lays the overlay over it if there is one, carries
out the moves, draws all figures in the order of their creation and presents if it is asked to. It
does nothing but present if the background is black and there is nothing else to do. -/
theorem Reached.run_specification {settings : Settings} {c : Compiler} {scenes : Scenes}
    (history : Reached settings c scenes) (commands : List Command) :
    let done := c.run scenes commands
    let tail := sinceReset commands
    let scene := done.compiler.session.scene
    let carried := if .reset ∈ commands then Session.new scene else c.session
    let background := ((lastBackground? tail).or carried.background?).getD .reset
    let overlay? := (lastOverlay? settings tail).or carried.overlay?
    let moves := movesAmong settings scene carried.figures tail
    let figures := carried.figures ++ createdIds carried.figures.length tail
    -- however the commands are written,
    ((∀ script, Command.parseText script = .ok commands → c.compile scenes script = .ok done) ∧
      ∀ source, Command.parseSource source = .ok commands →
        c.compileSource scenes source = .ok done) ∧
    -- the batch is
    (done.batch =
      if .update ∈ tail ∧ background = .reset ∧ overlay? = none ∧ figures = [] ∧ moves = [] then
        [.present]
      else
        [.fill background.color] ++ overlay?.toList.map .overlay ++ moves.map .move ++
          (figures.map fun id => .figure ⟨scene, id⟩) ++
          if .update ∈ tail then [.present] else []) ∧
    (moves = [] ↔ ∀ dx dy, Command.move dx dy ∉ tail) ∧
    (∀ rect, overlay? = some rect → rect.left ≤ rect.right ∧ rect.top ≤ rect.bottom) ∧
    -- the session is left without the moves,
    done.compiler =
      ⟨settings, some background, overlay?, scene, figures, [], decide (.update ∈ tail)⟩ ∧
    -- and the figures of the session are those of its scene
    (if .reset ∈ commands then ¬ scenes.Has scene else scene = c.session.scene) ∧
    done.scenes.figures scene = (if .reset ∈ commands then #[] else scenes.figures scene) ++
      (created settings tail).toArray ∧
    figures = (List.range (done.scenes.figures scene).size).map FigureId.mk ∧
    done.scenes.Extends scenes := by
  obtain ⟨last, after, hrun, hfollows, hlast⟩ := history.exists_run_follows commands
  obtain ⟨htext, hsource⟩ := c.compile_of_parse scenes commands
  have hbatch := Session.assemble_told settings (c.session.carried last.scene commands)
    (sinceReset commands)
  rw [← hfollows.told, hfollows.scene_carried] at hbatch
  rw [hrun] at htext hsource ⊢
  intro done tail scene carried background overlay? moves figures
  -- The parts of the last session are those that have been read off the commands.
  have hfigures : figures = last.figures := by
    conv_rhs => rw [hfollows.told]
    rfl
  have hoverlay : overlay? = last.overlay? := by
    conv_rhs => rw [hfollows.told]
    rfl
  have hbackground : some background = last.background? := by
    conv_rhs => rw [hfollows.told]
    rfl
  have hrequested : decide (.update ∈ tail) = last.presentRequested := by
    conv_rhs => rw [hfollows.told]
    rfl
  refine ⟨⟨htext, hsource⟩, hbatch, movesAmong_eq_nil_iff _ _ _ _, ?_, ?_, ?_, ?_, ?_,
    hfollows.extension⟩
  · rw [hoverlay]
    exact hlast.overlay
  -- What is left of the session is its parts, without the moves.
  · rw [hbackground, hoverlay, hfigures, hrequested]
  · split
    · next hmem => exact hfollows.fresh hmem
    · next hmem => exact hfollows.scene_of_not_mem hmem
  -- The row of the scene is what it was, or empty after a reset, and then the new figures.
  · change after.figures last.scene = (if _ then _ else scenes.figures last.scene) ++ _
    rw [hfollows.row]
    congr 1
    split
    · rfl
    · next hmem => rw [hfollows.scene_of_not_mem hmem]
  · rw [hfigures]
    exact hlast.figures

/-- A new compiler hears of figures, of a move between them, and of a reset before. -/
theorem run_specification_moved :
    let origin : Binary64 := .zero false
    let commands : List Command := [.figure origin origin, .reset, .background .white,
      .figure origin origin, .move origin origin, .figure origin origin, .update]
    ((start .standard .empty).1.run (start .standard .empty).2 commands).batch =
      [.fill .white, .move ⟨0, 0, ⟨1⟩, [⟨0⟩]⟩, .figure ⟨⟨1⟩, ⟨0⟩⟩, .figure ⟨⟨1⟩, ⟨1⟩⟩,
        .present] := by
  intro origin commands
  obtain ⟨-, hbatch, -⟩ := Reached.run_specification (Reached.start .empty) commands
  rw [hbatch]
  decide +kernel

end Compiler

end Easel.Script
