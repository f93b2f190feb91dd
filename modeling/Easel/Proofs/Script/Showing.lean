import Easel.Proofs.Operation.Rows
import Easel.Proofs.Script.Picture

/-!
# What a session shows

A session shows the commands that it has heard: its background and overlay are the last ones given,
and once its moves are carried out, its figures are where the commands place them. Commands, the
beginning of a script and the handing over of a batch all keep this, however many scripts have gone
before.

* `Session.pushed` — the figures of a session once its moves are carried out;
* `Session.Shows` — the relation between a session, the figures of its scene, and the commands
  heard;
* `Session.Shows.execute`, `Session.Shows.begin`, `Session.Shows.assemble` — it is kept;
* `Session.Shows.fills_assemble` — the batch of a session paints the picture of the commands heard.
-/

namespace Easel

namespace Script

namespace Session

/-! ### The figures of a session -/

/-- The figures of a session, each where it is once the moves are carried out. Moves wait for the
batch, so this is where the session says that they are. -/
def pushed (s : Session) (scenes : Scenes) : List Figure :=
  (Move.pushAll s.moves (scenes.figures s.scene)).toList

section Pushed

variable {settings : Settings} {s : Session} {scenes : Scenes}

/-- A session that has been reset has no figures. -/
theorem pushed_reset (scenes : Scenes) : (reset scenes).1.pushed (reset scenes).2 = [] := by
  have hrow : (reset scenes).2.figures (reset scenes).1.scene = #[] :=
    (Scenes.figures_create scenes _).trans scenes.figures_fresh
  rw [pushed, hrow]
  rfl

/-- A move that waits names figures that exist. -/
theorem Sound.lt_of_mem_targets (h : s.Sound settings scenes) {m : Move} (hm : m ∈ s.moves)
    {id : FigureId} (hid : id ∈ m.targets) : id.index < (scenes.figures s.scene).size := by
  have hmem := (h.moves m hm).2.subset hid
  rw [h.figures] at hmem
  obtain ⟨i, hi, rfl⟩ := List.mem_map.mp hmem
  exact List.mem_range.mp hi

/-- **What a command does to the figures.** A move shifts all of them, and a new figure comes last.
This holds of the figures as the session says that they are, whichever moves have been handed
over. -/
theorem Sound.pushed_execute (h : s.Sound settings scenes) {command : Command}
    (hcommand : command ≠ .reset) :
    (s.execute settings scenes command).1.pushed (s.execute settings scenes command).2 =
      (s.pushed scenes).map (fun figure => command.push settings figure) ++
        (command.figure? settings).toList := by
  cases command with
  | reset => exact absurd rfl hcommand
  | figure x y =>
    have hrow : (s.execute settings scenes (.figure x y)).2.figures
          (s.execute settings scenes (.figure x y)).1.scene =
        (scenes.figures s.scene).push ⟨settings.scale x, settings.scale y, settings.figureColor⟩ :=
      Scenes.figures_update_self h.has (·.push _)
    -- The moves that wait were given before, and do not reach the new figure.
    rw [pushed, hrow]
    show (Move.pushAll s.moves _).toList = _
    rw [Move.pushAll_push fun m hm id hid => h.lt_of_mem_targets hm hid, Array.toList_push]
    exact congrArg (· ++ _) (List.map_id' _).symm
  | move dx dy =>
    -- The new move comes last, and reaches every figure once.
    show (Move.pushAll (s.moves ++ [_]) (scenes.figures s.scene)).toList = _
    have hall : s.figures =
        (List.range (Move.pushAll s.moves (scenes.figures s.scene)).size).map FigureId.mk := by
      rw [Move.size_pushAll, h.figures]
    rw [Move.pushAll_concat, Move.push]
    dsimp only
    rw [hall, Scenes.shiftAll_range, Array.toList_map]
    exact (List.append_nil _).symm
  | _ =>
    show s.pushed scenes = (s.pushed scenes).map (fun figure => figure) ++ []
    rw [List.map_id', List.append_nil]

end Pushed

/-! ### Showing -/

/-- A session, and the figures of its scene, show the commands that it has heard. The relation is
between what is stored and what is said, and does not tell how the one came from the other. -/
structure Shows (settings : Settings) (s : Session) (row : Array Figure) (heard : List Command) :
    Prop where
  background : s.background?.getD .reset = (lastBackground? (sinceReset heard)).getD .reset
  overlay : s.overlay? = lastOverlay? settings (sinceReset heard)
  /-- The figures are where they belong once the moves are carried out. -/
  figures : (Move.pushAll s.moves row).toList = placed settings (sinceReset heard)

section Shows

variable {settings : Settings} {s : Session} {scenes : Scenes} {row : Array Figure}
  {heard : List Command}

/-- A new session shows that it has heard nothing. -/
theorem shows_new (settings : Settings) (scene : SceneId) : (new scene).Shows settings #[] [] :=
  ⟨rfl, rfl, rfl⟩

/-- After a reset a session shows nothing of what it has heard before. -/
theorem Shows.reset (heard : List Command) (scenes : Scenes) :
    (reset scenes).1.Shows settings #[] (heard ++ [.reset]) := by
  refine ⟨?_, ?_, ?_⟩ <;> rw [sinceReset_concat_reset] <;> rfl

/-- Beginning a script shows nothing new: black was what a session without a background shows. -/
theorem Shows.begin (h : s.Shows settings row heard) (hsound : s.Sound settings scenes) :
    s.begin.Shows settings row heard := by
  refine ⟨?_, h.overlay, h.figures⟩
  rw [hsound.background?_begin]
  exact h.background

/-- One more command, given by what it does to background, overlay and figures. Each command but a
reset is a case of this. -/
theorem Shows.concat (h : s.Shows settings row heard) (command : Command)
    (hcommand : command ≠ .reset) {next : Session} {after : Array Figure}
    (hbackground : next.background? = command.background?.or s.background?)
    (hoverlay : next.overlay? = (command.overlay? settings).or s.overlay?)
    (hfigures : (Move.pushAll next.moves after).toList =
      (Move.pushAll s.moves row).toList.map (fun figure => command.push settings figure) ++
        (command.figure? settings).toList) :
    next.Shows settings after (heard ++ [command]) := by
  -- What has been heard since the reset grows by the command, which is not one.
  have htail := sinceReset_concat heard hcommand
  refine ⟨?_, ?_, ?_⟩
  · rw [htail, lastBackground?_concat, hbackground]
    cases command.background? with
    | some shade => rfl
    | none => exact h.background
  · rw [htail, lastOverlay?_concat, hoverlay, h.overlay]
  · rw [htail, placed_concat, hfigures, h.figures]

/-- **A session goes on to show the commands that it hears**, one after another and whichever they
are. -/
theorem Shows.execute (h : s.Shows settings (scenes.figures s.scene) heard)
    (hsound : s.Sound settings scenes) (command : Command) :
    (s.execute settings scenes command).1.Shows settings
      ((s.execute settings scenes command).2.figures (s.execute settings scenes command).1.scene)
      (heard ++ [command]) := by
  cases command with
  | reset =>
    -- The new scene is empty, and so is what has been heard since the reset.
    have hrow : (Session.reset scenes).2.figures (Session.reset scenes).1.scene = #[] :=
      (Scenes.figures_create scenes _).trans scenes.figures_fresh
    have hreset : (Session.reset scenes).1.Shows settings #[] (heard ++ [.reset]) :=
      Shows.reset heard scenes
    rwa [← hrow] at hreset
  | background shade =>
    exact h.concat (.background shade) nofun rfl rfl (hsound.pushed_execute nofun)
  | update => exact h.concat .update nofun rfl rfl (hsound.pushed_execute nofun)
  | bgrect x1 y1 x2 y2 =>
    exact h.concat (.bgrect x1 y1 x2 y2) nofun rfl rfl (hsound.pushed_execute nofun)
  | figure x y => exact h.concat (.figure x y) nofun rfl rfl (hsound.pushed_execute nofun)
  | move dx dy => exact h.concat (.move dx dy) nofun rfl rfl (hsound.pushed_execute nofun)

/-! ### The batch -/

/-- The operations of a batch are leaves: a session posts no batch in its batch. -/
theorem leaves_of_mem_assemble {s : Session} {op : Operation} (hop : op ∈ s.assemble.1) :
    op.leaves = [op] := by
  rcases mem_assemble hop with ⟨_, rfl⟩ | ⟨_, rfl⟩ | ⟨_, -, rfl⟩ | ⟨_, -, rfl⟩ | rfl <;> rfl

/-- Of the operations of a session, only the moves move anything, so the rest may be left out when
the scenes are looked at. -/
theorem settle_operations (s : Session) (scenes : Scenes) :
    Operation.settle s.operations scenes = Operation.settle (s.moves.map .move) scenes := by
  -- Each of the other parts of the batch leaves the scenes as they are.
  have hbackground : Operation.settle (s.background?.toList.map fun shade => .fill shade.color)
      scenes = scenes := by cases s.background? <;> rfl
  have hoverlay : Operation.settle (s.overlay?.toList.map .overlay) scenes = scenes := by
    cases s.overlay? <;> rfl
  have hfigures : ∀ scenes,
      Operation.settle (s.figures.map fun id => .figure ⟨s.scene, id⟩) scenes = scenes := by
    intro scenes
    have hrefs := Operation.settle_figures scenes (s.figures.map fun id => ⟨s.scene, id⟩)
    rwa [List.map_map] at hrefs
  have hpresent : ∀ scenes, Operation.settle (if s.presentRequested = true then [.present] else [])
      scenes = scenes := by
    intro scenes
    cases s.presentRequested <;> rfl
  rw [operations, Operation.settle_append, Operation.settle_append, Operation.settle_append,
    Operation.settle_append, hbackground, hoverlay, hfigures, hpresent]

/-- **What the operations of a session draw**: the background, the overlay, and the figures where
the moves have pushed them. -/
theorem Sound.fills_operations (h : s.Sound settings scenes) (bounds : Rect) :
    Operation.fills bounds s.operations scenes =
      (s.background?.toList.map fun shade => (bounds, shade.color)) ++
        (s.overlay?.toList.map fun rect => (rect, Operation.overlayColor)) ++
        (s.pushed scenes).flatMap Figure.fills := by
  have hbackground :
      Operation.fills bounds (s.background?.toList.map fun shade => .fill shade.color) scenes =
        s.background?.toList.map fun shade => (bounds, shade.color) := by
    cases s.background? <;> rfl
  have hfirst : Operation.settle (s.background?.toList.map fun shade => .fill shade.color) scenes =
      scenes := by cases s.background? <;> rfl
  have hoverlay : Operation.fills bounds (s.overlay?.toList.map .overlay) scenes =
      s.overlay?.toList.map fun rect => (rect, Operation.overlayColor) := by
    cases s.overlay? <;> rfl
  have hstill : Operation.settle (s.overlay?.toList.map .overlay) scenes = scenes := by
    cases s.overlay? <;> rfl
  -- The figures are drawn after the moves.
  have hpushed := Operation.figures_settle_moves scenes fun m hm => (h.moves m hm).1
  have hfigures : Operation.fills bounds (s.figures.map fun id => .figure ⟨s.scene, id⟩)
      (Operation.settle (s.moves.map .move) scenes) = (s.pushed scenes).flatMap Figure.fills := by
    have hall :=
      Operation.fills_figures bounds (Operation.settle (s.moves.map .move) scenes) s.scene
    rw [Operation.size_figures_settle, ← h.figures, hpushed] at hall
    exact hall
  have hpresent : ∀ scenes,
      Operation.fills bounds (if s.presentRequested = true then [.present] else []) scenes =
        [] := by
    intro scenes
    cases s.presentRequested <;> rfl
  rw [operations, Operation.fills_append, hpresent, List.append_nil, Operation.fills_append,
    Operation.settle_append, Operation.settle_append, hfirst, hstill, hfigures,
    Operation.fills_append, Operation.fills_moves, List.append_nil, Operation.fills_append, hfirst,
    hbackground, hoverlay]

/-- **The operations of a session paint the picture of the commands that it has heard.** A
background has to be there, which is so from the first script on. -/
theorem Shows.fills_operations (h : s.Shows settings (scenes.figures s.scene) heard)
    (hsound : s.Sound settings scenes) {shade : Background} (hshade : s.background? = some shade)
    (bounds : Rect) :
    Operation.fills bounds s.operations scenes = (Picture.of settings heard).fills bounds := by
  have hbackground := h.background
  rw [hshade] at hbackground
  have hpicture : (Picture.of settings heard).background = shade := hbackground.symm
  have hoverlay : (Picture.of settings heard).overlay? = s.overlay? := h.overlay.symm
  have hfigures : (Picture.of settings heard).figures = s.pushed scenes := h.figures.symm
  rw [hsound.fills_operations, Picture.fills, hpicture, hoverlay, hfigures, hshade]
  rfl

/-- Applying the batch pushes the figures by the moves of the session; a bare present has none. -/
theorem Sound.figures_settle_assemble (hsound : s.Sound settings scenes) :
    (Operation.settle s.assemble.1 scenes).figures s.scene =
      Move.pushAll s.moves (scenes.figures s.scene) := by
  have hmoves := Operation.figures_settle_moves scenes fun m hm => (hsound.moves m hm).1
  rw [assemble_eq]
  dsimp only
  split
  · next hbare =>
    rw [hbare.2.2.2.2]
    rfl
  · rw [settle_operations, hmoves]

/-- Handing over the moves changes nothing about what is shown, once the batch has been applied: the
moves are in the scenes then, and no longer in the session. -/
theorem Shows.assemble (h : s.Shows settings (scenes.figures s.scene) heard)
    (hsound : s.Sound settings scenes) :
    s.assemble.2.Shows settings ((Operation.settle s.assemble.1 scenes).figures s.scene) heard := by
  rw [hsound.figures_settle_assemble, assemble_snd]
  exact ⟨h.background, h.overlay, h.figures⟩

/-- **The batch of a session paints the picture of the commands that it has heard**, unless it does
nothing but present. In that case it paints nothing at all. -/
theorem Shows.fills_assemble (h : s.Shows settings (scenes.figures s.scene) heard)
    (hsound : s.Sound settings scenes) (hbackground : s.background? ≠ none) (bounds : Rect) :
    Operation.fills bounds s.assemble.1 scenes =
      if s.assemble.1 = [.present] then [] else (Picture.of settings heard).fills bounds := by
  obtain ⟨shade, hshade⟩ := Option.ne_none_iff_exists'.mp hbackground
  rw [assemble_eq]
  dsimp only
  split
  · rw [if_pos rfl]
    rfl
  · -- A batch that begins with the background is not the bare one.
    have hne : s.operations ≠ [.present] := by
      rw [operations, hshade]
      exact fun hc => Operation.noConfusion (List.head_eq_of_cons_eq hc)
    rw [if_neg hne]
    exact h.fills_operations hsound hshade bounds

/-- A session presents if it has been asked to, bare or not. -/
theorem presentsAny_assemble (s : Session) :
    Operation.presentsAny s.assemble.1 = s.presentRequested := by
  rw [assemble_eq, Operation.presentsAny_eq_any]
  dsimp only
  split
  · next hbare => exact hbare.1.symm
  · cases hrequest : s.presentRequested <;> simp [operations, Operation.presents, hrequest]

/-- A session has been asked to present if it has been asked since the last reset, which takes the
request back. -/
theorem presentRequested_executeAll {s : Session} (h : s.presentRequested = false) (scenes : Scenes)
    (commands : List Command) :
    (s.executeAll settings scenes commands).1.presentRequested = true ↔ IsShown commands := by
  induction commands using List.reverseRecOn with
  | nil => exact iff_of_false (ne_true_of_eq_false h) List.not_mem_nil
  | append_singleton commands command ih =>
    rw [executeAll_concat]
    by_cases hcommand : command = .reset
    · subst hcommand
      rw [IsShown, sinceReset_concat_reset]
      exact iff_of_false Bool.false_ne_true List.not_mem_nil
    · rw [IsShown, sinceReset_concat commands hcommand, List.mem_append]
      cases command with
      | reset => exact absurd rfl hcommand
      | update => exact iff_of_true rfl (Or.inr List.mem_cons_self)
      -- No other command asks or takes back.
      | _ => exact ih.trans (or_iff_left (by simp)).symm

/-- A batch is never empty: it has at least the background, or the present. -/
theorem assemble_ne_nil (hbackground : s.background? ≠ none) : s.assemble.1 ≠ [] := by
  obtain ⟨shade, hshade⟩ := Option.ne_none_iff_exists'.mp hbackground
  rw [assemble_eq]
  dsimp only
  split
  · exact List.cons_ne_nil _ _
  · rw [operations, hshade]
    exact List.cons_ne_nil _ _

/-- A batch refers to figures that exist, and moves those of the session. So it is applied in the
same way now or after others have gone on. -/
theorem Sound.known_assemble (hsound : s.Sound settings scenes) {leaf : Operation}
    (hleaf : leaf ∈ s.assemble.1) :
    leaf.Known scenes ∧ ∀ m, leaf = .move m → m.scene = s.scene := by
  rcases mem_assemble hleaf with ⟨_, rfl⟩ | ⟨_, rfl⟩ | ⟨m, hm, rfl⟩ | ⟨id, hid, rfl⟩ | rfl
  · exact ⟨trivial, fun _ hc => absurd hc (by simp)⟩
  · exact ⟨trivial, fun _ hc => absurd hc (by simp)⟩
  · -- A move has targets in the scene of the session, and in no other.
    refine ⟨?_, ?_⟩
    · intro id hid
      rw [(hsound.moves m hm).1]
      exact hsound.lt_of_mem_targets hm hid
    · intro same hsame
      rw [← Operation.move.inj hsame]
      exact (hsound.moves m hm).1
  -- The figures that are drawn are those that the session lists.
  · refine ⟨?_, fun _ hc => absurd hc (by simp)⟩
    rw [hsound.figures] at hid
    obtain ⟨i, hi, rfl⟩ := List.mem_map.mp hid
    exact List.mem_range.mp hi
  · exact ⟨trivial, fun _ hc => absurd hc (by simp)⟩

end Shows

end Session

end Script

end Easel
