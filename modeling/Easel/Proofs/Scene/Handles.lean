import Easel.Proofs.Operation.Regions
import Easel.Proofs.Scene.Reordering

/-!
# The history of a figure

Scenes are used through handles, and a handle may be copied: copies stand for the same scene.
Actions through any handles, in any order, with any numbers of figures, amount to this: the figures
of a scene are those that have been inserted through its handles, in this order, each of them
shifted by what has been translated through these handles since, as often as its number was listed.

* `Registry.run` — scenes and handles after some actions;
* `Registry.moves` — the moves that actions carry out;
* `Registry.get?_run` — what becomes of a figure that exists;
* `Registry.exists_insert` — where the others come from;
* `Registry.next_translate_filter` — numbers without a figure may be left out, for good;
* `Registry.Alike.run` — actions on other scenes may be left out;
* `Registry.figures_follow_history` — the main result.
-/

namespace Easel

/-! ### Growth and moves -/

namespace Scenes

/-- A figure that is new after a growth has been added by it: it is the figure of the growth, and
its number is the next one of its scene. -/
theorem eq_figure_of_get?_grow {scenes : Scenes} {growth : Growth} {scene : SceneId}
    {id : FigureId} {f : Figure} (h : scenes.get? scene id = none)
    (hnew : (scenes.grow growth).get? scene id = some f) :
    growth = .figure scene f ∧ id = ⟨(scenes.figures scene).size⟩ := by
  cases growth with
  | scene =>
    rw [grow, get?, figures_create] at hnew
    exact absurd (hnew.symm.trans h) (Option.some_ne_none f)
  | figure grown figure =>
    rw [grow, get?, figures_insert] at hnew
    split at hnew
    · next hc =>
      obtain ⟨rfl, -⟩ := hc
      rw [Array.getElem?_push] at hnew
      -- Behind the old figures there is the added one; anything else was there before.
      split at hnew
      · next hlast => exact ⟨by rw [Option.some.inj hnew], by rw [← hlast]⟩
      · exact absurd (hnew.symm.trans h) (Option.some_ne_none f)
    · exact absurd (hnew.symm.trans h) (Option.some_ne_none f)

/-- What moves leave in a scene depends on the figures of this scene alone. -/
theorem figures_carryOut_congr {a b : Scenes} {scene : SceneId}
    (h : a.figures scene = b.figures scene) (moves : List Move) :
    (a.carryOut moves).figures scene = (b.carryOut moves).figures scene := by
  refine Array.ext_getElem? fun i => ?_
  have hget : a.get? scene ⟨i⟩ = b.get? scene ⟨i⟩ := by rw [get?, get?, h]
  calc (a.carryOut moves).get? scene ⟨i⟩
      = (a.get? scene ⟨i⟩).map _ := get?_carryOut a moves scene ⟨i⟩
    _ = (b.get? scene ⟨i⟩).map _ := by rw [hget]
    _ = (b.carryOut moves).get? scene ⟨i⟩ := (get?_carryOut b moves scene ⟨i⟩).symm

/-- Moves leave the number of figures in every scene as it is. -/
theorem size_figures_carryOut (scenes : Scenes) (moves : List Move) (scene : SceneId) :
    ((scenes.carryOut moves).figures scene).size = (scenes.figures scene).size := by
  induction moves generalizing scenes with
  | nil => rfl
  | cons m rest ih => exact (ih (m.apply scenes)).trans (size_figures_translate _ _ _ _ _ _)

end Scenes

/-! ### Scenes and their handles -/

/-- The scenes, and the handles that have been given out for them, by number. -/
structure Registry where
  scenes : Scenes
  handles : List SceneId
deriving DecidableEq

namespace Registry

/-- No scenes, and no handles: where every history starts. -/
def empty : Registry := ⟨.empty, []⟩

/-- What can be done with scenes, by handles. A handle is the number under which it was given
out. -/
inductive Action where
  /-- Opens a scene and gives out a handle for it. -/
  | create
  /-- Gives out one more handle for the scene of a handle. -/
  | copy (handle : Nat)
  /-- Adds a figure to the scene of a handle. -/
  | insert (handle : Nat) (figure : Figure)
  /-- Moves figures of the scene of a handle. -/
  | translate (handle : Nat) (ids : List FigureId) (dx dy : Coord)

/-- The scene that a handle stands for. -/
def scene? (r : Registry) (handle : Nat) : Option SceneId := r.handles[handle]?

/-- The figure that a handle sees under a number. -/
def get? (r : Registry) (handle : Nat) (id : FigureId) : Option Figure :=
  (r.scene? handle).bind fun scene => r.scenes.get? scene id

/-- Carries out an action, and answers the number of the figure that is inserted. Nothing can be
done with a handle that has not been given out. -/
def perform (r : Registry) : Action → Option FigureId × Registry
  | .create => (none, ⟨r.scenes.create.2, r.handles ++ [r.scenes.create.1]⟩)
  | .copy handle => (none, { r with handles := r.handles ++ (r.scene? handle).toList })
  | .insert handle figure =>
    match r.scene? handle with
    | some scene =>
      (some (r.scenes.insert scene figure).1,
        { r with scenes := (r.scenes.insert scene figure).2 })
    | none => (none, r)
  | .translate handle ids dx dy =>
    match r.scene? handle with
    | some scene => (none, { r with scenes := r.scenes.translate scene ids dx dy })
    | none => (none, r)

/-- The registry after an action. -/
def next (r : Registry) (action : Action) : Registry := (r.perform action).2

/-- The registry after actions, one after another, by whatever handles. -/
def run (r : Registry) (actions : List Action) : Registry := actions.foldl next r

/-- How an action makes the scenes grow. Together with the move that it carries out this is all that
it does to the scenes, so the cases of an action are taken apart only once. -/
def growth? (r : Registry) : Action → Option Scenes.Growth
  | .create => some .scene
  | .insert handle figure => (r.scene? handle).map fun scene => .figure scene figure
  | .copy _ | .translate _ _ _ _ => none

/-- The handle that an action gives out, by its scene. -/
def added (r : Registry) : Action → List SceneId
  | .create => [⟨r.scenes.all.size⟩]
  | .copy handle => (r.scene? handle).toList
  | .insert _ _ | .translate _ _ _ _ => []

/-- The move that an action carries out. -/
def move? (r : Registry) : Action → Option Move
  | .translate handle ids dx dy => (r.scene? handle).map fun scene => ⟨dx, dy, scene, ids⟩
  | .create | .copy _ | .insert _ _ => none

/-- The moves that actions carry out, one after another. Which scene a handle stands for is looked
up where the action stands. -/
def moves : Registry → List Action → List Move
  | _, [] => []
  | r, action :: rest => (r.move? action).toList ++ moves (r.next action) rest

/-- After no actions the registry is the same. -/
@[simp] theorem run_nil (r : Registry) : r.run [] = r := rfl

/-- The first action comes before the others. -/
@[simp] theorem run_cons (r : Registry) (action : Action) (rest : List Action) :
    r.run (action :: rest) = (r.next action).run rest := rfl

/-- Actions in two parts are done one part after the other. -/
theorem run_append (r : Registry) (actions later : List Action) :
    r.run (actions ++ later) = (r.run actions).run later := List.foldl_append

/-- A history is cut at one of its actions: before it, itself, and after it. -/
theorem run_append_cons (r : Registry) (before : List Action) (action : Action)
    (after : List Action) :
    r.run (before ++ action :: after) = ((r.run before).next action).run after := by
  rw [run_append, run_cons]

/-! ### What an action does -/

section Next

variable (r : Registry)

/-- An action gives out its handles behind those that there are. -/
theorem handles_next (action : Action) : (r.next action).handles = r.handles ++ r.added action := by
  cases action with
  | create => rfl
  | copy handle => rfl
  | insert handle figure =>
    rw [next, perform]
    split <;> exact (List.append_nil _).symm
  | translate handle ids dx dy =>
    rw [next, perform]
    split <;> exact (List.append_nil _).symm

/-- **All that an action does to the scenes**: they grow, or a move is carried out, or nothing is
done. -/
theorem scenes_next (action : Action) : (r.next action).scenes =
    ((r.growth? action).elim r.scenes r.scenes.grow).carryOut (r.move? action).toList := by
  cases action with
  | create => rfl
  | copy handle => rfl
  | insert handle figure =>
    rw [next, perform, growth?]
    cases r.scene? handle <;> rfl
  | translate handle ids dx dy =>
    rw [next, perform, move?]
    cases r.scene? handle <;> rfl

/-- The answer to an insertion is the number of figures so far, which is the place of the new
one. -/
theorem perform_insert {handle : Nat} {scene : SceneId} (h : r.scene? handle = some scene)
    (figure : Figure) :
    (r.perform (.insert handle figure)).1 = some ⟨(r.scenes.figures scene).size⟩ := by
  rw [perform, h]
  rfl

/-- Scenes grow by a figure only when one is inserted through a handle of its scene. -/
theorem growth?_eq_figure {action : Action} {scene : SceneId} {figure : Figure}
    (h : r.growth? action = some (.figure scene figure)) :
    ∃ handle, action = .insert handle figure ∧ r.scene? handle = some scene := by
  cases action with
  | create => exact nomatch h
  | copy handle => exact nomatch h
  | insert handle inserted =>
    obtain ⟨found, hfound, heq⟩ := Option.map_eq_some_iff.mp h
    obtain ⟨rfl, rfl⟩ := Scenes.Growth.figure.inj heq
    exact ⟨handle, rfl, hfound⟩
  | translate handle ids dx dy => exact nomatch h

/-- **A figure that exists is shifted by the move that an action carries out**, and by nothing else.
-/
theorem get?_next {scene : SceneId} {id : FigureId} {f : Figure}
    (h : r.scenes.get? scene id = some f) (action : Action) :
    (r.next action).scenes.get? scene id =
      some (f.shifts (Move.allDistances (r.move? action).toList scene id)) := by
  have hid : id.index < (r.scenes.figures scene).size := (Array.getElem?_eq_some_iff.mp h).1
  -- What is added stands behind the figures that exist.
  have hgrown : ((r.growth? action).elim r.scenes r.scenes.grow).get? scene id = some f := by
    cases r.growth? action with
    | none => exact h
    | some growth => exact (Scenes.get?_grow growth hid).trans h
  rw [scenes_next, Scenes.get?_carryOut, hgrown]
  rfl

/-- **A figure that is new has been inserted through a handle of its scene**, with the next number.
-/
theorem exists_insert_of_next {scene : SceneId} {id : FigureId} {f : Figure} {action : Action}
    (h : r.scenes.get? scene id = none) (hnew : (r.next action).scenes.get? scene id = some f) :
    ∃ handle figure, action = .insert handle figure ∧ r.scene? handle = some scene ∧
      id = ⟨(r.scenes.figures scene).size⟩ := by
  rw [scenes_next, Scenes.get?_carryOut] at hnew
  -- A move makes no figures, so this one is there once the scenes have grown.
  obtain ⟨figure, hgrown, -⟩ := Option.map_eq_some_iff.mp hnew
  cases hgrowth : r.growth? action with
  | none =>
    rw [hgrowth] at hgrown
    exact nomatch h.symm.trans hgrown
  | some growth =>
    rw [hgrowth] at hgrown
    obtain ⟨rfl, hid⟩ := Scenes.eq_figure_of_get?_grow h hgrown
    obtain ⟨handle, rfl, hscene⟩ := r.growth?_eq_figure hgrowth
    exact ⟨handle, figure, rfl, hscene, hid⟩

/-- No action takes a figure away. -/
theorem size_figures_le_next (action : Action) (scene : SceneId) :
    (r.scenes.figures scene).size ≤ ((r.next action).scenes.figures scene).size := by
  rw [scenes_next, Scenes.size_figures_carryOut]
  cases r.growth? action with
  | none => exact Nat.le_refl _
  | some growth => exact r.scenes.size_figures_le_grow growth scene

/-- No action takes a scene away. -/
theorem size_all_le_next (action : Action) :
    r.scenes.all.size ≤ (r.next action).scenes.all.size := by
  rw [scenes_next, Scenes.size_all_carryOut]
  cases r.growth? action with
  | none => exact Nat.le_refl _
  | some growth => exact (r.scenes.extends_grow growth).size_all

end Next

/-! ### What many actions do -/

/-- Handles are never taken back: those of now come first among those of later. -/
theorem handles_prefix_run (r : Registry) (actions : List Action) :
    r.handles <+: (r.run actions).handles := by
  induction actions generalizing r with
  | nil => exact List.prefix_rfl
  | cons action rest ih =>
    have hnext : r.handles <+: (r.next action).handles := ⟨_, (r.handles_next action).symm⟩
    exact hnext.trans (ih (r.next action))

/-- **A handle stands for its scene for good**, whatever is done with it or with others. -/
theorem scene?_run {r : Registry} {handle : Nat} {scene : SceneId}
    (h : r.scene? handle = some scene) (actions : List Action) :
    (r.run actions).scene? handle = some scene := by
  obtain ⟨more, hmore⟩ := r.handles_prefix_run actions
  have hlt := (List.getElem?_eq_some_iff.mp h).1
  rw [scene?, ← hmore, List.getElem?_append_left hlt]
  exact h

/-- Scenes only get more figures. -/
theorem size_figures_le_run (r : Registry) (actions : List Action) (scene : SceneId) :
    (r.scenes.figures scene).size ≤ ((r.run actions).scenes.figures scene).size := by
  induction actions generalizing r with
  | nil => exact Nat.le_refl _
  | cons action rest ih => exact Nat.le_trans (r.size_figures_le_next action scene) (ih _)

/-- **A figure that exists stays, and is shifted by the moves of its scene that list it.** The step
is `get?_next`, and the distances of the steps are put one after another. -/
theorem get?_run {r : Registry} {scene : SceneId} {id : FigureId} {f : Figure}
    (h : r.scenes.get? scene id = some f) (actions : List Action) :
    (r.run actions).scenes.get? scene id =
      some (f.shifts (Move.allDistances (r.moves actions) scene id)) := by
  induction actions generalizing r f with
  | nil => exact h
  | cons action rest ih =>
    rw [run_cons, ih (r.get?_next h action), Figure.shifts_shifts, moves]
    exact congrArg (fun distances => some (f.shifts distances))
      (funext fun axis => (Move.allDistances_append scene id axis _ _).symm)

/-- **Every figure has been inserted**: there is an action that did so, through a handle of its
scene, and its number is how many figures there were then. -/
theorem exists_insert {r : Registry} {scene : SceneId} {id : FigureId} {f : Figure}
    {actions : List Action} (h : r.scenes.get? scene id = none)
    (hlast : (r.run actions).scenes.get? scene id = some f) :
    ∃ before handle figure after, actions = before ++ .insert handle figure :: after ∧
      (r.run before).scene? handle = some scene ∧
      id = ⟨((r.run before).scenes.figures scene).size⟩ := by
  induction actions generalizing r with
  | nil => exact nomatch h.symm.trans hlast
  | cons action rest ih =>
    -- The figure comes with the first action, or it is still missing after it and comes later.
    cases hnext : (r.next action).scenes.get? scene id with
    | some g =>
      obtain ⟨handle, figure, rfl, hscene, hid⟩ := r.exists_insert_of_next h hnext
      exact ⟨[], handle, figure, rest, rfl, hscene, hid⟩
    | none =>
      obtain ⟨before, handle, figure, after, rfl, hscene, hid⟩ := ih hnext hlast
      exact ⟨action :: before, handle, figure, after, rfl, hscene, hid⟩

/-! ### Handles and scenes -/

/-- All handles stand for scenes that exist. This holds from the beginning on and is kept by every
action, so an insertion is never lost. -/
def Sound (r : Registry) : Prop := ∀ scene ∈ r.handles, r.scenes.Has scene

/-- Where there are no handles there is nothing to show. -/
theorem sound_empty : empty.Sound := fun _ h => absurd h List.not_mem_nil

/-- The scene of a handle exists. -/
theorem Sound.has {r : Registry} (h : r.Sound) {handle : Nat} {scene : SceneId}
    (hscene : r.scene? handle = some scene) : r.scenes.Has scene :=
  h scene (List.mem_of_getElem? hscene)

/-- An action keeps the handles sound: old scenes stay, and a new handle is for a scene that was
just opened or for one of another handle. -/
theorem Sound.next {r : Registry} (h : r.Sound) (action : Action) : (r.next action).Sound := by
  intro scene hscene
  rw [handles_next] at hscene
  rcases List.mem_append.mp hscene with hold | hadded
  · exact Nat.lt_of_lt_of_le (h scene hold) (r.size_all_le_next action)
  · cases action with
    | create =>
      rw [List.mem_singleton.mp hadded]
      exact Nat.lt_of_lt_of_eq (Nat.lt_succ_self _) (Scenes.size_all_create _).symm
    | copy handle => exact h.has (Option.mem_toList.mp hadded)
    | insert handle figure => exact nomatch hadded
    | translate handle ids dx dy => exact nomatch hadded

/-- Handles stay sound through all actions. -/
theorem Sound.run {r : Registry} (h : r.Sound) (actions : List Action) : (r.run actions).Sound := by
  induction actions generalizing r with
  | nil => exact h
  | cons action rest ih => exact ih (h.next action)

/-- **A figure that is inserted is there**, behind the others. -/
theorem Sound.figures_insert {r : Registry} (h : r.Sound) {handle : Nat} {scene : SceneId}
    (hscene : r.scene? handle = some scene) (figure : Figure) :
    (r.next (.insert handle figure)).scenes.figures scene =
      (r.scenes.figures scene).push figure := by
  rw [scenes_next, growth?, hscene]
  show (r.scenes.insert scene figure).2.figures scene = _
  rw [Scenes.figures_insert, if_pos ⟨rfl, h.has hscene⟩]

/-- The figure that was inserted is found under the next number. -/
theorem Sound.get?_insert {r : Registry} (h : r.Sound) {handle : Nat} {scene : SceneId}
    (hscene : r.scene? handle = some scene) (figure : Figure) :
    (r.next (.insert handle figure)).scenes.get? scene ⟨(r.scenes.figures scene).size⟩ =
      some figure := by
  rw [Scenes.get?, h.figures_insert hscene]
  exact Array.getElem?_push_size

/-- **Copies of a handle stand for one scene.** -/
theorem scene?_copy {r : Registry} {handle : Nat} {scene : SceneId}
    (h : r.scene? handle = some scene) (actions : List Action) :
    ((r.next (.copy handle)).run actions).scene? r.handles.length = some scene := by
  refine scene?_run ?_ actions
  rw [scene?, handles_next, added, h]
  exact List.getElem?_concat_length

/-- **The handle of a scene that is opened stands for another scene than those before it.** -/
theorem Sound.scene?_create {r : Registry} (h : r.Sound) (actions : List Action) :
    ∃ scene, ((r.next .create).run actions).scene? r.handles.length = some scene ∧
      ∀ handle < r.handles.length, ((r.next .create).run actions).scene? handle ≠ some scene := by
  have hnew : (r.next .create).scene? r.handles.length = some ⟨r.scenes.all.size⟩ :=
    List.getElem?_concat_length
  refine ⟨_, scene?_run hnew actions, fun handle hlt hsame => ?_⟩
  -- The scenes of the handles before exist already, and this one did not.
  have hold : r.scene? handle = some r.handles[handle] := List.getElem?_eq_getElem hlt
  have hnow := scene?_run (r := r) hold (.create :: actions)
  rw [run_cons, hsame] at hnow
  have hhas := h.has hold
  rw [← Option.some.inj hnow] at hhas
  exact Nat.lt_irrefl _ hhas

/-! ### Numbers without a figure -/

/-- **Numbers without a figure may be left out of a translation.** The registry is the same after
it, and so it is for good, even if figures with these numbers are inserted later. -/
theorem next_translate_filter (r : Registry) {handle : Nat} {scene : SceneId}
    (h : r.scene? handle = some scene) (ids : List FigureId) (dx dy : Coord) :
    r.next (.translate handle
        (ids.filter fun id => id.index < (r.scenes.figures scene).size) dx dy) =
      r.next (.translate handle ids dx dy) := by
  -- With the scene of the handle, the two translations are two moves in the same scene, which need
  -- only agree on the figures that are there.
  have hnext : ∀ ids, r.next (.translate handle ids dx dy) =
      { r with scenes := r.scenes.carryOut [⟨dx, dy, scene, ids⟩] } := by
    intro ids
    rw [next, perform, h]
    rfl
  rw [hnext, hnext]
  congr 1
  refine Scenes.carryOut_congr fun other id f hget axis => ?_
  rw [Move.allDistances, Move.allDistances, List.flatMap_singleton, List.flatMap_singleton,
    Move.distances, Move.distances]
  dsimp only
  split
  · next hscene =>
    subst hscene
    -- A figure that is there has a number that is kept.
    have hid := (Array.getElem?_eq_some_iff.mp hget).1
    have hcount : (ids.filter fun id => id.index < (r.scenes.figures scene).size).count id =
        ids.count id := List.count_filter (decide_eq_true hid)
    rw [hcount]
    rfl
  · rfl

/-! ### Scenes that nothing is done to -/

/-- Whether an action may change the figures of a scene, or which handles there are. Opening and
copying do so whatever the scene is. -/
def Concerns (r : Registry) (scene : SceneId) : Action → Prop
  | .create | .copy _ => True
  | .insert handle _ | .translate handle _ _ _ => r.scene? handle = some scene

instance (r : Registry) (scene : SceneId) (action : Action) : Decidable (r.Concerns scene action) :=
  match action with
  | .create | .copy _ => inferInstanceAs (Decidable True)
  | .insert _ _ | .translate _ _ _ _ => inferInstanceAs (Decidable (_ = _))

/-- The actions without the insertions and translations in other scenes. A handle is looked up in
the registry of the full history, where it stands for the same scene. -/
def only (scene : SceneId) : Registry → List Action → List Action
  | _, [] => []
  | r, action :: rest =>
    if r.Concerns scene action then action :: only scene (r.next action) rest
    else only scene (r.next action) rest

/-- Registries with the same handles, as many scenes, and the same figures in one of them. The other
scenes may differ, since what is done there was left out on one side. -/
structure Alike (scene : SceneId) (r other : Registry) : Prop where
  handles : r.handles = other.handles
  size : r.scenes.all.size = other.scenes.all.size
  figures : r.scenes.figures scene = other.scenes.figures scene

namespace Alike

variable {scene : SceneId} {r other : Registry}

/-- A registry is like itself. -/
theorem refl (scene : SceneId) (r : Registry) : r.Alike scene r := ⟨rfl, rfl, rfl⟩

/-- Likeness is passed on. -/
theorem trans {third : Registry} (h : r.Alike scene other) (hother : other.Alike scene third) :
    r.Alike scene third :=
  ⟨h.handles.trans hother.handles, h.size.trans hother.size, h.figures.trans hother.figures⟩

/-- The same handles and scenes make an action grow both in the same way. -/
theorem growth?_eq (h : r.Alike scene other) (action : Action) :
    r.growth? action = other.growth? action := by
  cases action <;> simp only [growth?, scene?, h.handles]

/-- The same handles make an action carry out the same move. -/
theorem move?_eq (h : r.Alike scene other) (action : Action) :
    r.move? action = other.move? action := by
  cases action <;> simp only [move?, scene?, h.handles]

/-- The same handles and as many scenes make an action give out the same handles. -/
theorem added_eq (h : r.Alike scene other) (action : Action) :
    r.added action = other.added action := by
  cases action <;> simp only [added, scene?, h.handles, h.size]

/-- An action does the same to both: their scenes grow alike and the same move is carried out. -/
theorem next (h : r.Alike scene other) (action : Action) :
    (r.next action).Alike scene (other.next action) where
  handles := by rw [handles_next, handles_next, h.handles, h.added_eq]
  size := by
    rw [scenes_next, scenes_next, Scenes.size_all_carryOut, Scenes.size_all_carryOut, h.growth?_eq]
    cases other.growth? action with
    | none => exact h.size
    | some growth => exact Scenes.size_all_grow_congr h.size growth
  figures := by
    rw [scenes_next, scenes_next, h.move?_eq, h.growth?_eq]
    refine Scenes.figures_carryOut_congr ?_ _
    cases other.growth? action with
    | none => exact h.figures
    | some growth => exact Scenes.figures_grow_congr h.size growth h.figures

/-- **An action on another scene does nothing to this one.** -/
theorem of_not_concerns {action : Action} (h : ¬ r.Concerns scene action) :
    (r.next action).Alike scene r := by
  cases action with
  | create => exact absurd trivial h
  | copy handle => exact absurd trivial h
  | insert handle figure =>
    rw [Registry.next, perform]
    split
    -- The handle stands for another scene, whose row is the only one that changes.
    · next other hother =>
      have hne : scene ≠ other := fun hc => h (hc ▸ hother)
      refine ⟨rfl, Scenes.size_all_insert _ _ _, ?_⟩
      exact (Scenes.figures_insert _ _ _ _).trans (if_neg fun hc => hne hc.1)
    · exact refl scene r
  | translate handle ids dx dy =>
    rw [Registry.next, perform]
    split
    -- A translation through it shifts only that other row.
    · next other hother =>
      have hne : scene ≠ other := fun hc => h (hc ▸ hother)
      refine ⟨rfl, Scenes.size_all_translate _ _ _ _ _, ?_⟩
      exact (Scenes.figures_translate _ _ _ _ _ _).trans (if_neg hne)
    · exact refl scene r

/-- **Actions on other scenes may be left out.** -/
theorem run (h : r.Alike scene other) (actions : List Action) :
    (r.run actions).Alike scene (other.run (r.only scene actions)) := by
  induction actions generalizing r other with
  | nil => exact h
  | cons action rest ih =>
    rw [only]
    split
    -- The action is done on both sides, or left out of one where it changes nothing that is
    -- compared.
    · exact ih (h.next action)
    · next hnot => exact ih ((of_not_concerns hnot).trans h)

end Alike

/-! ### The main result -/

/-- **A figure is what was inserted and what was translated since.**

Whatever is done with scenes through handles, from the beginning on: a figure that is inserted gets
the number of figures there were in its scene, and is found under it for good. It keeps its color,
and ends where the translations lead that came after it, through handles of its scene, once for each
time that its number was listed: on each axis its center is the sum of the first one and the
distances, cut to the range of coordinates after each of them. All figures are of this kind, and
their numbers only grow.

A translation changes no other scene; and it may leave out numbers without a figure, even if figures
with these numbers are inserted later.

A copy of a handle stands for the same scene for good, and sees the same figures. The handle of a
scene that is opened stands for another scene than all before it. And what is done through handles
of other scenes may be left out: it changes no figure of a scene, and no handle. -/
theorem figures_follow_history (actions : List Action) :
    let last := empty.run actions
    -- insertions
    (∀ before handle figure after scene, actions = before ++ .insert handle figure :: after →
      let r := empty.run before
      r.scene? handle = some scene →
      let id : FigureId := ⟨(r.scenes.figures scene).size⟩
      let inserted := r.next (.insert handle figure)
      (r.perform (.insert handle figure)).1 = some id ∧
      inserted.scenes.figures scene = (r.scenes.figures scene).push figure ∧
      ∃ row f, last.scenes.all[scene.index]? = some row ∧ row[id.index]? = some f ∧
        last.scenes.get? scene id = some f ∧ f.color = figure.color ∧
        ∀ axis,
          let distances := Move.allDistances (inserted.moves after) scene id axis
          f.along axis = (figure.along axis).shifts distances ∧
          (f.along axis).val = distances.foldl
            (fun sum d => max (-2147483648) (min (sum + d) 2147483647)) (figure.along axis).val) ∧
    (∀ scene id f, last.scenes.get? scene id = some f →
      ∃ before handle figure after, actions = before ++ .insert handle figure :: after ∧
        (empty.run before).scene? handle = some scene ∧
        id = ⟨((empty.run before).scenes.figures scene).size⟩) ∧
    (∀ before after scene, actions = before ++ after →
      ((empty.run before).scenes.figures scene).size ≤ (last.scenes.figures scene).size) ∧
    -- translations
    (∀ before handle ids dx dy after scene,
      actions = before ++ .translate handle ids dx dy :: after →
      let r := empty.run before
      r.scene? handle = some scene →
      (∀ other, other ≠ scene →
        (r.next (.translate handle ids dx dy)).scenes.figures other = r.scenes.figures other) ∧
      let known := ids.filter fun id => id.index < (r.scenes.figures scene).size
      last = empty.run (before ++ .translate handle known dx dy :: after)) ∧
    -- handles
    (∀ before handle after scene, actions = before ++ .copy handle :: after →
      (empty.run before).scene? handle = some scene →
      let copied := (empty.run before).handles.length
      last.scene? copied = some scene ∧ last.scene? handle = some scene ∧
      ∀ id, last.get? copied id = last.get? handle id) ∧
    (∀ before after, actions = before ++ .create :: after →
      let created := (empty.run before).handles.length
      ∃ scene, last.scene? created = some scene ∧
        ∀ handle < created, last.scene? handle ≠ some scene) ∧
    -- other scenes
    ∀ scene,
      let alone := empty.run (empty.only scene actions)
      alone.handles = last.handles ∧ alone.scenes.figures scene = last.scenes.figures scene := by
  intro last
  have hsound : ∀ before, (empty.run before).Sound := sound_empty.run
  refine ⟨?inserted, ?from_insertion, ?growing, ?translated, ?copied, ?created, ?others⟩
  case inserted =>
    -- The insertion puts the figure there, and the later moves take it to where it is found in the
    -- end.
    rintro before handle figure after scene rfl r hscene id inserted
    have hlast : last = inserted.run after := run_append_cons empty before _ after
    have hthere : inserted.scenes.get? scene id = some figure :=
      (hsound before).get?_insert hscene figure
    have hget : last.scenes.get? scene id =
        some (figure.shifts (Move.allDistances (inserted.moves after) scene id)) := by
      rw [hlast]
      exact get?_run hthere after
    obtain ⟨row, hrow, hnumber⟩ := Scenes.get?_eq_some_iff.mp hget
    refine ⟨r.perform_insert hscene figure, (hsound before).figures_insert hscene figure, row, _,
      hrow, hnumber, hget, rfl, fun axis => ⟨Figure.along_shifts _ _ _, ?_⟩⟩
    rw [Figure.along_shifts, Coord.shifts_val]
  case from_insertion => exact fun scene id f hf => exists_insert rfl hf
  case growing =>
    rintro before after scene rfl
    have hlast : last = (empty.run before).run after := run_append empty before after
    rw [hlast]
    exact size_figures_le_run _ after scene
  case translated =>
    rintro before handle ids dx dy after scene rfl r hscene
    refine ⟨fun other hne => ?_, ?_⟩
    · have hnot : ¬ r.Concerns other (.translate handle ids dx dy) := fun hc =>
        hne (Option.some.inj (hc.symm.trans hscene))
      exact (Alike.of_not_concerns hnot).figures
    · intro known
      have hlast : last = (r.next (.translate handle ids dx dy)).run after :=
        run_append_cons empty before _ after
      rw [hlast, run_append_cons, next_translate_filter _ hscene]
  case copied =>
    rintro before handle after scene rfl hscene copied
    have hlast : last = ((empty.run before).next (.copy handle)).run after :=
      run_append_cons empty before _ after
    have hcopied : last.scene? copied = some scene := by
      rw [hlast]
      exact scene?_copy hscene after
    have hhandle : last.scene? handle = some scene := by
      rw [hlast]
      exact scene?_run hscene (.copy handle :: after)
    exact ⟨hcopied, hhandle, fun id => by rw [get?, get?, hcopied, hhandle]⟩
  case created =>
    rintro before after rfl created
    have hlast : last = ((empty.run before).next .create).run after :=
      run_append_cons empty before _ after
    rw [hlast]
    exact (hsound before).scene?_create after
  case others =>
    intro scene alone
    have halike := (Alike.refl scene empty).run actions
    exact ⟨halike.handles.symm, halike.figures.symm⟩

/-- A figure listed twice moves twice, through any handle; and a number listed too early moves
nothing. -/
example :
    let dot : Figure := ⟨0, 0, .black⟩
    let actions : List Action :=
      [.create, .copy 0, .insert 0 dot, .translate 1 [⟨0⟩, ⟨1⟩, ⟨0⟩] 3 1, .insert 1 dot]
    (empty.run actions).get? 0 ⟨0⟩ = some ⟨6, 2, .black⟩ ∧
      (empty.run actions).get? 0 ⟨1⟩ = some dot := by
  decide

end Registry

end Easel
