import Easel.Scene.Store
import Mathlib.Logic.Function.Iterate

/-!
# How scenes change

Scenes change in three ways: a scene is created, a figure is inserted, figures are moved. The first
two make the scenes grow (`Scenes.grow`), the third leaves every number of figures as it is.

* `Scenes.ext_figures` — scenes are determined by how many there are and by their figures;
* `Scenes.getElem?_shiftAll` — a move reaches a figure as often as its number is listed;
* `Scenes.get?_grow` — growth leaves the figures that exist as they are;
* `Scenes.translate_grow` — growth and a move of figures that exist may be exchanged.

The last two are why it does not matter whether a script is compiled before or after an earlier
batch is drawn.
-/

namespace Easel

namespace Scenes

/-! ### The view of the three changes -/

/-- A figure is looked up in the row of its scene, under its number; without a row or without the
number there is none. -/
theorem get?_eq_some_iff {scenes : Scenes} {scene : SceneId} {id : FigureId} {f : Figure} :
    scenes.get? scene id = some f ↔
      ∃ row, scenes.all[scene.index]? = some row ∧ row[id.index]? = some f := by
  rw [get?, figures, Array.getD_eq_getD_getElem?]
  cases scenes.all[scene.index]? with
  | none => simp
  | some row => simp

/-- Scenes are equal if there are equally many of them and each has the same figures. The proofs
about scenes compare them in this way, and so never look at how rows are stored. -/
theorem ext_figures {a b : Scenes} (hsize : a.all.size = b.all.size)
    (hfigures : ∀ scene, a.figures scene = b.figures scene) : a = b := by
  obtain ⟨rows⟩ := a
  obtain ⟨others⟩ := b
  congr 1
  refine Array.ext hsize ?_
  intro i h₁ h₂
  have h := hfigures ⟨i⟩
  simpa [figures, Array.getElem?_eq_getElem h₁, Array.getElem?_eq_getElem h₂] using h

/-- A change of one row makes no scene and removes none. -/
@[simp] theorem size_all_update (scenes : Scenes) (scene : SceneId)
    (change : Array Figure → Array Figure) :
    (scenes.update scene change).all.size = scenes.all.size := Array.size_modify

/-- A scene that is created is one more. -/
@[simp] theorem size_all_create (scenes : Scenes) :
    scenes.create.2.all.size = scenes.all.size + 1 := Array.size_push _

/-- A figure that is inserted makes no scene. -/
@[simp] theorem size_all_insert (scenes : Scenes) (scene : SceneId) (figure : Figure) :
    (scenes.insert scene figure).2.all.size = scenes.all.size := size_all_update _ _ _

/-- A move makes no scene. -/
@[simp] theorem size_all_translate (scenes : Scenes) (scene : SceneId) (ids : List FigureId)
    (dx dy : Coord) : (scenes.translate scene ids dx dy).all.size = scenes.all.size :=
  size_all_update _ _ _

/-- A scene that does not exist has no figures. -/
theorem figures_of_not_has {scenes : Scenes} {scene : SceneId} (h : ¬ scenes.Has scene) :
    scenes.figures scene = #[] := by
  simp [figures, Array.getElem?_eq_none (Nat.le_of_not_lt h)]

/-- The scene that is created next has no figures yet. -/
theorem figures_fresh (scenes : Scenes) : scenes.figures ⟨scenes.all.size⟩ = #[] :=
  figures_of_not_has (Nat.lt_irrefl _)

/-- A change of one row shows in its own scene, if that exists, and in no other. -/
theorem figures_update (scenes : Scenes) (scene other : SceneId)
    (change : Array Figure → Array Figure) :
    (scenes.update scene change).figures other =
      if other = scene ∧ scenes.Has scene then change (scenes.figures scene)
      else scenes.figures other := by
  by_cases h : other = scene
  · subst h
    -- A scene that does not exist has no figures before and after, so the change is lost on it.
    by_cases hhas : scenes.Has other
    · rw [if_pos ⟨rfl, hhas⟩, figures_update_self hhas]
    · have hnot : ¬ (scenes.update other change).Has other := by
        rwa [Has, size_all_update]
      rw [if_neg fun hc => hhas hc.2, figures_of_not_has hhas, figures_of_not_has hnot]
  · rw [if_neg fun hc => h hc.1, figures_update_of_ne h]

/-- A figure that is inserted shows at the end of its own scene, if that exists. -/
theorem figures_insert (scenes : Scenes) (scene other : SceneId) (figure : Figure) :
    (scenes.insert scene figure).2.figures other =
      if other = scene ∧ scenes.Has scene then (scenes.figures scene).push figure
      else scenes.figures other :=
  figures_update scenes scene other (·.push figure)

/-- In an empty row there is nothing to move. -/
@[simp] theorem shiftAll_empty (ids : List FigureId) (dx dy : Coord) :
    shiftAll ids dx dy #[] = #[] :=
  Array.eq_empty_of_size_eq_zero (size_shiftAll ids dx dy #[])

/-- A move shifts the row of its own scene. Unlike an insertion it needs no scene to be there, as an
empty row stays empty. -/
theorem figures_translate (scenes : Scenes) (scene other : SceneId) (ids : List FigureId)
    (dx dy : Coord) :
    (scenes.translate scene ids dx dy).figures other =
      if other = scene then shiftAll ids dx dy (scenes.figures scene)
      else scenes.figures other := by
  rw [translate, figures_update]
  by_cases h : other = scene
  · subst h
    by_cases hhas : scenes.Has other
    · rw [if_pos ⟨rfl, hhas⟩, if_pos rfl]
    · rw [if_neg fun hc => hhas hc.2, if_pos rfl, figures_of_not_has hhas, shiftAll_empty]
  · rw [if_neg fun hc => h hc.1, if_neg h]

/-- A move leaves the number of figures in every scene as it is. -/
@[simp] theorem size_figures_translate (scenes : Scenes) (scene other : SceneId)
    (ids : List FigureId) (dx dy : Coord) :
    ((scenes.translate scene ids dx dy).figures other).size = (scenes.figures other).size := by
  rw [figures_translate]
  split
  · next h => rw [size_shiftAll, h]
  · rfl

/-! ### Moves of a row -/

/-- A move of no figures leaves the row as it is. -/
@[simp] theorem shiftAll_nil (dx dy : Coord) (row : Array Figure) :
    shiftAll [] dx dy row = row := rfl

/-- A move of several figures shifts the first one it lists, then the others. -/
theorem shiftAll_cons (id : FigureId) (ids : List FigureId) (dx dy : Coord) (row : Array Figure) :
    shiftAll (id :: ids) dx dy row =
      shiftAll ids dx dy (row.modify id.index (·.shift dx dy)) := rfl

/-- **A move reaches a figure as often as its number is listed**, so a number that comes up twice
shifts its figure twice. -/
theorem getElem?_shiftAll (ids : List FigureId) (dx dy : Coord) (row : Array Figure) (i : Nat) :
    (shiftAll ids dx dy row)[i]? =
      row[i]?.map fun figure => (fun f => Figure.shift f dx dy)^[ids.count ⟨i⟩] figure := by
  induction ids generalizing row with
  | nil => simp
  | cons id ids ih =>
    rw [shiftAll_cons, ih, Array.getElem?_modify]
    -- The first number is the one looked up, and is counted, or it is another and leaves the figure
    -- as it is.
    by_cases h : id.index = i
    · have hid : id = ⟨i⟩ := by rw [← h]
      rw [if_pos h, hid, List.count_cons_self, Option.map_map]
      rfl
    · have hid : id ≠ ⟨i⟩ := fun hc => h (by rw [hc])
      rw [if_neg h, List.count_cons_of_ne hid]

/-- A move leaves every figure its color, in the same place of the row. -/
theorem colors_shiftAll (ids : List FigureId) (dx dy : Coord) (row : Array Figure) :
    (shiftAll ids dx dy row).map Figure.color = row.map Figure.color := by
  refine Array.ext_getElem? ?_
  intro i
  rw [Array.getElem?_map, Array.getElem?_map, getElem?_shiftAll, Option.map_map]
  -- However often a figure is shifted, each time keeps the color.
  have hcolor : ∀ (n : Nat) (figure : Figure),
      ((fun f => Figure.shift f dx dy)^[n] figure).color = figure.color := by
    intro n figure
    induction n with
    | zero => rfl
    | succ n ih => rw [Function.iterate_succ_apply', Figure.shift_color, ih]
  exact congrArg (row[i]?.map ·) (funext (hcolor _))

/-- A figure added at the end is not among the figures that were listed before, so it stays where it
is put, and a move may come before the addition or after it. -/
theorem shiftAll_push {ids : List FigureId} {row : Array Figure}
    (h : ∀ id ∈ ids, id.index < row.size) (dx dy : Coord) (figure : Figure) :
    shiftAll ids dx dy (row.push figure) = (shiftAll ids dx dy row).push figure := by
  refine Array.ext_getElem? ?_
  intro i
  rw [getElem?_shiftAll, Array.getElem?_push, Array.getElem?_push, size_shiftAll]
  by_cases hi : i = row.size
  · have hnot : (⟨i⟩ : FigureId) ∉ ids := fun hc => Nat.ne_of_lt (h _ hc) hi
    rw [if_pos hi, if_pos hi, List.count_eq_zero_of_not_mem hnot]
    rfl
  · rw [if_neg hi, if_neg hi, getElem?_shiftAll]

/-! ### Growth -/

/-- The two ways in which scenes grow. They are data, so that a statement about both can be made
once. -/
inductive Growth where
  /-- A scene is created. -/
  | scene
  /-- A figure is added at the end of a scene. -/
  | figure (scene : SceneId) (figure : Figure)
deriving DecidableEq

/-- The scenes after a growth. -/
def grow (scenes : Scenes) : Growth → Scenes
  | .scene => scenes.create.2
  | .figure scene figure => (scenes.insert scene figure).2

/-- **A growth leaves the figures that exist in their places**: what it adds stands behind them, or
in a scene of its own. -/
theorem getElem?_figures_grow {scenes : Scenes} (growth : Growth) {scene : SceneId} {i : Nat}
    (h : i < (scenes.figures scene).size) :
    ((scenes.grow growth).figures scene)[i]? = (scenes.figures scene)[i]? := by
  cases growth with
  | scene => rw [grow, figures_create]
  | figure other figure =>
    rw [grow, figures_insert]
    split
    · next hc => rw [← hc.1, Array.getElem?_push, if_neg (Nat.ne_of_lt h)]
    · rfl

/-- **Growth leaves the figures that exist as they are.** -/
theorem get?_grow {scenes : Scenes} (growth : Growth) {scene : SceneId} {id : FigureId}
    (h : id.index < (scenes.figures scene).size) :
    (scenes.grow growth).get? scene id = scenes.get? scene id :=
  getElem?_figures_grow growth h

/-- A growth leaves in every scene at least as many figures as before. -/
theorem size_figures_le_grow (scenes : Scenes) (growth : Growth) (scene : SceneId) :
    (scenes.figures scene).size ≤ ((scenes.grow growth).figures scene).size := by
  cases growth with
  | scene => exact Nat.le_of_eq (congrArg Array.size (figures_create scenes scene)).symm
  | figure other figure =>
    rw [grow, figures_insert]
    split
    · next hc => rw [← hc.1, Array.size_push]; exact Nat.le_succ _
    · exact Nat.le_refl _

/-- Scenes that have all figures that others have, unchanged, and perhaps more. This is what
compiling a script does to the scenes, and why earlier references stay good. -/
structure Extends (after before : Scenes) : Prop where
  size_all : before.all.size ≤ after.all.size
  figures : ∀ (scene : SceneId) (i : Nat), i < (before.figures scene).size →
    (after.figures scene)[i]? = (before.figures scene)[i]?

/-- Scenes extend themselves. -/
theorem Extends.refl (scenes : Scenes) : scenes.Extends scenes :=
  ⟨Nat.le_refl _, fun _ _ _ => rfl⟩

/-- What extends an extension extends the first scenes too. -/
theorem Extends.trans {last middle first : Scenes} (h : last.Extends middle)
    (hfirst : middle.Extends first) : last.Extends first := by
  refine ⟨Nat.le_trans hfirst.size_all h.size_all, ?_⟩
  intro scene i hi
  have hmiddle := hfirst.figures scene i hi
  -- The figure of the first scenes is there in the middle ones, which puts its number in range.
  rw [Array.getElem?_eq_getElem hi, Array.getElem?_eq_some_iff] at hmiddle
  obtain ⟨hlt, -⟩ := hmiddle
  rw [h.figures scene i hlt, hfirst.figures scene i hi]

/-- A figure that is found before is found after, unchanged. -/
theorem Extends.get? {after before : Scenes} (h : after.Extends before) {scene : SceneId}
    {id : FigureId} {figure : Figure} (hget : before.get? scene id = some figure) :
    after.get? scene id = some figure :=
  (h.figures scene id.index (Array.getElem?_eq_some_iff.mp hget).1).trans hget

/-- A growth extends the scenes. -/
theorem extends_grow (scenes : Scenes) (growth : Growth) : (scenes.grow growth).Extends scenes where
  size_all := by
    cases growth with
    | scene =>
      rw [grow, size_all_create]
      exact Nat.le_succ _
    | figure scene figure => exact Nat.le_of_eq (size_all_insert scenes scene figure).symm
  figures _ _ hi := getElem?_figures_grow growth hi

/-- **Growth and a move of figures that exist may be exchanged.** -/
theorem translate_grow {scenes : Scenes} (growth : Growth) {scene : SceneId}
    {ids : List FigureId} (h : ∀ id ∈ ids, id.index < (scenes.figures scene).size)
    (dx dy : Coord) :
    (scenes.grow growth).translate scene ids dx dy =
      (scenes.translate scene ids dx dy).grow growth := by
  cases growth with
  | scene =>
    refine ext_figures (by simp [grow]) ?_
    intro other
    simp only [grow, figures_translate, figures_create]
  | figure grown figure =>
    refine ext_figures (by simp [grow]) ?_
    intro other
    -- A move makes no scene, so the figure finds its scene before and after.
    have hhas : (scenes.translate scene ids dx dy).Has grown ↔ scenes.Has grown := by
      rw [Has, Has, size_all_translate]
    simp only [grow, figures_translate, figures_insert, hhas]
    -- In the scene that is moved, the new figure stands behind all those that move.
    by_cases h₁ : other = scene
    · subst h₁
      by_cases h₂ : other = grown ∧ scenes.Has grown
      · obtain ⟨rfl, h₃⟩ := h₂
        simp [h₃, shiftAll_push h]
      · simp [h₂]
    · by_cases h₂ : other = grown ∧ scenes.Has grown
      · obtain ⟨rfl, h₃⟩ := h₂
        simp [h₁, h₃]
      · simp [h₁, h₂]

end Scenes

end Easel
