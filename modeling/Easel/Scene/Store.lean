import Easel.Scene.Figure

/-!
# Scenes

A scene is a row of figures that only grows. Operations name figures by scene and number, so a move
changes the figure that a later drawing operation reads. `Scenes` holds every scene there is; it is
the one piece of state that compiling scripts and applying operations have in common.

* `Scenes.create` — opens an empty scene;
* `Scenes.insert` — adds a figure at the end of a scene and answers its number;
* `Scenes.get?` — the present state of a figure;
* `Scenes.translate` — moves the figures with the listed numbers, as often as they are listed.

Each operation is described by what it does to the view `Scenes.figures`.
-/

namespace Easel

/-- The name of a scene: its place among all scenes in the order of their creation. -/
structure SceneId where
  index : Nat
deriving DecidableEq

/-- The name of a figure within its scene: its place in the order of insertion. -/
structure FigureId where
  index : Nat
deriving DecidableEq

/-- The form `FigureId(3)`. -/
def FigureId.describe (id : FigureId) : String := s!"FigureId({id.index})"

/-- All scenes, each with its figures in the order of their insertion. Figures are only added behind
the others, so a name that has been given out stays good. -/
structure Scenes where
  all : Array (Array Figure)
deriving DecidableEq

namespace Scenes

/-- No scenes yet. -/
def empty : Scenes := ⟨#[]⟩

/-- The figures of a scene, by number. A scene that was never created has none. What an operation
does is stated by this view, so that later proofs need not look at the arrays inside. -/
def figures (scenes : Scenes) (scene : SceneId) : Array Figure := scenes.all.getD scene.index #[]

/-- Changes the figures of one scene. Without such a scene nothing changes. -/
def update (scenes : Scenes) (scene : SceneId) (change : Array Figure → Array Figure) : Scenes :=
  ⟨scenes.all.modify scene.index change⟩

/-- Opens an empty scene, under a name not used before. -/
def create (scenes : Scenes) : SceneId × Scenes :=
  (⟨scenes.all.size⟩, ⟨scenes.all.push #[]⟩)

/-- Adds a figure to a scene and answers its number, which is how many figures there were before. -/
def insert (scenes : Scenes) (scene : SceneId) (figure : Figure) : FigureId × Scenes :=
  (⟨(scenes.figures scene).size⟩, scenes.update scene (·.push figure))

/-- The present state of a figure, if the scene has one of that number. -/
def get? (scenes : Scenes) (scene : SceneId) (id : FigureId) : Option Figure :=
  (scenes.figures scene)[id.index]?

/-- Moves the figures of a row with the listed numbers, one after another. A number listed twice
moves its figure twice; a number without a figure moves nothing. -/
def shiftAll (ids : List FigureId) (dx dy : Coord) (row : Array Figure) : Array Figure :=
  ids.foldl (fun row id => row.modify id.index (·.shift dx dy)) row

/-- Moves the figures of a scene with the listed numbers. The list is applied as it is, with its
repetitions. -/
def translate (scenes : Scenes) (scene : SceneId) (ids : List FigureId) (dx dy : Coord) : Scenes :=
  scenes.update scene (shiftAll ids dx dy)

/-- The form `FigureArena { len: 2 }` of one scene. -/
def describe (scenes : Scenes) (scene : SceneId) : String :=
  s!"FigureArena \x7b len: {(scenes.figures scene).size} \x7d"

/-! ### What the operations do to the figures of a scene -/

/-- A scene with this name has been created. -/
def Has (scenes : Scenes) (scene : SceneId) : Prop := scene.index < scenes.all.size

instance (scenes : Scenes) (scene : SceneId) : Decidable (scenes.Has scene) :=
  inferInstanceAs (Decidable (_ < _))

/-- A change of a scene that exists is seen in its own row. -/
theorem figures_update_self {scenes : Scenes} {scene : SceneId} (h : scenes.Has scene)
    (change : Array Figure → Array Figure) :
    (scenes.update scene change).figures scene = change (scenes.figures scene) := by
  simp [figures, update, Array.getElem?_modify, Array.getElem?_eq_getElem h]

/-- A change of one scene is not seen in any other row. -/
theorem figures_update_of_ne {scenes : Scenes} {scene other : SceneId} (h : other ≠ scene)
    (change : Array Figure → Array Figure) :
    (scenes.update scene change).figures other = scenes.figures other := by
  -- Names are equal if their numbers are.
  have : ¬ scene.index = other.index := fun e => h (by cases other; cases scene; simp_all)
  simp [figures, update, Array.getElem?_modify, this]

/-- A new scene has no figures, as a scene that does not exist has none either, so the view of every
row stays the same. -/
@[simp] theorem figures_create (scenes : Scenes) (scene : SceneId) :
    scenes.create.2.figures scene = scenes.figures scene := by
  simp only [figures, create, Array.getD_eq_getD_getElem?, Array.getElem?_push]
  split
  · next h => simp [h]
  · rfl

/-- A move adds no figure and takes none away. -/
@[simp] theorem size_shiftAll (ids : List FigureId) (dx dy : Coord) (row : Array Figure) :
    (shiftAll ids dx dy row).size = row.size := by
  induction ids generalizing row with
  | nil => rfl
  | cons id ids ih => simpa [shiftAll] using ih (row.modify id.index (·.shift dx dy))

end Scenes

end Easel
