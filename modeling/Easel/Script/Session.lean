import Easel.Operation.Basic
import Easel.Script.Command

/-!
# Sessions

A session is what scripts have said so far: a background, an overlay rectangle, and figures with the
moves that wait for them. Commands add to it in any order. A batch is read off it in a fixed order:
background, overlay, moves, figures, present. So a figure that is created and then moved is drawn
once, where it ends up.

* `Settings.scale` — the pixel of a number in a script;
* `Session.execute` — what one command does to the session and to the scenes;
* `Session.assemble` — the batch that a session describes, and the session after its moves have
  been handed over.
-/

namespace Easel.Script

/-- How numbers and figures of a script become pixels. The settings are chosen once and stay the
same for the life of a compiler. -/
structure Settings where
  /-- How many pixels one is. -/
  unit : Binary64
  /-- The color of new figures. -/
  figureColor : Color
deriving DecidableEq

namespace Settings

/-- One is 400 pixels, and figures are red. -/
def standard : Settings where
  -- The word of the double 400.
  unit := .ofBits 0x4079000000000000
  figureColor := .pureRed

/-- The pixel of a number: the product with the unit, rounded to a double and then cut to an
integer. Coordinates and distances are scaled alike. -/
def scale (settings : Settings) (x : Binary64) : Coord := .ofBinary64 (x * settings.unit)

end Settings

/-- What scripts have said so far. Of backgrounds and overlays the last one counts, of figures and
moves all do. -/
structure Session where
  /-- The background last selected. -/
  background? : Option Background
  /-- The overlay rectangle last given. -/
  overlay? : Option Rect
  /-- Where the figures of the session are. -/
  scene : SceneId
  /-- The figures in the order of their creation. -/
  figures : List FigureId
  /-- The moves that no batch has carried out yet. -/
  moves : List Move
  /-- Whether the script under way has asked to be shown. -/
  presentRequested : Bool
deriving DecidableEq

namespace Session

/-- A session that has heard nothing, with a scene of its own. -/
def new (scene : SceneId) : Session := ⟨none, none, scene, [], [], false⟩

/-- A session that has heard nothing but a reset. -/
def cleared (scene : SceneId) : Session := { new scene with background? := some .reset }

/-- Nothing has been selected, laid over, added or moved. No script leaves a session so, since every
script selects a background. -/
def IsUntouched (s : Session) : Prop :=
  s.background? = none ∧ s.overlay? = none ∧ s.figures = [] ∧ s.moves = []

instance (s : Session) : Decidable s.IsUntouched := inferInstanceAs (Decidable (_ ∧ _))

/-- All there is to do is to show what is on the surface: the script has asked for it, and what it
and those before it have selected is no more than the black background. -/
def IsBarePresent (s : Session) : Prop :=
  s.presentRequested = true ∧ s.background? = some .reset ∧ s.overlay? = none ∧
    s.figures = [] ∧ s.moves = []

instance (s : Session) : Decidable s.IsBarePresent := inferInstanceAs (Decidable (_ ∧ _))

/-- Starts over in a scene of its own, so that batches already handed out keep their figures. -/
def reset (scenes : Scenes) : Session × Scenes :=
  match scenes.create with
  | (scene, scenes) => (cleared scene, scenes)

/-- Prepares for a script: an untouched session selects the black background, and whether to be
shown is asked anew. -/
def begin (s : Session) : Session :=
  { s with
    background? := if s.IsUntouched then some .reset else s.background?
    presentRequested := false }

/-- Carries out one command. Only the creation of a figure and a reset change the scenes; all other
commands change the session alone. -/
def execute (settings : Settings) (s : Session) (scenes : Scenes) : Command → Session × Scenes
  | .background shade => ({ s with background? := some shade }, scenes)
  | .update => ({ s with presentRequested := true }, scenes)
  | .bgrect x1 y1 x2 y2 =>
    let overlay := Rect.ofCorners (settings.scale x1) (settings.scale y1) (settings.scale x2)
      (settings.scale y2)
    ({ s with overlay? := some overlay }, scenes)
  | .figure x y =>
    let figure := ⟨settings.scale x, settings.scale y, settings.figureColor⟩
    match scenes.insert s.scene figure with
    | (id, scenes) => ({ s with figures := s.figures ++ [id] }, scenes)
  | .move dx dy =>
    -- The move lists the figures that exist by now, and is not carried out before a batch is
    -- applied.
    let move := ⟨settings.scale dx, settings.scale dy, s.scene, s.figures⟩
    ({ s with moves := s.moves ++ [move] }, scenes)
  | .reset => reset scenes

/-- Carries out commands, one after another. -/
def executeAll (settings : Settings) (s : Session) (scenes : Scenes) :
    List Command → Session × Scenes
  | [] => (s, scenes)
  | command :: rest =>
    match s.execute settings scenes command with
    | (s, scenes) => s.executeAll settings scenes rest

/-- The operations that a session describes, in the order in which they lie above one another:
background, overlay, moves, figures, present. The moves stand before the figures, so every figure is
drawn where it ends up. -/
def operations (s : Session) : Batch :=
  (s.background?.toList.map fun shade => .fill shade.color) ++
    s.overlay?.toList.map .overlay ++
    s.moves.map .move ++
    (s.figures.map fun id => .figure ⟨s.scene, id⟩) ++
    (if s.presentRequested then [.present] else [])

/-- The batch that a session describes, and the session without the moves that the batch now has. If
all there is to do is to show the surface, the batch does only that. -/
def assemble (s : Session) : Batch × Session :=
  if s.IsBarePresent then ([.present], s) else (s.operations, { s with moves := [] })

end Session

end Easel.Script
