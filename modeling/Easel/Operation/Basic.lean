import Easel.Scene.Store

/-!
# Operations

An operation is one edit of a surface, or a batch of them. Figures and moves refer to figures of a
scene by name, so what they do depends on the scenes at the time they are applied.

* `Operation` — the closed set of edits;
* `Operation.presents` — whether a present lies anywhere inside an operation;
* `Operation.decEq` — two operations are equal if they are built alike; references are equal only
  within one scene.
-/

namespace Easel

/-- A figure named by its scene and its number. The name is resolved when an operation is applied
and not when it is made, so a move in between is seen. -/
structure FigureRef where
  scene : SceneId
  id : FigureId
deriving DecidableEq

namespace FigureRef

/-- The present state of the figure, if there is one. This is the only way in which operations read
the scenes. -/
def get? (ref : FigureRef) (scenes : Scenes) : Option Figure := scenes.get? ref.scene ref.id

end FigureRef

/-- A move of a fixed list of figures of one scene. Figures added later are not part of it. -/
structure Move where
  dx : Coord
  dy : Coord
  scene : SceneId
  targets : List FigureId
deriving DecidableEq

namespace Move

/-- Carries out a move. A scene or a figure that does not exist is passed over. -/
def apply (move : Move) (scenes : Scenes) : Scenes :=
  scenes.translate move.scene move.targets move.dx move.dy

end Move

/-- An edit of a surface. Batches may hold batches, to any depth; what they do is what their members
do in order. -/
inductive Operation where
  /-- Fills the whole surface. -/
  | fill (color : Color)
  /-- Fills a rectangle with `Operation.overlayColor`. -/
  | overlay (rect : Rect)
  /-- Draws a figure where it is now. -/
  | figure (ref : FigureRef)
  /-- Moves figures; draws nothing. -/
  | move (m : Move)
  /-- Draws nothing; says that the surface is ready to be shown. -/
  | present
  /-- The members in order. -/
  | batch (members : List Operation)

/-- The operations of one script, in the order in which they are to be applied. -/
abbrev Batch := List Operation

namespace Operation

/-- The color of overlay rectangles. -/
def overlayColor : Color := .black

instance : Inhabited Operation := ⟨.present⟩

mutual

/-- Decides whether two operations are built alike. Batches hold lists of operations, so the two
functions call each other; kinds that differ are told apart without a look at their contents. -/
def decEq : (a b : Operation) → Decidable (a = b)
  | .fill c, .fill d =>
    if h : c = d then .isTrue (h ▸ rfl) else .isFalse fun e => h (Operation.fill.inj e)
  | .overlay r, .overlay s =>
    if h : r = s then .isTrue (h ▸ rfl) else .isFalse fun e => h (Operation.overlay.inj e)
  | .figure r, .figure s =>
    if h : r = s then .isTrue (h ▸ rfl) else .isFalse fun e => h (Operation.figure.inj e)
  | .move m, .move n =>
    if h : m = n then .isTrue (h ▸ rfl) else .isFalse fun e => h (Operation.move.inj e)
  | .present, .present => .isTrue rfl
  | .batch ms, .batch ns =>
    match decEqAll ms ns with
    | .isTrue h => .isTrue (h ▸ rfl)
    | .isFalse h => .isFalse fun e => h (Operation.batch.inj e)
  | .fill _, .overlay _ | .fill _, .figure _ | .fill _, .move _ | .fill _, .present
  | .fill _, .batch _ | .overlay _, .fill _ | .overlay _, .figure _ | .overlay _, .move _
  | .overlay _, .present | .overlay _, .batch _ | .figure _, .fill _ | .figure _, .overlay _
  | .figure _, .move _ | .figure _, .present | .figure _, .batch _ | .move _, .fill _
  | .move _, .overlay _ | .move _, .figure _ | .move _, .present | .move _, .batch _
  | .present, .fill _ | .present, .overlay _ | .present, .figure _ | .present, .move _
  | .present, .batch _ | .batch _, .fill _ | .batch _, .overlay _ | .batch _, .figure _
  | .batch _, .move _ | .batch _, .present => .isFalse nofun

/-- Decides the same for two lists of operations, member by member. -/
def decEqAll : (as bs : List Operation) → Decidable (as = bs)
  | [], [] => .isTrue rfl
  | [], _ :: _ => .isFalse nofun
  | _ :: _, [] => .isFalse nofun
  | a :: as, b :: bs =>
    match decEq a b, decEqAll as bs with
    | .isTrue h, .isTrue hs => .isTrue (h ▸ hs ▸ rfl)
    | .isFalse h, _ => .isFalse fun e => h (List.cons.inj e).1
    | _, .isFalse hs => .isFalse fun e => hs (List.cons.inj e).2

end

instance : DecidableEq Operation := decEq

mutual

/-- Whether a present lies anywhere inside an operation. -/
def presents : Operation → Bool
  | .present => true
  | .batch members => presentsAny members
  | .fill _ | .overlay _ | .figure _ | .move _ => false

/-- Whether a present lies anywhere inside one of some operations. -/
def presentsAny : List Operation → Bool
  | [] => false
  | op :: rest => op.presents || presentsAny rest

end

/-- The recursion over members, as a search through the list. -/
theorem presentsAny_eq_any (ops : List Operation) : presentsAny ops = ops.any presents := by
  induction ops with
  | nil => rfl
  | cons op rest ih => simp [presentsAny, ih]

end Operation

end Easel
