import Easel.Operation.Basic

/-!
# Describing operations

The diagnostic text of an operation. It shows the present state of the figures that the operation
refers to, so it depends on the scenes.
-/

namespace Easel

/-- A list in brackets, its members separated by commas, with a blank after each comma. -/
def describeList (members : List String) : String :=
  "[" ++ String.intercalate ", " members ++ "]"

/-- The form `FigureHandle { id: FigureId(0), figure: Some(...) }`, or `None` for a figure that does
not exist. -/
def FigureRef.describe (ref : FigureRef) (scenes : Scenes) : String :=
  let figure := match ref.get? scenes with
    | some figure => s!"Some({figure.describe})"
    | none => "None"
  s!"FigureHandle \x7b id: {ref.id.describe}, figure: {figure} \x7d"

/-- The form `Move { dx: 3, dy: 3, targets: [FigureId(0)], .. }`. The scene is left out. -/
def Move.describe (move : Move) : String :=
  let targets := describeList (move.targets.map FigureId.describe)
  s!"Move \x7b dx: {move.dx}, dy: {move.dy}, targets: {targets}, .. \x7d"

namespace Operation

mutual

/-- The diagnostic text of an operation. Members of a batch are shown within it, to any depth. -/
def describe (scenes : Scenes) : Operation → String
  | .fill color => s!"Fill({color.describe})"
  | .overlay rect => s!"BackgroundRect({rect.describe})"
  | .figure ref => s!"Figure({ref.describe scenes})"
  | .move m => s!"Move({m.describe})"
  | .present => "Present"
  | .batch members =>
    s!"Batch(Batch \x7b ops: {describeList (describeAll scenes members)} \x7d)"

/-- The diagnostic texts of some operations, in order. -/
def describeAll (scenes : Scenes) : List Operation → List String
  | [] => []
  | op :: rest => describe scenes op :: describeAll scenes rest

end

end Operation

end Easel
