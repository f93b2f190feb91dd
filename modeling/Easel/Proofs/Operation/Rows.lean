import Easel.Proofs.Operation.Leaves
import Easel.Proofs.Scene.Glyph
import Mathlib.Data.List.Count
import Mathlib.Data.List.Nodup

/-!
# Rows of figures

What the operations of a batch do to the figures of one scene, and what they draw of them.

* `Move.push`, `Move.pushAll` — a row of figures after moves;
* `Operation.figures_settle_moves` — moves of a scene push the row of its figures;
* `Operation.fills_figures` — drawing all figures of a scene draws the row.
-/

namespace Easel

/-- A row of figures after a move: the figures that it targets are shifted once for each time that
it names them. -/
def Move.push (m : Move) (row : Array Figure) : Array Figure :=
  Scenes.shiftAll m.targets m.dx m.dy row

/-- A row of figures after moves, the first of them first. -/
def Move.pushAll (moves : List Move) (row : Array Figure) : Array Figure :=
  moves.foldl (fun row m => m.push row) row

/-- A shift that names every figure of a row once is a shift of the whole row. -/
theorem Scenes.shiftAll_range (row : Array Figure) (dx dy : Coord) :
    shiftAll ((List.range row.size).map FigureId.mk) dx dy row = row.map (·.shift dx dy) := by
  refine Array.ext_getElem? ?_
  intro i
  rw [getElem?_shiftAll, Array.getElem?_map]
  rcases Nat.lt_or_ge i row.size with hi | hi
  -- No name comes up twice among the first so many, so each figure is shifted exactly once.
  · have hcount : ((List.range row.size).map FigureId.mk).count ⟨i⟩ = 1 := by
      rw [List.count_map_of_injective _ _ fun _ _ => FigureId.mk.inj]
      exact List.count_eq_one_of_mem List.nodup_range (List.mem_range.mpr hi)
    rw [hcount]
    rfl
  · rw [Array.getElem?_eq_none hi]
    rfl

namespace Move

/-- Moves leave a row as long as it is. -/
@[simp] theorem size_pushAll (moves : List Move) (row : Array Figure) :
    (pushAll moves row).size = row.size := by
  induction moves generalizing row with
  | nil => rfl
  | cons m rest ih => exact (ih _).trans (Scenes.size_shiftAll _ _ _ _)

/-- **A figure that is added to a row may be added before or after the moves of the old figures**:
they name none behind the end of the row, so the new one keeps its place. -/
theorem pushAll_push {moves : List Move} {row : Array Figure}
    (h : ∀ m ∈ moves, ∀ id ∈ m.targets, id.index < row.size) (figure : Figure) :
    pushAll moves (row.push figure) = (pushAll moves row).push figure := by
  induction moves generalizing row with
  | nil => rfl
  | cons m rest ih =>
    have hm : m.push (row.push figure) = (m.push row).push figure :=
      Scenes.shiftAll_push (h m List.mem_cons_self) m.dx m.dy figure
    change pushAll rest (m.push (row.push figure)) = _
    rw [hm]
    refine ih ?_
    intro later hlater id hid
    -- A move keeps the length of the row, so the later moves still name old figures only.
    rw [push, Scenes.size_shiftAll]
    exact h later (List.mem_cons_of_mem _ hlater) id hid

/-- The last of several moves is carried out last. -/
theorem pushAll_concat (moves : List Move) (m : Move) (row : Array Figure) :
    pushAll (moves ++ [m]) row = m.push (pushAll moves row) := by
  rw [pushAll, List.foldl_append, pushAll]
  rfl

end Move

namespace Operation

variable (bounds : Rect) (scenes : Scenes)

/-- Moves draw nothing. -/
@[simp] theorem fills_moves (moves : List Move) : fills bounds (moves.map .move) scenes = [] := by
  induction moves generalizing scenes with
  | nil => rfl
  | cons m rest ih => exact ih _

/-- **Moves of one scene push its row**, one after another. -/
theorem figures_settle_moves {moves : List Move} {scene : SceneId}
    (h : ∀ m ∈ moves, m.scene = scene) :
    (settle (moves.map .move) scenes).figures scene =
      Move.pushAll moves (scenes.figures scene) := by
  induction moves generalizing scenes with
  | nil => rfl
  | cons m rest ih =>
    have hpush : (m.apply scenes).figures scene = m.push (scenes.figures scene) := by
      rw [Move.apply, Scenes.figures_translate, h m List.mem_cons_self, if_pos rfl, Move.push]
    have hrest := ih (m.apply scenes) fun later hlater => h later (List.mem_cons_of_mem _ hlater)
    rw [hpush] at hrest
    exact hrest

/-- Operations that move nothing in a scene leave its figures as they are, whatever they draw and
whatever they move elsewhere. -/
theorem figures_settle_of_ne {leaves : List Operation} {scene : SceneId}
    (h : ∀ m : Move, .move m ∈ leaves → m.scene ≠ scene) :
    (settle leaves scenes).figures scene = scenes.figures scene := by
  induction leaves generalizing scenes with
  | nil => rfl
  | cons leaf rest ih =>
    have hleaf : (ownMove scenes leaf).figures scene = scenes.figures scene := by
      cases leaf with
      | move m =>
        change (scenes.translate m.scene m.targets m.dx m.dy).figures scene = _
        rw [Scenes.figures_translate, if_neg (h m List.mem_cons_self).symm]
      | _ => rfl
    rw [settle_cons, ih _ fun m hm => h m (List.mem_cons_of_mem _ hm), hleaf]

/-- Drawing figures moves none of them. -/
@[simp] theorem settle_figures (refs : List FigureRef) :
    settle (refs.map .figure) scenes = scenes := by
  induction refs with
  | nil => rfl
  | cons ref rest ih => exact ih

/-- References to figures draw the figures that exist, in the order of the references, and nothing
for the others. -/
theorem fills_refs (refs : List FigureRef) :
    fills bounds (refs.map .figure) scenes =
      (refs.filterMap (·.get? scenes)).flatMap Figure.fills := by
  induction refs with
  | nil => rfl
  | cons ref rest ih =>
    rw [List.map_cons, fills_cons, List.filterMap_cons]
    cases h : ref.get? scenes with
    | none => simp only [ownFills, h]; exact ih
    | some found => simp only [ownFills, h, List.flatMap_cons]; exact congrArg (_ ++ ·) ih

/-- Looking up every place of a list gives the list. -/
private theorem filterMap_range_getElem? {α : Type} (l : List α) :
    (List.range l.length).filterMap (fun i => l[i]?) = l := by
  induction l using List.reverseRecOn with
  | nil => rfl
  | append_singleton l a ih =>
    rw [List.length_append, List.length_singleton, List.range_succ, List.filterMap_append]
    -- The places of the old list are found where they were, and the last place holds the new item.
    have hold : (List.range l.length).filterMap (fun i => (l ++ [a])[i]?) = l := by
      conv_rhs => rw [← ih]
      refine List.filterMap_congr ?_
      intro i hi
      exact List.getElem?_append_left (List.mem_range.mp hi)
    have hnew : [l.length].filterMap (fun i => (l ++ [a])[i]?) = [a] := by
      simp
    rw [hold, hnew]

/-- **Drawing all figures of a scene draws its row**, from the first figure to the last. -/
theorem fills_figures (scene : SceneId) :
    fills bounds (((List.range (scenes.figures scene).size).map FigureId.mk).map
      fun id => .figure ⟨scene, id⟩) scenes =
      (scenes.figures scene).toList.flatMap Figure.fills := by
  have hrefs : (((List.range (scenes.figures scene).size).map FigureId.mk).map
      fun id => Operation.figure ⟨scene, id⟩) =
      ((List.range (scenes.figures scene).size).map
        fun i => FigureRef.mk scene ⟨i⟩).map .figure := by
    rw [List.map_map, List.map_map]
    rfl
  -- Every place of the row is looked up once, and what is found there is the row.
  have hall : ((List.range (scenes.figures scene).size).map
      fun i => FigureRef.mk scene ⟨i⟩).filterMap (·.get? scenes) =
      (scenes.figures scene).toList := by
    have hrow := filterMap_range_getElem? (scenes.figures scene).toList
    simp only [Array.getElem?_toList, Array.length_toList] at hrow
    rw [List.filterMap_map]
    exact hrow
  rw [hrefs, fills_refs, hall]

end Operation

end Easel
