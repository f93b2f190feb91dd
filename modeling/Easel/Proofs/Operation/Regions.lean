import Easel.Proofs.Operation.Leaves

/-!
# Operations that stay in a region

A region is a set of scenes. A leaf that refers to scenes of a region only (`Operation.StaysIn`)
reads and moves no figures outside of it.

* `Operation.ownFills_congr`, `Operation.figures_ownMove_congr` — scenes that have the same figures
  in the region get the same fills from the leaf, and have the same figures in the region
  afterwards;
* `Operation.figures_ownMove_of_outside` — the figures outside the region stay where they are;
* `Scenes.figures_grow_congr` — the same for a growth of the scenes.
-/

namespace Easel

/-- A growth does not tell apart two scenes that have the same figures: with equally many scenes, it
adds the same to both or nothing to both. -/
theorem Scenes.figures_grow_congr {a b : Scenes} (hsize : a.all.size = b.all.size)
    (growth : Growth) {scene : SceneId} (h : a.figures scene = b.figures scene) :
    (a.grow growth).figures scene = (b.grow growth).figures scene := by
  cases growth with
  | scene => rw [grow, grow, figures_create, figures_create, h]
  | figure grown figure =>
    -- Whether the grown scene exists depends on the number of scenes alone.
    have hhas : a.Has grown ↔ b.Has grown := by rw [Has, Has, hsize]
    rw [grow, grow, figures_insert, figures_insert]
    by_cases hgrown : scene = grown
    · subst hgrown
      simp only [hhas, h]
    · rw [if_neg fun hc => hgrown hc.1, if_neg fun hc => hgrown hc.1, h]

/-- Equally many scenes stay equally many under the same growth. -/
theorem Scenes.size_all_grow_congr {a b : Scenes} (hsize : a.all.size = b.all.size)
    (growth : Growth) : (a.grow growth).all.size = (b.grow growth).all.size := by
  cases growth with
  | scene => rw [grow, grow, size_all_create, size_all_create, hsize]
  | figure grown figure => rw [grow, grow, size_all_insert, size_all_insert, hsize]

/-- A growth adds equally many figures to scenes that have equally many. -/
theorem Scenes.size_figures_grow_congr {a b : Scenes} (hsize : a.all.size = b.all.size)
    (growth : Growth) {scene : SceneId} (h : (a.figures scene).size = (b.figures scene).size) :
    ((a.grow growth).figures scene).size = ((b.grow growth).figures scene).size := by
  cases growth with
  | scene => rw [grow, grow, figures_create, figures_create, h]
  | figure grown figure =>
    have hhas : a.Has grown ↔ b.Has grown := by rw [Has, Has, hsize]
    rw [grow, grow, figures_insert, figures_insert]
    by_cases hgrown : scene = grown ∧ a.Has grown
    · rw [if_pos hgrown, if_pos (hgrown.imp_right hhas.mp), Array.size_push, Array.size_push,
        ← hgrown.1, h]
    · rw [if_neg hgrown, if_neg (mt (And.imp_right hhas.mpr) hgrown), h]

namespace Operation

/-- A leaf that refers to scenes of a region only. A batch is in no region, as it is no leaf; a leaf
that refers to no scene is in all of them. -/
def StaysIn (region : SceneId → Prop) : Operation → Prop
  | .figure ref => region ref.scene
  | .move m => region m.scene
  | .batch _ => False
  | .fill _ | .overlay _ | .present => True

section StaysIn

variable {region : SceneId → Prop} {leaf : Operation} {a b : Scenes}

/-- A leaf of a region is a leaf of every larger one. -/
theorem StaysIn.mono {larger : SceneId → Prop} (h : leaf.StaysIn region)
    (hle : ∀ scene, region scene → larger scene) : leaf.StaysIn larger := by
  cases leaf with
  | figure ref => exact hle _ h
  | move m => exact hle _ h
  | batch members => exact h
  | _ => trivial

/-- Whatever stays in a region is a leaf. -/
theorem StaysIn.leaves_eq (h : leaf.StaysIn region) : leaf.leaves = [leaf] := by
  cases leaf with
  | batch members => exact h.elim
  | _ => rfl

/-- **A leaf draws what it finds in its region**, and what the other scenes hold does not show. -/
theorem ownFills_congr (h : leaf.StaysIn region)
    (hsame : ∀ scene, region scene → a.figures scene = b.figures scene) (bounds : Rect) :
    ownFills bounds a leaf = ownFills bounds b leaf := by
  cases leaf with
  | figure ref =>
    -- Only a figure looks at the scenes, and its row is the same in both.
    have hget : ref.get? a = ref.get? b := by
      rw [FigureRef.get?, FigureRef.get?, Scenes.get?, Scenes.get?, hsame ref.scene h]
    simp only [ownFills, hget]
  | _ => rfl

/-- A leaf moves the same figures in scenes that have the same. No region is needed: a scene that
the leaf does not refer to keeps its figures on both sides. -/
theorem figures_ownMove_congr {scene : SceneId} (leaf : Operation)
    (hsame : a.figures scene = b.figures scene) :
    (ownMove a leaf).figures scene = (ownMove b leaf).figures scene := by
  cases leaf with
  | move m =>
    rw [ownMove, ownMove, Move.apply, Move.apply, Scenes.figures_translate,
      Scenes.figures_translate]
    by_cases hscene : scene = m.scene
    · rw [if_pos hscene, if_pos hscene, ← hscene, hsame]
    · rw [if_neg hscene, if_neg hscene, hsame]
  | _ => exact hsame

/-- **A leaf moves no figures outside its region.** The figures of a scene that it does not refer to
are where they were. -/
theorem figures_ownMove_of_outside (h : leaf.StaysIn region) {scene : SceneId}
    (hscene : ¬ region scene) (scenes : Scenes) :
    (ownMove scenes leaf).figures scene = scenes.figures scene := by
  cases leaf with
  | move m =>
    -- The scene of the move is in the region, so it is not this one.
    have hne : scene ≠ m.scene := by
      rintro rfl
      exact hscene h
    rw [ownMove, Move.apply, Scenes.figures_translate, if_neg hne]
  | _ => rfl

end StaysIn

end Operation

end Easel
