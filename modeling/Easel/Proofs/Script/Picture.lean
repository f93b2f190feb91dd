import Easel.Proofs.Scene.Glyph
import Easel.Proofs.Script.History
import Easel.Proofs.Script.Reading

/-!
# The picture of a session

What a list of commands draws, as a picture: a color for every pixel.

* `Picture.of`, `Picture.colorAt` — the picture that commands describe;
* `Picture.fills` — the fills that paint it;
* `Picture.lastCovering_fills` — they do, whatever was on the canvas before.
-/

namespace Easel.Script

/-- A background, a black rectangle over it, and figures over both. A session is remembered as such
a picture, and a frame shows it. -/
structure Picture where
  background : Background
  overlay? : Option Rect
  figures : List Figure

namespace Picture

/-- The picture that commands describe: what the commands after the last reset say. -/
def of (settings : Settings) (commands : List Command) : Picture :=
  let tail := sinceReset commands
  ⟨(lastBackground? tail).getD .reset, lastOverlay? settings tail, placed settings tail⟩

/-- The color of a pixel: that of the figures where there is one, else black under the rectangle,
else the background. -/
def colorAt (settings : Settings) (picture : Picture) (x y : Int) : Color :=
  if ∃ figure ∈ picture.figures, figure.Glyph x y then settings.figureColor
  else if ∃ rect ∈ picture.overlay?.toList, rect.Covers x y then .black
  else picture.background.color

/-- The fills that paint the picture on a surface, from the background to the last figure. -/
def fills (bounds : Rect) (picture : Picture) : List Fill :=
  [(bounds, picture.background.color)] ++
    (picture.overlay?.toList.map fun rect => (rect, Operation.overlayColor)) ++
    picture.figures.flatMap Figure.fills

end Picture

/-- **The fills of a picture paint it**, whatever was on the canvas before, since the background
covers the whole canvas. -/
theorem Picture.lastCovering_fills (settings : Settings) (commands : List Command) {bounds : Rect}
    {x y : Int} (hbounds : bounds.Covers x y) (hx : 0 ≤ x) (hxlt : x < 2147483647) (hy : 0 ≤ y)
    (hylt : y < 2147483647) :
    lastCovering ((of settings commands).fills bounds) x y =
      some ((of settings commands).colorAt settings x y) := by
  -- The figures come last and have one color, so it is enough that one of them covers the pixel.
  have hfigures : lastCovering ((of settings commands).figures.flatMap Figure.fills) x y =
      if ∃ figure ∈ (of settings commands).figures, figure.Glyph x y then
        some settings.figureColor
      else none := by
    have hcolor : ∀ f ∈ (of settings commands).figures.flatMap Figure.fills,
        f.2 = settings.figureColor := by
      intro f hf
      obtain ⟨figure, hfigure, hf⟩ := List.mem_flatMap.mp hf
      rw [← color_of_mem_placed settings _ hfigure]
      rcases List.mem_pair.mp hf with rfl | rfl <;> rfl
    rw [lastCovering_of_forall_eq hcolor]
    refine if_congr ?_ rfl rfl
    -- A fill among those of the figures covers the pixel if a figure does.
    constructor
    · rintro ⟨f, hf, hcovers⟩
      obtain ⟨figure, hfigure, hf⟩ := List.mem_flatMap.mp hf
      refine ⟨figure, hfigure, (figure.covers_iff_glyph hx hxlt hy hylt).mp ?_⟩
      rcases List.mem_pair.mp hf with rfl | rfl
      · exact Or.inl hcovers
      · exact Or.inr hcovers
    · rintro ⟨figure, hfigure, hglyph⟩
      rcases (figure.covers_iff_glyph hx hxlt hy hylt).mpr hglyph with hcovers | hcovers
      · exact ⟨_, List.mem_flatMap.mpr ⟨figure, hfigure, List.mem_cons_self⟩, hcovers⟩
      · exact ⟨_, List.mem_flatMap.mpr ⟨figure, hfigure, List.mem_cons_of_mem _ List.mem_cons_self⟩,
          hcovers⟩
  -- The rectangle is all there is between the background and the figures.
  have hoverlay : lastCovering ((of settings commands).overlay?.toList.map
      fun rect => (rect, Operation.overlayColor)) x y =
      if ∃ rect ∈ (of settings commands).overlay?.toList, rect.Covers x y then some .black
      else none := by
    have hcolor : ∀ f ∈ (of settings commands).overlay?.toList.map
        fun rect => (rect, Operation.overlayColor), f.2 = .black := by
      intro f hf
      obtain ⟨rect, -, rfl⟩ := List.mem_map.mp hf
      rfl
    rw [lastCovering_of_forall_eq hcolor]
    refine if_congr ?_ rfl rfl
    simp only [List.mem_map, exists_exists_and_eq_and]
  rw [fills, lastCovering_append, lastCovering_append, hfigures, hoverlay, lastCovering_singleton,
    if_pos hbounds, colorAt]
  split
  · rfl
  · split <;> rfl

end Easel.Script
