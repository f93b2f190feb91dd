import Easel.Proofs.Canvas.Places
import Easel.Proofs.Operation.Leaves

/-!
# The last writer of a pixel

Operations do the same on a pixmap as on a recording with its bounds, but for what becomes of the
fills: a recording keeps them, and on a pixmap the last one that covers a pixel decides. So a
recording tells what a pixmap looks like. Once the whole surface has been filled, nothing that was
drawn before can be seen; only the figures stay where they have been moved.

* `Operation.flags` — which operations of a sequence are ready;
* `Operation.pixel?_applyAll` — the pixels after a sequence of operations;
* `Operation.surface_applyAll_of_fill` — behind a fill of the whole surface nothing can be seen;
* `Operation.drawing_follows_recording` — the main result.
-/

namespace Easel

namespace Operation

section Flags

variable {σ : Type} [Surface σ]

/-- Which operations are ready, where they are applied one after another. -/
def flags : List Operation → Scenes → σ → List Bool
  | [], _, _ => []
  | op :: rest, scenes, surface =>
    let first := op.apply scenes surface
    first.ready :: flags rest first.scenes first.surface

/-- Whether an operation is ready depends on the operation alone, not on where it is applied. -/
theorem flags_eq (ops : List Operation) (scenes : Scenes) (surface : σ) :
    flags ops scenes surface = ops.map presents := by
  induction ops generalizing scenes surface with
  | nil => rfl
  | cons op rest ih => rw [flags, ih, (ready_scenes_apply op scenes surface).1, List.map_cons]

end Flags

/-- A recording that has no fills yet keeps those of the leaves, in the order in which they are
issued. -/
theorem fills_applyAll_recording (ops : List Operation) (scenes : Scenes) (id : Nat)
    (bounds : Rect) :
    (applyAll ops scenes (Recording.mk id bounds #[])).surface.fills.toList =
      fills bounds (leavesAll ops) scenes := by
  rw [applyAll_eq, Recording.paint_eq]
  show (#[] ++ (fills bounds (leavesAll ops) scenes).toArray).toList = _
  rw [Array.empty_append]

section Pixmap

variable (p : Pixmap) (ops : List Operation) (scenes : Scenes)

/-- Drawing on a pixmap leaves its size as it is. -/
@[simp] theorem size_applyAll : (applyAll ops scenes p).surface.size = p.size := by
  rw [applyAll_eq]
  exact Pixmap.size_paint _ p

/-- **After operations a pixel has the color of the last fill that covers it**, or its old one. -/
theorem pixel?_applyAll {x y : Nat} (hx : x < p.size.width) (hy : y < p.size.height) :
    (applyAll ops scenes p).surface.pixel? x y =
      (lastCovering (fills p.bounds (leavesAll ops) scenes) x y).or (p.pixel? x y) := by
  rw [applyAll_eq]
  exact Pixmap.pixel?_paint _ p hx hy

end Pixmap

/-- **A fill of the whole surface covers what is before it**: its color is there unless a later fill
decides. -/
theorem lastCovering_fills_of_fill {bounds : Rect} {x y : Int} (hcovers : bounds.Covers x y)
    (before after : List Operation) (color : Color) (scenes : Scenes) :
    lastCovering (fills bounds (before ++ .fill color :: after) scenes) x y =
      (lastCovering (fills bounds after (settle before scenes)) x y).or (some color) := by
  have hfill : fills bounds (.fill color :: after) (settle before scenes) =
      [(bounds, color)] ++ fills bounds after (settle before scenes) := rfl
  have hcolor : lastCovering [(bounds, color)] x y = some color := by
    rw [lastCovering_singleton, if_pos hcovers]
  rw [fills_append, hfill, lastCovering_append, lastCovering_append, hcolor, Option.or_assoc,
    Option.some_or]

/-- The leaves after a leaf are leaves. So an operation can be cut at any of its leaves, and what
comes after the cut is applied as it stands. -/
theorem leavesAll_of_split {ops before after : List Operation}
    (h : leavesAll ops = before ++ after) : leavesAll after = after := by
  refine leavesAll_of_batch_notMem fun members hmem => batch_notMem_leavesAll members ops ?_
  rw [h]
  exact List.mem_append_right before hmem

/-- **Behind a fill of the whole surface nothing can be seen**: neither what the pixmap was before
nor what was drawn on it before the fill. -/
theorem surface_applyAll_of_fill {p other : Pixmap} (hwidth : p.size.width ≤ 2147483647)
    (hheight : p.size.height ≤ 2147483647) (hsize : other.size = p.size)
    {ops before after : List Operation} {color : Color}
    (hsplit : leavesAll ops = before ++ .fill color :: after) (scenes : Scenes) :
    (applyAll ops scenes p).surface =
      (applyAll (.fill color :: after) (settle before scenes) other).surface := by
  have hbounds : other.bounds = p.bounds := congrArg Rect.ofSize hsize
  -- A fill of the whole surface is applied as a leaf, and what follows it is still its own leaves.
  have hleaves : leavesAll (.fill color :: after) = [] ++ .fill color :: after :=
    leavesAll_of_split hsplit
  refine Pixmap.ext_pixel? (by rw [size_applyAll, size_applyAll, hsize]) fun x hx y hy => ?_
  rw [size_applyAll] at hx hy
  -- The fill covers the pixel, so that neither side gets to the pixel of the pixmap.
  have hcovers : p.bounds.Covers x y := p.covers_bounds hwidth hheight hx hy
  rw [pixel?_applyAll p ops scenes hx hy, hsplit, lastCovering_fills_of_fill hcovers,
    pixel?_applyAll other _ _ (hsize ▸ hx) (hsize ▸ hy), hleaves, hbounds,
    lastCovering_fills_of_fill hcovers, settle_nil, Option.or_assoc, Option.or_assoc,
    Option.some_or, Option.some_or]

/-- **A drawing follows a recording.**

On a pixmap and on a recording with the same bounds, operations are ready alike and leave the same
figures. Each pixel has in the end the color of the last recorded fill that covers it, or its old
one if none does. If a fill of the whole surface is among the leaves, what comes before it can be
left out, whatever the pixmap was before: the pixels depend only on where the figures are then.
There they are because of what comes before, which cannot be left out for them. -/
theorem drawing_follows_recording (p : Pixmap) (hwidth : p.size.width ≤ 2147483647)
    (hheight : p.size.height ≤ 2147483647) (ops : List Operation) (scenes : Scenes) (id : Nat) :
    let recording : Recording := ⟨id, p.bounds, #[]⟩
    let drawn := applyAll ops scenes p
    let recorded := applyAll ops scenes recording
    -- the same but for the surface
    flags ops scenes p = flags ops scenes recording ∧ drawn.ready = recorded.ready ∧
    drawn.scenes = recorded.scenes ∧
    -- the pixels
    drawn.surface.size = p.size ∧
    (∀ x < p.size.width, ∀ y < p.size.height, drawn.surface.pixel? x y =
      (lastCovering recorded.surface.fills.toList x y).or (p.pixel? x y)) ∧
    -- a fill of the whole surface
    (∀ before color after, leavesAll ops = before ++ .fill color :: after →
      (∀ other : Pixmap, other.size = p.size →
        drawn.surface = (applyAll (.fill color :: after) (settle before scenes) other).surface) ∧
      drawn.scenes = settle after (settle before scenes)) ∧
    ∃ (before : List Operation) (color : Color) (after : List Operation) (figures : Scenes),
      (applyAll (before ++ .fill color :: after) figures p).scenes ≠
        (applyAll (.fill color :: after) figures p).scenes := by
  intro recording drawn recorded
  obtain ⟨hready, hscenes⟩ := ready_scenes_applyAll ops scenes p
  obtain ⟨hready', hscenes'⟩ := ready_scenes_applyAll ops scenes recording
  refine ⟨?flags, ?ready, ?scenes, size_applyAll p ops scenes, ?pixels, ?whole, ?moved⟩
  case flags => rw [flags_eq, flags_eq]
  -- Neither the flags nor the figures depend on the surface, so the two runs share them.
  case ready => exact hready.trans hready'.symm
  case scenes => exact hscenes.trans hscenes'.symm
  case pixels =>
    intro x hx y hy
    -- The recording has kept exactly the fills that decide about the pixels of the pixmap.
    have hfills : recorded.surface.fills.toList = fills p.bounds (leavesAll ops) scenes :=
      fills_applyAll_recording ops scenes id p.bounds
    rw [hfills]
    exact pixel?_applyAll p ops scenes hx hy
  case whole =>
    intro before color after hsplit
    refine ⟨fun other hsize => ?_, ?_⟩
    · exact surface_applyAll_of_fill hwidth hheight hsize hsplit scenes
    · show (applyAll ops scenes p).scenes = _
      rw [hscenes, hsplit, settle_append]
      rfl
  case moved =>
    -- A figure that is moved before the fill is elsewhere after it.
    let step : Move := ⟨1, 0, ⟨0⟩, [⟨0⟩]⟩
    let figures : Scenes := ⟨#[#[⟨0, 0, .black⟩]]⟩
    refine ⟨[.move step], .black, [], figures, ?_⟩
    rw [(ready_scenes_applyAll _ _ p).2, (ready_scenes_applyAll _ _ p).2]
    decide

/-- A figure that a batch in a batch has moved to where it is drawn, over a fill of the whole
surface. -/
theorem drawing_follows_recording_moved :
    let p := Pixmap.blank ⟨2, 1, by decide, by decide⟩ (by decide)
    let figures : Scenes := ⟨#[#[⟨.clamp (-75), 1, .white⟩]]⟩
    let ops := [.figure ⟨⟨0⟩, ⟨0⟩⟩,
      .batch [.fill .pureGreen, .batch [.move ⟨1, 0, ⟨0⟩, [⟨0⟩]⟩], .figure ⟨⟨0⟩, ⟨0⟩⟩], .present]
    flags ops figures p = [false, false, true] ∧
    (applyAll ops figures p).surface.pixel? 0 0 = some .white ∧
    (applyAll ops figures p).surface.pixel? 1 0 = some .pureGreen := by
  intro p figures ops
  obtain ⟨hflags, -, -, -, hpixels, -⟩ :=
    drawing_follows_recording p (by decide) (by decide) ops figures 0
  refine ⟨?_, ?_, ?_⟩
  -- The flags are those of the operations, and the pixels those of the recorded fills.
  · rw [hflags, flags_eq]
    decide
  · rw [hpixels 0 (by decide) 0 (by decide), fills_applyAll_recording]
    decide
  · rw [hpixels 1 (by decide) 0 (by decide), fills_applyAll_recording]
    decide

end Operation

end Easel
