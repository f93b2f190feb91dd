import Easel.Operation.Basic
import Easel.Proofs.Scene.Growth
import Mathlib.Algebra.Order.BigOperators.Group.List
import Mathlib.Tactic.Ring

/-!
# When moves may be reordered

A coordinate that is shifted stops at the bounds of its range, and a distance that is lost there
does not come back: one step out and one step back leave a figure at the bound one step short of
where it was. So in general the order of moves matters. It does not where the distances on an axis
go all the same way, and it does not where no distance is lost.

* `Coord.shifts` — a coordinate shifted by several distances;
* `Coord.shifts_of_oneWay`, `Coord.shifts_of_staysInRange` — what comes of it, without stopping on
  the way and without stopping at all;
* `Move.distances`, `Move.allDistances` — the distances by which moves shift a figure on an axis;
* `Scenes.get?_carryOut`, `Scenes.get?_carryOut_eq_some_iff` — where moves leave a figure, by the
  laws of shifts and by rows and integers alone;
* `Scenes.carryOut_perm`, `Scenes.apply_comm_of_disjoint`, `Scenes.carryOut_replicate` — moves in
  another order, moves of different figures, and one move several times;
* `Scenes.moves_reorder` — the main result.
-/

namespace Easel

/-! ### Several distances -/

namespace Coord

/-- The coordinate shifted by several distances, one after another, with a stop at the bounds after
each. -/
def shifts (c : Coord) (distances : List Int) : Coord := distances.foldl shift c

/-- No distance leaves the coordinate where it is. -/
@[simp] theorem shifts_nil (c : Coord) : c.shifts [] = c := rfl

/-- The first distance comes before the others. -/
@[simp] theorem shifts_cons (c : Coord) (distance : Int) (rest : List Int) :
    c.shifts (distance :: rest) = (c.shift distance).shifts rest := rfl

/-- Distances in two parts shift by the one and then by the other. -/
theorem shifts_append (c : Coord) (distances later : List Int) :
    c.shifts (distances ++ later) = (c.shifts distances).shifts later := List.foldl_append

/-- A shifted coordinate is a sum of integers that is cut to the range after each summand. This
states a shift without coordinates, and without anything that is defined on them. -/
theorem shifts_val (c : Coord) (distances : List Int) :
    (c.shifts distances).val =
      distances.foldl (fun sum d => max (-2147483648) (min (sum + d) 2147483647)) c.val := by
  induction distances generalizing c with
  | nil => rfl
  | cons distance rest ih => exact ih (c.shift distance)

/-- Distances none of which takes back another one: they are all forward or all backward. -/
def OneWay (distances : List Int) : Prop :=
  (∀ d ∈ distances, 0 ≤ d) ∨ ∀ d ∈ distances, d ≤ 0

/-- Distances that go one way do so in any order. -/
theorem OneWay.perm {distances later : List Int} (h : OneWay distances)
    (hperm : distances.Perm later) : OneWay later :=
  h.imp (fun hall d hd => hall d (hperm.mem_iff.mpr hd))
    fun hall d hd => hall d (hperm.mem_iff.mpr hd)

/-- One distance several times goes one way. -/
theorem oneWay_replicate (n : Nat) (distance : Int) : OneWay (List.replicate n distance) := by
  rcases Int.le_total 0 distance with hsign | hsign
  · exact .inl fun d hd => by rwa [List.eq_of_mem_replicate hd]
  · exact .inr fun d hd => by rwa [List.eq_of_mem_replicate hd]

/-- The first distance and all others together go the same way. This is what the induction below
takes from the sign of the single distances. -/
theorem OneWay.of_cons {distance : Int} {rest : List Int} (h : OneWay (distance :: rest)) :
    OneWay rest ∧ ((0 ≤ distance ∧ 0 ≤ rest.sum) ∨ (distance ≤ 0 ∧ rest.sum ≤ 0)) := by
  rcases h with hall | hall
  · obtain ⟨hfirst, hrest⟩ := List.forall_mem_cons.mp hall
    exact ⟨.inl hrest, .inl ⟨hfirst, List.sum_nonneg hrest⟩⟩
  · obtain ⟨hfirst, hrest⟩ := List.forall_mem_cons.mp hall
    have hsum := List.sum_le_card_nsmul rest 0 hrest
    rw [nsmul_zero] at hsum
    exact ⟨.inr hrest, .inr ⟨hfirst, hsum⟩⟩

/-- **Distances that go one way may be added first.** Once the coordinate has stopped at a bound,
all other distances would cross it again. -/
theorem shifts_of_oneWay {distances : List Int} (h : OneWay distances) (c : Coord) :
    c.shifts distances = clamp (c.val + distances.sum) := by
  induction distances generalizing c with
  | nil => rw [shifts_nil, List.sum_nil, Int.add_zero, clamp_self]
  | cons distance rest ih =>
    obtain ⟨hrest, hsigns⟩ := h.of_cons
    have hlow := c.le_val
    have hhigh := c.val_le
    rw [shifts_cons, ih hrest, List.sum_cons]
    refine Coord.ext ?_
    rw [clamp_val, clamp_val, shift_val]
    -- If the first distance is cut off at a bound, the rest goes on across the same bound.
    omega

/-- Distances none of which is lost: from the start up to any of them, the exact sum is in range.
The sums count, not the single distances. -/
def StaysInRange (c : Coord) (distances : List Int) : Prop :=
  ∀ n ≤ distances.length, -2147483648 ≤ c.val + (distances.take n).sum ∧
    c.val + (distances.take n).sum ≤ 2147483647

/-- **Distances none of which is lost add up exactly.** -/
theorem shifts_of_staysInRange {c : Coord} {distances : List Int} (h : c.StaysInRange distances) :
    (c.shifts distances).val = c.val + distances.sum := by
  induction distances generalizing c with
  | nil => rw [shifts_nil, List.sum_nil, Int.add_zero]
  | cons distance rest ih =>
    -- The first sum is in range, so the first distance is not lost, and the other sums start from
    -- there.
    have hfirst : (c.shift distance).val = c.val + distance := by
      obtain ⟨hlow, hhigh⟩ := h 1 (Nat.succ_le_succ (Nat.zero_le _))
      rw [List.take_succ_cons, List.take_zero, List.sum_cons, List.sum_nil, Int.add_zero]
        at hlow hhigh
      exact clamp_val_of_mem hlow hhigh
    have hrest : (c.shift distance).StaysInRange rest := by
      intro n hn
      have hlater := h (n + 1) (Nat.succ_le_succ hn)
      rwa [List.take_succ_cons, List.sum_cons, ← Int.add_assoc, ← hfirst] at hlater
    rw [shifts_cons, ih hrest, hfirst, List.sum_cons, Int.add_assoc]

/-- Distances that may be taken in two orders: they go one way, or none of them is lost in either
order. -/
def Reorders (c : Coord) (distances later : List Int) : Prop :=
  OneWay distances ∨ (c.StaysInRange distances ∧ c.StaysInRange later)

/-- Distances that may be taken in two orders lead to the same coordinate. -/
theorem shifts_perm {c : Coord} {distances later : List Int} (hperm : distances.Perm later)
    (h : c.Reorders distances later) : c.shifts distances = c.shifts later := by
  rcases h with hway | ⟨hrange, hrange'⟩
  · rw [shifts_of_oneWay hway, shifts_of_oneWay (hway.perm hperm), hperm.sum_eq]
  · refine Coord.ext ?_
    rw [shifts_of_staysInRange hrange, shifts_of_staysInRange hrange', hperm.sum_eq]

end Coord

/-! ### Distances of moves -/

/-- The two axes on which a figure is shifted, each without regard to the other. -/
inductive Axis where
  | across
  | down
deriving DecidableEq

namespace Figure

/-- The center on an axis. -/
def along (f : Figure) : Axis → Coord
  | .across => f.x
  | .down => f.y

/-- The figure shifted by several distances on each axis. -/
def shifts (f : Figure) (distances : Axis → List Int) : Figure :=
  ⟨f.x.shifts (distances .across), f.y.shifts (distances .down), f.color⟩

@[simp] theorem color_shifts (f : Figure) (distances : Axis → List Int) :
    (f.shifts distances).color = f.color := rfl

@[simp] theorem along_shifts (f : Figure) (distances : Axis → List Int) (axis : Axis) :
    (f.shifts distances).along axis = (f.along axis).shifts (distances axis) := by
  cases axis <;> rfl

/-- Two ways of shifting a figure agree exactly if they do so on each axis, as the color plays no
part. -/
theorem shifts_eq_iff (f : Figure) (distances later : Axis → List Int) :
    f.shifts distances = f.shifts later ↔
      ∀ axis, (f.along axis).shifts (distances axis) = (f.along axis).shifts (later axis) := by
  constructor
  · intro h axis
    rw [← along_shifts, h, along_shifts]
  · intro h
    exact Figure.ext (h .across) (h .down) rfl

/-- A figure that is shifted twice is shifted by all distances on each axis. -/
theorem shifts_shifts (f : Figure) (distances later : Axis → List Int) :
    (f.shifts distances).shifts later = f.shifts fun axis => distances axis ++ later axis := by
  refine Figure.ext ?_ ?_ rfl
  · exact (Coord.shifts_append _ _ _).symm
  · exact (Coord.shifts_append _ _ _).symm

end Figure

namespace Move

/-- How far a move shifts a figure on an axis, each time that it lists the figure. -/
def along (m : Move) : Axis → Coord
  | .across => m.dx
  | .down => m.dy

/-- The distances by which a move shifts a figure on an axis, one for each time that the figure is
listed. -/
def distances (m : Move) (scene : SceneId) (id : FigureId) (axis : Axis) : List Int :=
  if m.scene = scene then List.replicate (m.targets.count id) (m.along axis).val else []

/-- The distances by which moves shift a figure on an axis, in their order. -/
def allDistances (moves : List Move) (scene : SceneId) (id : FigureId) (axis : Axis) : List Int :=
  moves.flatMap fun m => m.distances scene id axis

section Distances

variable (scene : SceneId) (id : FigureId) (axis : Axis)

/-- The distances of the first move come before those of the others. -/
theorem allDistances_cons (m : Move) (rest : List Move) :
    allDistances (m :: rest) scene id axis =
      m.distances scene id axis ++ allDistances rest scene id axis := List.flatMap_cons

/-- The distances of moves in two parts are those of the one and then those of the other. -/
theorem allDistances_append (moves later : List Move) :
    allDistances (moves ++ later) scene id axis =
      allDistances moves scene id axis ++ allDistances later scene id axis :=
  List.flatMap_append

/-- Moves in another order have the same distances in another order. -/
theorem allDistances_perm {moves later : List Move} (h : moves.Perm later) :
    (allDistances moves scene id axis).Perm (allDistances later scene id axis) :=
  h.flatMap_right _

variable {scene id}

/-- A move that does not list a figure has no distances for it. -/
theorem distances_of_notMem {m : Move} (h : m.scene = scene → id ∉ m.targets) :
    m.distances scene id axis = [] := by
  unfold distances
  split
  · next hscene => rw [List.count_eq_zero_of_not_mem (h hscene), List.replicate_zero]
  · rfl

end Distances

end Move

/-! ### Moves of figures -/

namespace Scenes

/-- The scenes after moves, one after another. -/
def carryOut (scenes : Scenes) (moves : List Move) : Scenes :=
  moves.foldl (fun scenes m => m.apply scenes) scenes

/-- Scenes are equal if there are equally many of them and every reference finds the same in
both. -/
theorem ext_get? {a b : Scenes} (hsize : a.all.size = b.all.size)
    (hget : ∀ scene id, a.get? scene id = b.get? scene id) : a = b :=
  ext_figures hsize fun scene => Array.ext_getElem? fun i => hget scene ⟨i⟩

/-- Moves leave the number of scenes as it is. -/
@[simp] theorem size_all_carryOut (scenes : Scenes) (moves : List Move) :
    (scenes.carryOut moves).all.size = scenes.all.size := by
  induction moves generalizing scenes with
  | nil => rfl
  | cons m rest ih => exact (ih (m.apply scenes)).trans (size_all_translate _ _ _ _ _)

/-- To be moved as often as one is listed is to be shifted by as many distances. -/
theorem iterate_shift (f : Figure) (dx dy : Coord) (n : Nat) :
    (fun f => Figure.shift f dx dy)^[n] f =
      ⟨f.x.shifts (List.replicate n dx.val), f.y.shifts (List.replicate n dy.val), f.color⟩ := by
  induction n generalizing f with
  | zero => rfl
  | succ n ih => rw [Function.iterate_succ_apply, ih]; rfl

/-- **A move shifts a figure once for each time that it lists the figure.** -/
theorem get?_apply (m : Move) (scenes : Scenes) (scene : SceneId) (id : FigureId) :
    (m.apply scenes).get? scene id =
      (scenes.get? scene id).map fun f => f.shifts (m.distances scene id) := by
  rw [Move.apply, get?, figures_translate, get?]
  -- The scene of the move counts how often the figure is listed; in every other scene there is
  -- nothing to count.
  by_cases hscene : scene = m.scene
  · subst hscene
    rw [if_pos rfl, getElem?_shiftAll]
    refine congrArg (Option.map · _) (funext fun f => ?_)
    have hdistances : ∀ axis, m.distances m.scene id axis =
        List.replicate (m.targets.count id) (m.along axis).val := fun axis => if_pos rfl
    rw [iterate_shift, Figure.shifts, hdistances, hdistances]
    rfl
  · have hnone : m.distances scene id = fun _ => [] :=
      funext fun axis => Move.distances_of_notMem axis fun hc => absurd hc.symm hscene
    rw [if_neg hscene, hnone]
    exact Option.map_id'.symm

/-- **Where moves leave a figure**: shifted on each axis by the distances that the moves have for
it, and nowhere if it does not exist. -/
theorem get?_carryOut (scenes : Scenes) (moves : List Move) (scene : SceneId) (id : FigureId) :
    (scenes.carryOut moves).get? scene id =
      (scenes.get? scene id).map fun f => f.shifts (Move.allDistances moves scene id) := by
  induction moves generalizing scenes with
  | nil => exact Option.map_id'.symm
  | cons m rest ih =>
    have hafter : ∀ f : Figure,
        (f.shifts (m.distances scene id)).shifts (Move.allDistances rest scene id) =
          f.shifts (Move.allDistances (m :: rest) scene id) := by
      intro f
      rw [Figure.shifts_shifts]
      exact congrArg f.shifts
        (funext fun axis => (Move.allDistances_cons scene id axis m rest).symm)
    change ((m.apply scenes).carryOut rest).get? scene id = _
    rw [ih, get?_apply, Option.map_map]
    exact congrArg (Option.map · _) (funext hafter)

/-- **Where moves leave a figure, in rows and integers.** The figure was in the row of its scene
under the same number and with the same color, and its center on each axis is the sum of the former
one and the distances, cut to the range of coordinates after each of them. -/
theorem get?_carryOut_eq_some_iff {scenes : Scenes} {moves : List Move} {scene : SceneId}
    {id : FigureId} {f : Figure} :
    (scenes.carryOut moves).get? scene id = some f ↔
      ∃ row former, scenes.all[scene.index]? = some row ∧ row[id.index]? = some former ∧
        f.color = former.color ∧
        ∀ axis, (f.along axis).val =
          (Move.allDistances moves scene id axis).foldl
            (fun sum d => max (-2147483648) (min (sum + d) 2147483647))
            (former.along axis).val := by
  rw [get?_carryOut, Option.map_eq_some_iff]
  constructor
  · rintro ⟨former, hformer, rfl⟩
    obtain ⟨row, hrow, hnumber⟩ := get?_eq_some_iff.mp hformer
    refine ⟨row, former, hrow, hnumber, rfl, fun axis => ?_⟩
    rw [Figure.along_shifts, Coord.shifts_val]
  · rintro ⟨row, former, hrow, hnumber, hcolor, hcenter⟩
    refine ⟨former, get?_eq_some_iff.mpr ⟨row, hrow, hnumber⟩, ?_⟩
    -- Color and the two centers make up the figure.
    have halong : ∀ axis, (former.shifts (Move.allDistances moves scene id)).along axis =
        f.along axis := by
      intro axis
      rw [Figure.along_shifts]
      exact Coord.ext ((Coord.shifts_val _ _).trans (hcenter axis).symm)
    exact Figure.ext (halong .across) (halong .down) hcolor.symm

/-- Two rows of moves that shift every figure alike leave the same scenes. All reorderings below go
through this lemma, so each of them is only about distances. -/
theorem carryOut_congr {scenes : Scenes} {moves later : List Move}
    (h : ∀ scene id f, scenes.get? scene id = some f → ∀ axis,
      (f.along axis).shifts (Move.allDistances moves scene id axis) =
        (f.along axis).shifts (Move.allDistances later scene id axis)) :
    scenes.carryOut moves = scenes.carryOut later := by
  refine ext_get? (by rw [size_all_carryOut, size_all_carryOut]) fun scene id => ?_
  rw [get?_carryOut, get?_carryOut]
  cases hget : scenes.get? scene id with
  | none => rfl
  | some f => exact congrArg some ((f.shifts_eq_iff _ _).mpr (h scene id f hget))

/-- **Moves may be reordered** where on each axis of each figure the distances may. -/
theorem carryOut_perm {scenes : Scenes} {moves later : List Move} (hperm : moves.Perm later)
    (h : ∀ scene id f, scenes.get? scene id = some f → ∀ axis,
      (f.along axis).Reorders (Move.allDistances moves scene id axis)
        (Move.allDistances later scene id axis)) :
    scenes.carryOut moves = scenes.carryOut later :=
  carryOut_congr fun scene id f hget axis =>
    Coord.shifts_perm (Move.allDistances_perm scene id axis hperm) (h scene id f hget axis)

/-- **Moves of different figures may be exchanged.** -/
theorem apply_comm_of_disjoint {m other : Move}
    (h : m.scene = other.scene → m.targets.Disjoint other.targets) (scenes : Scenes) :
    scenes.carryOut [m, other] = scenes.carryOut [other, m] := by
  refine carryOut_congr fun scene id f _ axis => ?_
  -- One of the two moves does not list the figure.
  have hone : m.distances scene id axis = [] ∨ other.distances scene id axis = [] := by
    by_cases hm : m.scene = scene ∧ id ∈ m.targets
    · refine .inr (Move.distances_of_notMem axis fun hother hid => ?_)
      exact h (hm.1.trans hother.symm) hm.2 hid
    · exact .inl (Move.distances_of_notMem axis fun hscene hid => hm ⟨hscene, hid⟩)
  simp only [Move.allDistances, List.flatMap_cons, List.flatMap_nil, List.append_nil]
  rcases hone with hnone | hnone
  · rw [hnone, List.nil_append, List.append_nil]
  · rw [hnone, List.nil_append, List.append_nil]

/-- **A move several times in a row is one move several times as far.** All its distances on an axis
are the same one, so they go one way. -/
theorem carryOut_replicate {m : Move} {k : Nat} {dx dy : Coord} (hdx : dx.val = k * m.dx.val)
    (hdy : dy.val = k * m.dy.val) (scenes : Scenes) :
    scenes.carryOut (List.replicate k m) = scenes.carryOut [⟨dx, dy, m.scene, m.targets⟩] := by
  refine carryOut_congr fun scene id f _ axis => ?_
  set far : Move := ⟨dx, dy, m.scene, m.targets⟩ with hfar
  have halong : (far.along axis).val = k * (m.along axis).val := by
    cases axis with
    | across => exact hdx
    | down => exact hdy
  have hsingle : Move.allDistances [far] scene id axis = far.distances scene id axis := by
    rw [Move.allDistances, List.flatMap_singleton]
  rw [hsingle, Move.allDistances, List.flatMap_replicate]
  -- In the scene of the move both sides add up one distance many times, and the counts multiply.
  by_cases hscene : m.scene = scene
  · have hnear : m.distances scene id axis =
        List.replicate (m.targets.count id) (m.along axis).val := if_pos hscene
    have hfar : far.distances scene id axis =
        List.replicate (m.targets.count id) (far.along axis).val := if_pos hscene
    rw [hnear, hfar, List.flatten_replicate_replicate,
      Coord.shifts_of_oneWay (Coord.oneWay_replicate _ _),
      Coord.shifts_of_oneWay (Coord.oneWay_replicate _ _), List.sum_replicate, List.sum_replicate,
      halong]
    refine congrArg (fun sum => Coord.clamp (_ + sum)) ?_
    simp only [nsmul_eq_mul, Nat.cast_mul]
    ring
  · have hnear : m.distances scene id axis = [] := if_neg hscene
    have hfar : far.distances scene id axis = [] := if_neg hscene
    rw [hnear, hfar, List.flatten_replicate_nil]

/-! ### The main result -/

/-- **When moves may be reordered.**

Whatever the moves are, each figure keeps its color and ends where the distances of the moves that
list it lead, in their order and once for each time that it is listed. On an axis where these go one
way it ends at the coordinate nearest to the exact sum, and where none of them is lost at the exact
sum itself.

So moves in another order leave the same scenes, where on each axis of each figure the distances go
one way or none of them is lost in either order; moves of different figures do so always; and a move
several times in a row is one move several times as far, if there is one that goes so far. -/
theorem moves_reorder (scenes : Scenes) (moves : List Move) :
    let after := scenes.carryOut moves
    -- the figures
    (∀ scene id, scenes.get? scene id = none → after.get? scene id = none) ∧
    (∀ scene id f, scenes.get? scene id = some f → ∃ g, after.get? scene id = some g ∧
      g.color = f.color ∧
      ∀ axis,
        let start := (f.along axis).val
        let distances := Move.allDistances moves scene id axis
        let last := (g.along axis).val
        (-2147483648 ≤ last ∧ last ≤ 2147483647) ∧
        last = ((f.along axis).shifts distances).val ∧
        (Coord.OneWay distances →
          last = max (-2147483648) (min (start + distances.sum) 2147483647)) ∧
        ((f.along axis).StaysInRange distances → last = start + distances.sum)) ∧
    -- another order
    (∀ later, moves.Perm later →
      (∀ scene id f, scenes.get? scene id = some f → ∀ axis,
        let distances := Move.allDistances moves scene id axis
        Coord.OneWay distances ∨ ((f.along axis).StaysInRange distances ∧
          (f.along axis).StaysInRange (Move.allDistances later scene id axis))) →
      scenes.carryOut later = after) ∧
    -- different figures
    (∀ m other : Move, (m.scene = other.scene → m.targets.Disjoint other.targets) →
      other.apply (m.apply scenes) = m.apply (other.apply scenes)) ∧
    -- several times
    ∀ (m : Move) (k : Nat) (dx dy : Coord), dx.val = k * m.dx.val → dy.val = k * m.dy.val →
      scenes.carryOut (List.replicate k m) = Move.apply ⟨dx, dy, m.scene, m.targets⟩ scenes := by
  intro after
  refine ⟨?absent, ?figures, ?order, ?different, ?several⟩
  case absent =>
    intro scene id hnone
    rw [get?_carryOut, hnone]
    rfl
  case figures =>
    intro scene id f hget
    refine ⟨f.shifts (Move.allDistances moves scene id), ?_, rfl, fun axis => ?_⟩
    · rw [get?_carryOut, hget]
      rfl
    · dsimp only
      rw [Figure.along_shifts]
      refine ⟨⟨Coord.le_val _, Coord.val_le _⟩, rfl, fun hway => ?_,
        -- On an axis whose distances go one way the exact sum is cut once; where none is lost it is
        -- not cut at all.
        Coord.shifts_of_staysInRange⟩
      rw [Coord.shifts_of_oneWay hway, Coord.clamp_val]
  case order => exact fun later hperm h => (carryOut_perm hperm h).symm
  case different => exact fun m other hdisjoint => apply_comm_of_disjoint hdisjoint scenes
  case several => exact fun m k dx dy hdx hdy => carryOut_replicate hdx hdy scenes

/-- At the last coordinate a step out is lost, so that the step back is not the same before it as
after it. -/
example :
    let scenes : Scenes := ⟨#[#[⟨2147483647, 0, .black⟩]]⟩
    let out : Move := ⟨1, 0, ⟨0⟩, [⟨0⟩]⟩
    let back : Move := ⟨.clamp (-1), 0, ⟨0⟩, [⟨0⟩]⟩
    scenes.carryOut [out, back] ≠ scenes.carryOut [back, out] := by
  decide

end Scenes

end Easel
