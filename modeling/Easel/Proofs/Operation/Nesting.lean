import Easel.Proofs.Operation.Leaves
import Easel.Proofs.Scene.Reordering

/-!
# Batches in batches

How the members of a batch are grouped into batches of their own makes no difference. On any surface
at all, one that changes its bounds while it is drawn on included, an operation does what its leaves
do one after another.

* `Applied.followedBy` — one more operation after others;
* `Operation.foldl_leaves` — the leaves of an operation, one after another, are the operation;
* `Operation.scenes_foldl_followedBy` — of all leaves only moves can be noticed by later ones;
* `Operation.presents_iff_present_mem_leaves` — what makes an operation ready;
* `Operation.nesting_unobservable` — the main result.
-/

namespace Easel

/-- Operations applied so far, and one more: it reads the scenes and the surface that the others
leave, and readiness once reached is kept. -/
def Applied.followedBy {σ : Type} [Surface σ] (a : Applied σ) (op : Operation) : Applied σ :=
  let next := op.apply a.scenes a.surface
  ⟨a.ready || next.ready, next.scenes, next.surface⟩

namespace Operation

/-- Of all leaves only the moves reach the scenes, so the others may be left out. -/
theorem settle_eq_foldl_moves (leaves : List Operation) (scenes : Scenes) :
    settle leaves scenes =
      (leaves.filterMap move?).foldl (fun scenes m => m.apply scenes) scenes := by
  induction leaves generalizing scenes with
  | nil => rfl
  | cons leaf rest ih =>
    rw [settle_cons, ih]
    -- A leaf that is no move leaves the scenes alone, and the filter drops it.
    cases leaf with
    | move m => rfl
    | _ => rfl

/-- Where leaves leave a figure, by rows and integers: it is the one in the row of its scene, with
its color, and its center is shifted along each axis by the distances of the moves among the leaves,
cut to the range of coordinates after each. -/
theorem get?_settle_eq_some_iff {leaves : List Operation} {scenes : Scenes} {ref : FigureRef}
    {f : Figure} :
    ref.get? (settle leaves scenes) = some f ↔
      ∃ row former,
        scenes.all[ref.scene.index]? = some row ∧ row[ref.id.index]? = some former ∧
        f.color = former.color ∧
        ∀ axis, (f.along axis).val =
          (Move.allDistances (leaves.filterMap move?) ref.scene ref.id axis).foldl
            (fun sum d => max (-2147483648) (min (sum + d) 2147483647))
            (former.along axis).val := by
  rw [settle_eq_foldl_moves]
  exact Scenes.get?_carryOut_eq_some_iff

section Apply

variable {σ : Type} [Surface σ]

/-- Operations one after another are a sequence of operations. -/
theorem foldl_followedBy (ops : List Operation) (a : Applied σ) :
    ops.foldl Applied.followedBy a =
      ⟨a.ready || (applyAll ops a.scenes a.surface).ready,
        (applyAll ops a.scenes a.surface).scenes, (applyAll ops a.scenes a.surface).surface⟩ := by
  induction ops generalizing a with
  | nil =>
    rw [applyAll_nil, List.foldl_nil]
    dsimp only
    rw [Bool.or_false]
  | cons op rest ih =>
    rw [List.foldl_cons, ih, applyAll_cons]
    simp only [Applied.followedBy, Bool.or_assoc]

mutual

/-- **The leaves of an operation do one after another what the operation does.** Nothing is asked of
the surface here: the leaves meet the same surfaces in the same order as inside the batches. -/
theorem foldl_leaves : (op : Operation) → (a : Applied σ) →
    op.leaves.foldl Applied.followedBy a = a.followedBy op
  | .fill _, _ | .overlay _, _ | .figure _, _ | .move _, _ | .present, _ => rfl
  | .batch members, a => by
    rw [leaves, foldl_leavesAll members, foldl_followedBy, Applied.followedBy, apply_batch]

/-- The same for a sequence of operations. -/
theorem foldl_leavesAll : (ops : List Operation) → (a : Applied σ) →
    (leavesAll ops).foldl Applied.followedBy a = ops.foldl Applied.followedBy a
  | [], _ => rfl
  | op :: rest, a => by
    rw [leavesAll, List.foldl_append, foldl_leaves op, foldl_leavesAll rest, List.foldl_cons]

end

/-- What has been applied so far shows in the scenes by its moves alone. -/
theorem scenes_foldl_followedBy {leaves : List Operation}
    (h : ∀ members, .batch members ∉ leaves) (a : Applied σ) :
    (leaves.foldl Applied.followedBy a).scenes =
      (leaves.filterMap move?).foldl (fun scenes m => m.apply scenes) a.scenes := by
  rw [foldl_followedBy, (ready_scenes_applyAll leaves a.scenes a.surface).2,
    leavesAll_of_batch_notMem h, settle_eq_foldl_moves]

/-- An operation presents exactly if a present is among its leaves. -/
theorem presents_iff_present_mem_leaves (op : Operation) :
    op.presents = true ↔ .present ∈ op.leaves := by
  rw [← presentsAny_leaves, presentsAny_eq_any, List.any_eq_true]
  constructor
  · rintro ⟨leaf, hleaf, hpresents⟩
    -- A present is a leaf itself, a batch is none, and no other leaf presents.
    cases leaf with
    | present => exact hleaf
    | batch members => exact absurd hleaf (batch_notMem_leaves members op)
    | _ => exact nomatch hpresents
  · intro h
    exact ⟨.present, h, rfl⟩

/-- **How batches are nested cannot be seen.**

On any surface, an operation does what its leaves do one after another, from left to right, and all
of them, those after a present too. Whatever leaves come before it, a figure is drawn with its bar
and then its stem where the moves among them have left it, and not at all if it does not exist.
Where that is can be said without the scenes in between: the figure has the color that it has in the
row of its scene, and on each axis its center is the sum of the one it has there and the distances
of the moves, cut to the range of coordinates after each of them. The surface is ready exactly if a
present is among the leaves, which depends on the operation alone. -/
theorem nesting_unobservable (op : Operation) (scenes : Scenes) (surface : σ) :
    let start : Applied σ := ⟨false, scenes, surface⟩
    let result := op.apply scenes surface
    (∀ members, .batch members ∉ op.leaves) ∧
    result = op.leaves.foldl Applied.followedBy start ∧
    (∀ before ref after, op.leaves = before ++ .figure ref :: after →
      let here := before.foldl Applied.followedBy start
      let moved := (before.filterMap move?).foldl (fun scenes m => m.apply scenes) scenes
      here.followedBy (.figure ref) =
        ⟨here.ready, moved,
          match ref.get? moved with
          | some f => Surface.fill (Surface.fill here.surface f.bar f.color) f.stem f.color
          | none => here.surface⟩ ∧
      ∀ f, ref.get? moved = some f ↔
        ∃ row former,
          scenes.all[ref.scene.index]? = some row ∧ row[ref.id.index]? = some former ∧
          f.color = former.color ∧
          ∀ axis, (f.along axis).val =
            (Move.allDistances (before.filterMap move?) ref.scene ref.id axis).foldl
              (fun sum d => max (-2147483648) (min (sum + d) 2147483647))
              (former.along axis).val) ∧
    result.scenes = (op.leaves.filterMap move?).foldl (fun scenes m => m.apply scenes) scenes ∧
    (result.ready = true ↔ .present ∈ op.leaves) ∧
    result.ready = op.presents := by
  intro start result
  have hnot : ∀ members, .batch members ∉ op.leaves := fun members =>
    batch_notMem_leaves members op
  have hready := (ready_scenes_apply op scenes surface).1
  have hfold : result = op.leaves.foldl Applied.followedBy start := (foldl_leaves op start).symm
  refine ⟨hnot, hfold, ?_, ?_, ?_, hready⟩
  · intro before ref after hsplit here moved
    -- The leaves before a leaf are leaves, so what they do to the scenes is their moves.
    have hbefore : ∀ members, .batch members ∉ before := by
      intro members hmem
      refine hnot members ?_
      rw [hsplit]
      exact List.mem_append_left _ hmem
    have hmoved : here.scenes = moved := scenes_foldl_followedBy hbefore start
    refine ⟨?_, fun f => Scenes.get?_carryOut_eq_some_iff⟩
    rw [← hmoved]
    unfold Applied.followedBy apply
    dsimp only
    -- A figure that exists is drawn as two fills, and one that does not exist draws nothing.
    cases ref.get? here.scenes with
    | some f => simp only [Bool.or_false]; rfl
    | none => simp only [Bool.or_false]
  · rw [hfold]
    exact scenes_foldl_followedBy hnot start
  · rw [hready]
    exact presents_iff_present_mem_leaves op

end Apply

end Operation

end Easel
