import Easel.Operation.Apply
import Easel.Proofs.Canvas.Painting
import Easel.Proofs.Scene.Growth

/-!
# The leaves of an operation

However batches are nested, applying an operation comes down to its leaves: the operations inside it
that are no batches, from left to right.

* `Operation.fills` — the fills that leaves issue, each figure where the leaves before it have left
  it;
* `Operation.settle` — the scenes after the moves among the leaves;
* `Operation.apply_eq`, `Operation.applyAll_eq` — applying is painting these fills, moving these
  figures, and being ready if a present is among the leaves. None of the three depends on the
  surface beyond its bounds;
* `Operation.ready_scenes_apply` — for the last two, nothing is asked of the surface at all.

Leaves are `Known` to scenes that have the figures they refer to. Known leaves issue the same fills
after the scenes have grown (`Operation.fills_grow`), and their moves and the growth may be
exchanged (`Operation.settle_grow`).
-/

namespace Easel

namespace Operation

mutual

/-- The operations inside an operation that are no batches, from left to right. -/
def leaves : Operation → List Operation
  | .batch members => leavesAll members
  | leaf => [leaf]

/-- The operations inside a sequence of operations that are no batches, from left to right. -/
def leavesAll : List Operation → List Operation
  | [] => []
  | op :: rest => op.leaves ++ leavesAll rest

end

/-- The fills that one leaf issues on a surface with the given bounds. -/
def ownFills (bounds : Rect) (scenes : Scenes) : Operation → List Fill
  | .fill color => [(bounds, color)]
  | .overlay rect => [(rect, overlayColor)]
  | .figure ref =>
    match ref.get? scenes with
    | some found => [(found.bar, found.color), (found.stem, found.color)]
    | none => []
  | .move _ | .present | .batch _ => []

/-- The move that an operation carries out. -/
def move? : Operation → Option Move
  | .move m => some m
  | .fill _ | .overlay _ | .figure _ | .present | .batch _ => none

/-- The scenes after one leaf. Only a move changes them, and it does so whatever the surface is. -/
def ownMove (scenes : Scenes) : Operation → Scenes
  | .move m => m.apply scenes
  | .fill _ | .overlay _ | .figure _ | .present | .batch _ => scenes

/-- The scenes after the moves among leaves, carried out from left to right. -/
def settle (leaves : List Operation) (scenes : Scenes) : Scenes := leaves.foldl ownMove scenes

/-- The fills that leaves issue one after another. Each leaf reads the figures where the moves among
the leaves before it have left them, so the fills depend on the scenes at the start and on the
bounds, and on no pixel. -/
def fills (bounds : Rect) : List Operation → Scenes → List Fill
  | [], _ => []
  | leaf :: rest, scenes => ownFills bounds scenes leaf ++ fills bounds rest (ownMove scenes leaf)

@[simp] theorem settle_nil (scenes : Scenes) : settle [] scenes = scenes := rfl

@[simp] theorem settle_cons (leaf : Operation) (rest : List Operation) (scenes : Scenes) :
    settle (leaf :: rest) scenes = settle rest (ownMove scenes leaf) := rfl

/-- Leaves in two parts are settled one part after the other. -/
theorem settle_append (leaves later : List Operation) (scenes : Scenes) :
    settle (leaves ++ later) scenes = settle later (settle leaves scenes) := List.foldl_append

@[simp] theorem fills_nil (bounds : Rect) (scenes : Scenes) : fills bounds [] scenes = [] := rfl

@[simp] theorem fills_cons (bounds : Rect) (leaf : Operation) (rest : List Operation)
    (scenes : Scenes) :
    fills bounds (leaf :: rest) scenes =
      ownFills bounds scenes leaf ++ fills bounds rest (ownMove scenes leaf) := rfl

/-- The second part of a sequence of leaves issues its fills after the moves of the first. -/
theorem fills_append (bounds : Rect) (leaves later : List Operation) (scenes : Scenes) :
    fills bounds (leaves ++ later) scenes =
      fills bounds leaves scenes ++ fills bounds later (settle leaves scenes) := by
  induction leaves generalizing scenes with
  | nil => rfl
  | cons leaf rest ih =>
    rw [List.cons_append, fills_cons, fills_cons, ih, settle_cons, List.append_assoc]

/-- The leaves of two sequences, one after the other, are those of the whole. -/
theorem leavesAll_append (ops later : List Operation) :
    leavesAll (ops ++ later) = leavesAll ops ++ leavesAll later := by
  induction ops with
  | nil => rfl
  | cons op rest ih => rw [List.cons_append, leavesAll, leavesAll, ih, List.append_assoc]

/-! ### Applying -/

mutual

/-- **Applying an operation is applying its leaves**: the surface gets their fills, the scenes their
moves, and the surface is ready if a present is among them. -/
theorem apply_eq {σ : Type} [Surface σ] [LawfulSurface σ] :
    (op : Operation) → (scenes : Scenes) → (surface : σ) →
    op.apply scenes surface =
      ⟨op.presents, settle op.leaves scenes,
        Surface.paint (fills (Surface.bounds surface) op.leaves scenes) surface⟩
  | .fill _, _, _ => rfl
  | .overlay _, _, _ => rfl
  | .figure ref, scenes, surface => by
    cases h : ref.get? scenes with
    | some found =>
      simp [apply, leaves, ownFills, ownMove, presents, Surface.paint, Figure.draw, h]
    | none => simp [apply, leaves, ownFills, ownMove, presents, h]
  | .move _, _, _ => rfl
  | .present, _, _ => rfl
  | .batch members, scenes, surface => by
    rw [apply_batch, applyAll_eq members scenes surface, leaves, presents]

/-- **Applying a sequence of operations is applying its leaves.** The bounds survive every fill, so
the later operations draw on the same bounds as the first. -/
theorem applyAll_eq {σ : Type} [Surface σ] [LawfulSurface σ] :
    (ops : List Operation) → (scenes : Scenes) → (surface : σ) →
    applyAll ops scenes surface =
      ⟨presentsAny ops, settle (leavesAll ops) scenes,
        Surface.paint (fills (Surface.bounds surface) (leavesAll ops) scenes) surface⟩
  | [], _, _ => by rw [applyAll_nil]; rfl
  | op :: rest, scenes, surface => by
    rw [applyAll_cons, apply_eq op scenes surface]
    dsimp only
    rw [applyAll_eq rest]
    -- The bounds are the same after painting, so the fills of both parts may be joined.
    simp only [Surface.bounds_paint, leavesAll, presentsAny, settle_append, fills_append,
      Surface.paint_append]

end

section Apply

variable {σ : Type} [Surface σ]

mutual

/-- An operation is ready if it presents, and moves what its leaves move, on any surface: no law is
asked of the surface, since neither the flag nor the scenes ever read it. -/
theorem ready_scenes_apply : (op : Operation) → (scenes : Scenes) → (surface : σ) →
    (op.apply scenes surface).ready = op.presents ∧
      (op.apply scenes surface).scenes = settle op.leaves scenes
  | .fill _, _, _ => ⟨rfl, rfl⟩
  | .overlay _, _, _ => ⟨rfl, rfl⟩
  | .figure ref, scenes, surface => by
    unfold apply
    cases ref.get? scenes with
    | some found => exact ⟨rfl, rfl⟩
    | none => exact ⟨rfl, rfl⟩
  | .move _, _, _ => ⟨rfl, rfl⟩
  | .present, _, _ => ⟨rfl, rfl⟩
  | .batch members, scenes, surface => by
    rw [apply_batch, presents, leaves]
    exact ready_scenes_applyAll members scenes surface

/-- The same for a sequence of operations. -/
theorem ready_scenes_applyAll : (ops : List Operation) → (scenes : Scenes) → (surface : σ) →
    (applyAll ops scenes surface).ready = presentsAny ops ∧
      (applyAll ops scenes surface).scenes = settle (leavesAll ops) scenes
  | [], _, _ => by
    rw [applyAll_nil]
    exact ⟨rfl, rfl⟩
  | op :: rest, scenes, surface => by
    -- The later operations start from what the first one leaves, on the surface that it leaves.
    obtain ⟨hready, hscenes⟩ := ready_scenes_apply op scenes surface
    obtain ⟨hlater, hafter⟩ := ready_scenes_applyAll rest (op.apply scenes surface).scenes
      (op.apply scenes surface).surface
    rw [applyAll_cons, presentsAny, leavesAll, settle_append, ← hready, ← hscenes]
    exact ⟨congrArg (_ || ·) hlater, hafter⟩

end

end Apply

/-- What one leaf does, on any surface: an operation that is no batch issues its own fills and
carries out its own move, and no law of the surface is needed to say so. -/
theorem apply_of_leaf {σ : Type} [Surface σ] {leaf : Operation}
    (h : ∀ members, leaf ≠ .batch members) (scenes : Scenes) (surface : σ) :
    leaf.apply scenes surface =
      ⟨leaf.presents, ownMove scenes leaf,
        Surface.paint (ownFills (Surface.bounds surface) scenes leaf) surface⟩ := by
  cases leaf with
  | batch members => exact absurd rfl (h members)
  | figure ref =>
    cases hget : ref.get? scenes with
    -- A figure that is not found draws nothing.
    | none => simp [apply, ownFills, ownMove, presents, hget]
    | some found => simp [apply, ownFills, ownMove, presents, Surface.paint, Figure.draw, hget]
  | _ => rfl

mutual

/-- Leaves have no leaves but themselves, so taking them twice is taking them once. -/
theorem leavesAll_leaves : (op : Operation) → leavesAll op.leaves = op.leaves
  | .fill _ | .overlay _ | .figure _ | .move _ | .present => rfl
  | .batch members => by rw [leaves, leavesAll_leavesAll members]

/-- The leaves of a sequence are their own leaves. -/
theorem leavesAll_leavesAll : (ops : List Operation) → leavesAll (leavesAll ops) = leavesAll ops
  | [] => rfl
  | op :: rest => by
    rw [leavesAll, leavesAll_append, leavesAll_leaves op, leavesAll_leavesAll rest]

end

/-- Operations that are each their own leaf are the leaves of their sequence. -/
theorem leavesAll_of_forall {ops : List Operation} (h : ∀ op ∈ ops, op.leaves = [op]) :
    leavesAll ops = ops := by
  induction ops with
  | nil => rfl
  | cons op rest ih =>
    rw [leavesAll, h op List.mem_cons_self,
      ih fun later hlater => h later (List.mem_cons_of_mem _ hlater)]
    rfl

/-- Operations among which there is no batch are their own leaves. -/
theorem leavesAll_of_batch_notMem {ops : List Operation} (h : ∀ members, .batch members ∉ ops) :
    leavesAll ops = ops := by
  refine leavesAll_of_forall fun op hop => ?_
  cases op with
  -- There is none, so every operation is its own leaf.
  | batch members => exact absurd hop (h members)
  | _ => rfl

mutual

/-- A batch is not a leaf: the members of every batch take its place, down to the innermost. -/
theorem batch_notMem_leaves (members : List Operation) :
    (op : Operation) → .batch members ∉ op.leaves
  | .fill _ | .overlay _ | .figure _ | .move _ | .present => by simp [leaves]
  | .batch ops => by
    rw [leaves]
    exact batch_notMem_leavesAll members ops

/-- There is no batch among the leaves of a sequence. -/
theorem batch_notMem_leavesAll (members : List Operation) :
    (ops : List Operation) → .batch members ∉ leavesAll ops
  | [] => List.not_mem_nil
  | op :: rest => by
    rw [leavesAll, List.mem_append, not_or]
    exact ⟨batch_notMem_leaves members op, batch_notMem_leavesAll members rest⟩

end

/-- A sequence presents if one of its two parts does. -/
theorem presentsAny_append (ops later : List Operation) :
    presentsAny (ops ++ later) = (presentsAny ops || presentsAny later) := by
  rw [presentsAny_eq_any, presentsAny_eq_any, presentsAny_eq_any, List.any_append]

mutual

/-- An operation presents if one of its leaves does. -/
theorem presentsAny_leaves : (op : Operation) → presentsAny op.leaves = op.presents
  | .fill _ | .overlay _ | .figure _ | .move _ | .present => rfl
  | .batch members => by rw [leaves, presentsAny_leavesAll members, presents]

/-- A sequence presents if one of its leaves does. -/
theorem presentsAny_leavesAll : (ops : List Operation) →
    presentsAny (leavesAll ops) = presentsAny ops
  | [] => rfl
  | op :: rest => by
    rw [leavesAll, presentsAny_append, presentsAny_leaves op, presentsAny_leavesAll rest,
      presentsAny]

end

/-- **Applying the leaves one after another is applying the operation**, on a surface that obeys the
laws: both come down to the same fills, moves and flag. -/
theorem applyAll_leaves {σ : Type} [Surface σ] [LawfulSurface σ] (op : Operation)
    (scenes : Scenes) (surface : σ) :
    applyAll op.leaves scenes surface = op.apply scenes surface := by
  rw [applyAll_eq, apply_eq, leavesAll_leaves, presentsAny_leaves]

/-! ### Figures that exist -/

/-- A leaf whose figures exist. For such a leaf it makes no difference whether figures are added to
the scenes before it or after it. -/
def Known (scenes : Scenes) : Operation → Prop
  | .figure ref => ref.id.index < (scenes.figures ref.scene).size
  | .move m => ∀ id ∈ m.targets, id.index < (scenes.figures m.scene).size
  | .fill _ | .overlay _ | .present | .batch _ => True

/-- A leaf moves figures, and neither adds nor removes any. -/
@[simp] theorem size_figures_ownMove (leaf : Operation) (scenes : Scenes) (scene : SceneId) :
    ((ownMove scenes leaf).figures scene).size = (scenes.figures scene).size := by
  cases leaf with
  | move m => exact Scenes.size_figures_translate _ _ _ _ _ _
  | _ => rfl

/-- After leaves a scene has as many figures as before. -/
@[simp] theorem size_figures_settle (leaves : List Operation) (scenes : Scenes)
    (scene : SceneId) :
    ((settle leaves scenes).figures scene).size = (scenes.figures scene).size := by
  induction leaves generalizing scenes with
  | nil => rfl
  | cons leaf rest ih => rw [settle_cons, ih, size_figures_ownMove]

/-- After leaves there are as many scenes as before. -/
@[simp] theorem size_all_settle (leaves : List Operation) (scenes : Scenes) :
    (settle leaves scenes).all.size = scenes.all.size := by
  induction leaves generalizing scenes with
  | nil => rfl
  | cons leaf rest ih =>
    rw [settle_cons, ih]
    cases leaf with
    | move m => exact Scenes.size_all_translate _ _ _ _ _
    | _ => rfl

/-- Leaves move figures and leave their colors as they are, in the same order. -/
theorem colors_settle (leaves : List Operation) (scenes : Scenes) (scene : SceneId) :
    ((settle leaves scenes).figures scene).map Figure.color =
      (scenes.figures scene).map Figure.color := by
  induction leaves generalizing scenes with
  | nil => rfl
  | cons leaf rest ih =>
    rw [settle_cons, ih]
    cases leaf with
    | move m =>
      -- Only the scene of the move is shifted, and a shift keeps every color.
      change ((scenes.translate m.scene m.targets m.dx m.dy).figures scene).map _ = _
      rw [Scenes.figures_translate]
      split
      · next h => rw [Scenes.colors_shiftAll, h]
      · rfl
    | _ => rfl

/-- What is known depends on the numbers of figures alone, and grows with them. -/
theorem Known.mono {leaf : Operation} {scenes later : Scenes} (h : leaf.Known scenes)
    (hle : ∀ scene, (scenes.figures scene).size ≤ (later.figures scene).size) :
    leaf.Known later := by
  cases leaf with
  | figure ref => exact Nat.lt_of_lt_of_le h (hle _)
  | move m => exact fun id hid => Nat.lt_of_lt_of_le (h id hid) (hle _)
  | _ => trivial

/-- A leaf stays known after another leaf, since a leaf keeps the numbers of figures. -/
theorem Known.ownMove {leaf : Operation} {scenes : Scenes} (h : leaf.Known scenes)
    (before : Operation) : leaf.Known (before.ownMove scenes) :=
  h.mono fun scene => Nat.le_of_eq (size_figures_ownMove before scenes scene).symm

/-- A leaf stays known after any leaves. -/
theorem Known.settle {leaf : Operation} {scenes : Scenes} (h : leaf.Known scenes)
    (before : List Operation) : leaf.Known (settle before scenes) :=
  h.mono fun scene => Nat.le_of_eq (size_figures_settle before scenes scene).symm

/-- A leaf stays known after a growth, which only adds figures. -/
theorem Known.grow {leaf : Operation} {scenes : Scenes} (h : leaf.Known scenes)
    (growth : Scenes.Growth) : leaf.Known (scenes.grow growth) :=
  h.mono fun scene => scenes.size_figures_le_grow growth scene

/-- A known leaf draws figures that a growth leaves where they are. -/
theorem ownFills_grow {leaf : Operation} {scenes : Scenes} (h : leaf.Known scenes)
    (bounds : Rect) (growth : Scenes.Growth) :
    ownFills bounds (scenes.grow growth) leaf = ownFills bounds scenes leaf := by
  cases leaf with
  | figure ref =>
    have hget : ref.get? (scenes.grow growth) = ref.get? scenes := Scenes.get?_grow growth h
    simp only [ownFills, hget]
  | _ => rfl

/-- A known leaf moves old figures, which have kept their places in the grown scenes. -/
theorem ownMove_grow {leaf : Operation} {scenes : Scenes} (h : leaf.Known scenes)
    (growth : Scenes.Growth) :
    ownMove (scenes.grow growth) leaf = (ownMove scenes leaf).grow growth := by
  cases leaf with
  | move m => exact Scenes.translate_grow growth h _ _
  | _ => rfl

/-- **Growth and the moves of known leaves may be exchanged.** A move reaches old figures only, and
a growth appends: the two never touch the same figure. -/
theorem settle_grow {leaves : List Operation} {scenes : Scenes}
    (h : ∀ leaf ∈ leaves, leaf.Known scenes) (growth : Scenes.Growth) :
    settle leaves (scenes.grow growth) = (settle leaves scenes).grow growth := by
  induction leaves generalizing scenes with
  | nil => rfl
  | cons leaf rest ih =>
    rw [settle_cons, settle_cons, ownMove_grow (h leaf List.mem_cons_self)]
    -- The later leaves are still known after the move of the first, which keeps the numbers of
    -- figures.
    exact ih fun later hlater => (h later (List.mem_cons_of_mem _ hlater)).ownMove leaf

/-- **Known leaves issue the same fills after the scenes have grown.** -/
theorem fills_grow {leaves : List Operation} {scenes : Scenes}
    (h : ∀ leaf ∈ leaves, leaf.Known scenes) (bounds : Rect) (growth : Scenes.Growth) :
    fills bounds leaves (scenes.grow growth) = fills bounds leaves scenes := by
  induction leaves generalizing scenes with
  | nil => rfl
  | cons leaf rest ih =>
    have hleaf := h leaf List.mem_cons_self
    rw [fills_cons, fills_cons, ownFills_grow hleaf, ownMove_grow hleaf]
    rw [ih fun later hlater => (h later (List.mem_cons_of_mem _ hlater)).ownMove leaf]

end Operation

end Easel
