import Easel.Operation.Basic

/-!
# Applying operations

Applying an operation edits a surface, moves figures, and says whether the surface is ready to be
shown. A batch applies all of its members, those after a present included; it is ready if any member
is.

* `Operation.apply`, `Operation.applyAll` — one operation, and a sequence of them;
* `Applied` — the result: the flag, the scenes and the surface.
-/

namespace Easel

/-- What applying operations leaves behind. The flag says that a present was among them, the scenes
have been changed by the moves, and the surface by everything else. -/
structure Applied (σ : Type) where
  /-- Whether the surface is ready to be shown. -/
  ready : Bool
  scenes : Scenes
  surface : σ

namespace Operation

variable {σ : Type} [Surface σ]

mutual

/-- Applies one operation to a surface. A figure is read from the scenes as they are at this moment,
so it is drawn where the moves applied so far have left it. -/
def apply : Operation → Scenes → σ → Applied σ
  | .fill color, scenes, surface =>
    let bounds := Surface.bounds surface
    ⟨false, scenes, Surface.fill surface bounds color⟩
  | .overlay rect, scenes, surface => ⟨false, scenes, Surface.fill surface rect overlayColor⟩
  | .figure ref, scenes, surface =>
    match ref.get? scenes with
    | some found => ⟨false, scenes, found.draw surface⟩
    | none => ⟨false, scenes, surface⟩
  | .move m, scenes, surface => ⟨false, m.apply scenes, surface⟩
  | .present, scenes, surface => ⟨true, scenes, surface⟩
  | .batch members, scenes, surface => applyAll members scenes surface

/-- Applies operations one after another, all of them, whether one makes the surface ready or
not. -/
def applyAll : List Operation → Scenes → σ → Applied σ
  | [], scenes, surface => ⟨false, scenes, surface⟩
  | op :: rest, scenes, surface =>
    match op.apply scenes surface with
    | ⟨first, scenes, surface⟩ =>
      -- A present does not end the sequence: what follows it is still drawn, to the same surface.
      match applyAll rest scenes surface with
      | ⟨later, scenes, surface⟩ => ⟨first || later, scenes, surface⟩

end

@[simp] theorem apply_present (scenes : Scenes) (surface : σ) :
    present.apply scenes surface = ⟨true, scenes, surface⟩ := by
  simp [apply]

@[simp] theorem apply_batch (members : List Operation) (scenes : Scenes) (surface : σ) :
    (batch members).apply scenes surface = applyAll members scenes surface := by
  simp [apply]

@[simp] theorem applyAll_nil (scenes : Scenes) (surface : σ) :
    applyAll [] scenes surface = ⟨false, scenes, surface⟩ := by
  simp [applyAll]

/-- A sequence is its first operation followed by the others, on what the first one has left. -/
theorem applyAll_cons (op : Operation) (rest : List Operation) (scenes : Scenes) (surface : σ) :
    applyAll (op :: rest) scenes surface =
      let first := op.apply scenes surface
      let later := applyAll rest first.scenes first.surface
      ⟨first.ready || later.ready, later.scenes, later.surface⟩ := by
  simp [applyAll]

end Operation

end Easel
