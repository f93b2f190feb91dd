import Easel.Proofs.Script.History
import Easel.Proofs.Script.Reading
import Mathlib.Data.List.Nodup

/-!
# Where the moves of a script go

A move of a script stands in the batch of the script unless a reset follows it, and then it stands
there once: it is bound to the figures that the session lists when it hears of the move, and it is
handed over with the batch.

* `keptMoves` — where the moves stand in a script that no reset follows;
* `Session.issued_executeAll` — a session that has carried out a script has the moves that stand
  there, one for each and in the same order;
* `Session.moves_assemble` — and the batch has the moves of the session;
* `Operation.HasFigures` — an operation that refers to figures that exist;
* `Operation.get?_settle` — a batch shifts a figure once for each of its moves that lists the
  figure.
-/

namespace Easel

open Script (Command Settings Session)

/-! ### Moves of operations -/

namespace Operation

/-- An operation all of whose figures exist and have the color of the settings. A move lists none of
them twice, so each of its figures is shifted once. -/
def HasFigures (settings : Settings) (scenes : Scenes) : Operation → Prop
  | .figure ref => ∃ figure, ref.get? scenes = some figure ∧ figure.color = settings.figureColor
  | .move m => m.targets.Nodup ∧ ∀ id ∈ m.targets,
      ∃ figure, scenes.get? m.scene id = some figure ∧ figure.color = settings.figureColor
  | .batch _ => False
  | .fill _ | .overlay _ | .present => True

section HasFigures

variable {settings : Settings} {scenes after : Scenes} {op : Operation}

/-- An operation that refers to figures is no batch. -/
theorem HasFigures.leaves_eq (h : op.HasFigures settings scenes) : op.leaves = [op] := by
  cases op with
  | batch members => exact h.elim
  | _ => rfl

/-- Nothing more is asked than that figures that exist stay, and keep their colors. Where they are
does not matter. -/
theorem HasFigures.mono (h : op.HasFigures settings scenes)
    (hkeep : ∀ scene id figure, scenes.get? scene id = some figure →
      ∃ later, after.get? scene id = some later ∧ later.color = figure.color) :
    op.HasFigures settings after := by
  have hstill : ∀ scene id, (∃ figure, scenes.get? scene id = some figure ∧
        figure.color = settings.figureColor) →
      ∃ figure, after.get? scene id = some figure ∧ figure.color = settings.figureColor := by
    rintro scene id ⟨figure, hget, hcolor⟩
    obtain ⟨later, hlater, hsame⟩ := hkeep scene id figure hget
    exact ⟨later, hlater, hsame.trans hcolor⟩
  cases op with
  | figure ref => exact hstill ref.scene ref.id h
  | move m => exact ⟨h.1, fun id hid => hstill m.scene id (h.2 id hid)⟩
  | batch members => exact h
  | _ => trivial

/-- Scenes that extend others have the figures too. -/
theorem HasFigures.extends (h : op.HasFigures settings scenes) (hextends : after.Extends scenes) :
    op.HasFigures settings after :=
  h.mono fun _ _ figure hget => ⟨figure, hextends.get? hget, rfl⟩

/-- The figures are still there after any operations, which only move them. -/
theorem HasFigures.settle (h : op.HasFigures settings scenes) (ops : List Operation) :
    op.HasFigures settings (settle ops scenes) := by
  refine h.mono fun scene id figure hget => ?_
  have hrow : (scenes.figures scene)[id.index]? = some figure := hget
  -- Operations keep the colors of a row, in particular the one at this place.
  have hcolors := congrArg (·[id.index]?) (colors_settle ops scenes scene)
  rw [Array.getElem?_map, Array.getElem?_map, hrow] at hcolors
  exact Option.map_eq_some_iff.mp hcolors

end HasFigures

/-- A move shifts a figure if it lists the figure, and else leaves it where it is. -/
def shiftedBy (scene : SceneId) (id : FigureId) (figure : Figure) (m : Move) : Figure :=
  if m.scene = scene ∧ id ∈ m.targets then figure.shift m.dx m.dy else figure

/-- A move that lists no figure twice shifts each of them once. This is simpler than in general,
where the figure is shifted once for each time that it is listed. -/
theorem get?_apply_move {m : Move} (h : m.targets.Nodup) (scenes : Scenes) (scene : SceneId)
    (id : FigureId) : (m.apply scenes).get? scene id =
      (scenes.get? scene id).map fun figure => shiftedBy scene id figure m := by
  rw [Move.apply, Scenes.get?, Scenes.figures_translate, Scenes.get?]
  by_cases hscene : scene = m.scene
  · subst hscene
    rw [if_pos rfl, Scenes.getElem?_shiftAll]
    by_cases hid : id ∈ m.targets
    · have honce : m.targets.count ⟨id.index⟩ = 1 := List.count_eq_one_of_mem h hid
      simp only [honce, shiftedBy, hid, and_self, if_true, Function.iterate_one]
    · have hnever : m.targets.count ⟨id.index⟩ = 0 := List.count_eq_zero_of_not_mem hid
      simp only [hnever, shiftedBy, hid, and_false, if_false, Function.iterate_zero, id_eq]
  · have hother : ¬ (m.scene = scene ∧ id ∈ m.targets) := fun hc => hscene hc.1.symm
    rw [if_neg hscene]
    simp only [shiftedBy, if_neg hother, Option.map_id']

/-- **A batch shifts a figure once for each of its moves that lists the figure**, in their order,
which matters where the coordinates end. -/
theorem get?_settle {ops : List Operation}
    (h : ∀ op ∈ ops, ∀ m, op = .move m → m.targets.Nodup) (scenes : Scenes) (scene : SceneId)
    (id : FigureId) : (settle ops scenes).get? scene id =
      (scenes.get? scene id).map fun figure =>
        (ops.filterMap move?).foldl (shiftedBy scene id) figure := by
  induction ops generalizing scenes with
  | nil => exact Option.map_id'.symm
  | cons op rest ih =>
    have hrest := ih fun later hlater => h later (List.mem_cons_of_mem _ hlater)
    rw [settle_cons, hrest]
    cases op with
    | move m =>
      rw [ownMove, get?_apply_move (h _ List.mem_cons_self m rfl), Option.map_map]
      rfl
    | _ => rfl

end Operation

namespace Script

/-! ### Moves of scripts -/

/-- Whether a command moves figures. -/
def Command.isMove : Command → Bool
  | .move .. => true
  | .background _ | .update | .bgrect .. | .figure .. | .reset => false

/-- Where the moves stand in a script that no reset follows. They are given by their places, so that
two equal moves are told apart. -/
def keptMoves (commands : List Command) : List Nat :=
  (List.range commands.length).filter fun i =>
    commands[i]?.any Command.isMove ∧ .reset ∉ commands.drop i

/-- No place comes up twice. -/
theorem nodup_keptMoves (commands : List Command) : (keptMoves commands).Nodup :=
  List.nodup_range.filter _

/-- A reset lets go of all moves before it. -/
theorem keptMoves_concat_reset (commands : List Command) :
    keptMoves (commands ++ [.reset]) = [] := by
  refine List.filter_eq_nil_iff.mpr fun i hi => ?_
  rw [decide_eq_true_iff, not_and_not_right]
  intro _
  rw [List.length_append, List.mem_range] at hi
  rw [List.drop_append_of_le_length (Nat.le_of_lt_succ hi)]
  exact List.mem_append_right _ List.mem_cons_self

/-- Any other command keeps the moves before it, and adds itself if it is one. -/
theorem keptMoves_concat (commands : List Command) {command : Command} (h : command ≠ .reset) :
    keptMoves (commands ++ [command]) =
      keptMoves commands ++ if command.isMove = true then [commands.length] else [] := by
  rw [keptMoves, List.length_append, List.length_singleton, List.range_succ, List.filter_append,
    keptMoves]
  congr 1
  · -- The old commands are where they were, and no reset is added behind them.
    refine List.filter_congr fun i hi => ?_
    rw [List.mem_range] at hi
    rw [List.getElem?_append_left hi, List.drop_append_of_le_length (Nat.le_of_lt hi)]
    refine decide_eq_decide.mpr (and_congr_right' (not_congr ?_))
    rw [List.mem_append, List.mem_singleton]
    exact or_iff_left (Ne.symm h)
  -- Nothing follows the last command, so it is kept if it is a move.
  · have hlast : .reset ∉ (commands ++ [command]).drop commands.length := by
      rw [List.drop_left, List.mem_singleton]
      exact Ne.symm h
    rw [List.filter_singleton, List.getElem?_concat_length]
    simp only [hlast, Option.any_some, not_false_eq_true, and_true, Bool.decide_eq_true]
    cases command.isMove <;> rfl

/-- The first of the two moves is lost to the reset. -/
example (x : Binary64) : keptMoves [.move x x, .reset, .figure x x, .move x x, .update] = [3] := rfl

namespace Session

variable {settings : Settings} {s : Session} {scenes : Scenes}

/-- The move that the command at a place in a script stands for. It reaches the figures that the
session lists when it has heard the commands before. -/
def Issues (settings : Settings) (s : Session) (scenes : Scenes) (commands : List Command) (i : Nat)
    (m : Move) : Prop :=
  ∃ dx dy, commands[i]? = some (.move dx dy) ∧
    m = ⟨settings.scale dx, settings.scale dy,
      (s.executeAll settings scenes (commands.take i)).1.scene,
      (s.executeAll settings scenes (commands.take i)).1.figures⟩

/-- A move stands for the same in a script that goes on, as only the commands before it count. -/
theorem Issues.concat {commands : List Command} {i : Nat} {m : Move}
    (h : s.Issues settings scenes commands i m) (command : Command) :
    s.Issues settings scenes (commands ++ [command]) i m := by
  obtain ⟨dx, dy, hget, rfl⟩ := h
  have hi := (List.getElem?_eq_some_iff.mp hget).1
  refine ⟨dx, dy, ?_, ?_⟩
  · rw [List.getElem?_append_left hi]
    exact hget
  · -- The commands before that place are the same ones.
    rw [List.take_append_of_le_length (Nat.le_of_lt hi)]

/-- **A session issues the moves that no reset follows**, one for each and in the same order. -/
theorem issued_executeAll (settings : Settings) (h : s.moves = []) (scenes : Scenes)
    (commands : List Command) :
    List.Forall₂ (s.Issues settings scenes commands) (keptMoves commands)
      (s.executeAll settings scenes commands).1.moves := by
  induction commands using List.reverseRecOn with
  | nil =>
    rw [show (s.executeAll settings scenes []).1.moves = [] from h]
    exact .nil
  | append_singleton commands command ih =>
    rw [executeAll_concat]
    -- A reset drops the moves on both sides; any other command adds to both or to neither.
    by_cases hcommand : command = .reset
    · subst hcommand
      rw [keptMoves_concat_reset]
      exact .nil
    · rw [keptMoves_concat commands hcommand]
      have hold := ih.imp fun i m hissues => hissues.concat command
      cases command with
      | reset => exact absurd rfl hcommand
      | move dx dy =>
        refine List.rel_append hold (.cons ⟨dx, dy, ?_, ?_⟩ .nil)
        · exact List.getElem?_concat_length
        · rw [List.take_left]
      | _ =>
        rw [Command.isMove, if_neg Bool.false_ne_true, List.append_nil]
        exact hold

/-- A batch has the moves of the session, in the same order and none besides. A bare present has
none, and neither has the session then. -/
theorem moves_assemble (s : Session) : s.assemble.1.filterMap Operation.move? = s.moves := by
  -- Fills, overlays and figures are no moves.
  have hnone : ∀ {α : Type} (entries : List α) (op : α → Operation), (∀ a, (op a).move? = none) →
      (entries.map op).filterMap Operation.move? = [] := by
    intro α entries op h
    rw [List.filterMap_map]
    exact List.filterMap_eq_nil_iff.mpr fun a _ => h a
  have hsome : (s.moves.map Operation.move).filterMap Operation.move? = s.moves := by
    rw [List.filterMap_map]
    exact List.filterMap_some
  have hpresent : (if s.presentRequested then [Operation.present] else []).filterMap
      Operation.move? = [] := by
    split <;> rfl
  rw [assemble_eq]
  dsimp only
  split
  · next hbare => exact hbare.2.2.2.2.symm
  · have hfills := hnone s.background?.toList (fun shade => .fill shade.color) fun _ => rfl
    have hoverlays := hnone s.overlay?.toList .overlay fun _ => rfl
    have hfigures := hnone s.figures (fun id => .figure ⟨s.scene, id⟩) fun _ => rfl
    simp only [operations, List.filterMap_append, hfills, hoverlays, hsome, hfigures, hpresent,
      List.nil_append, List.append_nil]

/-- The figures of a sound session exist and have the color of the settings. -/
theorem Sound.exists_figure (h : s.Sound settings scenes) {id : FigureId} (hid : id ∈ s.figures) :
    ∃ figure, scenes.get? s.scene id = some figure ∧ figure.color = settings.figureColor := by
  rw [h.figures] at hid
  obtain ⟨i, hi, rfl⟩ := List.mem_map.mp hid
  -- The session lists the numbers up to the size of the row, so the figure is in the row.
  have hget := Array.getElem?_eq_getElem (List.mem_range.mp hi)
  exact ⟨_, hget, h.colors _ (Array.getElem_mem _)⟩

/-- A sound session lists no figure twice. -/
theorem Sound.nodup_figures (h : s.Sound settings scenes) : s.figures.Nodup := by
  rw [h.figures]
  exact List.nodup_range.map fun _ _ hsame => FigureId.mk.inj hsame

/-- **A batch refers to figures of the session only**, all of which exist when it is handed over,
and stay. -/
theorem Sound.hasFigures_assemble (h : s.Sound settings scenes) {op : Operation}
    (hop : op ∈ s.assemble.1) : op.HasFigures settings scenes := by
  rcases mem_assemble hop with ⟨_, rfl⟩ | ⟨_, rfl⟩ | ⟨m, hm, rfl⟩ | ⟨id, hid, rfl⟩ | rfl
  · trivial
  · trivial
  · -- The targets of a move are figures that the session lists.
    obtain ⟨hscene, htargets⟩ := h.moves m hm
    refine ⟨h.nodup_figures.sublist htargets.sublist, fun id hid => ?_⟩
    rw [hscene]
    exact h.exists_figure (htargets.subset hid)
  · exact h.exists_figure hid
  · trivial

end Session

end Script

end Easel
