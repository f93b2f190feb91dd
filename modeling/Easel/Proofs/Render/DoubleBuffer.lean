import Easel.Proofs.Operation.Nesting
import Easel.Proofs.Render.Worker

/-!
# Double buffering

The operations that a worker takes fall into segments, each of which ends with an operation that
makes the surface ready. A segment gives one frame. The two surfaces take turns and are never
cleared, so a frame shows what its own segment has drawn over what every other segment before it has
drawn. Figures, on the other hand, are moved once and for all, whichever surface is under way.

* `Loop.cut` — the segments of a sequence of operations, and what is left over after the last one;
* `Loop.segmentFills` — the fills of each segment, with the figures where the segments before it
  have left them;
* `Loop.history` — what one of the two surfaces has been given after a number of segments;
* `Loop.handleAll_segments` — the state of a loop after a number of segments, on any surfaces;
* `Loop.frames_alternate` — the frames of a loop over recordings.
-/

namespace Easel

namespace Loop

open Operation

/-! ### Segments -/

/-- Operations of which the last one, and no other, makes the surface ready. A segment is what goes
into one frame besides what the surface has kept. -/
def IsSegment (ops : List Operation) : Prop :=
  ∃ quiet last, ops = quiet ++ [last] ∧ last.presents = true ∧ ∀ op ∈ quiet, op.presents = false

/-- The segments of a sequence of operations, and the operations after the last of them. An
operation that does not present joins the segment that comes next, if there is one. -/
def cut : List Operation → List (List Operation) × List Operation
  | [] => ([], [])
  | op :: rest =>
    if op.presents then ([op] :: (cut rest).1, (cut rest).2)
    else
      match cut rest with
      | ([], leftover) => ([], op :: leftover)
      | (segment :: segments, leftover) => ((op :: segment) :: segments, leftover)

/-- Cutting loses nothing: the segments and what is left over are the operations again. -/
theorem cut_flatten (ops : List Operation) : (cut ops).1.flatten ++ (cut ops).2 = ops := by
  induction ops with
  | nil => rfl
  | cons op rest ih =>
    rw [cut]
    split
    · rw [List.flatten_cons, List.append_assoc, ih]
      rfl
    -- The operation joins the first segment of the rest, or the leftover if there is no segment.
    · generalize cut rest = pieces at ih ⊢
      obtain ⟨segments, leftover⟩ := pieces
      cases segments with
      | nil => exact congrArg (op :: ·) ih
      | cons segment segments => exact congrArg (op :: ·) ih

/-- Every piece that is cut off is a segment. -/
theorem isSegment_of_mem_cut {ops segment : List Operation} (h : segment ∈ (cut ops).1) :
    IsSegment segment := by
  induction ops generalizing segment with
  | nil => exact absurd h List.not_mem_nil
  | cons op rest ih =>
    rw [cut] at h
    split at h
    · next hop =>
      rcases List.mem_cons.mp h with rfl | h
      · exact ⟨[], op, rfl, hop, fun _ hq => absurd hq List.not_mem_nil⟩
      · exact ih h
    · next hop =>
      generalize cut rest = pieces at ih h
      obtain ⟨segments, leftover⟩ := pieces
      cases segments with
      | nil => exact absurd h List.not_mem_nil
      | cons head segments =>
        rcases List.mem_cons.mp h with rfl | h
        · obtain ⟨quiet, last, rfl, hlast, hquiet⟩ := ih List.mem_cons_self
          -- The first segment of the rest grows by an operation that does not present.
          refine ⟨op :: quiet, last, rfl, hlast, ?_⟩
          intro q hq
          rcases List.mem_cons.mp hq with rfl | hq
          · exact Bool.eq_false_iff.mpr hop
          · exact hquiet q hq
        · exact ih (List.mem_cons_of_mem _ h)

/-- Nothing that is left over presents, as it would have ended a segment. -/
theorem presents_of_mem_leftover {ops : List Operation} {op : Operation}
    (h : op ∈ (cut ops).2) : op.presents = false := by
  induction ops with
  | nil => exact absurd h List.not_mem_nil
  | cons first rest ih =>
    rw [cut] at h
    split at h
    · exact ih h
    · next hfirst =>
      generalize cut rest = pieces at ih h
      obtain ⟨segments, leftover⟩ := pieces
      cases segments with
      | nil =>
        -- Only when the rest has no segment does the first operation join the leftover.
        rcases List.mem_cons.mp h with rfl | h
        · exact Bool.eq_false_iff.mpr hfirst
        · exact ih h
      | cons segment segments => exact ih h

/-- The fills of each segment, with the figures where the segments before it have left them. -/
def segmentFills (bounds : Rect) : List (List Operation) → Scenes → List (List Fill)
  | [], _ => []
  | segment :: rest, scenes =>
    fills bounds (leavesAll segment) scenes ::
      segmentFills bounds rest (settle (leavesAll segment) scenes)

/-- There are as many lists of fills as segments. -/
@[simp] theorem length_segmentFills (bounds : Rect) (segments : List (List Operation))
    (scenes : Scenes) : (segmentFills bounds segments scenes).length = segments.length := by
  induction segments generalizing scenes with
  | nil => rfl
  | cons segment rest ih => rw [segmentFills, List.length_cons, ih, List.length_cons]

/-- A segment at the end is drawn with the figures where all segments before it have left them. -/
theorem segmentFills_concat (bounds : Rect) (segments : List (List Operation))
    (segment : List Operation) (scenes : Scenes) :
    segmentFills bounds (segments ++ [segment]) scenes =
      segmentFills bounds segments scenes ++
        [fills bounds (leavesAll segment) (settle (leavesAll segments.flatten) scenes)] := by
  induction segments generalizing scenes with
  | nil => rfl
  | cons first rest ih =>
    rw [List.cons_append, segmentFills, ih, segmentFills, List.flatten_cons, leavesAll_append,
      settle_append]
    rfl

/-! ### Taking turns -/

/-- The first element of a list, the third, the fifth and so on. Read from the latest segment
backwards, these are the segments that one surface gets. -/
def everyOther {α : Type} : List α → List α
  | [] => []
  | [a] => [a]
  | a :: _ :: rest => a :: everyOther rest

/-- After the first element the choice goes on with the one after the next. -/
theorem everyOther_cons {α : Type} (a : α) (rest : List α) :
    everyOther (a :: rest) = a :: everyOther rest.tail := by
  cases rest with
  | nil => rfl
  | cons b rest => rfl

/-- The fills that a surface has been given when segment `n`, counted from one, was drawn to it
last: those of the segments `n`, `n - 2`, `n - 4` and so on, in the order of drawing. -/
def history (n : Nat) (drawn : List (List Fill)) : List Fill :=
  (everyOther (drawn.take n).reverse).reverse.flatten

/-- Before any segment a surface has been given nothing. -/
@[simp] theorem history_zero (drawn : List (List Fill)) : history 0 drawn = [] := rfl

/-- A segment is drawn over what every other segment before it has drawn. -/
theorem history_concat {drawn : List (List Fill)} {n : Nat} (hn : drawn.length = n)
    (fills : List Fill) :
    history (n + 1) (drawn ++ [fills]) = history (n - 1) drawn ++ fills := by
  subst hn
  have htake : (drawn ++ [fills]).take (drawn.length + 1) = drawn ++ [fills] := by
    rw [← List.length_concat, List.concat_eq_append, List.take_length]
  -- Backwards, the segment drawn last comes first, and the one before it went to the other surface.
  have htail : drawn.reverse.tail = (drawn.take (drawn.length - 1)).reverse := by
    rw [List.tail_reverse, List.dropLast_eq_take]
  rw [history, htake, List.reverse_append, List.reverse_singleton, List.singleton_append,
    everyOther_cons, htail, List.reverse_cons, List.flatten_append, List.flatten_singleton, history]

/-- Segments drawn later do not change what the earlier ones have given. -/
theorem history_append {n : Nat} {drawn : List (List Fill)} (h : n ≤ drawn.length)
    (later : List (List Fill)) : history n (drawn ++ later) = history n drawn := by
  rw [history, List.take_append_of_le_length h, history]

/-- The surface whose turn it is in segment `k`, counted from zero, as it was in the beginning. The
turns depend on `k` alone, not on what is drawn. -/
def turn {σ : Type} (first second : σ) (k : Nat) : σ := if k % 2 = 0 then first else second

/-- Two segments later it is the turn of the same surface. -/
theorem turn_add_two {σ : Type} (first second : σ) (k : Nat) :
    turn first second (k + 2) = turn first second k := by
  rw [turn, turn, Nat.add_mod_right]

section Turns

variable {σ ρ : Type} [Surface σ]

/-- The surface whose turn it is in segment `k`, as it is when segment `n` was drawn to it last. -/
def buffer (first second : σ) (segments : List (List Operation)) (scenes : Scenes) (k n : Nat) :
    σ :=
  Surface.paint
    (history n (segmentFills (Surface.bounds (turn first second k)) segments scenes))
    (turn first second k)

/-- Segments that come later do not change a surface of an earlier moment. -/
theorem buffer_append (first second : σ) {segments : List (List Operation)}
    (segment : List Operation) (scenes : Scenes) (k : Nat) {n : Nat} (h : n ≤ segments.length) :
    buffer first second (segments ++ [segment]) scenes k n =
      buffer first second segments scenes k n := by
  rw [buffer, segmentFills_concat, history_append (by rwa [length_segmentFills]), buffer]

/-- Two segments later the same surface is drawn to. -/
theorem buffer_add_two (first second : σ) (segments : List (List Operation)) (scenes : Scenes)
    (k n : Nat) :
    buffer first second segments scenes (k + 2) n = buffer first second segments scenes k n := by
  rw [buffer, turn_add_two, buffer]

/-- The frame of a segment, counted from zero: the surface whose turn it is, when the segment has
just been drawn to it. -/
def frameAt (first second : σ) (segments : List (List Operation)) (scenes : Scenes) (k : Nat) :
    σ :=
  buffer first second segments scenes k (k + 1)

variable [LawfulSurface σ]

/-- Drawing leaves a surface its bounds. -/
@[simp] theorem bounds_buffer (first second : σ) (segments : List (List Operation))
    (scenes : Scenes) (k n : Nat) :
    Surface.bounds (buffer first second segments scenes k n) =
      Surface.bounds (turn first second k) := by
  rw [buffer, Surface.bounds_paint]

omit [LawfulSurface σ] in
/-- Drawing a segment to the surface whose turn it is gives the frame of the segment. The surface
still has what was drawn to it two segments before, as the segment in between went to the other
one. -/
theorem buffer_concat (first second : σ) (segments : List (List Operation))
    (segment : List Operation) (scenes : Scenes) :
    buffer first second (segments ++ [segment]) scenes segments.length (segments.length + 1) =
      Surface.paint
        (fills (Surface.bounds (turn first second segments.length)) (leavesAll segment)
          (settle (leavesAll segments.flatten) scenes))
        (buffer first second segments scenes segments.length (segments.length - 1)) := by
  rw [buffer, segmentFills_concat, history_concat (length_segmentFills _ _ _),
    Surface.paint_append, buffer]

/-! ### The worker -/

/-- Operations that do not present are drawn to the surface under way, and counted; the receiver and
the other surface see nothing of them. -/
theorem handleAll_quiet (receive : Receiver σ ρ) (loop : Loop σ ρ) (scenes : Scenes)
    {ops : List Operation} (h : ∀ op ∈ ops, op.presents = false) :
    loop.handleAll receive scenes ops =
      ({ loop with
          drawing := Surface.paint
            (fills (Surface.bounds loop.drawing) (leavesAll ops) scenes) loop.drawing
          tally := ⟨loop.tally.applied + ops.length, loop.tally.presented⟩ },
        settle (leavesAll ops) scenes) := by
  induction ops generalizing loop scenes with
  | nil => rfl
  | cons op rest ih =>
    have hop := h op List.mem_cons_self
    have hready : (op.apply scenes loop.drawing).ready = false := by rw [apply_eq]; exact hop
    -- The counts are sums from the left here, and from the right in the statement.
    rw [handleAll_cons, conclude_of_not_ready loop receive hready,
      ih _ _ fun later hlater => h later (List.mem_cons_of_mem _ hlater)]
    simp only [apply_eq, leavesAll, settle_append, fills_append, Surface.paint_append,
      Surface.bounds_paint, List.length_cons, Nat.add_assoc, Nat.add_comm 1]

/-- **A segment is shown as one frame, and the surfaces change places.** The counts go up by the
operations of the segment and by one frame. -/
theorem handleAll_segment (taken : ρ → σ → ρ) (loop : Loop σ ρ) (scenes : Scenes)
    {segment : List Operation} (h : IsSegment segment) :
    loop.handleAll (.steady taken) scenes segment =
      let frame := Surface.paint
        (fills (Surface.bounds loop.drawing) (leavesAll segment) scenes) loop.drawing
      ({ loop with
          drawing := loop.standby
          standby := frame
          receiver := taken loop.receiver frame
          tally := ⟨loop.tally.applied + segment.length, loop.tally.presented + 1⟩ },
        settle (leavesAll segment) scenes) := by
  obtain ⟨quiet, last, rfl, hlast, hquiet⟩ := h
  have hready : ∀ (scenes : Scenes) (surface : σ),
      (last.apply scenes surface).ready = true := by
    intro scenes surface
    rw [apply_eq]
    exact hlast
  -- All but the last operation paint the surface under way, and the last one gives it away.
  rw [handleAll_append, handleAll_quiet _ loop scenes hquiet, handleAll_cons,
    conclude_steady_of_ready taken _ (hready _ _), handleAll_nil]
  simp only [apply_eq, leavesAll_append, leavesAll, List.append_nil, settle_append, fills_append,
    Surface.paint_append, Surface.bounds_paint, List.length_append, List.length_singleton,
    Nat.add_assoc]

/-- **Segments are shown one after another, on the two surfaces in turn.** The state of the loop is
given for every number of segments, which is what the induction needs: the next segment finds both
surfaces as described. -/
theorem handleAll_segments (taken : ρ → σ → ρ) (first second : σ) (receiver : ρ)
    (queue : Queue Message) (scenes : Scenes) {segments : List (List Operation)}
    (h : ∀ segment ∈ segments, IsSegment segment) :
    { start first second receiver with queue }.handleAll (.steady taken) scenes segments.flatten =
      ({ start first second receiver with
          queue
          drawing := buffer first second segments scenes segments.length (segments.length - 1)
          standby := buffer first second segments scenes (segments.length + 1) segments.length
          receiver :=
            ((List.range segments.length).map (frameAt first second segments scenes)).foldl taken
              receiver
          tally := ⟨segments.flatten.length, segments.length⟩ },
        settle (leavesAll segments.flatten) scenes) := by
  -- Segments are added at the end, where the worker draws them.
  induction segments using List.reverseRecOn with
  | nil => rfl
  | append_singleton segments segment ih =>
    have hinit := ih fun s hs => h s (List.mem_append_left _ hs)
    have hlast : IsSegment segment := h segment (by simp)
    -- The frames that have been shown stay as they are.
    have hframes : (List.range segments.length).map
        (frameAt first second (segments ++ [segment]) scenes) =
        (List.range segments.length).map (frameAt first second segments scenes) := by
      refine List.map_congr_left ?_
      intro k hk
      exact buffer_append first second segment scenes k
        (Nat.succ_le_of_lt (List.mem_range.mp hk))
    have hframe := buffer_concat first second segments segment scenes
    rw [List.flatten_append, List.flatten_singleton, handleAll_append, hinit,
      handleAll_segment taken _ _ hlast]
    simp only [bounds_buffer, ← hframe, List.length_append, List.length_singleton,
      Nat.add_sub_cancel, List.range_succ, List.map_append, hframes, List.foldl_append,
      List.map_singleton, List.foldl_cons, List.foldl_nil, frameAt, leavesAll_append,
      settle_append, buffer_add_two, buffer_append first second segment scenes _ (Nat.le_refl _)]

end Turns

/-- **The frames of a loop alternate between two histories.** Whatever operations the worker takes,
it shows one frame for each segment; odd frames, counted from one, are the first surface and even
ones the second. A frame holds the fills of its own segment, of the one two segments earlier, and so
on, all complete and in order, and nothing else. Operations after the last segment reach no frame.
Figures are moved in the order of the operations, across all segments: after any leaves, a figure
has the color that it has in the row of its scene, and on each axis its center is the sum of the one
it has there and the distances of the moves among the leaves, cut to the range of coordinates after
each of them. -/
theorem frames_alternate {ρ : Type} (taken : ρ → Recording → ρ) (first second : Recording)
    (receiver : ρ) (scenes : Scenes) (ops : List Operation) (waiting : List Message) :
    let loop : Loop Recording ρ :=
      { start first second receiver with queue := ⟨ops.map Message.apply ++ waiting⟩ }
    let done := loop.steps (.steady taken) scenes ops.length
    let segments := (cut ops).1
    let leftover := (cut ops).2
    (segments.flatten ++ leftover = ops ∧ (∀ segment ∈ segments, IsSegment segment) ∧
      ∀ op ∈ leftover, op.presents = false) ∧
    (∀ (op : Operation) (scenes : Scenes) (surface : Recording),
      (op.apply scenes surface).ready = op.presents) ∧
    ∃ frames : List Recording,
      done.1.receiver = frames.foldl taken receiver ∧
      frames.length = segments.length ∧
      done.1.tally = ⟨ops.length, segments.length⟩ ∧
      (∀ (k : Nat) (frame : Recording), frames[k]? = some frame →
        let initial := if k % 2 = 0 then first else second
        let drawn := history (k + 1) (segmentFills initial.bounds segments scenes)
        frame = { initial with fills := initial.fills ++ drawn.toArray }) ∧
      done.2 = settle (leavesAll ops) scenes ∧
      ∀ (leaves : List Operation) (ref : FigureRef) (f : Figure),
        ref.get? (settle leaves scenes) = some f ↔
          ∃ row former, scenes.all[ref.scene.index]? = some row ∧
            row[ref.id.index]? = some former ∧ f.color = former.color ∧
            ∀ axis, (f.along axis).val =
              (Move.allDistances (leaves.filterMap move?) ref.scene ref.id axis).foldl
                (fun sum d => max (-2147483648) (min (sum + d) 2147483647))
                (former.along axis).val := by
  intro loop done segments leftover
  have hcut : segments.flatten ++ leftover = ops := cut_flatten ops
  have hsegments : ∀ segment ∈ segments, IsSegment segment := fun _ => isSegment_of_mem_cut
  have hleftover : ∀ op ∈ leftover, op.presents = false := fun _ => presents_of_mem_leftover
  -- The worker takes all segments, and then what is left over.
  have hdone : done = { loop with queue := ⟨waiting⟩ }.handleAll (.steady taken) scenes ops :=
    steps_eq_handleAll taken scenes rfl rfl
  rw [← hcut, handleAll_append, handleAll_segments taken first second receiver ⟨waiting⟩ scenes
    hsegments, handleAll_quiet _ _ _ hleftover] at hdone
  refine ⟨⟨hcut, hsegments, hleftover⟩, fun op scenes surface => by rw [apply_eq],
    (List.range segments.length).map (frameAt first second segments scenes), ?_, ?_, ?_, ?_, ?_,
    fun _ _ _ => get?_settle_eq_some_iff⟩
  -- The receiver has been shown the frames of the segments and nothing of the leftover.
  · rw [hdone]
  · rw [List.length_map, List.length_range]
  · rw [hdone, ← hcut, List.length_append]
  · intro k frame hframe initial drawn
    -- Frame `k` is a recording that was painted, so its fills stand behind those it had in the
    -- beginning.
    rw [List.getElem?_map, Option.map_eq_some_iff] at hframe
    obtain ⟨j, hj, rfl⟩ := hframe
    obtain ⟨hk, rfl⟩ := List.getElem?_eq_some_iff.mp hj
    rw [List.getElem_range]
    exact Recording.paint_eq drawn initial
  · rw [hdone, ← hcut, leavesAll_append, settle_append]

end Loop

end Easel
