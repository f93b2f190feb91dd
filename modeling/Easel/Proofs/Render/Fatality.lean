import Easel.Proofs.Operation.Leaves
import Easel.Proofs.Render.Delivery

/-!
# A receiver that fails

A receiver may fail in some call, the `p`-th one say, and then the worker dies of the operation that
it has just applied. Up to that call the run is the run of a receiver that does not fail, and from
then on nothing is applied any more.

* `Operation.throughPresents` — the operations up to the `p`-th one that is ready, this one
  included;
* `Receiver.failingAt`, `Receiver.keep` — receivers that keep what they are shown, one of which
  fails;
* `Machine.Run.calm` — as long as the worker has not died, the run is one of the other receiver;
* `Machine.Fallen`, `Machine.Run.exists_fallen` — otherwise there is the one step that it has died
  in.
-/

namespace Easel

/-! ### Operations up to one that is ready -/

namespace Operation

/-- The operations up to the `p`-th one that presents, this one included; all of them if there are
fewer that do. They are what a worker can apply whose receiver fails in its `p`-th call. -/
def throughPresents : Nat → List Operation → List Operation
  | 0, _ => []
  | _ + 1, [] => []
  | p + 1, op :: rest => op :: throughPresents (if op.presents then p else p + 1) rest

/-- Of no operations there is no part but the empty one. -/
theorem throughPresents_nil (p : Nat) : throughPresents p [] = [] := by
  cases p <;> rfl

/-- Operations that are too few to end at are all taken, and the others are looked at from there,
with as many fewer frames to wait for. -/
theorem throughPresents_append {p : Nat} {before : List Operation} (h : before.countP presents < p)
    (later : List Operation) :
    throughPresents p (before ++ later) =
      before ++ throughPresents (p - before.countP presents) later := by
  induction before generalizing p with
  | nil => rfl
  | cons op rest ih =>
    cases p with
    | zero => exact absurd h (Nat.not_lt_zero _)
    | succ p =>
      rw [List.cons_append, List.cons_append, throughPresents]
      refine congrArg (op :: ·) ?_
      -- An operation that is ready is one less to wait for, on both sides.
      cases hop : op.presents with
      | true =>
        rw [List.countP_cons_of_pos hop] at h ⊢
        rw [Nat.add_sub_add_right]
        exact ih (Nat.lt_of_succ_lt_succ h)
      | false =>
        have hnot : ¬ op.presents = true := Bool.eq_false_iff.mp hop
        rw [List.countP_cons_of_neg hnot] at h ⊢
        exact ih h

/-- Operations that present too seldom are all taken. -/
theorem throughPresents_of_countP_lt {p : Nat} {ops : List Operation}
    (h : ops.countP presents < p) : throughPresents p ops = ops := by
  have happend := throughPresents_append h []
  rwa [throughPresents_nil, List.append_nil] at happend

/-- Of the operations taken, `p` present, or all that do if they are fewer. -/
theorem countP_throughPresents (p : Nat) (ops : List Operation) :
    (throughPresents p ops).countP presents = min p (ops.countP presents) := by
  induction ops generalizing p with
  | nil =>
    rw [throughPresents_nil]
    exact (Nat.min_zero p).symm
  | cons op rest ih =>
    cases p with
    | zero => exact (Nat.zero_min _).symm
    | succ p =>
      rw [throughPresents, List.countP_cons, List.countP_cons, ih]
      -- An operation that presents counts on both sides, and any other on neither.
      cases op.presents with
      | true => exact (Nat.add_min_add_right _ _ 1).symm
      | false => rfl

/-- The operation that is ready for the `p`-th time is the last one, whatever comes after it. -/
theorem throughPresents_append_cons {p : Nat} {before : List Operation} {op : Operation}
    (hop : op.presents = true) (h : before.countP presents + 1 = p) (later : List Operation) :
    throughPresents p (before ++ op :: later) = before ++ [op] := by
  have hleft : p - before.countP presents = 0 + 1 := by omega
  rw [throughPresents_append (by omega), hleft, throughPresents, if_pos hop, throughPresents]

end Operation

open Operation

/-! ### Receivers -/

namespace Receiver

variable {σ : Type}

/-- Keeps what it is shown, in the order in which it is shown. -/
def keep (shown : List σ) (frame : σ) : List σ := shown ++ [frame]

/-- The receiver that keeps what it is shown and fails in a call with a number, counted from one. It
is shown the frame it fails in, and keeps it too. -/
def failingAt (p : Nat) : Receiver σ (List σ) :=
  fun shown frame => ⟨keep shown frame, decide (shown.length + 1 ≠ p)⟩

/-- Keeping frames one after another adds them at the end. -/
theorem foldl_keep (shown frames : List σ) : frames.foldl keep shown = shown ++ frames :=
  List.foldl_append_eq_append.trans (congrArg (shown ++ ·) (List.flatMap_singleton' frames))

end Receiver

namespace Loop

variable {σ : Type} {p : Nat} {loop : Loop σ (List σ)} {result : Applied σ}

/-- In a call that it survives a receiver is like one that does not fail. Whether it has survived is
told by the worker, which would be dead otherwise. -/
theorem conclude_failingAt_of_lives
    (h : (loop.conclude (.failingAt p) result).worker ≠ .dead) :
    loop.conclude (.failingAt p) result = loop.conclude (.steady Receiver.keep) result := by
  cases hready : result.ready with
  | false => rw [conclude_of_not_ready _ _ hready, conclude_of_not_ready _ _ hready]
  | true =>
    rw [conclude_steady_of_ready _ _ hready]
    unfold conclude at h ⊢
    rw [if_pos hready] at h ⊢
    dsimp only [Receiver.failingAt] at h ⊢
    split at h
    · next hsurvives => rw [if_pos hsurvives]
    · exact absurd rfl h

/-- The call that a receiver fails in: the operation was ready, it is the `p`-th frame, and the loop
stops right there, with the frame shown but not counted and the surfaces not exchanged. -/
theorem conclude_failingAt_of_dies (halive : loop.worker = .alive)
    (h : (loop.conclude (.failingAt p) result).worker = .dead) :
    result.ready = true ∧ loop.receiver.length + 1 = p ∧
      loop.conclude (.failingAt p) result =
        { loop with
          worker := .dead
          drawing := result.surface
          receiver := loop.receiver ++ [result.surface]
          tally := ⟨loop.tally.applied + 1, loop.tally.presented⟩ } := by
  cases hready : result.ready with
  | false =>
    rw [conclude_of_not_ready _ _ hready, halive] at h
    exact absurd h nofun
  | true =>
    unfold conclude at h ⊢
    rw [if_pos hready] at h ⊢
    dsimp only [Receiver.failingAt] at h ⊢
    split at h
    -- If the receiver survives, the worker is what it was before, and that is alive.
    · rw [halive] at h
      exact absurd h nofun
    · next hfails =>
      rw [if_neg hfails]
      refine ⟨rfl, ?_, rfl⟩
      simpa using hfails

/-- A receiver that has not failed has not been called `p` times. -/
theorem length_receiver_conclude_failingAt
    (h : (loop.conclude (.failingAt p) result).worker ≠ .dead) (hlt : loop.receiver.length < p) :
    (loop.conclude (.failingAt p) result).receiver.length < p := by
  cases hready : result.ready with
  | false =>
    rw [conclude_of_not_ready _ _ hready]
    exact hlt
  | true =>
    unfold conclude at h ⊢
    rw [if_pos hready] at h ⊢
    dsimp only [Receiver.failingAt] at h ⊢
    split at h
    · next hsurvives =>
      -- This call is not the `p`-th one either, and there is one frame more.
      have hne : loop.receiver.length + 1 ≠ p := of_decide_eq_true hsurvives
      rw [if_pos hsurvives, Receiver.keep, List.length_append, List.length_singleton]
      exact Nat.lt_of_le_of_ne hlt hne
    · exact absurd rfl h

section Results

variable {ρ : Type} [Surface σ] (receive : Receiver σ ρ)

/-- The results of operations in two parts are those of the first part, and then those of the second
from where the first has led to. -/
theorem results_append (loop : Loop σ ρ) (scenes : Scenes) (ops later : List Operation) :
    loop.results receive scenes (ops ++ later) =
      loop.results receive scenes ops ++
        (loop.handleAll receive scenes ops).1.results receive
          (loop.handleAll receive scenes ops).2 later := by
  induction ops generalizing loop scenes with
  | nil => rfl
  | cons op rest ih => rw [List.cons_append, results, ih, handleAll_cons, results, List.cons_append]

/-- As many results are ready as operations present, since presenting does not depend on the
surface. -/
theorem countP_ready_results (loop : Loop σ ρ) (scenes : Scenes) (ops : List Operation) :
    (loop.results receive scenes ops).countP (·.2.ready) = ops.countP presents := by
  induction ops generalizing loop scenes with
  | nil => rfl
  | cons op rest ih =>
    -- Readiness is a matter of the operation, whatever the scenes and the surface.
    have hready : (op.apply scenes loop.drawing).ready = op.presents :=
      (ready_scenes_apply op scenes loop.drawing).1
    rw [results, List.countP_cons, List.countP_cons, ih, hready]

/-- The receiver is shown the results that are ready, each once and in order. -/
theorem receiver_handleAll (taken : ρ → σ → ρ) (loop : Loop σ ρ) (scenes : Scenes)
    (ops : List Operation) :
    (loop.handleAll (.steady taken) scenes ops).1.receiver =
      (((loop.results (.steady taken) scenes ops).filter (·.2.ready)).map (·.2.surface)).foldl taken
        loop.receiver := by
  induction ops generalizing loop scenes with
  | nil => rfl
  | cons op rest ih =>
    rw [handleAll_cons, ih, results, conclude_steady_receiver, List.filter_cons]
    cases (op.apply scenes loop.drawing).ready <;> rfl

/-- A receiver that keeps frames has got one more for each operation that presents. -/
theorem length_receiver_handleAll (loop : Loop σ (List σ)) (scenes : Scenes)
    (ops : List Operation) :
    (loop.handleAll (.steady Receiver.keep) scenes ops).1.receiver.length =
      loop.receiver.length + ops.countP presents := by
  rw [receiver_handleAll, Receiver.foldl_keep, List.length_append, List.length_map,
    ← List.countP_eq_length_filter, countP_ready_results]

/-- All moves are carried out, and nothing else happens to the scenes, whatever the receiver
does. -/
theorem scenes_handleAll (loop : Loop σ ρ) (scenes : Scenes) (ops : List Operation) :
    (loop.handleAll receive scenes ops).2 = settle (leavesAll ops) scenes := by
  induction ops generalizing loop scenes with
  | nil => rfl
  | cons op rest ih =>
    -- The receiver gets the surface only, so the scenes are what the leaves make of them.
    have hscenes : (op.apply scenes loop.drawing).scenes = settle op.leaves scenes :=
      (ready_scenes_apply op scenes loop.drawing).2
    rw [handleAll_cons, ih, hscenes, leavesAll, settle_append]

end Results

end Loop

namespace Machine

variable {ι σ ρ : Type} [Surface σ]

/-! ### Steps -/

omit [Surface σ] in
/-- Only a live worker has something in its hand. -/
theorem Ordered.inHand_eq_none {m : Machine σ ρ} {actions : List (Action ι σ)}
    (h : Ordered actions m) (hgone : m.loop.worker ≠ .alive) : m.inHand = none := by
  by_contra hhand
  exact hgone (h.alive hhand)

/-- Once the worker is gone, everything but the queue and the lifecycle stays as it is: what the
worker alone can do is not done any more. -/
theorem Step.of_gone {receive : Receiver σ ρ} {m next : Machine σ ρ} {action : Action ι σ}
    (hstep : Step receive m action next) (hgone : m.loop.worker ≠ .alive)
    (hidle : m.inHand = none) :
    next.loop = { m.loop with lifecycle := next.loop.lifecycle, queue := next.loop.queue } ∧
      next.scenes = m.scenes ∧ next.inHand = none ∧ action.applied? = none := by
  cases hstep with
  | post poster op =>
    refine ⟨?_, rfl, hidle, rfl⟩
    have hpost := Loop.post_eq m.loop op
    rwa [Loop.worker_post] at hpost
  | announce holding => exact ⟨rfl, rfl, hidle, rfl⟩
  | halt announced => exact ⟨rfl, rfl, hidle, rfl⟩
  | pull alive idle hnext => exact absurd alive hgone
  | apply hhand => exact absurd (hhand.symm.trans hidle) nofun
  | leave hhand => exact absurd (hhand.symm.trans hidle) nofun
  | collect waiting gone => exact ⟨rfl, rfl, hidle, rfl⟩

/-- The counts that the owner collects are those that joining the worker gives. -/
theorem Step.tally_eq {receive : Receiver σ ρ} {m next : Machine σ ρ} {tally : Tally}
    (hstep : Step receive m (.collect tally : Action ι σ) next) : tally = m.loop.join.1 := by
  cases hstep with
  | collect waiting gone => rfl

/-- Once the worker is gone nothing is applied any more, however long the run goes on. -/
theorem Run.of_gone {receive : Receiver σ ρ} {m last : Machine σ ρ} {actions : List (Action ι σ)}
    (h : Run receive m actions last) (hgone : m.loop.worker ≠ .alive) (hidle : m.inHand = none) :
    applications actions = [] ∧ last.loop.worker = m.loop.worker ∧ last.scenes = m.scenes ∧
      last.inHand = none := by
  induction h with
  | nil => exact ⟨rfl, rfl, rfl, hidle⟩
  | concat _ hstep ih =>
    obtain ⟨happlications, hworker, hscenes, hhand⟩ := ih
    obtain ⟨hloop, hafter, hnext, hnone⟩ := hstep.of_gone (hworker ▸ hgone) hhand
    refine ⟨?_, ?_, hafter.trans hscenes, hnext⟩
    · rw [applications_of_not_applied hnone, happlications]
    · rw [hloop]
      exact hworker

section Failing

variable {p : Nat} {origin m next : Machine σ (List σ)} {actions : List (Action ι σ)}
  {action : Action ι σ}

/-- A step that nobody dies in might have been made with a receiver that does not fail. Only
applying calls the receiver, so it is the only step to compare. -/
theorem Step.calm (hstep : Step (.failingAt p) m action next) (hlives : next.loop.worker ≠ .dead) :
    Step (.steady Receiver.keep) m action next := by
  cases hstep with
  | post poster op => exact .post m poster op
  | announce holding => exact .announce m holding
  | halt announced => exact .halt m announced
  | pull alive idle hnext => exact .pull m alive idle hnext
  | @apply op hhand =>
    rw [Loop.handle_apply] at hlives
    have hsame : m.loop.handle (.failingAt p) m.scenes (.apply op) =
        m.loop.handle (.steady Receiver.keep) m.scenes (.apply op) := by
      rw [Loop.handle_apply, Loop.handle_apply, Loop.conclude_failingAt_of_lives hlives]
    rw [hsame]
    exact .apply m hhand
  | leave hhand => exact .leave m hhand
  | collect waiting gone => exact .collect m waiting gone

/-- The step that a worker dies in: it applies an operation that makes the `p`-th frame, and the
machine after it is known in every part. -/
theorem Step.exists_of_dies (hstep : Step (.failingAt p) m action next)
    (hordered : Ordered actions m) (hlives : m.loop.worker ≠ .dead)
    (hdies : next.loop.worker = .dead) :
    ∃ op, m.inHand = some (.apply op) ∧ action = .apply op (op.apply m.scenes m.loop.drawing) ∧
      (op.apply m.scenes m.loop.drawing).ready = true ∧ m.loop.receiver.length + 1 = p ∧
      next = { m with
        loop := { m.loop with
          worker := .dead
          drawing := (op.apply m.scenes m.loop.drawing).surface
          receiver := m.loop.receiver ++ [(op.apply m.scenes m.loop.drawing).surface]
          tally := ⟨m.loop.tally.applied + 1, m.loop.tally.presented⟩ }
        scenes := (op.apply m.scenes m.loop.drawing).scenes
        inHand := none } := by
  -- Every other step leaves the worker as it is, or lets it leave, which is not dying.
  cases hstep with
  | post poster op =>
    rw [Loop.worker_post] at hdies
    exact absurd hdies hlives
  | announce holding => exact absurd hdies hlives
  | halt announced => exact absurd hdies hlives
  | pull alive idle hnext => exact absurd hdies hlives
  | @apply op hhand =>
    have halive : m.loop.worker = .alive :=
      hordered.alive (by rw [hhand]; exact Option.some_ne_none _)
    rw [Loop.handle_apply] at hdies
    obtain ⟨hready, hlast, hconclude⟩ := Loop.conclude_failingAt_of_dies halive hdies
    refine ⟨op, hhand, rfl, hready, hlast, ?_⟩
    rw [Loop.handle_apply, hconclude]
  | leave hhand => exact absurd hdies Worker.noConfusion
  | collect waiting gone => exact absurd hdies hlives

/-! ### Runs -/

/-- A worker that is dead stays dead. -/
theorem Step.worker_of_dead (hstep : Step (.failingAt p) m action next)
    (hordered : Ordered actions m) (hdead : m.loop.worker = .dead) : next.loop.worker = .dead := by
  have hgone : m.loop.worker ≠ .alive := hdead ▸ Worker.noConfusion
  rw [(hstep.of_gone hgone (hordered.inHand_eq_none hgone)).1]
  exact hdead

section Living

variable {first second : σ} {scenes : Scenes}

/-- **As long as nobody has died, the run is one of a receiver that does not fail**, so that all
that is known of such runs holds for it. -/
theorem Run.calm (h : Run (.failingAt p) (start first second [] scenes) actions m)
    (hlives : m.loop.worker ≠ .dead) :
    Run (.steady Receiver.keep) (start first second [] scenes) actions m := by
  induction h with
  | nil => exact .nil _
  | concat hrun hstep ih =>
    -- Nobody comes back to life, so nobody was dead before this step either.
    have hbefore := mt (hstep.worker_of_dead hrun.ordered) hlives
    exact (ih hbefore).concat (hstep.calm hlives)

/-- The call that the receiver fails in has not come yet, as long as the worker has not died. -/
theorem Run.length_receiver_lt (hp : 0 < p)
    (h : Run (.failingAt p) (start first second [] scenes) actions m)
    (hlives : m.loop.worker ≠ .dead) : m.loop.receiver.length < p := by
  induction h with
  | nil => exact hp
  | concat hrun hstep ih =>
    -- Posting and applying are the steps that change the loop as a whole; the others leave the
    -- receiver as it is.
    have hlt := ih (mt (hstep.worker_of_dead hrun.ordered) hlives)
    cases hstep with
    | post poster op =>
      rw [Loop.post_eq]
      exact hlt
    | @apply op hhand =>
      rw [Loop.handle_apply] at hlives ⊢
      exact Loop.length_receiver_conclude_failingAt hlives hlt
    | _ => exact hlt

end Living

/-- A machine whose worker has died of an operation, and what there was right before. The run up to
the eve is calm, one operation follows, and from there on the machine changes in its queue, its
lifecycle and its owner only. -/
structure Fallen (p : Nat) (origin : Machine σ (List σ)) (actions : List (Action ι σ))
    (m : Machine σ (List σ)) (before : List (Action ι σ)) (eve : Machine σ (List σ))
    (op : Operation) : Prop where
  calm : Run (.steady Receiver.keep) origin before eve
  inHand : eve.inHand = some (.apply op)
  presents : op.presents = true
  last : eve.loop.receiver.length + 1 = p
  applications : applications actions =
    applications before ++ [(op, op.apply eve.scenes eve.loop.drawing)]
  /-- The operation has been applied and shown, but the surfaces have not changed places. -/
  loop : m.loop = { eve.loop with
    lifecycle := m.loop.lifecycle
    queue := m.loop.queue
    worker := .dead
    drawing := (op.apply eve.scenes eve.loop.drawing).surface
    receiver := eve.loop.receiver ++ [(op.apply eve.scenes eve.loop.drawing).surface]
    tally := ⟨eve.loop.tally.applied + 1, eve.loop.tally.presented⟩ }
  scenes : m.scenes = (op.apply eve.scenes eve.loop.drawing).scenes
  idle : m.inHand = none
  /-- The counts of a worker that has died are lost. -/
  collected : ∀ tally, Action.collect tally ∈ actions → tally = .zero

section Fallen

variable {before : List (Action ι σ)} {eve : Machine σ (List σ)} {op : Operation}

/-- Whatever happens then, the worker stays as it has died, and what the owner collects are
zeros. -/
theorem Fallen.step (h : Fallen p origin actions m before eve op)
    (hstep : Step (.failingAt p) m action next) :
    Fallen p origin (actions ++ [action]) next before eve op := by
  have hdead : m.loop.worker = .dead := by rw [h.loop]
  obtain ⟨hloop, hscenes, hidle, hnone⟩ := hstep.of_gone (hdead ▸ Worker.noConfusion) h.idle
  refine ⟨h.calm, h.inHand, h.presents, h.last, ?_, ?_, hscenes.trans h.scenes, hidle,
    fun tally hmem => ?_⟩
  · rw [applications_of_not_applied hnone]
    exact h.applications
  · rw [hloop, h.loop]
  · rcases List.mem_append.mp hmem with hmem | hmem
    · exact h.collected tally hmem
    · obtain rfl := List.mem_singleton.mp hmem
      rw [hstep.tally_eq, Loop.join, hdead]

end Fallen

section Living

variable {first second : σ} {scenes : Scenes}

/-- **Who is dead has died in one step**, and up to then the run is one of a receiver that does not
fail. -/
theorem Run.exists_fallen (h : Run (.failingAt p) (start first second [] scenes) actions m)
    (hdead : m.loop.worker = .dead) :
    ∃ (before : List (Action ι σ)) (eve : Machine σ (List σ)) (op : Operation),
      Fallen p (start first second [] scenes) actions m before eve op := by
  induction h with
  | nil => exact absurd hdead nofun
  | @concat eve next actions action hrun hstep ih =>
    -- The worker was dead before, and stays as it has died, or it dies in this step.
    by_cases hbefore : eve.loop.worker = .dead
    · obtain ⟨before, first, op, hfallen⟩ := ih hbefore
      exact ⟨before, first, op, hfallen.step hstep⟩
    · obtain ⟨op, hhand, rfl, hready, hlast, rfl⟩ :=
        hstep.exists_of_dies hrun.ordered hbefore hdead
      have hcalm := hrun.calm hbefore
      have halive : eve.loop.worker = .alive :=
        hrun.ordered.alive (by rw [hhand]; exact Option.some_ne_none _)
      refine ⟨actions, eve, op, hcalm, hhand, ?_, hlast, ?_, rfl, rfl, rfl, fun tally hmem => ?_⟩
      · rw [← hready]
        exact (ready_scenes_apply op eve.scenes eve.loop.drawing).1.symm
      · rw [applications_concat]
        rfl
      · -- Nobody has been collected while the worker was alive.
        rcases List.mem_append.mp hmem with hmem | hmem
        · have hfinished := (hcalm.faithful.collected tally hmem).2
          exact absurd (halive.symm.trans hfinished) nofun
        · exact absurd (List.mem_singleton.mp hmem) nofun

end Living

end Failing

end Machine

end Easel
