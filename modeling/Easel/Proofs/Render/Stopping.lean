import Easel.Proofs.Render.Machine
import Mathlib.Data.List.Basic

/-!
# Stopping a loop

The request to halt stands in the queue behind what was posted before it and in front of what is
posted later, and it is the last message that the worker takes.

* `Machine.Ordered.appliedOps_prefix` — what has been applied is an initial part of what was
  accepted, that is, posted before the request to halt;
* `Machine.Ordered.appliedOps_eq` — a worker that has left has applied all of it;
* `Machine.Run.canStop` — from every state that a run can reach, the owner can still stop the loop.
-/

namespace Easel

section Record

variable {ι σ : Type}

/-- The operations that the worker has applied, in order. -/
def appliedOps (actions : List (Action ι σ)) : List Operation :=
  (applications actions).map Prod.fst

/-- What has been posted is what was accepted, and from the request to halt on the rest: the
messages of a run are divided there, if the request is among them. -/
theorem pushed_eq {actions : List (Action ι σ)} {halted : Bool} (h : Halted actions halted) :
    pushed actions = ((accepted actions).map Prod.snd).map .apply ∨
      ∃ later, pushed actions = ((accepted actions).map Prod.snd).map .apply ++ .halt :: later := by
  cases halted with
  | false =>
    refine Or.inl ?_
    rw [pushed_of_halt_not_mem h, List.map_map]
    rfl
  | true =>
    obtain ⟨before, after, rfl, hbefore, -⟩ := h
    refine Or.inr ⟨pushed after, ?_⟩
    rw [pushed_append, pushed_of_halt_not_mem hbefore, accepted_append_halt hbefore, List.map_map]
    rfl

end Record

namespace Machine

variable {ι σ ρ : Type} [Surface σ]

/-! ### Order, read off the record -/

section Order

variable {actions : List (Action ι σ)} {m : Machine σ ρ}

/-- The request to halt is no operation. -/
private theorem halt_notMem_map_apply (ops : List Operation) :
    Message.halt ∉ ops.map Message.apply := by
  intro h
  obtain ⟨op, -, hop⟩ := List.mem_map.mp h
  exact Message.noConfusion hop

/-- An initial part of a list that a certain item does not occur in ends before that item. -/
private theorem prefix_of_notMem {α : Type} {l before after : List α} {a : α} (ha : a ∉ l)
    (h : l <+: before ++ a :: after) : l <+: before := by
  have hbefore : before <+: before ++ a :: after := List.prefix_append _ _
  -- If it were longer than what stands before the item, it would reach up to the item.
  rcases Nat.lt_or_ge before.length l.length with hlt | hle
  · have hmiddle : before ++ [a] <+: before ++ a :: after := ⟨after, by simp⟩
    have hl : before ++ [a] <+: l := by
      refine List.prefix_of_prefix_length_le hmiddle h ?_
      rwa [List.length_append, List.length_singleton]
    exact absurd (hl.mem (List.mem_append_right _ (List.mem_singleton.mpr rfl))) ha
  · exact List.prefix_of_prefix_length_le h hbefore hle

omit [Surface σ] in
/-- What was posted begins with what has been applied. Then there is the request to halt that ended
the worker, what is in its hand, and the queue. -/
theorem Ordered.pushed_eq_appliedOps (h : Ordered actions m) :
    pushed actions = (appliedOps actions).map .apply ++
      (m.loop.worker.farewell ++ m.inHand.toList ++ m.loop.queue.items) := by
  rw [h.fifo, h.left, appliedOps, List.map_map]
  simp only [List.append_assoc]
  rfl

omit [Surface σ] in
/-- **What has been applied is an initial part of what was accepted**: nothing is left out, nothing
is taken twice, and the order is that of posting. -/
theorem Ordered.appliedOps_prefix (h : Ordered actions m) :
    appliedOps actions <+: (accepted actions).map Prod.snd := by
  have hinjective : Function.Injective Message.apply := fun _ _ => Message.apply.inj
  have happlied : (appliedOps actions).map .apply <+: pushed actions := by
    rw [h.pushed_eq_appliedOps]
    exact List.prefix_append _ _
  refine (List.prefix_map_iff_of_injective hinjective).mp ?_
  rcases pushed_eq h.halted with hpushed | ⟨later, hpushed⟩
  -- If there is a request to halt, what has been applied ends before it, as it is no operation.
  · rwa [hpushed] at happlied
  · rw [hpushed] at happlied
    exact prefix_of_notMem (halt_notMem_map_apply _) happlied

omit [Surface σ] in
/-- **A worker that has left has applied all that was accepted**, since it leaves at the request to
halt, and everything accepted was in front of that. -/
theorem Ordered.appliedOps_eq (h : Ordered actions m) (hworker : m.loop.worker = .finished) :
    appliedOps actions = (accepted actions).map Prod.snd := by
  have haccepted : ((accepted actions).map Prod.snd).map .apply <+: pushed actions := by
    rcases pushed_eq h.halted with hpushed | ⟨later, hpushed⟩
    · exact hpushed ▸ List.prefix_rfl
    · rw [hpushed]
      exact List.prefix_append _ _
  rw [h.pushed_eq_appliedOps, hworker, Worker.farewell, List.append_assoc,
    List.singleton_append] at haccepted
  -- Nothing that was accepted can stand behind the request to halt.
  have hback : (accepted actions).map Prod.snd <+: appliedOps actions :=
    (List.prefix_map_iff_of_injective fun _ _ => Message.apply.inj).mp
      (prefix_of_notMem (halt_notMem_map_apply _) haccepted)
  exact h.appliedOps_prefix.eq_of_length_le hback.length_le

end Order

/-! ### Stopping -/

/-- The owner can stop the loop from here on without anyone posting an operation, and whatever the
receiver does. -/
def CanStop (ι : Type) (receive : Receiver σ ρ) (m : Machine σ ρ) : Prop :=
  ∃ (later : List (Action ι σ)) (last : Machine σ ρ), Run receive m later last ∧
    (∀ action ∈ later, action.isPost = false) ∧ last.owner = .released

/-- If the loop can be stopped after a step, it can be stopped before it. -/
theorem CanStop.of_step {receive : Receiver σ ρ} {m next : Machine σ ρ} {action : Action ι σ}
    (h : CanStop ι receive next) (hstep : Step receive m action next)
    (hpost : action.isPost = false) : CanStop ι receive m := by
  obtain ⟨later, last, hrun, hposts, howner⟩ := h
  refine ⟨[action] ++ later, last, hstep.run.append hrun, fun earlier hmem => ?_, howner⟩
  rcases List.mem_append.mp hmem with hmem | hmem
  · rw [List.mem_singleton.mp hmem]
    exact hpost
  · exact hposts earlier hmem

section Stopping

variable {receive : Receiver σ ρ} {first second : σ} {receiver : ρ} {scenes : Scenes}
  {actions : List (Action ι σ)} {m : Machine σ ρ}

omit [Surface σ] in
/-- A live worker with empty hands finds something to take once the request to halt is posted: the
request itself is still in the queue, or it would have been dealt with. -/
theorem Ordered.items_ne_nil (h : Ordered actions m) (hhalted : m.owner.hasHalted = true)
    (halive : m.loop.worker = .alive) (hidle : m.inHand = none) : m.loop.queue.items ≠ [] := by
  intro hempty
  have hpushed := h.pushed_eq_appliedOps
  rw [halive, hidle, hempty, Worker.farewell, Option.toList_none, List.append_nil,
    List.append_nil, List.append_nil] at hpushed
  obtain ⟨before, after, hactions, -⟩ := hhalted ▸ h.halted
  -- Otherwise everything posted has been applied, and the request to halt would be an operation.
  refine halt_notMem_map_apply (appliedOps actions) ?_
  rw [← hpushed, hactions, pushed]
  exact List.mem_filterMap.mpr ⟨.halt, List.mem_append_right _ List.mem_cons_self, rfl⟩

/-- An owner that waits for a worker that is gone can collect it. -/
theorem canStop_of_gone (hwaiting : m.owner = .waiting) (hgone : m.loop.worker ≠ .alive) :
    CanStop ι receive m := by
  have hstep : Step receive m (.collect _ : Action ι σ) _ := .collect m hwaiting hgone
  refine ⟨_, _, hstep.run, fun action hmem => ?_, rfl⟩
  rw [List.mem_singleton.mp hmem]
  rfl

/-- Once the request to halt is posted, the worker comes to it, or dies on the way. -/
theorem Run.canStop_of_waiting (h : Run receive (start first second receiver scenes) actions m)
    (hwaiting : m.owner = .waiting) : CanStop ι receive m := by
  -- With each step there is less in the queue and in the worker's hand.
  induction hn : 2 * m.loop.queue.items.length + m.inHand.toList.length
    using Nat.strong_induction_on generalizing actions m with
  | _ n ih =>
    cases hworker : m.loop.worker with
    | dead => exact canStop_of_gone hwaiting (hworker ▸ Worker.noConfusion)
    | finished => exact canStop_of_gone hwaiting (hworker ▸ Worker.noConfusion)
    | alive =>
      cases hhand : m.inHand with
      | some message =>
        cases message with
        | apply op =>
          have hstep : Step receive m (.apply op _ : Action ι σ) _ := .apply m hhand
          refine CanStop.of_step (ih _ ?_ (h.concat hstep) hwaiting rfl) hstep rfl
          rw [← hn, hhand, Loop.handle_apply]
          simp
        | halt =>
          have hstep : Step receive m (.leave : Action ι σ) _ := .leave m hhand
          refine CanStop.of_step ?_ hstep rfl
          exact canStop_of_gone hwaiting Worker.noConfusion
      | none =>
        have hitems := h.ordered.items_ne_nil (by rw [hwaiting]; rfl) hworker hhand
        obtain ⟨message, rest, hqueue⟩ := List.exists_cons_of_ne_nil hitems
        have hnext : m.loop.queue.pull? = some (message, ⟨rest⟩) :=
          Queue.pull?_eq_some_iff.mpr hqueue
        have hstep : Step receive m (.pull message : Action ι σ) _ := .pull m hworker hhand hnext
        refine CanStop.of_step (ih _ ?_ (h.concat hstep) hwaiting rfl) hstep rfl
        rw [← hn, hqueue, hhand]
        simp
        omega

/-- **The owner can stop the loop from wherever a run has led to.** It announces the stop and posts
the request to halt, as far as it has not done so, and waits for the worker. -/
theorem Run.canStop (h : Run receive (start first second receiver scenes) actions m) :
    CanStop ι receive m := by
  have hhalt : ∀ {actions : List (Action ι σ)} {m : Machine σ ρ},
      Run receive (start first second receiver scenes) actions m → m.owner = .announced →
        CanStop ι receive m := by
    intro actions m h howner
    have hstep : Step receive m (.halt : Action ι σ) _ := .halt m howner
    exact CanStop.of_step ((h.concat hstep).canStop_of_waiting rfl) hstep rfl
  cases howner : m.owner with
  | holding =>
    have hstep : Step receive m (.announce : Action ι σ) _ := .announce m howner
    exact CanStop.of_step (hhalt (h.concat hstep) rfl) hstep rfl
  | announced => exact hhalt h howner
  | waiting => exact h.canStop_of_waiting howner
  | released => exact ⟨[], m, .nil m, fun _ hmem => absurd hmem List.not_mem_nil, howner⟩

end Stopping

end Machine

end Easel
