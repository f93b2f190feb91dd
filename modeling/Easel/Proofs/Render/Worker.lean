import Easel.Render.Loop

/-!
# The work of a loop

What the worker does with one message after another, apart from where the messages come from.

* `Loop.conclude` — what the worker does once it has applied an operation: it counts, and shows the
  surface if that is ready;
* `Loop.handleAll` — operations handled one after another;
* `Loop.steps_eq_handleAll` — taking messages from the queue handles them in the order of the queue;
* `Receiver.steady` — the receivers that never fail.
-/

namespace Easel

/-- A receiver that never fails, given by what a frame does to its state. -/
def Receiver.steady {σ ρ : Type} (taken : ρ → σ → ρ) : Receiver σ ρ :=
  fun receiver frame => ⟨taken receiver frame, true⟩

/-- The request to halt, if it is what has ended a worker. -/
def Worker.farewell : Worker → List Message
  | .finished => [.halt]
  | .alive | .dead => []

namespace Loop

variable {σ ρ : Type}

/-- The loop after its worker has applied an operation with the given result. If the surface is
ready, it is shown: a receiver that survives gets the surfaces swapped, one that fails takes the
worker with it. -/
def conclude (receive : Receiver σ ρ) (loop : Loop σ ρ) (result : Applied σ) : Loop σ ρ :=
  if result.ready then
    let shown := receive loop.receiver result.surface
    if shown.survived then
      { loop with
        drawing := loop.standby
        standby := result.surface
        receiver := shown.receiver
        tally := ⟨loop.tally.applied + 1, loop.tally.presented + 1⟩ }
    else
      { loop with
        worker := .dead
        drawing := result.surface
        receiver := shown.receiver
        tally := ⟨loop.tally.applied + 1, loop.tally.presented⟩ }
  else
    { loop with
      drawing := result.surface
      tally := ⟨loop.tally.applied + 1, loop.tally.presented⟩ }

section Conclude

variable (receive : Receiver σ ρ) (loop : Loop σ ρ) (result : Applied σ)

/-- What the worker concludes does not concern the queue. -/
@[simp] theorem conclude_queue : (loop.conclude receive result).queue = loop.queue := by
  unfold conclude
  split
  · dsimp only
    split <;> rfl
  · rfl

/-- The worker concludes the same whatever the queue is. -/
theorem conclude_with_queue (queue : Queue Message) :
    { loop with queue }.conclude receive result = { loop.conclude receive result with queue } := by
  unfold conclude
  split
  · dsimp only
    split <;> rfl
  · rfl

/-- The worker concludes the same whatever the surface under way was, as the result has its own. -/
theorem conclude_with_drawing (drawing : σ) :
    { loop with drawing }.conclude receive result = loop.conclude receive result := by
  unfold conclude
  split
  · dsimp only
  · rfl

/-- What the worker concludes does not concern the lifecycle. -/
@[simp] theorem conclude_lifecycle :
    (loop.conclude receive result).lifecycle = loop.lifecycle := by
  unfold conclude
  split
  · dsimp only
    split <;> rfl
  · rfl

/-- A worker lives on, unless its receiver fails. There is no third way, and in particular it does
not leave. -/
theorem conclude_worker : (loop.conclude receive result).worker = loop.worker ∨
    (loop.conclude receive result).worker = .dead := by
  unfold conclude
  split
  · dsimp only
    split
    · -- The receiver has survived.
      exact Or.inl rfl
    · exact Or.inr rfl
  · exact Or.inl rfl

/-- A worker that has not left does not leave by concluding, though it may die. -/
theorem conclude_worker_farewell {loop : Loop σ ρ} (h : loop.worker.farewell = []) :
    (loop.conclude receive result).worker.farewell = [] := by
  unfold conclude
  split
  · dsimp only
    split
    · exact h
    · rfl
  · exact h

end Conclude

/-- A posted operation stands at the end of the queue, unless it is an empty batch. -/
theorem items_post (loop : Loop σ ρ) (op : Operation) :
    (loop.post op).queue.items =
      loop.queue.items ++ if op = .batch [] then [] else [.apply op] := by
  cases op with
  | batch ops =>
    cases ops with
    -- An empty batch is not queued.
    | nil => rw [if_pos rfl, List.append_nil, post]
    | cons op rest => rw [if_neg nofun]; rfl
  | _ => rw [if_neg nofun]; rfl

/-- Posting changes the queue only. The statement leaves room for lifecycle and worker, which have
their own lemmas below. -/
theorem post_eq (loop : Loop σ ρ) (op : Operation) : loop.post op =
    { loop with
      lifecycle := (loop.post op).lifecycle
      queue := (loop.post op).queue
      worker := (loop.post op).worker } := by
  rw [post.eq_def]
  split <;> rfl

/-- Announcing the stop leaves the queue as it is. -/
@[simp] theorem items_announceStop (loop : Loop σ ρ) :
    loop.announceStop.queue.items = loop.queue.items := rfl

/-- The request to halt stands at the end of the queue. -/
@[simp] theorem items_postHalt (loop : Loop σ ρ) :
    loop.postHalt.queue.items = loop.queue.items ++ [.halt] := rfl

/-- Joining the worker leaves the queue as it is. -/
@[simp] theorem items_join (loop : Loop σ ρ) : loop.join.2.queue.items = loop.queue.items := rfl

/-- Announcing the stop does nothing to the worker. -/
@[simp] theorem worker_announceStop (loop : Loop σ ρ) :
    loop.announceStop.worker = loop.worker := rfl

/-- Posting the request to halt does nothing to the worker. -/
@[simp] theorem worker_postHalt (loop : Loop σ ρ) : loop.postHalt.worker = loop.worker := rfl

/-- Joining the worker leaves it what it was. -/
@[simp] theorem worker_join (loop : Loop σ ρ) : loop.join.2.worker = loop.worker := rfl

/-- Posting does not concern the lifecycle. -/
@[simp] theorem lifecycle_post (loop : Loop σ ρ) (op : Operation) :
    (loop.post op).lifecycle = loop.lifecycle := by
  rw [post.eq_def]
  split <;> rfl

/-- Posting does nothing to the worker. -/
@[simp] theorem worker_post (loop : Loop σ ρ) (op : Operation) :
    (loop.post op).worker = loop.worker := by
  rw [post.eq_def]
  split <;> rfl

section Steady

variable (taken : ρ → σ → ρ) (loop : Loop σ ρ) (result : Applied σ)

/-- A frame that is ready is shown and counted, and the surfaces change places. -/
theorem conclude_steady_of_ready {result : Applied σ} (h : result.ready = true) :
    loop.conclude (.steady taken) result =
      { loop with
        drawing := loop.standby
        standby := result.surface
        receiver := taken loop.receiver result.surface
        tally := ⟨loop.tally.applied + 1, loop.tally.presented + 1⟩ } := by
  rw [conclude, if_pos h]
  rfl

/-- Where no frame is ready, the receiver is not called, and it does not matter which one it is. -/
theorem conclude_of_not_ready {result : Applied σ} (receive : Receiver σ ρ)
    (h : result.ready = false) :
    loop.conclude receive result =
      { loop with
        drawing := result.surface
        tally := ⟨loop.tally.applied + 1, loop.tally.presented⟩ } := by
  rw [conclude, if_neg (by rw [h]; exact Bool.false_ne_true)]

/-- With a receiver that never fails the worker stays what it is. -/
@[simp] theorem conclude_steady_worker :
    (loop.conclude (.steady taken) result).worker = loop.worker := by
  cases h : result.ready with
  | true => rw [conclude_steady_of_ready taken loop h]
  | false => rw [conclude_of_not_ready loop _ h]

/-- The counts go up by one operation, and by one frame if it is ready. -/
theorem conclude_steady_tally : (loop.conclude (.steady taken) result).tally =
    ⟨loop.tally.applied + 1, loop.tally.presented + if result.ready = true then 1 else 0⟩ := by
  cases h : result.ready with
  | true => rw [conclude_steady_of_ready _ _ h, if_pos rfl]
  | false =>
    rw [conclude_of_not_ready _ _ h, if_neg Bool.false_ne_true]
    rfl

/-- The receiver is shown the surface if it is ready, and else is left alone. -/
theorem conclude_steady_receiver : (loop.conclude (.steady taken) result).receiver =
    if result.ready = true then taken loop.receiver result.surface else loop.receiver := by
  cases h : result.ready with
  | true => rw [conclude_steady_of_ready _ _ h, if_pos rfl]
  | false => rw [conclude_of_not_ready _ _ h, if_neg Bool.false_ne_true]

/-- What is concluded for a receiver that never fails depends on surfaces, receiver and counts only.
The rest may be exchanged before or after. -/
theorem conclude_steady_with (lifecycle : Lifecycle) (queue : Queue Message) (worker : Worker) :
    { loop with lifecycle, queue, worker }.conclude (.steady taken) result =
      { loop.conclude (.steady taken) result with lifecycle, queue, worker } := by
  cases h : result.ready with
  | true => rw [conclude_steady_of_ready _ _ h, conclude_steady_of_ready _ _ h]
  | false => rw [conclude_of_not_ready _ _ h, conclude_of_not_ready _ _ h]

end Steady

variable [Surface σ]

/-- **A live worker applies an operation to the surface under way and concludes.** This equation
stands for the definition of handling in all that follows. -/
theorem handle_apply (receive : Receiver σ ρ) (loop : Loop σ ρ) (scenes : Scenes)
    (op : Operation) :
    loop.handle receive scenes (.apply op) =
      (loop.conclude receive (op.apply scenes loop.drawing),
        (op.apply scenes loop.drawing).scenes) := by
  obtain ⟨lifecycle, queue, worker, drawing, standby, receiver, applied, presented⟩ := loop
  rw [handle]
  dsimp only
  -- The end depends on whether a frame is ready and whether the receiver survives it.
  cases h : op.apply scenes drawing with
  | mk ready after surface =>
    cases ready with
    -- Without a present the receiver is not asked.
    | false => rfl
    | true =>
      simp only [conclude]
      cases hs : receive receiver surface with
      | mk receiver survived => cases survived <;> rfl

/-- The worker handles operations one after another, each in the scenes and on the surface that the
one before has left. -/
def handleAll (receive : Receiver σ ρ) (loop : Loop σ ρ) (scenes : Scenes) :
    List Operation → Loop σ ρ × Scenes
  | [] => (loop, scenes)
  | op :: rest =>
    match loop.handle receive scenes (.apply op) with
    | (loop, scenes) => loop.handleAll receive scenes rest

/-- Without operations nothing changes. -/
@[simp] theorem handleAll_nil (receive : Receiver σ ρ) (loop : Loop σ ρ) (scenes : Scenes) :
    loop.handleAll receive scenes [] = (loop, scenes) := rfl

/-- The first operation is applied and concluded, and then the others are handled. -/
theorem handleAll_cons (receive : Receiver σ ρ) (loop : Loop σ ρ) (scenes : Scenes)
    (op : Operation) (rest : List Operation) :
    loop.handleAll receive scenes (op :: rest) =
      (loop.conclude receive (op.apply scenes loop.drawing)).handleAll receive
        (op.apply scenes loop.drawing).scenes rest := by
  rw [handleAll, handle_apply]

/-- Operations in two parts are handled one part after the other. -/
theorem handleAll_append (receive : Receiver σ ρ) (loop : Loop σ ρ) (scenes : Scenes)
    (ops later : List Operation) :
    loop.handleAll receive scenes (ops ++ later) =
      (loop.handleAll receive scenes ops).1.handleAll receive
        (loop.handleAll receive scenes ops).2 later := by
  induction ops generalizing loop scenes with
  | nil => rfl
  | cons op rest ih => rw [List.cons_append, handleAll_cons, handleAll_cons, ih]

/-- With a receiver that never fails, handling operations concerns neither the queue nor the
worker. -/
theorem handleAll_steady (taken : ρ → σ → ρ) (loop : Loop σ ρ) (scenes : Scenes)
    (ops : List Operation) :
    (loop.handleAll (.steady taken) scenes ops).1.queue = loop.queue ∧
      (loop.handleAll (.steady taken) scenes ops).1.worker = loop.worker := by
  induction ops generalizing loop scenes with
  | nil => exact ⟨rfl, rfl⟩
  | cons op rest ih =>
    rw [handleAll_cons]
    -- Concluding keeps both, and so do the operations that are left.
    obtain ⟨hqueue, hworker⟩ := ih (loop.conclude (.steady taken) (op.apply scenes loop.drawing))
      (op.apply scenes loop.drawing).scenes
    rw [conclude_queue] at hqueue
    rw [conclude_steady_worker] at hworker
    exact ⟨hqueue, hworker⟩

/-- A turn of a live worker that finds an operation takes it from the queue, applies it and
concludes. -/
theorem step_of_apply {loop : Loop σ ρ} (receive : Receiver σ ρ) (scenes : Scenes)
    {op : Operation} {rest : List Message} (halive : loop.worker = .alive)
    (hqueue : loop.queue.items = .apply op :: rest) :
    loop.step receive scenes =
      ({ loop.conclude receive (op.apply scenes loop.drawing) with queue := ⟨rest⟩ },
        (op.apply scenes loop.drawing).scenes) := by
  rw [← conclude_with_queue]
  -- The message is taken from the queue before it is handled.
  obtain ⟨lifecycle, ⟨items⟩, worker, drawing, standby, receiver, tally⟩ := loop
  subst halive hqueue
  exact handle_apply receive ⟨lifecycle, ⟨rest⟩, .alive, drawing, standby, receiver, tally⟩ scenes
    op

/-- The first turn comes before the others. -/
theorem steps_succ (receive : Receiver σ ρ) (loop : Loop σ ρ) (scenes : Scenes) (n : Nat) :
    loop.steps receive scenes (n + 1) =
      (loop.step receive scenes).1.steps receive (loop.step receive scenes).2 n := rfl

/-- **The worker handles the queue from its head**, as long as no receiver fails. What is behind the
operations stays in the queue. -/
theorem steps_eq_handleAll (taken : ρ → σ → ρ) {loop : Loop σ ρ} (scenes : Scenes)
    {ops : List Operation} {rest : List Message} (halive : loop.worker = .alive)
    (hqueue : loop.queue.items = ops.map .apply ++ rest) :
    loop.steps (.steady taken) scenes ops.length =
      { loop with queue := ⟨rest⟩ }.handleAll (.steady taken) scenes ops := by
  induction ops generalizing loop scenes with
  | nil =>
    obtain ⟨lifecycle, ⟨items⟩, worker, drawing, standby, receiver, tally⟩ := loop
    subst hqueue
    rfl
  | cons op ops ih =>
    have hworker := conclude_steady_worker taken loop (op.apply scenes loop.drawing)
    have hconclude := conclude_with_queue (.steady taken) loop (op.apply scenes loop.drawing) ⟨rest⟩
    -- Handling does not look at the queue, so it may be cut off before instead of after.
    rw [List.length_cons, steps_succ, step_of_apply _ scenes halive hqueue, handleAll_cons,
      hconclude]
    exact ih _ (hworker.trans halive) rfl

/-- Draining a queue of operations empties it, and the worker lives on. -/
theorem drain_steady (taken : ρ → σ → ρ) {loop : Loop σ ρ} (scenes : Scenes)
    {ops : List Operation} (halive : loop.worker = .alive)
    (hqueue : loop.queue.items = ops.map .apply) :
    (loop.drain (.steady taken) scenes).1.worker = .alive ∧
      (loop.drain (.steady taken) scenes).1.queue.items = [] := by
  have hpending : loop.pending = ops.length := by
    rw [pending, Queue.size, hqueue, List.length_map]
  have hitems : loop.queue.items = ops.map .apply ++ [] := by rw [hqueue, List.append_nil]
  rw [drain, hpending, steps_eq_handleAll taken scenes halive hitems]
  obtain ⟨hempty, hworker⟩ := handleAll_steady taken { loop with queue := ⟨[]⟩ } scenes ops
  rw [hempty, hworker]
  exact ⟨halive, rfl⟩

end Loop

end Easel
