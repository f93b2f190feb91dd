import Easel.Proofs.Render.Worker
import Mathlib.Data.List.Basic
import Mathlib.Data.List.TakeWhile

/-!
# A loop and everyone around it

Posters, the worker and the owner of a loop run side by side. `Machine.Step` says what each of them
can do at once: post an operation, take a message from the queue, apply an operation, leave,
announce the stop, post the request to halt, collect the worker. `Machine.Run` is any interleaving
of such steps, with the actions that make it up.

* `Machine.Ordered` — what holds of every run whatever the receiver does: messages are taken in the
  order of posting, and the request to halt is posted once;
* `Machine.Run.ordered` — every run is ordered;
* `Machine.Run.of_steps` — the turns of `Loop.steps` are such runs.
-/

namespace Easel

/-- How far the owner of a loop has come with stopping it. -/
inductive Owner where
  /-- It has not asked the loop to stop. -/
  | holding
  /-- It has made it known that the loop is to stop. -/
  | announced
  /-- It has posted the request to halt and waits for the worker. -/
  | waiting
  /-- It has collected the worker. -/
  | released
deriving DecidableEq, Repr

/-- Whether an owner has posted the request to halt. It does so once, on its way from announcing the
stop to waiting. -/
def Owner.hasHalted : Owner → Bool
  | .holding | .announced => false
  | .waiting | .released => true

/-- A loop, the scenes it works on, and what its worker and its owner are about. -/
structure Machine (σ ρ : Type) where
  loop : Loop σ ρ
  scenes : Scenes
  /-- The message that the worker has taken and not dealt with yet. -/
  inHand : Option Message
  owner : Owner

/-- What happens at once. Posters are told apart by a name, and all else is done by the worker or
the owner, of whom there is one each. -/
inductive Action (ι σ : Type) where
  /-- A poster posts an operation; nothing comes of an empty batch. -/
  | post (poster : ι) (op : Operation)
  /-- The owner makes it known that the loop is to stop. -/
  | announce
  | halt
  /-- The worker takes a message from the queue. -/
  | pull (message : Message)
  /-- The worker applies the operation in its hand, with a result, and shows the surface if that is
  ready. -/
  | apply (op : Operation) (result : Applied σ)
  | leave
  /-- The owner collects the worker and gets its counts. -/
  | collect (tally : Tally)

namespace Action

variable {ι σ : Type}

/-- The message that an action posts, if it posts one. -/
def pushed? : Action ι σ → Option Message
  | .post _ op => if op = .batch [] then none else some (.apply op)
  | .halt => some .halt
  | .announce | .pull _ | .apply .. | .leave | .collect _ => none

/-- The message that an action deals with. -/
def handled? : Action ι σ → Option Message
  | .apply op _ => some (.apply op)
  | .leave => some .halt
  | .post .. | .announce | .halt | .pull _ | .collect _ => none

/-- The operation that an action posts, with its poster. -/
def posted? : Action ι σ → Option (ι × Operation)
  | .post poster op => if op = .batch [] then none else some (poster, op)
  | .announce | .halt | .pull _ | .apply .. | .leave | .collect _ => none

/-- The operation that an action applies, with the result. -/
def applied? : Action ι σ → Option (Operation × Applied σ)
  | .apply op result => some (op, result)
  | .post .. | .announce | .halt | .pull _ | .leave | .collect _ => none

/-- Whether an action posts the request to halt. -/
def isHalt : Action ι σ → Bool
  | .halt => true
  | .post .. | .announce | .pull _ | .apply .. | .leave | .collect _ => false

/-- Whether an action posts an operation. -/
def isPost : Action ι σ → Bool
  | .post .. => true
  | .announce | .halt | .pull _ | .apply .. | .leave | .collect _ => false

end Action

/-! ### The record of a run -/

section Record

variable {ι σ : Type} (actions : List (Action ι σ))

/-- The messages posted, in order. -/
def pushed : List Message := actions.filterMap Action.pushed?

/-- The messages that the worker has dealt with, in order. -/
def handled : List Message := actions.filterMap Action.handled?

/-- The operations posted before the request to halt, in order, with their posters. Empty batches
are not among them. -/
def accepted : List (ι × Operation) :=
  (actions.takeWhile fun action => !action.isHalt).filterMap Action.posted?

/-- The operations that the worker has applied, in order, with the results. -/
def applications : List (Operation × Applied σ) := actions.filterMap Action.applied?

/-- The surfaces that were ready when an operation had been applied, in order. -/
def frames : List σ :=
  ((applications actions).filter fun application => application.2.ready).map (·.2.surface)

/-- The operations that one poster has posted, in order. -/
def postedBy [DecidableEq ι] (poster : ι) : List Operation :=
  ((actions.filterMap Action.posted?).filter fun post => post.1 = poster).map Prod.snd

/-- The last action adds at the end the message that it posts. -/
theorem pushed_concat (action : Action ι σ) :
    pushed (actions ++ [action]) = pushed actions ++ action.pushed?.toList := by
  rw [pushed, List.filterMap_append, pushed]
  cases h : action.pushed? <;> simp [h]

/-- The last action adds at the end the message that it deals with. -/
theorem handled_concat (action : Action ι σ) :
    handled (actions ++ [action]) = handled actions ++ action.handled?.toList := by
  rw [handled, List.filterMap_append, handled]
  cases h : action.handled? <;> simp [h]

/-- The last action adds at the end the operation that it applies. -/
theorem applications_concat (action : Action ι σ) :
    applications (actions ++ [action]) = applications actions ++ action.applied?.toList := by
  rw [applications, List.filterMap_append, applications]
  cases h : action.applied? <;> simp [h]

/-- What two parts of a record post is what the one posts, and then the other. -/
theorem pushed_append (later : List (Action ι σ)) :
    pushed (actions ++ later) = pushed actions ++ pushed later := List.filterMap_append

/-- The request to halt is posted once in a list of actions, or not at all. -/
def Halted (actions : List (Action ι σ)) : Bool → Prop
  | true => ∃ before after, actions = before ++ .halt :: after ∧
      Action.halt ∉ before ∧ Action.halt ∉ after
  | false => Action.halt ∉ actions

variable {actions} in
/-- An action other than posting the request to halt leaves open whether it has been posted. -/
theorem Halted.concat {halted : Bool} {action : Action ι σ} (h : Halted actions halted)
    (haction : action ≠ .halt) : Halted (actions ++ [action]) halted := by
  have hnot : ∀ {l : List (Action ι σ)}, Action.halt ∉ l → Action.halt ∉ l ++ [action] := by
    intro l hl hmem
    rcases List.mem_append.mp hmem with hmem | hmem
    · exact hl hmem
    · exact haction (List.mem_singleton.mp hmem).symm
  cases halted with
  | false => exact hnot h
  | true =>
    obtain ⟨before, after, rfl, hbefore, hafter⟩ := h
    exact ⟨before, after ++ [action], by rw [List.append_assoc, List.cons_append], hbefore,
      hnot hafter⟩

/-- Before the request to halt is posted, exactly the accepted operations are, in the same order. -/
theorem pushed_of_halt_not_mem {actions : List (Action ι σ)} (h : Action.halt ∉ actions) :
    pushed actions = (accepted actions).map fun post => .apply post.2 := by
  -- All actions come before a request that there has not been.
  have htake : (actions.takeWhile fun action => !action.isHalt) = actions := by
    refine List.takeWhile_eq_self_iff.mpr ?_
    intro action haction
    cases action with
    | halt => exact absurd haction h
    | _ => rfl
  rw [accepted, htake, List.map_filterMap, pushed]
  refine List.filterMap_congr ?_
  intro action haction
  cases action with
  | halt => exact absurd haction h
  | post poster op =>
    simp only [Action.pushed?, Action.posted?]
    split <;> rfl
  | _ => rfl

/-- What is posted after the request to halt is not accepted, so this part of the record no longer
counts for it. -/
theorem accepted_append_halt {before : List (Action ι σ)} (h : Action.halt ∉ before)
    (after : List (Action ι σ)) : accepted (before ++ .halt :: after) = accepted before := by
  have hbefore : ∀ action ∈ before, (!action.isHalt) = true := by
    intro action haction
    cases action with
    | halt => exact absurd haction h
    | _ => rfl
  rw [accepted, accepted, List.takeWhile_append_of_pos hbefore,
    List.takeWhile_eq_self_iff.mpr hbefore]
  simp [Action.isHalt]

end Record

namespace Machine

variable {ι σ ρ : Type} [Surface σ]

/-- A loop before anyone has done anything. -/
def start (first second : σ) (receiver : ρ) (scenes : Scenes) : Machine σ ρ where
  loop := .start first second receiver
  scenes := scenes
  inHand := none
  owner := .holding

/-- What anyone can do at once. Anyone may post; the owner goes through announcing, posting the
request to halt and collecting; the worker takes a message only with empty hands and then deals with
it. -/
inductive Step (receive : Receiver σ ρ) : Machine σ ρ → Action ι σ → Machine σ ρ → Prop where
  | post (m : Machine σ ρ) (poster : ι) (op : Operation) :
      Step receive m (.post poster op) { m with loop := m.loop.post op }
  | announce (m : Machine σ ρ) (holding : m.owner = .holding) :
      Step receive m .announce { m with loop := m.loop.announceStop, owner := .announced }
  | halt (m : Machine σ ρ) (announced : m.owner = .announced) :
      Step receive m .halt { m with loop := m.loop.postHalt, owner := .waiting }
  | pull (m : Machine σ ρ) {message : Message} {rest : Queue Message}
      (alive : m.loop.worker = .alive) (idle : m.inHand = none)
      (next : m.loop.queue.pull? = some (message, rest)) :
      Step receive m (.pull message)
        { m with loop := { m.loop with queue := rest }, inHand := some message }
  | apply (m : Machine σ ρ) {op : Operation} (inHand : m.inHand = some (.apply op)) :
      Step receive m (.apply op (op.apply m.scenes m.loop.drawing))
        { m with
          loop := (m.loop.handle receive m.scenes (.apply op)).1
          scenes := (m.loop.handle receive m.scenes (.apply op)).2
          inHand := none }
  | leave (m : Machine σ ρ) (inHand : m.inHand = some .halt) :
      Step receive m .leave
        { m with loop := (m.loop.handle receive m.scenes .halt).1, inHand := none }
  | collect (m : Machine σ ρ) (waiting : m.owner = .waiting) (gone : m.loop.worker ≠ .alive) :
      Step receive m (.collect m.loop.join.1) { m with loop := m.loop.join.2, owner := .released }

/-- Any interleaving of steps, with its actions in order. The run is built at its end, where the
next step is taken. -/
inductive Run (receive : Receiver σ ρ) :
    Machine σ ρ → List (Action ι σ) → Machine σ ρ → Prop where
  | nil (m : Machine σ ρ) : Run receive m [] m
  | concat {first last next : Machine σ ρ} {actions : List (Action ι σ)} {action : Action ι σ} :
      Run receive first actions last → Step receive last action next →
        Run receive first (actions ++ [action]) next

/-- A run may be continued by another one from where it has led to. -/
theorem Run.append {receive : Receiver σ ρ} {first middle last : Machine σ ρ}
    {actions later : List (Action ι σ)} (h : Run receive first actions middle)
    (hlater : Run receive middle later last) : Run receive first (actions ++ later) last := by
  induction hlater with
  | nil => rwa [List.append_nil]
  | concat _ hstep ih => rw [← List.append_assoc]; exact ih.concat hstep

/-- One step is a run. -/
theorem Step.run {receive : Receiver σ ρ} {first last : Machine σ ρ} {action : Action ι σ}
    (h : Step receive first action last) : Run receive first [action] last :=
  (Run.nil first).concat h

/-- **A turn of the loop is a run** in which nobody else does anything. -/
theorem Run.of_step (receive : Receiver σ ρ) (m : Machine σ ρ) (hidle : m.inHand = none) :
    ∃ actions : List (Action ι σ), (∀ action ∈ actions, action.isPost = false) ∧
      Run receive m actions { m with
        loop := (m.loop.step receive m.scenes).1
        scenes := (m.loop.step receive m.scenes).2 } := by
  obtain ⟨⟨lifecycle, ⟨items⟩, worker, drawing, standby, receiver, tally⟩, scenes, inHand, owner⟩ :=
    m
  subst hidle
  -- A worker that is gone, or finds no message, lets the turn pass.
  cases worker with
  | finished => exact ⟨[], fun _ hmem => absurd hmem List.not_mem_nil, .nil _⟩
  | dead => exact ⟨[], fun _ hmem => absurd hmem List.not_mem_nil, .nil _⟩
  | alive =>
    cases items with
    | nil => exact ⟨[], fun _ hmem => absurd hmem List.not_mem_nil, .nil _⟩
    | cons message rest =>
      have hstart : Run receive _ ([] : List (Action ι σ)) _ := .nil ⟨⟨lifecycle, ⟨message :: rest⟩,
        .alive, drawing, standby, receiver, tally⟩, scenes, none, owner⟩
      have hpull := hstart.concat (.pull _ rfl rfl rfl)
      cases message with
      | apply op => exact ⟨_, by simp [Action.isPost], hpull.concat (.apply _ rfl)⟩
      | halt => exact ⟨_, by simp [Action.isPost], hpull.concat (.leave _ rfl)⟩

/-- **Any number of turns of the loop is a run** in which nobody else does anything. -/
theorem Run.of_steps (receive : Receiver σ ρ) (m : Machine σ ρ) (hidle : m.inHand = none)
    (n : Nat) :
    ∃ actions : List (Action ι σ), (∀ action ∈ actions, action.isPost = false) ∧
      Run receive m actions { m with
        loop := (m.loop.steps receive m.scenes n).1
        scenes := (m.loop.steps receive m.scenes n).2 } := by
  induction n generalizing m with
  | zero => exact ⟨[], fun _ hmem => absurd hmem List.not_mem_nil, .nil _⟩
  | succ n ih =>
    obtain ⟨actions, hposts, hrun⟩ := Run.of_step (ι := ι) receive m hidle
    obtain ⟨later, hlater, hrest⟩ := ih { m with
      loop := (m.loop.step receive m.scenes).1, scenes := (m.loop.step receive m.scenes).2 } hidle
    refine ⟨actions ++ later, fun action hmem => ?_, hrun.append hrest⟩
    exact (List.mem_append.mp hmem).elim (hposts action) (hlater action)

/-! ### Order -/

/-- What holds between the record of a run and the state that it has led to. None of the clauses
speaks of surfaces or of the receiver: the order is kept by the queue and the hand alone. -/
structure Ordered (actions : List (Action ι σ)) (m : Machine σ ρ) : Prop where
  /-- What was posted has been dealt with, is in hand or waits, in this order. -/
  fifo : pushed actions = handled actions ++ m.inHand.toList ++ m.loop.queue.items
  /-- Only a live worker has a message in hand. -/
  alive : m.inHand ≠ none → m.loop.worker = .alive
  /-- The worker has dealt with operations, and with the request to halt just before it left. -/
  left : handled actions =
    ((applications actions).map fun application => .apply application.1) ++ m.loop.worker.farewell
  /-- The request to halt is posted once, by an owner who waits from then on. -/
  halted : Halted actions m.owner.hasHalted
  /-- A worker that is collected is not alive. -/
  released : m.owner = .released → m.loop.worker ≠ .alive
  /-- An owner who is done has collected the worker. -/
  collected : m.owner = .released ↔ ∃ tally, Action.collect tally ∈ actions

omit [Surface σ] in
/-- At the start nothing has been posted, and the owner holds the loop. -/
theorem ordered_start (first second : σ) (receiver : ρ) (scenes : Scenes) :
    Ordered ([] : List (Action ι σ)) (start first second receiver scenes) where
  fifo := rfl
  alive h := absurd rfl h
  left := rfl
  halted := List.not_mem_nil
  released h := Owner.noConfusion h
  collected := ⟨fun h => Owner.noConfusion h, fun ⟨_, h⟩ => absurd h List.not_mem_nil⟩

omit [Surface σ] in
/-- A step other than collecting the worker leaves open whether the worker has been collected. -/
private theorem collected_concat {actions : List (Action ι σ)} {action : Action ι σ}
    {before after : Owner} (h : before = .released ↔ ∃ tally, Action.collect tally ∈ actions)
    (howner : after = .released ↔ before = .released) (haction : ∀ tally, action ≠ .collect tally) :
    after = .released ↔ ∃ tally, Action.collect tally ∈ actions ++ [action] := by
  rw [howner, h]
  refine exists_congr ?_
  intro tally
  rw [List.mem_append, List.mem_singleton]
  exact ⟨Or.inl, fun hmem => hmem.resolve_right fun heq => haction tally heq.symm⟩

/-- Every step keeps the order. For each step the clauses say which of the three places of a message
it touches: the queue, the hand, or the record of what has been dealt with. -/
theorem Ordered.step {receive : Receiver σ ρ} {actions : List (Action ι σ)} {m next : Machine σ ρ}
    {action : Action ι σ} (h : Ordered actions m) (hstep : Step receive m action next) :
    Ordered (actions ++ [action]) next := by
  obtain ⟨hfifo, halive, hleft, hhalted, hreleased, hcollected⟩ := h
  cases hstep with
  | post poster op =>
    -- The operation goes to the end of the queue, unless it is an empty batch.
    refine ⟨?_, ?_, ?_, hhalted.concat (by simp), ?_, collected_concat hcollected Iff.rfl (by simp)⟩
    · rw [pushed_concat, handled_concat, hfifo, Loop.items_post, Action.pushed?]
      cases decEq op (.batch []) with
      | isTrue hop => simp [hop, Action.handled?]
      | isFalse hop => simp [hop, Action.handled?]
    · rwa [Loop.worker_post]
    · rw [handled_concat, applications_concat, Loop.worker_post, hleft]
      simp [Action.handled?, Action.applied?]
    · rwa [Loop.worker_post]
  | announce holding =>
    -- The owner has announced the stop and posted nothing, so the record of messages stays as it
    -- is.
    rw [holding] at hhalted hcollected
    refine ⟨?_, halive, ?_, hhalted.concat (by simp), (by rintro ⟨⟩),
      collected_concat hcollected (by simp) (by simp)⟩
    · rw [pushed_concat, handled_concat, hfifo]
      simp [Action.handled?, Action.pushed?]
    · rw [handled_concat, applications_concat, hleft]
      simp [Action.handled?, Action.applied?]
  | halt announced =>
    -- It has not been posted before, so this is where the record divides.
    rw [announced] at hhalted hcollected
    refine ⟨?_, halive, ?_, ⟨actions, [], rfl, hhalted, List.not_mem_nil⟩, (by rintro ⟨⟩),
      collected_concat hcollected (by simp) (by simp)⟩
    · rw [pushed_concat, handled_concat, hfifo]
      simp [Action.handled?, Action.pushed?]
    · rw [handled_concat, applications_concat, hleft]
      simp [Action.handled?, Action.applied?]
  | pull hworker idle hnext =>
    -- The message goes from the head of the queue to the hand.
    rw [Queue.pull?_eq_some_iff] at hnext
    refine ⟨?_, fun _ => hworker, ?_, hhalted.concat (by simp), hreleased,
      collected_concat hcollected Iff.rfl (by simp)⟩
    · rw [pushed_concat, handled_concat, hfifo, idle, hnext]
      simp [Action.handled?, Action.pushed?]
    · rw [handled_concat, applications_concat, hleft]
      simp [Action.handled?, Action.applied?]
  | @apply op hhand =>
    -- The worker may die of what it shows, but it does not leave.
    have hworker : m.loop.worker = .alive := halive (by rw [hhand]; exact Option.some_ne_none _)
    have hstays : (m.loop.conclude receive
        (op.apply m.scenes m.loop.drawing)).worker.farewell = [] :=
      Loop.conclude_worker_farewell receive _ (by rw [hworker]; rfl)
    have howner : m.owner ≠ .released := fun howner => hreleased howner hworker
    refine ⟨?_, fun hne => absurd rfl hne, ?_, hhalted.concat (by simp),
      fun howner' => absurd howner' howner, collected_concat hcollected Iff.rfl (by simp)⟩
    · rw [pushed_concat, handled_concat, hfifo, hhand, Loop.handle_apply]
      simp [Action.handled?, Action.pushed?]
    · rw [handled_concat, applications_concat, hleft, hworker, Loop.handle_apply, hstays]
      simp [Action.handled?, Action.applied?, Worker.farewell]
  | leave hhand =>
    -- The request to halt is the last message that the worker deals with, and it leaves with it.
    have hworker : m.loop.worker = .alive := halive (by rw [hhand]; exact Option.some_ne_none _)
    refine ⟨?_, fun hne => absurd rfl hne, ?_, hhalted.concat (by simp),
      fun _ => Worker.noConfusion, collected_concat hcollected Iff.rfl (by simp)⟩
    · rw [pushed_concat, handled_concat, hfifo, hhand]
      simp [Action.handled?, Action.pushed?, Loop.handle]
    · rw [handled_concat, applications_concat, hleft, hworker]
      simp [Action.handled?, Action.applied?, Loop.handle, Worker.farewell]
  | collect waiting gone =>
    rw [waiting] at hhalted
    refine ⟨?_, halive, ?_, hhalted.concat (by simp), fun _ => gone, ?_⟩
    · rw [pushed_concat, handled_concat, hfifo]
      simp [Action.handled?, Action.pushed?]
    · rw [handled_concat, applications_concat, hleft]
      simp [Action.handled?, Action.applied?]
    -- This is the action that collects the worker, so the record tells of it.
    · exact ⟨fun _ => ⟨_, List.mem_append_right _ (List.mem_singleton.mpr rfl)⟩, fun _ => rfl⟩

/-- **Every run from the start is ordered**, whatever the receiver does. -/
theorem Run.ordered {receive : Receiver σ ρ} {first second : σ} {receiver : ρ} {scenes : Scenes}
    {actions : List (Action ι σ)} {m : Machine σ ρ}
    (h : Run receive (start first second receiver scenes) actions m) : Ordered actions m := by
  induction h with
  | nil => exact ordered_start first second receiver scenes
  | concat _ hstep ih => exact ih.step hstep

end Machine

end Easel
