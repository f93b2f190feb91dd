import Easel.Canvas.Recording
import Easel.Proofs.Render.Stopping

/-!
# What a run delivers

With a receiver that never fails, whatever the interleaving of posters, worker and owner, the worker
does exactly what it would do if the accepted operations were handed to it one after another.

* `Loop.results` — the operations with their results, if the loop handles them one after another;
* `Machine.Faithful` — the second invariant of a run: worker, surfaces, scenes, counts and receiver
  agree with that;
* `Machine.posted_applied_once_in_order` — what has been posted is applied once and in order.
-/

namespace Easel

namespace Loop

variable {σ ρ : Type} [Surface σ]

/-- Operations with their results, if a loop handles them one after another. Each is applied to the
surface under way, in the scenes that the operations before it have left. -/
def results (receive : Receiver σ ρ) (loop : Loop σ ρ) (scenes : Scenes) :
    List Operation → List (Operation × Applied σ)
  | [] => []
  | op :: rest =>
    (op, op.apply scenes loop.drawing) ::
      (loop.conclude receive (op.apply scenes loop.drawing)).results receive
        (op.apply scenes loop.drawing).scenes rest

variable (receive : Receiver σ ρ) (loop : Loop σ ρ) (scenes : Scenes)

/-- The last of several operations is handled after all others. -/
theorem handleAll_concat (ops : List Operation) (op : Operation) :
    loop.handleAll receive scenes (ops ++ [op]) =
      (loop.handleAll receive scenes ops).1.handle receive
        (loop.handleAll receive scenes ops).2 (.apply op) := by
  rw [handleAll_append, handleAll_cons, handleAll_nil, handle_apply]

/-- The last of several operations is applied to what all others have left. -/
theorem results_concat (ops : List Operation) (op : Operation) :
    loop.results receive scenes (ops ++ [op]) =
      loop.results receive scenes ops ++
        [(op, op.apply (loop.handleAll receive scenes ops).2
          (loop.handleAll receive scenes ops).1.drawing)] := by
  induction ops generalizing loop scenes with
  | nil => rfl
  | cons first rest ih => rw [List.cons_append, results, ih, handleAll_cons, results]; rfl

end Loop

section Record

variable {ι σ : Type}

/-- Applying an operation adds a frame at the end, if the surface is ready then. -/
theorem frames_apply (actions : List (Action ι σ)) (op : Operation) (result : Applied σ) :
    frames (actions ++ [.apply op result]) =
      frames actions ++ if result.ready = true then [result.surface] else [] := by
  rw [frames, applications_concat, List.filter_append, List.map_append, frames]
  cases h : result.ready <;> simp [Action.applied?, h]

/-- Applying an operation adds it at the end of those that have been applied. -/
theorem appliedOps_apply (actions : List (Action ι σ)) (op : Operation) (result : Applied σ) :
    appliedOps (actions ++ [.apply op result]) = appliedOps actions ++ [op] := by
  rw [appliedOps, applications_concat, List.map_append, appliedOps]
  rfl

/-- Every other action leaves the record of what has been applied as it is. -/
theorem applications_of_not_applied {action : Action ι σ} (h : action.applied? = none)
    (actions : List (Action ι σ)) : applications (actions ++ [action]) = applications actions := by
  rw [applications_concat, h, Option.toList_none, List.append_nil]

end Record

namespace Machine

variable {ι σ ρ : Type} [Surface σ]

/-! ### Effect -/

/-- What holds between the record of a run and the state that it has led to, if the receiver never
fails. The clauses compare the loop with one that has handled the applied operations in a row, so
the posters and the owner do not occur in them. -/
structure Faithful (taken : ρ → σ → ρ) (origin : Machine σ ρ) (actions : List (Action ι σ))
    (m : Machine σ ρ) : Prop where
  /-- The results are those of handling the operations one after another. -/
  results : applications actions =
    origin.loop.results (.steady taken) origin.scenes (appliedOps actions)
  /-- The surfaces, the receiver and the counts are what handling these operations leads to. -/
  loop : m.loop =
    { (origin.loop.handleAll (.steady taken) origin.scenes (appliedOps actions)).1 with
      lifecycle := m.loop.lifecycle, queue := m.loop.queue, worker := m.loop.worker }
  /-- The scenes are what handling these operations leads to. -/
  scenes : m.scenes =
    (origin.loop.handleAll (.steady taken) origin.scenes (appliedOps actions)).2
  survives : m.loop.worker ≠ .dead
  tally : m.loop.tally = ⟨origin.loop.tally.applied + (applications actions).length,
    origin.loop.tally.presented + (frames actions).length⟩
  /-- The receiver has been shown each frame once, in order. -/
  receiver : m.loop.receiver = (frames actions).foldl taken origin.loop.receiver
  /-- An owner gets the counts of a worker that has left, and these do not change any more. -/
  collected : ∀ tally, Action.collect tally ∈ actions →
    tally = m.loop.tally ∧ m.loop.worker = .finished

section Effect

variable {taken : ρ → σ → ρ} {origin m next : Machine σ ρ} {actions : List (Action ι σ)}

/-- At the start there is no record, and the machine is its own origin. -/
theorem faithful_start (halive : m.loop.worker = .alive) :
    Faithful taken m ([] : List (Action ι σ)) m where
  results := rfl
  loop := rfl
  scenes := rfl
  survives := halive ▸ Worker.noConfusion
  tally := rfl
  receiver := rfl
  collected _ h := absurd h List.not_mem_nil

/-- An action that applies nothing leaves the account of the work as it is. It may change the
lifecycle, the queue and the worker, of which the account does not speak. -/
private theorem Faithful.concat {action : Action ι σ} (h : Faithful taken origin actions m)
    (haction : action.applied? = none)
    (hloop : next.loop = { m.loop with
      lifecycle := next.loop.lifecycle, queue := next.loop.queue, worker := next.loop.worker })
    (hscenes : next.scenes = m.scenes) (hsurvives : next.loop.worker ≠ .dead)
    (hfinished : m.loop.worker = .finished → next.loop.worker = .finished)
    (hcollect : ∀ tally, action = .collect tally →
      tally = next.loop.tally ∧ next.loop.worker = .finished) :
    Faithful taken origin (actions ++ [action]) next := by
  have happlications := applications_of_not_applied haction actions
  have hops : appliedOps (actions ++ [action]) = appliedOps actions := by
    rw [appliedOps, happlications, appliedOps]
  have hframes : frames (actions ++ [action]) = frames actions := by
    rw [frames, happlications, frames]
  -- None of the lists that the account is about grows with this action.
  refine ⟨?_, ?_, ?_, hsurvives, ?_, ?_, fun tally hmem => ?_⟩
  · rw [happlications, hops]
    exact h.results
  · rw [hops, hloop, h.loop]
  · rw [hops, hscenes]
    exact h.scenes
  · rw [happlications, hframes, hloop]
    exact h.tally
  · rw [hframes, hloop]
    exact h.receiver
  · rcases List.mem_append.mp hmem with hmem | hmem
    · obtain ⟨htally, hworker⟩ := h.collected tally hmem
      refine ⟨?_, hfinished hworker⟩
      rw [hloop]
      exact htally
    · exact hcollect tally (List.mem_singleton.mp hmem).symm

/-- Every step keeps the account. Only applying an operation takes work, and what it finds is what
the operations before it have left; all other steps come under `Faithful.concat`. -/
theorem Faithful.step {action : Action ι σ} (h : Faithful taken origin actions m)
    (hordered : Ordered actions m) (hstep : Step (.steady taken) m action next) :
    Faithful taken origin (actions ++ [action]) next := by
  cases hstep with
  | post poster op =>
    have hworker := Loop.worker_post m.loop op
    refine h.concat rfl (Loop.post_eq m.loop op) rfl ?_ ?_ (by rintro _ ⟨⟩)
    · rw [hworker]
      exact h.survives
    · intro hfinished
      rw [hworker, hfinished]
  | announce holding => exact h.concat rfl rfl rfl h.survives id (by rintro _ ⟨⟩)
  | halt announced => exact h.concat rfl rfl rfl h.survives id (by rintro _ ⟨⟩)
  | pull hworker idle hnext => exact h.concat rfl rfl rfl h.survives id (by rintro _ ⟨⟩)
  | @apply op hhand =>
    have hworker : m.loop.worker = .alive :=
      hordered.alive (by rw [hhand]; exact Option.some_ne_none _)
    have hdrawing : m.loop.drawing =
        (origin.loop.handleAll (.steady taken) origin.scenes (appliedOps actions)).1.drawing := by
      rw [h.loop]
    have hlast := Loop.handleAll_concat (.steady taken) origin.loop origin.scenes
      (appliedOps actions) op
    rw [Loop.handle_apply, ← hdrawing, ← h.scenes] at hlast
    have hresults := Loop.results_concat (.steady taken) origin.loop origin.scenes
      (appliedOps actions) op
    rw [← hdrawing, ← h.scenes, ← h.results] at hresults
    rw [Loop.handle_apply]
    -- Which scenes and which surface the result comes from does not matter any more.
    generalize op.apply m.scenes m.loop.drawing = result at hlast hresults
    -- To conclude reads neither the lifecycle nor the queue nor the worker, in which the two loops
    -- differ.
    have hconclude := Loop.conclude_steady_with taken
      (origin.loop.handleAll (.steady taken) origin.scenes (appliedOps actions)).1 result
      m.loop.lifecycle m.loop.queue m.loop.worker
    rw [← h.loop] at hconclude
    refine ⟨?_, ?_, ?_, ?_, ?_, ?_, fun tally hmem => ?_⟩
    · rw [appliedOps_apply, hresults, applications_concat]
      rfl
    · rw [appliedOps_apply, hlast]
      dsimp only
      rw [Loop.conclude_lifecycle, Loop.conclude_queue, Loop.conclude_steady_worker]
      exact hconclude
    · rw [appliedOps_apply, hlast]
    · rw [Loop.conclude_steady_worker, hworker]
      exact Worker.noConfusion
    · rw [Loop.conclude_steady_tally, frames_apply, applications_concat, h.tally]
      cases result.ready <;> simp [Action.applied?, Nat.add_assoc]
    · rw [Loop.conclude_steady_receiver, frames_apply, List.foldl_append, ← h.receiver]
      cases result.ready <;> rfl
    · rcases List.mem_append.mp hmem with hmem | hmem
      · have hfinished := (h.collected tally hmem).2
        rw [hworker] at hfinished
        exact Worker.noConfusion hfinished
      · cases List.mem_singleton.mp hmem
  | leave hhand =>
    have hworker : m.loop.worker = .alive :=
      hordered.alive (by rw [hhand]; exact Option.some_ne_none _)
    exact h.concat rfl rfl rfl Worker.noConfusion (fun _ => rfl) (by rintro _ ⟨⟩)
  | collect waiting gone =>
    -- A receiver that never fails lets no worker die.
    have hfinished : m.loop.worker = .finished := by
      cases hworker : m.loop.worker with
      | alive => exact absurd hworker gone
      | dead => exact absurd hworker h.survives
      | finished => rfl
    refine h.concat rfl rfl rfl h.survives id fun tally htally => ⟨?_, hfinished⟩
    rw [← Action.collect.inj htally, Loop.join, hfinished]

/-- **Every run is faithful** if the receiver never fails: the start is, and every step keeps it
so. -/
theorem Run.faithful {first second : σ} {receiver : ρ} {scenes : Scenes}
    (h : Run (.steady taken) (start first second receiver scenes) actions m) :
    Faithful taken (start first second receiver scenes) actions m := by
  induction h with
  | nil => exact faithful_start rfl
  | concat hrun hstep ih => exact ih.step hrun.ordered hstep

end Effect

/-! ### The main result -/

omit [Surface σ] in
/-- A part of what was accepted is, poster by poster, a part of what the poster has posted. -/
private theorem postedBy_prefix [DecidableEq ι] (actions : List (Action ι σ)) (n : Nat)
    (poster : ι) :
    (((accepted actions).take n).filter fun post => post.1 = poster).map Prod.snd <+:
      postedBy actions poster := by
  have haccepted : accepted actions <+: actions.filterMap Action.posted? :=
    (List.takeWhile_prefix _).filterMap _
  exact ((List.take_prefix n _).trans haccepted |>.filter _).map _

/-- **Posted operations are applied once and in order.** Any number of posters, the worker and one
owner take their steps in any order, and the receiver never fails. An operation is accepted if it is
posted before the request to halt and is not an empty batch.

At every moment the operations applied so far are the first of the accepted ones, in the order of
posting; so those of each poster are applied in the order of its posts. The result of each is what
comes of applying it after all earlier ones, completely, and nothing else; the counts are the number
of operations applied and the number of those that have made the surface ready, and the receiver has
been shown the surface once for each of the latter. When the owner gets the counts, all that was
accepted has been applied, and no more will be. There is always a way for the owner to get there. -/
theorem posted_applied_once_in_order [DecidableEq ι] {taken : ρ → σ → ρ} {first second : σ}
    {receiver : ρ} {scenes : Scenes} {actions : List (Action ι σ)} {m : Machine σ ρ}
    (run : Run (.steady taken) (start first second receiver scenes) actions m) :
    -- the order in which operations are applied
    (appliedOps actions = ((accepted actions).take m.loop.tally.applied).map Prod.snd ∧
      ∀ poster, (((accepted actions).take m.loop.tally.applied).filter
        fun post => post.1 = poster).map Prod.snd <+: postedBy actions poster) ∧
    -- what comes of each of them, and of all of them
    (applications actions =
        (Loop.start first second receiver).results (.steady taken) scenes (appliedOps actions) ∧
      m.scenes = ((Loop.start first second receiver).handleAll (.steady taken) scenes
        (appliedOps actions)).2) ∧
    -- the counts, and what the receiver is shown
    (m.loop.tally.applied = (applications actions).length ∧
      m.loop.tally.presented =
        (applications actions).countP (fun application => application.2.ready) ∧
      m.loop.tally.presented = (frames actions).length ∧
      m.loop.receiver = (frames actions).foldl taken receiver) ∧
    -- the end
    (∀ tally, Action.collect tally ∈ actions →
      tally = m.loop.tally ∧ tally.applied = (accepted actions).length ∧
        appliedOps actions = (accepted actions).map Prod.snd) ∧
    CanStop ι (.steady taken) m := by
  have hordered := run.ordered
  have hfaithful := run.faithful
  -- The tally counts the applied operations, and the frames among them.
  have hcount : m.loop.tally.applied = (appliedOps actions).length := by
    rw [hfaithful.tally, appliedOps, List.length_map]
    exact Nat.zero_add _
  have hpresented : m.loop.tally.presented = (frames actions).length := by
    rw [hfaithful.tally]
    exact Nat.zero_add _
  refine ⟨⟨?_, postedBy_prefix actions _⟩, ⟨hfaithful.results, hfaithful.scenes⟩,
    ⟨?_, ?_, hpresented, hfaithful.receiver⟩, fun tally hcollect => ?_, run.canStop⟩
  · rw [hcount, List.map_take]
    exact List.prefix_iff_eq_take.mp hordered.appliedOps_prefix
  · rw [hcount, appliedOps, List.length_map]
  · rw [hpresented, frames, List.length_map, List.countP_eq_length_filter]
  · obtain ⟨htally, hfinished⟩ := hfaithful.collected tally hcollect
    have hops := hordered.appliedOps_eq hfinished
    refine ⟨htally, ?_, hops⟩
    rw [htally, hcount, hops, List.length_map]

/-- One poster fills and, while the loop is being stopped, presents; another one presents, and posts
an empty batch and a fill that come too late. -/
theorem posted_applied_once_in_order_racing :
    ∃ (actions : List (Action Bool Recording)) (m : Machine Recording Nat),
      Run (.steady fun shown _ => shown + 1) (start (.ofSize 1 Loop.defaultSize)
        (.ofSize 2 Loop.defaultSize) 0 .empty) actions m ∧
      appliedOps actions = [.fill .white, .present, .present] ∧
      postedBy actions true = [.present, .fill .black] ∧
      m.loop.receiver = 2 ∧
      ∃ tally, Action.collect tally ∈ actions ∧ tally.applied = 3 ∧ tally.presented = 2 := by
  let first := Recording.ofSize 1 Loop.defaultSize
  let second := Recording.ofSize 2 Loop.defaultSize
  let filled := first.fill first.bounds .white
  let receive : Receiver Recording Nat := .steady fun shown _ => shown + 1
  have run₀ : Run receive (start first second 0 .empty)
    ([] : List (Action Bool Recording)) _ := .nil _
  have run₁ := run₀.concat (.post _ false (.fill .white))
  have run₂ := run₁.concat (.post _ true .present)
  have run₃ := run₂.concat (.pull _ rfl rfl rfl)
  have run₄ := run₃.concat (.announce _ rfl)
  -- From here on the loop is being stopped, but it still takes operations.
  have run₅ := run₄.concat (.post _ false .present)
  have run₆ := run₅.concat (.apply _ rfl)
  have run₇ := run₆.concat (.halt _ rfl)
  -- These two come after the request to halt.
  have run₈ := run₇.concat (.post _ true (.batch []))
  have run₉ := run₈.concat (.post _ true (.fill .black))
  change Run receive _ _ ⟨⟨.stopRequested, ⟨[.apply .present, .apply .present, .halt,
    .apply (.fill .black)]⟩, .alive, filled, second, 0, ⟨1, 0⟩⟩, .empty, none, .waiting⟩ at run₉
  have run₁₀ := run₉.concat (.pull _ rfl rfl rfl)
  have run₁₁ := run₁₀.concat (.apply _ rfl)
  have run₁₂ := run₁₁.concat (.pull _ rfl rfl rfl)
  have run₁₃ := run₁₂.concat (.apply _ rfl)
  change Run receive _ _ ⟨⟨.stopRequested, ⟨[.halt, .apply (.fill .black)]⟩, .alive, filled, second,
    2, ⟨3, 2⟩⟩, .empty, none, .waiting⟩ at run₁₃
  -- The worker finds the request to halt and leaves what is behind it.
  have run₁₄ := run₁₃.concat (.pull _ rfl rfl rfl)
  have run₁₅ := run₁₄.concat (.leave _ rfl)
  have run₁₆ := run₁₅.concat (.collect _ rfl Worker.noConfusion)
  obtain ⟨-, -, -, hend, -⟩ := posted_applied_once_in_order run₁₆
  obtain ⟨-, -, hops⟩ := hend _ (List.mem_append_right _ List.mem_cons_self)
  refine ⟨_, _, run₁₆, ?_, ?_, ?_, _, List.mem_append_right _ List.mem_cons_self, ?_, ?_⟩
  · rw [hops]
    decide +kernel
  · decide +kernel
  · rfl
  · rfl
  · rfl

end Machine

end Easel
