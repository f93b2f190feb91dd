import Easel.Proofs.Render.Fatality
import Easel.Proofs.Render.Lifecycle

/-!
# What a failing receiver leaves behind

A receiver fails in its `p`-th call, and the worker dies. What it has applied by then is what it
would have applied with another receiver, up to the operation that it has died of. The owner notices
nothing before it stops the loop, and can stop it as any other one, only that the counts are lost.

* `Machine.Mortal`, `Machine.Run.mortal` — what a run has done whether or not its worker has died;
* `Machine.Mortal.appliedOps_eq`, `Machine.Mortal.receiver_eq_take` — how far it has come in the
  end, and what the receiver has been shown;
* `Custody.Run.running`, `Custody.Run.settled`, `Custody.Run.stopped` — before the owner lets go,
  once the worker is gone, and when the owner is done;
* `Custody.dying_worker_stops_cleanly` — all of this together.
-/

namespace Easel

open Operation

namespace Machine

variable {ι σ : Type} [Surface σ]

/-! ### What has been applied -/

section Record

variable {origin : Machine σ (List σ)} {actions : List (Action ι σ)}

/-- There is one frame for each applied operation that presents. -/
theorem length_frames (hresults : applications actions =
      origin.loop.results (.steady Receiver.keep) origin.scenes (appliedOps actions)) :
    (frames actions).length = (appliedOps actions).countP presents := by
  rw [frames, List.length_map, ← List.countP_eq_length_filter, hresults,
    Loop.countP_ready_results]

end Record

/-- What holds of a run whatever becomes of its worker: everything that has been applied has been
applied as by a worker whose receiver does not fail. The clauses about the last frame are the only
ones in which the death of the worker shows. -/
structure Mortal (p : Nat) (origin : Machine σ (List σ)) (actions : List (Action ι σ))
    (m : Machine σ (List σ)) : Prop where
  results : applications actions =
    origin.loop.results (.steady Receiver.keep) origin.scenes (appliedOps actions)
  scenes : m.scenes = settle (leavesAll (appliedOps actions)) origin.scenes
  receiver : m.loop.receiver = frames actions
  /-- A worker that has died has not changed the surfaces for the last time. -/
  surfaces : (m.loop.drawing, m.loop.standby) =
    let calm := (origin.loop.handleAll (.steady Receiver.keep) origin.scenes (appliedOps actions)).1
    if m.loop.worker = .dead then (calm.standby, calm.drawing) else (calm.drawing, calm.standby)
  lives : m.loop.worker ≠ .dead → (appliedOps actions).countP presents < p
  dies : m.loop.worker = .dead → ∃ before op, appliedOps actions = before ++ [op] ∧
    op.presents = true ∧ before.countP presents + 1 = p
  collected : ∀ tally, Action.collect tally ∈ actions → tally =
    if m.loop.worker = .dead then .zero
    else ⟨(appliedOps actions).length, (appliedOps actions).countP presents⟩

section Mortal

variable {p : Nat} {first second : σ} {scenes : Scenes} {actions : List (Action ι σ)}
  {m : Machine σ (List σ)}

/-- A run whose worker lives is a run with a receiver that keeps every frame, since this one has not
yet come to the call in which it fails. -/
theorem Run.mortal_of_lives (hp : 0 < p)
    (run : Run (.failingAt p) (start first second [] scenes) actions m)
    (hlives : m.loop.worker ≠ .dead) : Mortal p (start first second [] scenes) actions m := by
  have hfaithful := (run.calm hlives).faithful
  have hreceiver : m.loop.receiver = frames actions := by
    rw [hfaithful.receiver, Receiver.foldl_keep]
    exact List.nil_append _
  have hlength := length_frames hfaithful.results
  refine ⟨hfaithful.results, ?_, hreceiver, ?_, fun _ => ?_, fun hdead => absurd hdead hlives,
    fun tally hmem => ?_⟩
  · rw [hfaithful.scenes, Loop.scenes_handleAll]
  · dsimp only
    -- It has been shown fewer than `p` frames, as it would have failed in the `p`-th.
    rw [if_neg hlives, hfaithful.loop]
  · rw [← hlength, ← hreceiver]
    exact run.length_receiver_lt hp hlives
  · rw [if_neg hlives, (hfaithful.collected tally hmem).1, hfaithful.tally, hlength, appliedOps,
      List.length_map]
    exact congrArg₂ Tally.mk (Nat.zero_add _) (Nat.zero_add _)

/-- A run whose worker has died is a calm run up to one last operation, which presents, and after
that the worker has taken no more steps. What holds of the calm part is carried over this
operation. -/
theorem Fallen.mortal {before : List (Action ι σ)} {eve : Machine σ (List σ)} {op : Operation}
    (h : Fallen p (start first second [] scenes) actions m before eve op) :
    Mortal p (start first second [] scenes) actions m := by
  have hfaithful := h.calm.faithful
  have hdead : m.loop.worker = .dead := by rw [h.loop]
  have hready : (op.apply eve.scenes eve.loop.drawing).ready = true :=
    (ready_scenes_apply op eve.scenes eve.loop.drawing).1.trans h.presents
  have hops : appliedOps actions = appliedOps before ++ [op] := by
    rw [appliedOps, h.applications, List.map_append]
    rfl
  have hframes : frames actions =
      frames before ++ [(op.apply eve.scenes eve.loop.drawing).surface] := by
    rw [frames, h.applications, List.filter_append, List.map_append, frames]
    simp [hready]
  have hreceiver : eve.loop.receiver = frames before := by
    rw [hfaithful.receiver, Receiver.foldl_keep]
    exact List.nil_append _
  -- The last operation has found what the operations before it have left.
  have hdrawing : eve.loop.drawing = ((Loop.start first second []).handleAll
      (.steady Receiver.keep) scenes (appliedOps before)).1.drawing := by
    rw [hfaithful.loop]
    rfl
  have hstandby : eve.loop.standby = ((Loop.start first second []).handleAll
      (.steady Receiver.keep) scenes (appliedOps before)).1.standby := by
    rw [hfaithful.loop]
    rfl
  have hscenes : eve.scenes = ((Loop.start first second []).handleAll
      (.steady Receiver.keep) scenes (appliedOps before)).2 := hfaithful.scenes
  have hlast : (Loop.start first second []).handleAll (.steady Receiver.keep) scenes
        (appliedOps actions) =
      (Loop.conclude (.steady Receiver.keep) ((Loop.start first second []).handleAll
          (.steady Receiver.keep) scenes (appliedOps before)).1
        (op.apply eve.scenes eve.loop.drawing), (op.apply eve.scenes eve.loop.drawing).scenes) := by
    rw [hops, Loop.handleAll_concat, Loop.handle_apply, ← hdrawing, ← hscenes]
  refine ⟨?_, ?_, ?_, ?_, fun hlives => absurd hdead hlives, fun _ => ?_, fun tally hmem => ?_⟩
  · have hresults := Loop.results_concat (.steady Receiver.keep) (Loop.start first second []) scenes
      (appliedOps before) op
    rw [← hdrawing, ← hscenes] at hresults
    rw [hops, h.applications, hfaithful.results]
    exact hresults.symm
  · have hsettle := Loop.scenes_handleAll (.steady Receiver.keep) (Loop.start first second [])
      scenes (appliedOps actions)
    rw [hlast] at hsettle
    exact h.scenes.trans hsettle
  · rw [hframes, ← hreceiver, h.loop]
  · show _ = if m.loop.worker = .dead then _ else _
    rw [if_pos hdead]
    -- The calm loop has let its surfaces change places for the last frame, and the dead worker has
    -- not.
    show _ = (((Loop.start first second []).handleAll _ scenes _).1.standby,
      ((Loop.start first second []).handleAll _ scenes _).1.drawing)
    rw [hlast, Loop.conclude_steady_of_ready _ _ hready, h.loop]
    dsimp only
    rw [hstandby]
  · refine ⟨appliedOps before, op, hops, h.presents, ?_⟩
    rw [← length_frames hfaithful.results, ← hreceiver]
    exact h.last
  · rw [if_pos hdead]
    exact h.collected tally hmem

/-- **Everything that has been applied has been applied as it should**, whatever becomes of the
worker: it lives, or it has died of an operation that was itself applied in full. -/
theorem Run.mortal (hp : 0 < p)
    (run : Run (.failingAt p) (start first second [] scenes) actions m) :
    Mortal p (start first second [] scenes) actions m := by
  by_cases hdead : m.loop.worker = .dead
  · obtain ⟨before, eve, op, hfallen⟩ := run.exists_fallen hdead
    exact hfallen.mortal
  · exact run.mortal_of_lives hp hdead

variable {origin : Machine σ (List σ)}

/-- A worker that has died has applied what there is up to the fatal frame: it takes operations in
the order of posting, and the last one it applied was ready for the `p`-th time. -/
theorem Mortal.appliedOps_eq_of_dead (h : Mortal p origin actions m) (hordered : Ordered actions m)
    (hdead : m.loop.worker = .dead) :
    appliedOps actions = throughPresents p ((accepted actions).map Prod.snd) := by
  obtain ⟨before, op, hops, hpresents, hlast⟩ := h.dies hdead
  obtain ⟨later, hposted⟩ := hordered.appliedOps_prefix
  rw [← hposted, hops, List.append_assoc, List.singleton_append]
  exact (throughPresents_append_cons hpresents hlast later).symm

/-- When the worker is gone, it has applied everything up to the `p`-th operation that presents,
whichever way it went. -/
theorem Mortal.appliedOps_eq (h : Mortal p origin actions m) (hordered : Ordered actions m)
    (hgone : m.loop.worker ≠ .alive) :
    appliedOps actions = throughPresents p ((accepted actions).map Prod.snd) := by
  cases hworker : m.loop.worker with
  | alive => exact absurd hworker hgone
  | dead => exact h.appliedOps_eq_of_dead hordered hworker
  | finished =>
    -- It has come to the request to halt, so it has not been shown too much.
    have hfew := h.lives (hworker ▸ Worker.noConfusion)
    rw [← hordered.appliedOps_eq hworker]
    exact (throughPresents_of_countP_lt hfew).symm

/-- Nothing is ever applied behind the `p`-th operation that presents, and the order is that of
posting. -/
theorem Mortal.appliedOps_prefix (h : Mortal p origin actions m) (hordered : Ordered actions m) :
    appliedOps actions <+: throughPresents p ((accepted actions).map Prod.snd) := by
  by_cases hdead : m.loop.worker = .dead
  · exact ⟨[], (List.append_nil _).trans (h.appliedOps_eq_of_dead hordered hdead)⟩
  · obtain ⟨later, hposted⟩ := hordered.appliedOps_prefix
    rw [← hposted, throughPresents_append (h.lives hdead)]
    exact List.prefix_append _ _

/-- When the worker is gone, the receiver has been called for every frame posted, but at most `p`
times. -/
theorem Mortal.length_receiver (h : Mortal p origin actions m) (hordered : Ordered actions m)
    (hgone : m.loop.worker ≠ .alive) :
    m.loop.receiver.length = min p (((accepted actions).map Prod.snd).countP presents) := by
  calc m.loop.receiver.length
      = (frames actions).length := congrArg List.length h.receiver
    _ = (appliedOps actions).countP presents := length_frames h.results
    _ = (throughPresents p ((accepted actions).map Prod.snd)).countP presents := by
        rw [h.appliedOps_eq hordered hgone]
    _ = min p (((accepted actions).map Prod.snd).countP presents) := countP_throughPresents p _

/-- When the worker is gone, it has died exactly if at least `p` of the posted operations
present. -/
theorem Mortal.dead_iff (h : Mortal p origin actions m) (hordered : Ordered actions m)
    (hgone : m.loop.worker ≠ .alive) :
    m.loop.worker = .dead ↔ p ≤ ((accepted actions).map Prod.snd).countP presents := by
  have hcount := countP_throughPresents p ((accepted actions).map Prod.snd)
  rw [← h.appliedOps_eq hordered hgone] at hcount
  -- What has been applied is ready `p` times if the worker has died, and less often if not.
  constructor
  · intro hdead
    obtain ⟨before, op, hops, hpresents, hlast⟩ := h.dies hdead
    rw [hops, List.countP_append, List.countP_singleton, if_pos hpresents] at hcount
    omega
  · intro hle
    by_contra hlives
    have hfew := h.lives hlives
    omega

/-- A worker that has not died has counted everything, and of one that has died no counts are left:
the owner collects zeros. -/
theorem Mortal.tally_eq (h : Mortal p origin actions m) (hordered : Ordered actions m)
    {tally : Tally} (hmem : Action.collect tally ∈ actions) :
    tally = if m.loop.worker = .dead then .zero
      else ⟨((accepted actions).map Prod.snd).length,
        ((accepted actions).map Prod.snd).countP presents⟩ := by
  have hgone : m.loop.worker ≠ .alive := hordered.released (hordered.collected.mpr ⟨tally, hmem⟩)
  rw [h.collected tally hmem]
  cases hworker : m.loop.worker with
  | alive => exact absurd hworker hgone
  | dead => rfl
  | finished => rw [hordered.appliedOps_eq hworker]

/-- The receiver has been shown what a receiver that does not fail would have been shown first,
frame by frame. -/
theorem Mortal.frames_prefix (h : Mortal p origin actions m) (hordered : Ordered actions m)
    (hnothing : origin.loop.receiver = []) :
    frames actions <+: (origin.loop.handleAll (.steady Receiver.keep) origin.scenes
      ((accepted actions).map Prod.snd)).1.receiver := by
  -- The results of more operations begin with the results of these.
  obtain ⟨later, hposted⟩ := hordered.appliedOps_prefix
  rw [Loop.receiver_handleAll, Receiver.foldl_keep, hnothing, List.nil_append, ← hposted,
    Loop.results_append, ← h.results]
  exact ((List.prefix_append _ _).filter _).map _

/-- When the worker is gone, the receiver has been shown the first `p` frames of those that all
posted operations would have made. -/
theorem Mortal.receiver_eq_take (h : Mortal p origin actions m) (hordered : Ordered actions m)
    (hnothing : origin.loop.receiver = []) (hgone : m.loop.worker ≠ .alive) :
    m.loop.receiver = (origin.loop.handleAll (.steady Receiver.keep) origin.scenes
      ((accepted actions).map Prod.snd)).1.receiver.take p := by
  have hprefix := h.frames_prefix hordered hnothing
  have hlength := h.length_receiver hordered hgone
  have hall := origin.loop.length_receiver_handleAll origin.scenes
    ((accepted actions).map Prod.snd)
  rw [hnothing, List.length_nil, Nat.zero_add] at hall
  rw [← h.receiver] at hprefix
  rw [List.prefix_iff_eq_take.mp hprefix, hlength]
  -- There may be fewer frames than it takes to fail.
  refine List.take_eq_take_iff.mpr ?_
  rw [hall]
  omega

end Mortal

end Machine

/-! ### The end of a loop -/

namespace Custody

variable {ι κ σ ρ : Type} [Surface σ]

section Release

variable {receive : Receiver σ ρ} {first second : σ} {receiver : ρ} {scenes : Scenes}
  {events : List (Event ι κ σ)} {c : Custody σ ρ}

/-- Nothing is left to do for an owner who has not let go. -/
theorem Run.left_eq_none (run : Run receive (start first second receiver scenes) events c)
    (hkept : ∀ release, .letGo release ∉ events) : c.left = none := by
  induction run with
  | nil => rfl
  | concat _ hstep ih =>
    -- Only letting go gives the owner something to do, and every step that follows needs it to be
    -- there.
    have hnone := ih fun release hmem => hkept release (List.mem_append_left _ hmem)
    cases hstep with
    | letGo release kept =>
      exact absurd (List.mem_append_right _ List.mem_cons_self) (hkept release)
    | others hmachine hother => exact hnone
    | read reader => exact hnone
    | announce hleft _ => exact absurd (hleft.symm.trans hnone) nofun
    | halt hleft _ => exact absurd (hleft.symm.trans hnone) nofun
    | collect hleft _ => exact absurd (hleft.symm.trans hnone) nofun
    | skip hleft _ => exact absurd (hleft.symm.trans hnone) nofun

/-- **A loop runs until its owner lets go**, and that is what everyone reads. -/
theorem Run.running (run : Run receive (start first second receiver scenes) events c)
    (hkept : ∀ release, .letGo release ∉ events) :
    c.lifecycle = .running ∧ ∀ reading ∈ readings events, reading = .running := by
  obtain ⟨hstage, hholding, -, -, hlatest⟩ := run.coherent
  have hrunning : c.lifecycle = .running := by
    rw [hstage, hholding (run.left_eq_none hkept), Owner.stage]
  refine ⟨hrunning, fun reading hreading => ?_⟩
  have hle := hlatest reading hreading
  rw [hrunning] at hle
  cases reading with
  | running => rfl
  | _ => exact absurd hle (by decide)

/-- An owner who is done has collected the worker, and the loop is stopped for good, whatever is
done with it later. -/
theorem Run.stopped (run : Run receive (start first second receiver scenes) events c)
    (hdone : c.left = some 0) :
    c.machine.loop.worker ≠ .alive ∧ ∀ (later : List (Event ι κ σ)) last,
      Run receive c later last → last.lifecycle = .stopped := by
  obtain ⟨hstage, -, hreturned, -, -⟩ := run.coherent
  have hreleased := hreturned hdone
  refine ⟨run.machine.ordered.released hreleased, fun later last hlater => ?_⟩
  -- Nothing comes after the last stage.
  have hstopped : c.lifecycle = .stopped := by rw [hstage, hreleased, Owner.stage]
  exact Lifecycle.eq_stopped_of_le (hstopped ▸ run.lifecycle_le hlater)

/-- What has been applied when the worker is gone is all that will be, and the figures stay where it
has left them. -/
theorem Run.settled (run : Run receive (start first second receiver scenes) events c)
    (hgone : c.machine.loop.worker ≠ .alive) {later : List (Event ι κ σ)} {last : Custody σ ρ}
    (hlater : Run receive c later last) :
    appliedOps (performed (events ++ later)) = appliedOps (performed events) ∧
      last.machine.scenes = c.machine.scenes := by
  obtain ⟨happlications, -, hscenes, -⟩ :=
    hlater.machine.of_gone hgone (run.machine.ordered.inHand_eq_none hgone)
  refine ⟨?_, hscenes⟩
  have hsplit : applications (performed (events ++ later)) =
      applications (performed events) ++ applications (performed later) := by
    rw [performed, List.filterMap_append, applications, List.filterMap_append]
    rfl
  rw [appliedOps, hsplit, happlications, List.append_nil, appliedOps]

end Release

/-! ### The main result -/

/-- **A worker that dies stops cleanly.** Any number of posters, the worker, whose receiver fails in
its `p`-th call, one owner and any number of readers take their steps in any order.

At every moment whole operations have been applied, in the order of posting, none of them behind the
`p`-th one that is ready; what has come of them is what would have come of them otherwise, for the
figures and for the surfaces, which have only not changed places for the last time.

Once the worker is gone, all operations up to that one have been applied, or all if there are fewer
that are ready, and no others will be: they stay in the queue. The receiver has been shown the first
`p` of the frames that it would have been shown otherwise.

Before the owner lets go the loop is running. If the worker has died the owner gets zeros, and else
the true counts. It can always come to its end, and then the loop is stopped for good. All figures
are still there, where the operations have left them, and can be moved. -/
theorem dying_worker_stops_cleanly {p : Nat} (hp : 0 < p) {first second : σ} {scenes : Scenes}
    {events : List (Event ι κ σ)} {c : Custody σ (List σ)}
    (run : Run (.failingAt p) (start first second [] scenes) events c) :
    let m := c.machine
    let origin := Loop.start first second ([] : List σ)
    let posted := (accepted (performed events)).map Prod.snd
    let applied := appliedOps (performed events)
    let calm := (origin.handleAll (.steady Receiver.keep) scenes applied).1
    -- at every moment,
    (applied <+: throughPresents p posted ∧
      applications (performed events) = origin.results (.steady Receiver.keep) scenes applied ∧
      m.scenes = settle (leavesAll applied) scenes ∧
      (m.loop.drawing, m.loop.standby) =
        if m.loop.worker = .dead then (calm.standby, calm.drawing)
        else (calm.drawing, calm.standby)) ∧
    -- once the worker is gone,
    (m.loop.worker ≠ .alive →
      (m.loop.worker = .dead ↔ p ≤ posted.countP presents) ∧
      applied = throughPresents p posted ∧
      (∀ (later : List (Event ι κ σ)) last, Run (.failingAt p) c later last →
        appliedOps (performed (events ++ later)) = applied ∧ last.machine.scenes = m.scenes) ∧
      m.loop.receiver.length = min p (posted.countP presents) ∧
      m.loop.receiver =
        (origin.handleAll (.steady Receiver.keep) scenes posted).1.receiver.take p ∧
      ∀ (others : List (Action ι σ)) last,
        Machine.Run (.steady Receiver.keep) (.start first second [] scenes) others last →
        (accepted others).map Prod.snd = posted → last.loop.worker = .finished →
        m.loop.receiver = last.loop.receiver.take p) ∧
    (m.loop.worker = .dead →
      pushed (performed events) = applied.map .apply ++ m.loop.queue.items) ∧
    -- before the owner lets go,
    ((∀ release, .letGo release ∉ events) →
      c.lifecycle = .running ∧ ∀ reading ∈ readings events, reading = .running) ∧
    -- and what it gets then.
    (∀ tally, Action.collect tally ∈ performed events → tally =
      if m.loop.worker = .dead then .zero else ⟨posted.length, posted.countP presents⟩) ∧
    (c.left ≠ none → ∃ (later : List (Event ι κ σ)) (last : Custody σ (List σ)),
      Run (.failingAt p) c later last ∧ last.left = some 0) ∧
    (c.left = some 0 → m.loop.worker ≠ .alive ∧ ∀ (later : List (Event ι κ σ)) last,
      Run (.failingAt p) c later last → last.lifecycle = .stopped) ∧
    ∀ scene ids dx dy, (m.scenes.figures scene).size = (scenes.figures scene).size ∧
      (m.scenes.translate scene ids dx dy).figures scene =
        Scenes.shiftAll ids dx dy (m.scenes.figures scene) := by
  intro m origin posted applied calm
  have hordered := run.machine.ordered
  have hmortal := run.machine.mortal hp
  refine ⟨⟨hmortal.appliedOps_prefix hordered, hmortal.results, hmortal.scenes, hmortal.surfaces⟩,
    ?_, ?_, run.running, ?_, ?_, run.stopped, ?_⟩
  · intro hgone
    -- The four statements about a worker that is gone rest on how far it has come.
    have htake := hmortal.receiver_eq_take hordered rfl hgone
    refine ⟨hmortal.dead_iff hordered hgone, hmortal.appliedOps_eq hordered hgone, ?_,
      hmortal.length_receiver hordered hgone, htake, ?_⟩
    · intro later last hlater
      exact run.settled hgone hlater
    -- A worker that has left has applied everything, so the other run has come as far as it can.
    intro others last hothers hsame hfinished
    have hall : appliedOps others = posted :=
      (hothers.ordered.appliedOps_eq hfinished).trans hsame
    rw [hothers.faithful.loop, hall]
    exact htake
  · intro hdead
    -- What was pushed is what was applied, what is in hand and what is in the queue; a dead worker
    -- has nothing in hand.
    have hpushed := hordered.pushed_eq_appliedOps
    rwa [hordered.inHand_eq_none (hdead ▸ Worker.noConfusion), hdead] at hpushed
  · intro tally hmem
    exact hmortal.tally_eq hordered hmem
  · intro hleft
    obtain ⟨n, hn⟩ := Option.ne_none_iff_exists'.mp hleft
    exact run.exists_return hn
  · intro scene ids dx dy
    rw [hmortal.scenes, Scenes.figures_translate, if_pos rfl]
    exact ⟨size_figures_settle _ _ _, rfl⟩

/-- The first frame is the last one. There is a fill behind it, and the loop is stopped when all has
been posted. -/
theorem dying_worker_stops_cleanly_first :
    ∃ (events : List (Event Unit Unit Recording)) (c : Custody Recording (List Recording)),
      Run (.failingAt 1) (start (.ofSize 1 Loop.defaultSize) (.ofSize 2 Loop.defaultSize) [] .empty)
        events c ∧
      appliedOps (performed events) = [.fill .white, .present] ∧
      c.machine.loop.receiver.length = 1 ∧
      c.machine.loop.queue.items = [.apply (.fill .black), .halt] ∧
      (∃ tally, Action.collect tally ∈ performed events ∧ tally = .zero) ∧
      c.left = some 0 ∧ c.lifecycle = .stopped := by
  let first := Recording.ofSize 1 Loop.defaultSize
  let second := Recording.ofSize 2 Loop.defaultSize
  let filled := first.fill first.bounds .white
  have run₀ : Run (.failingAt 1) (start first second [] .empty)
    ([] : List (Event Unit Unit Recording)) _ := .nil _
  have run₁ := run₀.concat (.others _ (.post _ () (.fill .white)) rfl)
  have run₂ := run₁.concat (.others _ (.post _ () .present) rfl)
  have run₃ := run₂.concat (.others _ (.post _ () (.fill .black)) rfl)
  have run₄ := run₃.concat (.others _ (.pull _ rfl rfl rfl) rfl)
  have run₅ := run₄.concat (.others _ (.apply _ rfl) rfl)
  change Run _ _ _ ⟨⟨⟨.running, ⟨[.apply .present, .apply (.fill .black)]⟩, .alive, filled, second,
    [], ⟨1, 0⟩⟩, .empty, none, .holding⟩, none⟩ at run₅
  have run₆ := run₅.concat (.letGo _ .stop rfl)
  have run₇ := run₆.concat (.announce _ rfl (.announce _ rfl))
  have run₈ := run₇.concat (.others _ (.pull _ rfl rfl rfl) rfl)
  -- The worker dies of this one.
  have run₉ := run₈.concat (.others _ (.apply _ rfl) rfl)
  have run₁₀ := run₉.concat (.halt _ rfl (.halt _ rfl))
  change Run _ _ _ ⟨⟨⟨.stopRequested, ⟨[.apply (.fill .black), .halt]⟩, .dead, filled, second,
    [filled], ⟨2, 0⟩⟩, .empty, none, .waiting⟩, some 2⟩ at run₁₀
  have run₁₁ := run₁₀.concat (.collect _ rfl (.collect _ rfl Worker.noConfusion))
  have run₁₂ := run₁₁.concat (.skip _ rfl rfl)
  obtain ⟨-, hgone, -, -, htally, -, hstopped, -⟩ := dying_worker_stops_cleanly Nat.one_pos run₁₂
  obtain ⟨hworker, hend⟩ := hstopped rfl
  obtain ⟨-, happlied, -, hlength, -⟩ := hgone hworker
  have hcollect : ∀ earlier : List (Event Unit Unit Recording),
      Action.collect .zero ∈ performed (earlier ++ [.act (.collect .zero)] ++ [.skip]) := fun _ =>
    List.mem_filterMap.mpr ⟨.act (.collect .zero),
      List.mem_append_left _ (List.mem_append_right _ List.mem_cons_self), rfl⟩
  refine ⟨_, _, run₁₂, happlied.trans ?_, hlength.trans ?_, rfl,
    ⟨_, hcollect _, htally _ (hcollect _)⟩, rfl, hend [] _ (.nil _)⟩
  · decide +kernel
  · decide +kernel

end Custody

end Easel
