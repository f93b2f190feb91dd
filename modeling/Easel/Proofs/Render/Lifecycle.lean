import Easel.Canvas.Recording
import Easel.Proofs.Render.Stopping

/-!
# The life of a loop

A loop is running, then it has been asked to stop, then it is stopped. Both its owner and its worker
say so: the owner when it asks and when it has collected a worker that died, the worker when it
leaves. Anyone may read where the loop is, at any time.

The owner lets go of the loop once, by stopping it or by dropping its handle. Either way the loop is
shut down; stopping it drops the handle as well, so that it is shut down twice, and the second time
there is no worker to collect.

* `Machine.Ordered.lifecycle_step` — where the loop is, as a function of what owner and worker are
  about;
* `Custody.Step`, `Custody.Run` — a machine with the calls of its owner and with readers;
* `Custody.Run.coherent` — what holds of every run;
* `Custody.lifecycle_advances` — the life of a loop goes one way, and a loop that has been let go of
  has come to its end.
-/

namespace Easel

/-! ### Stages -/

namespace Lifecycle

/-- The stages of a life, counted, so that earlier and later can be compared. -/
def rank : Lifecycle → Nat
  | .running => 0
  | .stopRequested => 1
  | .stopped => 2

instance : LE Lifecycle := ⟨fun a b => a.rank ≤ b.rank⟩

instance (a b : Lifecycle) : Decidable (a ≤ b) := inferInstanceAs (Decidable (a.rank ≤ b.rank))

/-- The stage that comes next. There is none after the last. -/
def next? : Lifecycle → Option Lifecycle
  | .running => some .stopRequested
  | .stopRequested => some .stopped
  | .stopped => none

/-- The same stage or the next one is not an earlier one. -/
theorem le_of_next? {a b : Lifecycle} (h : b = a ∨ a.next? = some b) : a ≤ b := by
  rcases h with rfl | h
  · exact Nat.le_refl _
  · cases a with
    | stopped => exact absurd h nofun
    | _ =>
      obtain rfl := Option.some.inj h
      decide

/-- Nothing comes after the last stage. -/
theorem eq_stopped_of_le {a : Lifecycle} (h : stopped ≤ a) : a = .stopped := by
  cases a with
  | stopped => rfl
  | _ => exact absurd h (by decide)

end Lifecycle

/-- Where a loop is if its owner and its worker are about something. While the owner waits, a worker
that leaves says so itself; a worker that dies does not. So the stage need not be followed through a
run, it can be read off where the two are. -/
def Owner.stage (worker : Worker) : Owner → Lifecycle
  | .holding => .running
  | .announced => .stopRequested
  | .waiting => if worker = .finished then .stopped else .stopRequested
  | .released => .stopped

/-- Only a worker that leaves makes a difference to the stage. -/
theorem Owner.stage_congr {worker other : Worker} (hworker : worker ≠ .finished)
    (hother : other ≠ .finished) (owner : Owner) : owner.stage worker = owner.stage other := by
  cases owner with
  | waiting => rw [stage, stage, if_neg hworker, if_neg hother]
  | _ => rfl

namespace Machine

variable {ι σ ρ : Type}

section Stage

variable {actions : List (Action ι σ)} {m next : Machine σ ρ}

/-- Nobody finds a request to halt that the owner has not posted: what the worker has taken comes
from the queue, and what is in the queue has been posted. -/
theorem Ordered.hasHalted (h : Ordered actions m)
    (hmem : .halt ∈ m.loop.worker.farewell ++ m.inHand.toList) : m.owner.hasHalted = true := by
  by_contra hnot
  have hhalted := h.halted
  rw [Bool.not_eq_true] at hnot
  rw [hnot] at hhalted
  -- Without one, operations are all that has been posted.
  have hpushed : .halt ∈ pushed actions := by
    rw [h.pushed_eq_appliedOps]
    exact List.mem_append_right _ (List.mem_append_left _ hmem)
  rw [pushed_of_halt_not_mem hhalted] at hpushed
  obtain ⟨post, -, hpost⟩ := List.mem_map.mp hpushed
  exact absurd hpost nofun

/-- A worker with a request to halt in its hand is alive, so the owner still waits for it. -/
theorem Ordered.waiting (h : Ordered actions m) (hhand : m.inHand = some .halt) :
    m.loop.worker = .alive ∧ m.owner = .waiting := by
  have halive : m.loop.worker = .alive := h.alive (by rw [hhand]; exact Option.some_ne_none _)
  have hhalted := h.hasHalted (List.mem_append_right _ (by rw [hhand]; exact List.mem_cons_self))
  refine ⟨halive, ?_⟩
  cases howner : m.owner with
  | waiting => rfl
  | released => exact absurd halive (h.released howner)
  | holding =>
    rw [howner] at hhalted
    exact absurd hhalted nofun
  | announced =>
    rw [howner] at hhalted
    exact absurd hhalted nofun

/-- A loop is not stopped as long as its worker is alive: the owner says so after collecting it, or
the worker says so when it leaves. -/
theorem Ordered.worker_ne_alive (h : Ordered actions m)
    (hstopped : m.owner.stage m.loop.worker = .stopped) : m.loop.worker ≠ .alive := by
  intro halive
  cases howner : m.owner with
  | released => exact h.released howner halive
  | _ =>
    rw [howner, halive] at hstopped
    exact absurd hstopped (by decide)

/-- **A step leads from a stage to itself or to the next one**, and after it the stage can again be
read off the owner and the worker. -/
theorem Ordered.lifecycle_step [Surface σ] {receive : Receiver σ ρ} {action : Action ι σ}
    (h : Ordered actions m) (hstage : m.loop.lifecycle = m.owner.stage m.loop.worker)
    (hstep : Step receive m action next) :
    next.loop.lifecycle = next.owner.stage next.loop.worker ∧
      (next.loop.lifecycle = m.loop.lifecycle ∨
        m.loop.lifecycle.next? = some next.loop.lifecycle) := by
  cases hstep with
  | post poster op =>
    rw [Loop.lifecycle_post, Loop.worker_post]
    exact ⟨hstage, Or.inl rfl⟩
  | announce holding =>
    have hrunning : m.loop.lifecycle = .running := by rw [hstage, holding, Owner.stage]
    rw [hrunning]
    exact ⟨rfl, Or.inr rfl⟩
  | halt announced =>
    have hrequested : m.loop.lifecycle = .stopRequested := by rw [hstage, announced, Owner.stage]
    -- The worker cannot have left before there was a request to halt.
    have hworker : m.loop.worker ≠ .finished := fun hc => by
      have hhalted := h.hasHalted (List.mem_append_left _ (by rw [hc]; exact List.mem_cons_self))
      rw [announced] at hhalted
      exact absurd hhalted nofun
    refine ⟨?_, Or.inl rfl⟩
    rw [Owner.stage, Loop.worker_postHalt, if_neg hworker]
    exact hrequested
  | pull alive idle hnext => exact ⟨hstage, Or.inl rfl⟩
  | @apply op hhand =>
    have halive : m.loop.worker ≠ .finished := by
      rw [h.alive (by rw [hhand]; exact Option.some_ne_none _)]
      exact Worker.noConfusion
    -- The worker lives on or dies, but it does not leave.
    have hworker : (m.loop.conclude receive (op.apply m.scenes m.loop.drawing)).worker ≠
        .finished := by
      rcases Loop.conclude_worker receive m.loop (op.apply m.scenes m.loop.drawing) with hw | hw
      · rwa [hw]
      · rw [hw]
        exact Worker.noConfusion
    rw [Loop.handle_apply]
    dsimp only
    rw [Loop.conclude_lifecycle, Owner.stage_congr hworker halive]
    exact ⟨hstage, Or.inl rfl⟩
  | leave hhand =>
    -- The owner waits for this worker, so the loop was asked to stop and is stopped with this step.
    obtain ⟨halive, hwaiting⟩ := h.waiting hhand
    have hrequested : m.loop.lifecycle = .stopRequested := by
      rw [hstage, hwaiting, halive]
      rfl
    rw [hrequested, hwaiting]
    exact ⟨rfl, Or.inr rfl⟩
  | collect waiting gone =>
    -- If the worker has left, it has said so before; if it has died, the owner says so now.
    refine ⟨rfl, ?_⟩
    rw [hstage, waiting, Owner.stage]
    split
    · exact Or.inl rfl
    · exact Or.inr rfl

/-- The request to halt is among what has been posted once, as soon as the owner has posted it, and
not at all before. -/
theorem Ordered.count_halt (h : Ordered actions m) :
    (pushed actions).count .halt = if m.owner.hasHalted = true then 1 else 0 := by
  have hnone : ∀ {actions : List (Action ι σ)}, Action.halt ∉ actions →
      (pushed actions).count .halt = 0 := by
    intro actions hactions
    rw [List.count_eq_zero, pushed_of_halt_not_mem hactions]
    intro hmem
    obtain ⟨post, -, hpost⟩ := List.mem_map.mp hmem
    exact absurd hpost nofun
  -- The owner has halted once if at all, and neither before nor after that is there another
  -- request.
  have hhalted := h.halted
  cases howner : m.owner.hasHalted with
  | false =>
    rw [howner] at hhalted
    exact hnone hhalted
  | true =>
    rw [howner] at hhalted
    obtain ⟨before, after, rfl, hbefore, hafter⟩ := hhalted
    have hmiddle : pushed (Action.halt :: after) = .halt :: pushed after := rfl
    rw [pushed_append, List.count_append, hnone hbefore, hmiddle, List.count_cons_self,
      hnone hafter]
    rfl

end Stage

end Machine

/-! ### Letting go -/

/-- How the owner lets go of a loop. It can do so only once, as either way the handle is gone. -/
inductive Release where
  /-- It stops the loop, which uses up the handle. -/
  | stop
  /-- It drops the handle. -/
  | drop

/-- How often the loop is shut down then: by the call, and when the handle is dropped, which the
call ends with. -/
def Release.shutdowns : Release → Nat
  | .stop => 2
  | .drop => 1

/-- A loop and its owner, who counts down the shutdowns that letting go entails. -/
structure Custody (σ ρ : Type) where
  machine : Machine σ ρ
  /-- The shutdowns that the owner still has to go through, the one under way included. There is no
  such number before the owner lets go. -/
  left : Option Nat

namespace Action

/-- Whether it is the owner who acts, while it shuts the loop down. -/
def isShutdown {ι σ : Type} : Action ι σ → Bool
  | .announce | .halt | .collect _ => true
  | .post .. | .pull _ | .apply .. | .leave => false

end Action

namespace Custody

/-- What happens at once. Readers are told apart by a name. -/
inductive Event (ι κ σ : Type) where
  | act (action : Action ι σ)
  | letGo (release : Release)
  /-- A shutdown finds that the worker has been collected. -/
  | skip
  | read (reader : κ) (lifecycle : Lifecycle)

section Record

variable {ι κ σ : Type} (events : List (Event ι κ σ))

/-- What an event does to the machine, if it does anything. -/
def Event.action? : Event ι κ σ → Option (Action ι σ)
  | .act action => some action
  | .letGo _ | .skip | .read .. => none

/-- What has been read in an event, if it is a reading. -/
def Event.reading? : Event ι κ σ → Option Lifecycle
  | .read _ lifecycle => some lifecycle
  | .act _ | .letGo _ | .skip => none

/-- What has been done to the machine, in order. -/
def performed : List (Action ι σ) := events.filterMap Event.action?

/-- What has been read, by anyone and in order. -/
def readings : List Lifecycle := events.filterMap Event.reading?

/-- What one reader has read, in order. -/
def readingsOf [DecidableEq κ] (reader : κ) : List Lifecycle :=
  events.filterMap fun
    | .read name lifecycle => if name = reader then some lifecycle else none
    | .act _ | .letGo _ | .skip => none

/-- The last event adds at the end what it does to the machine. -/
theorem performed_concat (event : Event ι κ σ) :
    performed (events ++ [event]) = performed events ++ event.action?.toList := by
  rw [performed, List.filterMap_append, performed]
  cases h : event.action? <;> simp [h]

/-- The last event adds at the end what is read in it. -/
theorem readings_concat (event : Event ι κ σ) :
    readings (events ++ [event]) = readings events ++ event.reading?.toList := by
  rw [readings, List.filterMap_append, readings]
  cases h : event.reading? <;> simp [h]

/-- What one reader has read is part of what has been read, in the same order. -/
theorem readingsOf_sublist [DecidableEq κ] (reader : κ) :
    (readingsOf events reader).Sublist (readings events) := by
  induction events with
  | nil => exact List.Sublist.slnil
  | cons event rest ih =>
    cases event with
    | read name lifecycle =>
      by_cases hname : name = reader
      · simpa [readingsOf, readings, Event.reading?, hname] using ih
      · simpa [readingsOf, readings, Event.reading?, hname] using ih.cons lifecycle
    | _ => exact ih

end Record

variable {ι κ σ ρ : Type} [Surface σ]

/-- A loop before anyone has done anything. -/
def start (first second : σ) (receiver : ρ) (scenes : Scenes) : Custody σ ρ :=
  ⟨.start first second receiver scenes, none⟩

/-- Where the loop is. -/
def lifecycle (c : Custody σ ρ) : Lifecycle := c.machine.loop.lifecycle

/-- What anyone can do at once. The owner acts on the loop only to shut it down, in a shutdown that
is under way; everyone else acts as in the machine. Collecting the worker, or finding it collected,
ends a shutdown. -/
inductive Step (receive : Receiver σ ρ) : Custody σ ρ → Event ι κ σ → Custody σ ρ → Prop where
  | others (c : Custody σ ρ) {action : Action ι σ} {next : Machine σ ρ}
      (step : Machine.Step receive c.machine action next) (other : action.isShutdown = false) :
      Step receive c (.act action) { c with machine := next }
  | letGo (c : Custody σ ρ) (release : Release) (kept : c.left = none) :
      Step receive c (.letGo release) { c with left := some release.shutdowns }
  | announce (c : Custody σ ρ) {n : Nat} {next : Machine σ ρ} (left : c.left = some (n + 1))
      (step : Machine.Step receive c.machine (.announce : Action ι σ) next) :
      Step receive c (.act .announce) { c with machine := next }
  | halt (c : Custody σ ρ) {n : Nat} {next : Machine σ ρ} (left : c.left = some (n + 1))
      (step : Machine.Step receive c.machine (.halt : Action ι σ) next) :
      Step receive c (.act .halt) { c with machine := next }
  | collect (c : Custody σ ρ) {n : Nat} {tally : Tally} {next : Machine σ ρ}
      (left : c.left = some (n + 1))
      (step : Machine.Step receive c.machine (.collect tally : Action ι σ) next) :
      Step receive c (.act (.collect tally)) ⟨next, some n⟩
  | skip (c : Custody σ ρ) {n : Nat} (left : c.left = some (n + 1))
      (collected : c.machine.owner = .released) : Step receive c .skip { c with left := some n }
  | read (c : Custody σ ρ) (reader : κ) : Step receive c (.read reader c.lifecycle) c

/-- Any interleaving of steps, with what has happened in order. -/
inductive Run (receive : Receiver σ ρ) :
    Custody σ ρ → List (Event ι κ σ) → Custody σ ρ → Prop where
  | nil (c : Custody σ ρ) : Run receive c [] c
  | concat {first last next : Custody σ ρ} {events : List (Event ι κ σ)} {event : Event ι κ σ} :
      Run receive first events last → Step receive last event next →
        Run receive first (events ++ [event]) next

/-- What happens in the machine is a run of the machine, so that everything known of these holds
here. -/
theorem Run.machine {receive : Receiver σ ρ} {first last : Custody σ ρ}
    {events : List (Event ι κ σ)} (h : Run receive first events last) :
    Machine.Run receive first.machine (performed events) last.machine := by
  induction h with
  | nil => exact .nil _
  | concat _ hstep ih =>
    rw [performed_concat]
    cases hstep with
    | others hmachine _ => exact ih.concat hmachine
    | announce _ hmachine => exact ih.concat hmachine
    | halt _ hmachine => exact ih.concat hmachine
    | collect _ hmachine => exact ih.concat hmachine
    | letGo | skip | read => simpa [Event.action?] using ih

/-! ### What holds of every run -/

/-- What holds between the record of a run and the state that it has led to: the stage, what is left
of letting go, and what has been read so far. -/
structure Coherent (events : List (Event ι κ σ)) (c : Custody σ ρ) : Prop where
  stage : c.lifecycle = c.machine.owner.stage c.machine.loop.worker
  /-- The owner does nothing to the loop before it lets go. -/
  kept : c.left = none → c.machine.owner = .holding
  /-- A shutdown collects the worker or finds it collected. -/
  returned : c.left = some 0 → c.machine.owner = .released
  /-- Nobody reads an earlier stage than someone before. -/
  sorted : (readings events).Pairwise (· ≤ ·)
  latest : ∀ reading ∈ readings events, reading ≤ c.lifecycle

section Coherent

variable {events : List (Event ι κ σ)} {event : Event ι κ σ} {c next : Custody σ ρ}
  {receive : Receiver σ ρ}

omit [Surface σ] in
/-- At the start nobody has read anything, and the owner holds the loop. -/
theorem coherent_start (first second : σ) (receiver : ρ) (scenes : Scenes) :
    Coherent ([] : List (Event ι κ σ)) (start first second receiver scenes) where
  stage := rfl
  kept _ := rfl
  returned h := absurd h nofun
  sorted := .nil
  latest _ h := absurd h List.not_mem_nil

/-- Whatever happens in the machine, the stages go on and what has been read stays true. What is
left to do is given, as it depends on who acts. -/
theorem Coherent.act (h : Coherent events c)
    (hordered : Machine.Ordered (performed events) c.machine) {action : Action ι σ}
    {machine : Machine σ ρ} {left : Option Nat}
    (hstep : Machine.Step receive c.machine action machine)
    (hkept : left = none → machine.owner = .holding)
    (hreturned : left = some 0 → machine.owner = .released) :
    Coherent (events ++ [.act action]) ⟨machine, left⟩ := by
  obtain ⟨hstage, hadvance⟩ := hordered.lifecycle_step h.stage hstep
  have hreadings : readings (events ++ [.act action]) = readings events := by
    rw [readings_concat]
    exact List.append_nil _
  refine ⟨hstage, hkept, hreturned, ?_, fun reading hreading => ?_⟩
  · rw [hreadings]
    exact h.sorted
  · rw [hreadings] at hreading
    exact Nat.le_trans (h.latest reading hreading) (Lifecycle.le_of_next? hadvance)

omit [Surface σ] in
/-- A change to what is left to do leaves the stage and the readings as they are. -/
theorem Coherent.leave (h : Coherent events c) (hreading : event.reading? = none)
    {left : Option Nat}
    (hkept : left = none → c.machine.owner = .holding)
    (hreturned : left = some 0 → c.machine.owner = .released) :
    Coherent (events ++ [event]) ⟨c.machine, left⟩ := by
  have hreadings : readings (events ++ [event]) = readings events := by
    rw [readings_concat, hreading]
    exact List.append_nil _
  refine ⟨h.stage, hkept, hreturned, ?_, ?_⟩
  · rw [hreadings]
    exact h.sorted
  · rw [hreadings]
    exact h.latest

omit [Surface σ] in
/-- A reading is coherent: it comes after all others, and the loop has not gone back since any of
them. -/
theorem Coherent.read (h : Coherent events c) (reader : κ) :
    Coherent (events ++ [.read reader c.lifecycle]) c := by
  refine ⟨h.stage, h.kept, h.returned, ?_, fun reading hreading => ?_⟩
  · -- What is read now is not before what was read earlier.
    rw [readings_concat]
    refine List.pairwise_append.mpr ⟨h.sorted, List.pairwise_singleton _ _, ?_⟩
    intro earlier hearlier later hlater
    obtain rfl := Option.some.inj (Option.mem_toList.mp hlater)
    exact h.latest earlier hearlier
  · rw [readings_concat] at hreading
    rcases List.mem_append.mp hreading with hreading | hreading
    · exact h.latest reading hreading
    · obtain rfl := Option.some.inj (Option.mem_toList.mp hreading)
      exact Nat.le_refl _

/-- A step leads from a stage to itself or to the next one, also where the owner lets go. -/
theorem Coherent.lifecycle_step (h : Coherent events c)
    (hordered : Machine.Ordered (performed events) c.machine) (hstep : Step receive c event next) :
    next.lifecycle = c.lifecycle ∨ c.lifecycle.next? = some next.lifecycle := by
  cases hstep with
  | others hmachine _ => exact (hordered.lifecycle_step h.stage hmachine).2
  | announce _ hmachine => exact (hordered.lifecycle_step h.stage hmachine).2
  | halt _ hmachine => exact (hordered.lifecycle_step h.stage hmachine).2
  | collect _ hmachine => exact (hordered.lifecycle_step h.stage hmachine).2
  | letGo | skip | read => exact Or.inl rfl

/-- Every step keeps the run coherent. Steps of the machine come under `Coherent.act`, those that
count shutdowns under `Coherent.leave`, and there is `Coherent.read` for the readers. -/
theorem Coherent.step (h : Coherent events c)
    (hordered : Machine.Ordered (performed events) c.machine) (hstep : Step receive c event next) :
    Coherent (events ++ [event]) next := by
  cases hstep with
  | others hmachine hother =>
    -- Only the owner changes what it is about.
    have howner : ∀ {action : Action ι σ} {machine : Machine σ ρ},
        Machine.Step receive c.machine action machine → action.isShutdown = false →
          machine.owner = c.machine.owner := by
      intro action machine hmachine hother
      cases hmachine with
      | announce | halt | collect => exact absurd hother nofun
      | _ => rfl
    refine h.act hordered hmachine (fun hnone => ?_) fun hzero => ?_
    · rw [howner hmachine hother]
      exact h.kept hnone
    · rw [howner hmachine hother]
      exact h.returned hzero
  | letGo release hkept =>
    -- There is at least one shutdown to go through.
    refine h.leave rfl nofun fun hzero => ?_
    cases release <;> exact absurd hzero nofun
  -- Neither ends the shutdown under way.
  | announce hleft hmachine =>
    refine h.act hordered hmachine (fun hnone => ?_) fun hzero => ?_
    · exact absurd (hleft.symm.trans hnone) nofun
    · exact absurd (hleft.symm.trans hzero) nofun
  | halt hleft hmachine =>
    refine h.act hordered hmachine (fun hnone => ?_) fun hzero => ?_
    · exact absurd (hleft.symm.trans hnone) nofun
    · exact absurd (hleft.symm.trans hzero) nofun
  | collect hleft hmachine =>
    refine h.act hordered hmachine nofun fun _ => ?_
    cases hmachine with
    | collect => rfl
  | skip hleft hcollected => exact h.leave rfl nofun fun _ => hcollected
  | read reader => exact h.read reader

/-- **Every run is coherent**: the start is, and every step keeps it so. -/
theorem Run.coherent {first second : σ} {receiver : ρ} {scenes : Scenes}
    (h : Run receive (start first second receiver scenes) events c) : Coherent events c := by
  induction h with
  | nil => exact coherent_start first second receiver scenes
  | concat hrun hstep ih => exact ih.step hrun.machine.ordered hstep

/-- A run may be continued by another one from where it has led to. -/
theorem Run.append {first middle last : Custody σ ρ} {later : List (Event ι κ σ)}
    (h : Run receive first events middle) (hlater : Run receive middle later last) :
    Run receive first (events ++ later) last := by
  induction hlater with
  | nil => rwa [List.append_nil]
  | concat _ hstep ih =>
    rw [← List.append_assoc]
    exact ih.concat hstep

/-- **A loop never goes back**: wherever a run has led to, what comes later is the same stage or a
later one. -/
theorem Run.lifecycle_le {first second : σ} {receiver : ρ} {scenes : Scenes}
    {later : List (Event ι κ σ)} {last : Custody σ ρ}
    (h : Run receive (start first second receiver scenes) events c)
    (hlater : Run receive c later last) : c.lifecycle ≤ last.lifecycle := by
  induction hlater with
  | nil => exact Nat.le_refl _
  | concat hrun hstep ih =>
    have hmiddle := h.append hrun
    exact Nat.le_trans ih
      (Lifecycle.le_of_next? (hmiddle.coherent.lifecycle_step hmiddle.machine.ordered hstep))

end Coherent

/-! ### Coming to the end -/

section Return

variable {receive : Receiver σ ρ}

/-- What is left of a release of which `n` shutdowns come after the worker has been collected. -/
def remaining (n : Nat) (m : Machine σ ρ) : Nat := if m.owner = .released then n else n + 1

omit [Surface σ] in
/-- Before the worker is collected there is one shutdown more to go through. -/
theorem remaining_of_ne {m : Machine σ ρ} (h : m.owner ≠ .released) (n : Nat) :
    remaining n m = n + 1 := if_neg h

/-- What can happen in the machine can happen while the owner lets go, in the shutdown that is under
way. -/
theorem Run.of_machine {m last : Machine σ ρ} {actions : List (Action ι σ)}
    (h : Machine.Run receive m actions last) (n : Nat) :
    Run receive (⟨m, some (remaining n m)⟩ : Custody σ ρ)
      (actions.map (Event.act : Action ι σ → Event ι κ σ)) ⟨last, some (remaining n last)⟩ := by
  induction h with
  | nil => exact .nil _
  | @concat last next actions action _ hstep ih =>
    rw [List.map_append]
    refine ih.concat ?_
    cases hstep with
    | post poster op => exact .others _ (.post last poster op) rfl
    | pull alive idle hnext => exact .others _ (.pull last alive idle hnext) rfl
    | apply hhand => exact .others _ (.apply last hhand) rfl
    | leave hhand => exact .others _ (.leave last hhand) rfl
    -- The owner acts in a shutdown that is not over, as it has not collected the worker yet.
    | announce holding =>
      rw [remaining_of_ne (by rw [holding]; exact Owner.noConfusion)]
      exact .announce _ rfl (.announce last holding)
    | halt announced =>
      rw [remaining_of_ne (by rw [announced]; exact Owner.noConfusion)]
      exact .halt _ rfl (.halt last announced)
    | collect waiting gone =>
      rw [remaining_of_ne (by rw [waiting]; exact Owner.noConfusion)]
      exact .collect _ rfl (.collect last waiting gone)

/-- Once the worker is collected, the shutdowns that are left come to nothing: each finds the worker
collected. -/
theorem exists_run_skip (receive : Receiver σ ρ) {m : Machine σ ρ} (h : m.owner = .released)
    (n : Nat) :
    ∃ events : List (Event ι κ σ), Run receive ⟨m, some n⟩ events ⟨m, some 0⟩ := by
  induction n with
  | zero => exact ⟨[], .nil _⟩
  | succ n ih =>
    obtain ⟨events, hrun⟩ := ih
    have hskip : Run receive ⟨m, some (n + 1)⟩ ([] ++ [.skip] : List (Event ι κ σ)) ⟨m, some n⟩ :=
      (Run.nil _).concat (.skip _ rfl h)
    exact ⟨_, hskip.append hrun⟩

/-- **An owner that has let go can come to the end.** The machine can always be brought to where its
worker is collected, and the shutdowns that are left then are skipped. -/
theorem Run.exists_return {first second : σ} {receiver : ρ} {scenes : Scenes}
    {events : List (Event ι κ σ)} {c : Custody σ ρ}
    (h : Run receive (start first second receiver scenes) events c) {n : Nat}
    (hleft : c.left = some n) :
    ∃ (later : List (Event ι κ σ)) (last : Custody σ ρ), Run receive c later last ∧
      last.left = some 0 := by
  obtain ⟨m, left⟩ := c
  obtain rfl : left = some n := hleft
  by_cases howner : m.owner = .released
  · obtain ⟨later, hrun⟩ := exists_run_skip (ι := ι) (κ := κ) receive howner n
    exact ⟨later, _, hrun, rfl⟩
  · -- The worker has to be collected first, in a shutdown that is not over.
    cases n with
    | zero => exact absurd (h.coherent.returned rfl) howner
    | succ n =>
      obtain ⟨actions, last, hrun, -, hlast⟩ := h.machine.canStop
      have hlater := Run.of_machine (κ := κ) hrun n
      rw [remaining_of_ne howner, remaining, if_pos hlast] at hlater
      obtain ⟨skips, hskips⟩ := exists_run_skip (ι := ι) (κ := κ) receive hlast n
      exact ⟨_, _, hlater.append hskips, rfl⟩

end Return

/-! ### The main result -/

/-- **The life of a loop goes one way.** Any number of posters, the worker, which may die of what it
shows, one owner, who lets go of the loop by stopping it or by dropping its handle, and any number
of readers take their steps in any order.

Whatever happens next, the loop stays where it is or goes on to the next stage. So no reader ever
reads an earlier stage than it or any other reader has read before. When the loop is stopped, or
was when it was read, its worker has left or died; if it has left, all operations posted before the
request to halt have been applied. That request is posted once at most, although stopping a loop
shuts it down twice. When the owner is done with letting go the loop is stopped and stays so, and an
owner who lets go can get there. -/
theorem lifecycle_advances [DecidableEq κ] {receive : Receiver σ ρ} {first second : σ}
    {receiver : ρ} {scenes : Scenes} {events : List (Event ι κ σ)} {c : Custody σ ρ}
    (run : Run receive (start first second receiver scenes) events c) :
    -- the stages, and what is read of them
    ((∀ (event : Event ι κ σ) next, Step receive c event next →
        next.lifecycle = c.lifecycle ∨ c.lifecycle.next? = some next.lifecycle) ∧
      (∀ reader, (readingsOf events reader).Pairwise (· ≤ ·)) ∧
      (readings events).Pairwise (· ≤ ·) ∧
      ∀ reading ∈ readings events, reading ≤ c.lifecycle) ∧
    -- a loop that is stopped
    (c.lifecycle = .stopped ∨ .stopped ∈ readings events → c.machine.loop.worker ≠ .alive ∧
      (c.machine.loop.worker ≠ .dead →
        appliedOps (performed events) = (accepted (performed events)).map Prod.snd)) ∧
    -- the request to halt
    (pushed (performed events)).count .halt ≤ 1 ∧
    -- the end
    (c.left = some 0 → ∀ (later : List (Event ι κ σ)) last, Run receive c later last →
      last.lifecycle = .stopped) ∧
    (c.left ≠ none → ∃ (later : List (Event ι κ σ)) (last : Custody σ ρ),
      Run receive c later last ∧ last.left = some 0) := by
  have hordered := run.machine.ordered
  obtain ⟨hstage, -, hreturned, hsorted, hlatest⟩ := run.coherent
  refine ⟨⟨fun event next hstep => ?_, fun reader => ?_, hsorted, hlatest⟩, fun hstopped => ?_, ?_,
    fun hleft later last hlater => ?_, fun hleft => ?_⟩
  · exact run.coherent.lifecycle_step hordered hstep
  · exact hsorted.sublist (readingsOf_sublist events reader)
  -- What was read as stopped is stopped still, as nothing comes after the last stage.
  · have hnow : c.lifecycle = .stopped :=
      hstopped.elim id fun hread => Lifecycle.eq_stopped_of_le (hlatest _ hread)
    have hgone := hordered.worker_ne_alive (hstage.symm.trans hnow)
    refine ⟨hgone, fun hdead => ?_⟩
    cases hworker : c.machine.loop.worker with
    | alive => exact absurd hworker hgone
    | dead => exact absurd hworker hdead
    | finished => exact hordered.appliedOps_eq hworker
  · rw [hordered.count_halt]
    split <;> decide
  · -- The owner has collected the worker, and nothing comes after the last stage.
    have hstopped : c.lifecycle = .stopped := by rw [hstage, hreturned hleft, Owner.stage]
    exact Lifecycle.eq_stopped_of_le (hstopped ▸ run.lifecycle_le hlater)
  · obtain ⟨n, hn⟩ := Option.ne_none_iff_exists'.mp hleft
    exact run.exists_return hn

/-- A loop is stopped while an operation waits, another one is posted too late, and someone reads
how far it is. -/
theorem lifecycle_advances_stop :
    ∃ (events : List (Event Unit Unit Recording)) (c : Custody Recording Nat),
      Run (.steady fun shown _ => shown + 1) (start (.ofSize 1 Loop.defaultSize)
        (.ofSize 2 Loop.defaultSize) 0 .empty) events c ∧
      readingsOf events () = [.running, .stopRequested, .stopped] ∧
      appliedOps (performed events) = [.fill .white] ∧ c.left = some 0 ∧
      c.lifecycle = .stopped := by
  let receive : Receiver Recording Nat := .steady fun shown _ => shown + 1
  have run₀ : Run receive (start (.ofSize 1 Loop.defaultSize) (.ofSize 2 Loop.defaultSize) 0 .empty)
    ([] : List (Event Unit Unit Recording)) _ := .nil _
  have run₁ := run₀.concat (.others _ (.post _ () (.fill .white)) rfl)
  have run₂ := run₁.concat (.letGo _ .stop rfl)
  have run₃ := run₂.concat (.read _ ())
  -- The first shutdown asks the worker to halt, and collects it when it has left.
  have run₄ := run₃.concat (.announce _ rfl (.announce _ rfl))
  have run₅ := run₄.concat (.read _ ())
  have run₆ := run₅.concat (.halt _ rfl (.halt _ rfl))
  have run₇ := run₆.concat (.others _ (.post _ () .present) rfl)
  have run₈ := run₇.concat (.others _ (.pull _ rfl rfl rfl) rfl)
  have run₉ := run₈.concat (.others _ (.apply _ rfl) rfl)
  have run₁₀ := run₉.concat (.others _ (.pull _ rfl rfl rfl) rfl)
  have run₁₁ := run₁₀.concat (.others _ (.leave _ rfl) rfl)
  have run₁₂ := run₁₁.concat (.read _ ())
  have run₁₃ := run₁₂.concat (.collect _ rfl (.collect _ rfl Worker.noConfusion))
  -- The second one finds nothing to collect.
  have run₁₄ := run₁₃.concat (.skip _ rfl rfl)
  obtain ⟨-, happlied, -, hstopped, -⟩ := lifecycle_advances run₁₄
  refine ⟨_, _, run₁₄, rfl, ?_, rfl, hstopped rfl [] _ (.nil _)⟩
  obtain ⟨-, hall⟩ := happlied (Or.inl rfl)
  rw [hall Worker.noConfusion]
  decide +kernel

end Custody

end Easel
