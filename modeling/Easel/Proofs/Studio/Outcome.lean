import Easel.Proofs.Studio.Exchange
import Easel.Proofs.Studio.Frames
import Mathlib.Logic.Relation

/-!
# The outcome of a studio

One author feeds calls to a compiler, posts the batches and finally stops the loop, while the worker
goes on in whatever order the two happen to take turns. Since turns may be exchanged, all schedules
that come to an end come to the same end: it makes no difference whether the worker draws an earlier
batch before, during or after the compilation of a later script. This is so for every receiver, even
one that fails.

* `Studio.runToStop` — what a schedule leads to, the request to halt included;
* `Studio.Orderly` — what holds on every schedule;
* `Studio.Orderly.work_proceed` — the turns of the author and of the worker may be exchanged;
* `Studio.Orderly.exists_isOver` — every schedule can be brought to an end;
* `Studio.outcome_of_schedule` — the end is the same.
-/

namespace Easel

open Operation
open Script (Compiler)

namespace Studio

section Load

variable {ι σ ρ : Type} [Surface σ] (receive : Receiver σ ρ) {studio : Studio ι σ ρ}

/-- A bound on the turns that the worker has ahead of it: one for each leaf in its hand and one to
conclude, and for each message one to take it, one to conclude, and its leaves. -/
def load (studio : Studio ι σ ρ) : Nat :=
  studio.hand.elim 0 (·.1.length + 1) +
    studio.loop.queue.items.foldr (fun message turns => message.leaves.length + 2 + turns) 0

/-- The request to halt is posted, or the worker is gone. Once this is so, the worker does not wait
for anything any more. -/
def IsHalting (studio : Studio ι σ ρ) : Prop :=
  .halt ∈ studio.loop.queue.items ∨ studio.loop.worker ≠ .alive

/-- A worker that has something to do has less to do after its turn. Taking an operation turns what
the message counts for into what the hand counts for, and that is one less. -/
theorem load_work (hbusy : studio.hand ≠ none ∨
    studio.loop.worker = .alive ∧ studio.loop.queue.items ≠ []) :
    (studio.work receive).load < studio.load := by
  obtain ⟨authors, scenes, ⟨lifecycle, ⟨items⟩, worker, drawing, standby, receiver, tally⟩, hand,
    posted⟩ := studio
  -- A leaf costs one turn, and so does the conclusion.
  cases hand with
  | some held =>
    obtain ⟨leaves, ready⟩ := held
    cases leaves with
    | cons leaf rest =>
      simp only [work, load, Option.elim, List.length_cons]
      omega
    | nil =>
      simp only [work, load, Option.elim, Loop.conclude_queue]
      omega
  | none =>
    obtain ⟨rfl : worker = .alive, hitems⟩ := hbusy.resolve_left fun h => h rfl
    cases items with
    -- A worker that has nothing in its hand is busy only if there is a message.
    | nil => exact absurd rfl hitems
    | cons message rest =>
      cases message with
      | apply op =>
        simp only [work, load, Queue.pull?, Option.elim, List.foldr_cons, Message.leaves]
        omega
      | halt =>
        simp only [work, load, Queue.pull?, Loop.handle, Option.elim, List.foldr_cons]
        omega

/-- The worker takes the request to halt from the queue only to leave. -/
theorem IsHalting.work (h : studio.IsHalting) : (studio.work receive).IsHalting := by
  obtain ⟨authors, scenes, ⟨lifecycle, ⟨items⟩, worker, drawing, standby, receiver, tally⟩, hand,
    posted⟩ := studio
  cases hand with
  | some held =>
    obtain ⟨leaves, ready⟩ := held
    cases leaves with
    | cons leaf rest => exact h
    | nil =>
      rw [work_of_done receive rfl, IsHalting]
      dsimp only
      rw [Loop.conclude_queue]
      refine h.imp_right fun hgone => ?_
      -- A receiver that fails makes the worker die, and it does not come back to life.
      rcases Loop.conclude_worker receive ⟨lifecycle, ⟨items⟩, worker, drawing, standby, receiver,
        tally⟩ ⟨ready, scenes, drawing⟩ with hsame | hdead
      · rwa [hsame]
      · rw [hdead]
        exact nofun
  | none =>
    cases worker with
    | finished => exact h
    | dead => exact h
    | alive =>
      cases items with
      | nil => exact h
      | cons message rest =>
        cases message with
        | halt => exact Or.inr nofun
        | apply op =>
          -- The request to halt stands behind the operation.
          refine Or.inl ?_
          have hmem := h.resolve_right fun hgone => hgone rfl
          exact (List.mem_cons.mp hmem).resolve_left nofun

end Load

variable {σ ρ : Type}

/-- The author goes on with the calls and, when it has got done with them, stops the loop. It does
so once, for a loop that has been asked to stop is not running any more. -/
def proceed (studio : Studio Unit σ ρ) : Studio Unit σ ρ :=
  if (studio.authors ()).IsDone then
    if studio.loop.lifecycle = .running then studio.requestStop else studio
  else studio.write ()

section Proceed

variable {studio : Studio Unit σ ρ}

/-- An author who has got done stops a loop that is running. -/
theorem proceed_of_running (hdone : (studio.authors ()).IsDone)
    (hrunning : studio.loop.lifecycle = .running) : studio.proceed = studio.requestStop := by
  rw [proceed, if_pos hdone, if_pos hrunning]

/-- An author who has got done and has stopped the loop does nothing more. -/
theorem proceed_of_asked (hdone : (studio.authors ()).IsDone)
    (hasked : studio.loop.lifecycle ≠ .running) : studio.proceed = studio := by
  rw [proceed, if_pos hdone, if_neg hasked]

/-- An author who has not got done goes on with the calls. -/
theorem proceed_of_not_isDone (hdone : ¬ (studio.authors ()).IsDone) :
    studio.proceed = studio.write () := by
  rw [proceed, if_neg hdone]

end Proceed

section Runs

variable [Surface σ] (receive : Receiver σ ρ)

/-- A turn of a studio whose author stops the loop at the end. -/
def turnToStop (studio : Studio Unit σ ρ) : Turn Unit → Studio Unit σ ρ
  | .author _ => studio.proceed
  | .worker => studio.work receive

/-- Turns are taken in the order of a schedule, by an author who stops the loop at the end. -/
def runToStop (studio : Studio Unit σ ρ) (schedule : List (Turn Unit)) : Studio Unit σ ρ :=
  schedule.foldl (turnToStop receive) studio

/-- A schedule may be cut anywhere. -/
theorem runToStop_append (studio : Studio Unit σ ρ) (schedule later : List (Turn Unit)) :
    studio.runToStop receive (schedule ++ later) =
      (studio.runToStop receive schedule).runToStop receive later :=
  List.foldl_append

end Runs

/-- The author has got done and has stopped the loop, and the worker has left or died. -/
def IsOver (studio : Studio Unit σ ρ) : Prop :=
  (studio.authors ()).IsDone ∧ studio.loop.lifecycle ≠ .running ∧ studio.loop.worker ≠ .alive ∧
    studio.hand = none

instance (studio : Studio Unit σ ρ) : Decidable studio.IsOver := inferInstanceAs (Decidable (_ ∧ _))

/-- **No turn leads away from the end.** The author has nothing to do any more, and the worker has
gone with an empty hand. -/
theorem IsOver.turnToStop [Surface σ] (receive : Receiver σ ρ) {studio : Studio Unit σ ρ}
    (h : studio.IsOver) (turn : Turn Unit) : studio.turnToStop receive turn = studio := by
  obtain ⟨hdone, hasked, hgone, hhand⟩ := h
  cases turn with
  | author _ => exact proceed_of_asked hdone hasked
  | worker => exact work_of_gone receive hhand hgone

/-- What holds of a studio whose author follows a program and stops the loop at the end. The author
is followed in the scenes that lie ahead, where all that has been posted has been applied. -/
structure Orderly (program : Program) (studio : Studio Unit σ ρ) : Prop where
  /-- The worker finds the figures of all leaves that it has not applied. -/
  known : ∀ leaf ∈ studio.unapplied, leaf.Known studio.scenes
  flat : ∀ members, .batch members ∉ studio.todo
  /-- The author does not wait for the worker. -/
  follows : (studio.authors ()).Follows program studio.ahead
  /-- The request to halt is the last thing that is posted. -/
  halt : .halt ∈ studio.loop.queue.items →
    (studio.authors ()).IsDone ∧ studio.loop.lifecycle ≠ .running
  halting : studio.loop.lifecycle ≠ .running → studio.IsHalting

namespace Orderly

variable {program : Program} {studio : Studio Unit σ ρ}

section Work

variable [Surface σ] (receive : Receiver σ ρ)

/-- The worker's turn keeps a studio orderly. It applies one of the leaves ahead or none, and so
brings the scenes closer to those ahead and does not change these. -/
theorem work (h : studio.Orderly program) : (studio.work receive).Orderly program := by
  obtain ⟨hauthors, -⟩ := work_keeps receive studio
  have hlifecycle := lifecycle_work receive studio
  refine ⟨?_, batch_notMem_todo_work receive h.flat, ?_, fun hmem => ?_, fun hasked => ?_⟩
  · rcases unapplied_work receive h.flat with ⟨hsame, hscenes⟩ | ⟨leaf, hleaf, hscenes⟩
    · rw [hsame, hscenes]
      exact h.known
    · intro later hlater
      rw [hscenes]
      refine (h.known later ?_).ownMove leaf
      rw [hleaf]
      exact List.mem_cons_of_mem _ hlater
  · rw [hauthors, ahead_work receive h.flat]
    exact h.follows
  -- A request to halt that is in the queue afterwards has been there before.
  · obtain ⟨hdone, hasked⟩ := h.halt (items_work_subset receive studio hmem)
    rw [hauthors]
    refine ⟨hdone, ?_⟩
    rcases hlifecycle with hsame | ⟨-, hstopped⟩
    · rwa [hsame]
    · rw [hstopped]
      exact nofun
  · rcases hlifecycle with hsame | ⟨hmem, -⟩
    · rw [hsame] at hasked
      exact (h.halting hasked).work receive
    · exact IsHalting.work receive (Or.inl hmem)

end Work

/-- A turn of the author that posts something or nothing keeps a studio orderly. The leaves that are
posted are known in the scenes that the author leads to. -/
theorem write (h : studio.Orderly program) (hbusy : ¬ (studio.authors ()).IsDone) :
    (studio.write ()).Orderly program := by
  have hnext := h.follows.turn.1
  have hflat : ∀ leaf ∈ ((studio.authors ()).turn studio.ahead).2.2.getD [],
      leaf.leaves = [leaf] := fun leaf hleaf => (h.follows.leaf_of_mem hleaf).1
  have hnew : ∀ leaf ∈ ((studio.authors ()).turn studio.ahead).2.2.getD [],
      leaf.Known ((studio.authors ()).turn studio.ahead).2.1 :=
    fun leaf hleaf => (h.follows.leaf_of_mem hleaf).2.1
  have hahead := ahead_write h.known hflat
  -- What is known of the turn in the scenes ahead holds of the turn that is really taken.
  rw [turn_ahead h.known] at hflat hnew hnext
  refine ⟨?_, ?_, ?_, fun hmem => ?_, fun hasked => ?_⟩
  · rw [unapplied_write hflat, write_eq]
    intro leaf hleaf
    -- The old leaves are known in scenes that have grown, and the new ones refer to what has grown.
    rcases List.mem_append.mp hleaf with hold | hlast
    · exact (studio.authors ()).known_turn (h.known leaf hold)
    · exact (hnew leaf hlast).mono fun scene => Nat.le_of_eq (size_figures_settle _ _ _)
  · rw [write_eq]
    exact h.flat
  · rw [hahead, turn_ahead h.known, write_eq]
    exact hnext
  · rw [write_eq] at hmem
    rcases List.mem_append.mp hmem with hold | hnew
    · -- An author that is not done has not asked the worker to halt.
      exact absurd (h.halt hold).1 hbusy
    · exact absurd hnew (halt_notMem_mail _)
  · rw [write_eq] at hasked ⊢
    exact (h.halting hasked).imp_left (List.mem_append_left _)

/-- The author's turn keeps a studio orderly, whether it goes on with the calls, stops the loop or
does nothing. -/
theorem proceed (h : studio.Orderly program) : studio.proceed.Orderly program := by
  by_cases hdone : (studio.authors ()).IsDone
  · by_cases hrunning : studio.loop.lifecycle = .running
    · rw [proceed_of_running hdone hrunning]
      -- A request to halt has no leaves, so nothing is added to what lies ahead.
      have hsame : studio.requestStop.unapplied = studio.unapplied := by
        change studio.todo ++ (studio.loop.queue.items ++ [Message.halt]).flatMap Message.leaves = _
        rw [List.flatMap_append]
        exact congrArg (studio.todo ++ ·) (List.append_nil _)
      refine ⟨?_, h.flat, ?_, fun _ => ⟨hdone, nofun⟩, fun _ => Or.inl ?_⟩
      · rw [hsame]
        exact h.known
      · rw [ahead, hsame]
        exact h.follows
      · exact List.mem_append_right _ List.mem_cons_self
    · rw [proceed_of_asked hdone hrunning]
      exact h
  · rw [proceed_of_not_isDone hdone]
    exact h.write hdone

section Exchange

variable [Surface σ] (receive : Receiver σ ρ)

/-- **The turns of the author and of the worker may be exchanged**, unless the worker has nothing to
do. It might have to wait for this very turn of the author. -/
theorem work_proceed (h : studio.Orderly program) (hbusy : studio.work receive ≠ studio) :
    studio.proceed.work receive = (studio.work receive).proceed := by
  obtain ⟨hauthors, -⟩ := work_keeps receive studio
  have hlifecycle := lifecycle_work receive studio
  by_cases hdone : (studio.authors ()).IsDone
  · have hdoneAfter : ((studio.work receive).authors ()).IsDone := by rwa [hauthors]
    by_cases hrunning : studio.loop.lifecycle = .running
    · -- As long as the loop runs, the queue holds no request to halt.
      have hhalt : Message.halt ∉ studio.loop.queue.items := fun hmem => (h.halt hmem).2 hrunning
      have hrunningAfter : (studio.work receive).loop.lifecycle = .running := by
        rw [hlifecycle.resolve_right fun hc => hhalt hc.1, hrunning]
      rw [proceed_of_running hdone hrunning, proceed_of_running hdoneAfter hrunningAfter]
      exact work_requestStop receive h.flat hbusy hhalt
    · have haskedAfter : (studio.work receive).loop.lifecycle ≠ .running := by
        rcases hlifecycle with hsame | ⟨-, hstopped⟩
        · rwa [hsame]
        · rw [hstopped]
          exact nofun
      rw [proceed_of_asked hdone hrunning, proceed_of_asked hdoneAfter haskedAfter]
  · have hdoneAfter : ¬ ((studio.work receive).authors ()).IsDone := by rwa [hauthors]
    rw [proceed_of_not_isDone hdone, proceed_of_not_isDone hdoneAfter]
    exact work_write receive (fun leaf hleaf => h.known leaf (List.mem_append_left _ hleaf)) h.flat
      hbusy ()

/-- A studio stays orderly on every turn. -/
theorem turnToStop (h : studio.Orderly program) (turn : Turn Unit) :
    (studio.turnToStop receive turn).Orderly program := by
  cases turn with
  | author _ => exact h.proceed
  | worker => exact h.work receive

/-- A studio stays orderly on every schedule. -/
theorem runToStop (h : studio.Orderly program) (schedule : List (Turn Unit)) :
    (studio.runToStop receive schedule).Orderly program := by
  induction schedule generalizing studio with
  | nil => exact h
  | cons turn rest ih => exact ih (h.turnToStop receive turn)

/-! ### Every schedule can be brought to an end -/

/-- An author who is not interrupted gets done, before it stops the loop. Up to then its turns are
those of an author who would not stop it. -/
theorem exists_isDone (h : studio.Orderly program) :
    ∃ n, studio.runToStop receive (List.replicate n (.author ())) =
        studio.run receive (List.replicate n (.author ())) ∧
      ((studio.run receive (List.replicate n (.author ()))).authors ()).IsDone := by
  obtain ⟨n, hcalls, hdone⟩ := studio.exists_run_calls receive ()
  rw [h.follows.calls] at hdone
  clear hcalls
  induction n generalizing studio with
  | zero => exact ⟨0, rfl, h.follows.isDone_of_le hdone⟩
  | succ n ih =>
    by_cases hnow : (studio.authors ()).IsDone
    · exact ⟨0, rfl, hnow⟩
    · -- As long as there are calls, the turn is the same whether or not there is a stop to come.
      obtain ⟨m, hsame, hm⟩ := ih (h.write hnow) hdone
      refine ⟨m + 1, ?_, hm⟩
      rw [← proceed_of_not_isDone hnow] at hsame
      exact hsame.trans (by rw [proceed_of_not_isDone hnow]; rfl)

/-- A worker who is not interrupted leaves once it has been asked to. The induction is on the load,
which is less after each turn as long as the worker is there or has something in its hand. -/
theorem exists_isOver_of_asked (h : studio.Orderly program) (hdone : (studio.authors ()).IsDone)
    (hasked : studio.loop.lifecycle ≠ .running) :
    ∃ n, (studio.runToStop receive (List.replicate n .worker)).IsOver := by
  induction hload : studio.load using Nat.strong_induction_on generalizing studio with
  | _ load ih =>
    by_cases hbusy : studio.hand ≠ none ∨ studio.loop.worker = .alive
    · have hless : (studio.work receive).load < studio.load := by
        refine load_work receive ?_
        by_cases hhand : studio.hand = none
        · -- The request to halt is still to be taken from the queue.
          have halive := hbusy.resolve_left fun hne => hne hhand
          have hmem := (h.halting hasked).resolve_right fun hgone => hgone halive
          exact Or.inr ⟨halive, List.ne_nil_of_mem hmem⟩
        · exact Or.inl hhand
      -- The studio stays orderly, done and asked, so the induction goes on from there.
      obtain ⟨hauthors, -⟩ := work_keeps receive studio
      obtain ⟨n, hn⟩ := ih _ (hload ▸ hless) (h.work receive) (by rwa [hauthors]) (by
        rcases lifecycle_work receive studio with hsame | ⟨-, hstopped⟩
        · rwa [hsame]
        · rw [hstopped]
          exact nofun) rfl
      exact ⟨n + 1, hn⟩
    · -- With an empty hand and no worker, there is nothing to wait for.
      obtain ⟨hhand, hgone⟩ := not_or.mp hbusy
      exact ⟨0, hdone, hasked, hgone, not_not.mp hhand⟩

/-- **Every schedule can be brought to an end.** The author goes on until it has got done and has
stopped the loop, and the worker goes on until it has left. -/
theorem exists_isOver (h : studio.Orderly program) :
    ∃ schedule, (studio.runToStop receive schedule).IsOver := by
  obtain ⟨n, hsame, hdone⟩ := h.exists_isDone receive
  rw [← hsame] at hdone
  have horderly := h.runToStop receive (List.replicate n (.author ()))
  by_cases hrunning :
      (studio.runToStop receive (List.replicate n (.author ()))).loop.lifecycle = .running
  · -- One more turn of the author stops the loop.
    have hstop := proceed_of_running hdone hrunning
    have hnext := horderly.proceed
    rw [hstop] at hnext
    obtain ⟨m, hm⟩ := hnext.exists_isOver_of_asked receive hdone nofun
    rw [← hstop] at hm
    refine ⟨List.replicate n (.author ()) ++ .author () :: List.replicate m .worker, ?_⟩
    rw [runToStop_append]
    exact hm
  · -- The author has stopped the loop already.
    obtain ⟨m, hm⟩ := horderly.exists_isOver_of_asked receive hdone hrunning
    refine ⟨List.replicate n (.author ()) ++ List.replicate m .worker, ?_⟩
    rw [runToStop_append]
    exact hm

/-! ### The end is the same -/

/-- A turn leads from an orderly studio to another studio. -/
def Next (program : Program) (before after : Studio Unit σ ρ) : Prop :=
  before.Orderly program ∧ ∃ turn, before.turnToStop receive turn = after

/-- A schedule is some turns, one after another. -/
theorem next_runToStop (h : studio.Orderly program) (schedule : List (Turn Unit)) :
    Relation.ReflTransGen (Next receive program) studio (studio.runToStop receive schedule) := by
  induction schedule generalizing studio with
  | nil => exact .refl
  | cons turn rest ih => exact .head ⟨h, turn, rfl⟩ (ih (h.turnToStop receive turn))

/-- **Two turns that may both be taken next lead to a common studio**, by at most one turn each. Two
turns of the author are the same, and so are two of the worker, so only one of each is left. -/
theorem Next.diamond {one other : Studio Unit σ ρ} (hone : Next receive program studio one)
    (hother : Next receive program studio other) : ∃ last,
      Relation.ReflGen (Next receive program) one last ∧
        Relation.ReflTransGen (Next receive program) other last := by
  obtain ⟨h, turn, rfl⟩ := hone
  obtain ⟨-, turn', rfl⟩ := hother
  by_cases hidle : studio.work receive = studio
  · -- A worker that has nothing to do leads nowhere.
    cases turn with
    | worker =>
      change ∃ last, Relation.ReflGen _ (studio.work receive) last ∧ _
      rw [hidle]
      exact ⟨_, .single ⟨h, turn', rfl⟩, .refl⟩
    | author _ =>
      cases turn' with
      | author _ => exact ⟨_, .refl, .refl⟩
      | worker =>
        change ∃ last, _ ∧ Relation.ReflTransGen _ (studio.work receive) last
        rw [hidle]
        exact ⟨_, .refl, .single ⟨h, .author (), rfl⟩⟩
  · -- The two turns lead to the same studio in either order.
    have hsame := h.work_proceed receive hidle
    have hwork : Next receive program studio.proceed (studio.proceed.work receive) :=
      ⟨h.proceed, .worker, rfl⟩
    have hproceed : Next receive program (studio.work receive) (studio.proceed.work receive) :=
      ⟨h.work receive, .author (), hsame.symm⟩
    cases turn with
    | worker =>
      cases turn' with
      | worker => exact ⟨_, .refl, .refl⟩
      | author _ => exact ⟨_, .single hproceed, .single hwork⟩
    | author _ =>
      cases turn' with
      | worker => exact ⟨_, .single hwork, .single hproceed⟩
      | author _ => exact ⟨_, .refl, .refl⟩

omit receive in
/-- From a studio that is over, turns lead only to itself. -/
theorem eq_of_isOver {receive : Receiver σ ρ} {last : Studio Unit σ ρ} (hover : studio.IsOver)
    (h : Relation.ReflTransGen (Next receive program) studio last) : last = studio := by
  -- By induction on the path: each turn leads back to where it starts.
  induction h with
  | refl => rfl
  | tail _ hnext ih =>
    obtain ⟨-, turn, rfl⟩ := hnext
    rw [ih]
    exact hover.turnToStop receive turn

/-- **All schedules that come to an end come to the same end.** Turns that part meet again, so any
two schedules lead on to a common studio, and no turn leads away from an end. -/
theorem runToStop_eq (h : studio.Orderly program) {one other : List (Turn Unit)}
    (hone : (studio.runToStop receive one).IsOver)
    (hother : (studio.runToStop receive other).IsOver) :
    studio.runToStop receive one = studio.runToStop receive other := by
  obtain ⟨last, hlast, hlast'⟩ := Relation.church_rosser
    (fun _ _ _ hone hother => Next.diamond receive hone hother) (h.next_runToStop receive one)
    (h.next_runToStop receive other)
  -- The common studio is the end of both.
  rw [← eq_of_isOver hone hlast, eq_of_isOver hother hlast']

end Exchange

end Orderly

/-- A studio in which nothing has happened, with one author who is to follow a program. -/
def opening (program : Program) (first second : σ) (receiver : ρ) : Studio Unit σ ρ where
  authors _ := ⟨(Compiler.start program.settings .empty).1, program.calls, 0, none⟩
  scenes := (Compiler.start program.settings .empty).2
  loop := .start first second receiver
  hand := none
  posted := []

/-- A studio in which nothing has happened is orderly: there are no leaves and no requests. -/
theorem orderly_opening (program : Program) (first second : σ) (receiver : ρ) :
    (opening program first second receiver).Orderly program where
  known := fun _ hleaf => absurd hleaf List.not_mem_nil
  flat := fun _ => List.not_mem_nil
  follows := Author.follows_start program (Nat.lt_succ_self 0) rfl
  halt := fun hmem => absurd hmem List.not_mem_nil
  halting := fun hasked => absurd rfl hasked

/-- **The outcome does not depend on the schedule.** One author feeds calls to a compiler, posts the
batches and finally stops the loop, while the worker applies what has been posted. Every schedule
can be brought to an end, and any two that come to an end have led to the same batches, in the same
order, to the same state of the receiver, and thus to the same frames, to the same figures in all
scenes and to the same counts. -/
theorem outcome_of_schedule [Surface σ] (receive : Receiver σ ρ) (program : Program)
    (first second : σ) (receiver : ρ) :
    let start := opening program first second receiver
    (∀ schedule, ∃ more, (start.runToStop receive (schedule ++ more)).IsOver) ∧
    ∀ one other, (start.runToStop receive one).IsOver → (start.runToStop receive other).IsOver →
      (start.runToStop receive one).posted = (start.runToStop receive other).posted ∧
      (start.runToStop receive one).loop.receiver = (start.runToStop receive other).loop.receiver ∧
      (start.runToStop receive one).scenes = (start.runToStop receive other).scenes ∧
      (start.runToStop receive one).loop.join.1 = (start.runToStop receive other).loop.join.1 := by
  intro start
  have horderly : start.Orderly program := orderly_opening program first second receiver
  refine ⟨fun schedule => ?_, fun one other hone hother => ?_⟩
  · obtain ⟨more, hmore⟩ := (horderly.runToStop receive schedule).exists_isOver receive
    refine ⟨more, ?_⟩
    rwa [runToStop_append]
  · rw [horderly.runToStop_eq receive hone hother]
    exact ⟨rfl, rfl, rfl, rfl⟩

/-- Two scripts: one shows a figure, the other one moves it and adds two more. -/
def twoScripts : Program :=
  ⟨.standard, [.text "figure 0 0\nupdate", .text "move 1 0\nfigure 0 0\nfigure 1 0\nupdate"]⟩

/-- A studio with these scripts on two pixels, whose receiver keeps the frames. -/
def racing (schedule : List (Turn Unit)) : Studio Unit Pixmap (List Pixmap) :=
  (opening twoScripts twoPixels twoPixels []).runToStop
    (.steady fun frames frame => frames ++ [frame]) schedule

/-- All compilation may come before all drawing. -/
def compiledFirst : List (Turn Unit) :=
  List.replicate 11 (.author ()) ++ List.replicate 14 .worker

/-- The first batch may be drawn between the two new figures of the second script. -/
def drawnBetween : List (Turn Unit) :=
  List.replicate 7 (.author ()) ++ List.replicate 5 .worker ++
    List.replicate 4 (.author ()) ++ List.replicate 9 .worker

/-- Two schedules lead to the same two frames. -/
theorem outcome_of_schedule_racing :
    ((racing compiledFirst).IsOver ∧ (racing drawnBetween).IsOver) ∧
    (racing compiledFirst).loop.receiver = (racing drawnBetween).loop.receiver ∧
    (racing compiledFirst).loop.join.1 = ⟨2, 2⟩ := by
  have hfirst : (racing compiledFirst).IsOver := by decide +kernel
  have hbetween : (racing drawnBetween).IsOver := by decide +kernel
  obtain ⟨-, hreceiver, -, htally⟩ :=
    (outcome_of_schedule (.steady fun frames frame => frames ++ [frame]) twoScripts twoPixels
      twoPixels []).2 compiledFirst drawnBetween hfirst hbetween
  have hcounts : (racing drawnBetween).loop.join.1 = ⟨2, 2⟩ := by decide +kernel
  unfold racing at hfirst hbetween hcounts ⊢
  exact ⟨⟨hfirst, hbetween⟩, hreceiver, htally.trans hcounts⟩

end Studio

end Easel
