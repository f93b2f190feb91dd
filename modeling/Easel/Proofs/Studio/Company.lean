import Easel.Proofs.Studio.Frames
import Easel.Proofs.Studio.Mirrors

/-!
# Companies

Any number of authors feed calls to compilers of their own, and post the batches to one loop.

* `Studio.company` — a studio in which nothing has happened, with as many authors as there are
  programs;
* `Ledger.agrees_company`, `Author.mirrored_company` — its ledger, and its authors as they would be
  alone;
* `Ledger.Agrees.run_mirrored` — every schedule keeps both;
* `Ledger.Agrees.exists_isComplete` — every schedule can be completed.
-/

namespace Easel

open Operation
open Script (Compiler Session)

/-- Scenes without figures, as many as asked for: what a company finds when its compilers have
started. -/
def Scenes.blank : Nat → Scenes
  | 0 => .empty
  | n + 1 => (blank n).create.2

/-- There are as many blank scenes as asked for. -/
@[simp] theorem Scenes.size_all_blank (n : Nat) : (blank n).all.size = n := by
  induction n with
  | zero => rfl
  | succ n ih => rw [blank, size_all_create, ih]

/-- Blank scenes have no figures. -/
@[simp] theorem Scenes.figures_blank (n : Nat) (scene : SceneId) :
    (blank n).figures scene = #[] := by
  induction n with
  | zero => exact figures_of_not_has (Nat.not_lt_zero _)
  | succ n ih => rw [blank, figures_create, ih]

namespace Studio

/-- A studio in which nothing has happened, with one author for each program. The compilers are
started one after another. -/
def company {σ ρ : Type} {n : Nat} (programs : Fin n → Program) (first second : σ) (receiver : ρ) :
    Studio (Fin n) σ ρ where
  authors i := ⟨(Compiler.start (programs i).settings (.blank i)).1, (programs i).calls, 0, none⟩
  scenes := .blank n
  loop := .start first second receiver
  hand := none
  posted := []

/-- All authors have got done, and the worker has nothing left to do. Nothing will happen from then
on. -/
def IsComplete {ι σ ρ : Type} (studio : Studio ι σ ρ) : Prop :=
  (∀ i, (studio.authors i).IsDone) ∧ studio.IsAtRest

instance {n : Nat} {σ ρ : Type} (studio : Studio (Fin n) σ ρ) : Decidable studio.IsComplete :=
  inferInstanceAs (Decidable ((∀ i, (studio.authors i).IsDone) ∧ studio.hand = none ∧
    studio.loop.queue.items = []))

/-- Nothing lies ahead of a studio at rest, so the scenes are what they will be. -/
theorem IsAtRest.ahead_eq {ι σ ρ : Type} {studio : Studio ι σ ρ} (h : studio.IsAtRest) :
    studio.ahead = studio.scenes := by
  rw [ahead, unapplied, todo, h.1, h.2]
  rfl

end Studio

section Start

variable {n : Nat} (programs : Fin n → Program)

/-- In the scenes of a new company, every author has a scene. -/
private theorem scene_start (i : Fin n) :
    (Compiler.start (programs i).settings (.blank i)).1 = ⟨(programs i).settings, .new ⟨i⟩⟩ := by
  rw [Compiler.start, Scenes.create, Scenes.size_all_blank]

/-- A new company is together: its authors have heard nothing, each in a scene of its own. -/
theorem Author.together_company {σ ρ : Type} (first second : σ) (receiver : ρ) :
    Author.Together programs
      (Studio.company programs first second receiver).authors (.blank n) where
  follows i := by
    have hhas : (Scenes.blank n).Has ⟨i⟩ := by
      rw [Scenes.Has, Scenes.size_all_blank]
      exact i.isLt
    have hfollows := Author.follows_start (programs i) hhas (Scenes.figures_blank n _)
    rw [← scene_start programs i] at hfollows
    exact hfollows
  apart i j hne hc := by
    change (Compiler.start (programs i).settings (.blank i)).1.session.scene =
      (Compiler.start (programs j).settings (.blank j)).1.session.scene at hc
    -- The scene of an author has the number of the author.
    rw [scene_start, scene_start] at hc
    exact hne (Fin.ext (SceneId.mk.inj hc))

/-- Each author of a new company is at its own desk what it is in the company, and owns one
scene. -/
theorem Author.mirrored_company {σ ρ : Type} (first second : σ) (receiver : ρ) :
    Author.Mirrored programs (Studio.company programs first second receiver).authors
      (fun i => [⟨i⟩]) [] (.blank n) where
  mirrors i := by
    refine ⟨fun _ => ?_, nofun⟩
    change (Program.desk (programs i) 0).Copy [⟨i⟩]
      (Compiler.start (programs i).settings (.blank i)).1.session (.blank n)
    rw [scene_start]
    refine ⟨rfl, rfl, rfl, fun j scene hget => ?_, fun scene hscene => ?_, List.nodup_singleton _⟩
    · rw [Scenes.figures_blank]
      exact (Scenes.figures_blank 1 ⟨j⟩).symm
    · rw [List.mem_singleton.mp hscene, Scenes.Has, Scenes.size_all_blank]
      exact i.isLt
  apart i j hne := by
    rw [List.disjoint_singleton, List.mem_singleton]
    exact fun hc => hne (Fin.ext (SceneId.mk.inj hc.symm))
  answers := fun _ hposting => absurd hposting List.not_mem_nil

/-- The ledger of a new company is empty, and agrees with it. -/
theorem Ledger.agrees_company {ρ : Type} (taken : ρ → Pixmap → ρ) (receiver : ρ)
    {first second : Pixmap} {size : Size} (hfirst : first.size = size)
    (hsecond : second.size = size) :
    Agrees programs size taken receiver ⟨[], none, [], []⟩
      (Studio.company programs first second receiver) where
  posted := rfl
  worker := rfl
  queue := rfl
  receiver := rfl
  frames := .nil
  drawing := hfirst
  standby := hsecond
  hand := .empty
  flat := fun _ hleaf => absurd hleaf List.not_mem_nil
  known := fun _ hleaf => absurd hleaf List.not_mem_nil
  owing := trivial
  answered := fun _ => rfl
  authors := Author.together_company programs first second receiver

end Start

namespace Ledger.Agrees

variable {ι ρ : Type} [DecidableEq ι] {programs : ι → Program} {size : Size}
  {taken : ρ → Pixmap → ρ} {receiver : ρ} {ledger : Ledger ι} {studio : Studio ι Pixmap ρ}

/-- A ledger knows the leaves that have not been applied: those of the batches that wait, behind
those in the hand of the worker. -/
theorem unapplied_eq (h : ledger.Agrees programs size taken receiver studio) :
    studio.unapplied = ledger.ahead studio := by
  have hleaves : ∀ posting ∈ ledger.waiting,
      (Message.apply (.batch posting.batch)).leaves = posting.batch := by
    intro posting hposting
    refine leavesAll_of_forall fun leaf hleaf => h.flat leaf (List.mem_append_right _ ?_)
    exact List.mem_flatMap.mpr ⟨posting, hposting, hleaf⟩
  -- There is one message for each batch that waits, and its leaves are the batch.
  rw [Studio.unapplied, Ledger.ahead, h.queue, List.flatMap_map, Posting.operations,
    List.flatMap_congr hleaves]

/-- The worker never has a batch in its hand, only leaves. -/
theorem batch_notMem_todo (h : ledger.Agrees programs size taken receiver studio)
    (members : List Operation) : .batch members ∉ studio.todo := by
  intro hmem
  have hleaf := h.flat (.batch members) (List.mem_append_left _ hmem)
  refine batch_notMem_leaves members (.batch members) ?_
  rw [hleaf]
  exact List.mem_cons_self

/-- **On every schedule the authors go on as they would alone.** The turns of the worker change
nothing that lies ahead, and an author takes its turn there. -/
theorem run_mirrored (h : ledger.Agrees programs size taken receiver studio)
    {owned : ι → List SceneId}
    (hmirrored : Author.Mirrored programs studio.authors owned studio.posted studio.ahead)
    (schedule : List (Turn ι)) : ∃ (last : Ledger ι) (after : ι → List SceneId),
      last.Agrees programs size taken receiver (studio.run (.steady taken) schedule) ∧
      Author.Mirrored programs (studio.run (.steady taken) schedule).authors after
        (studio.run (.steady taken) schedule).posted
        (studio.run (.steady taken) schedule).ahead := by
  induction schedule generalizing ledger studio owned with
  | nil => exact ⟨ledger, owned, h, hmirrored⟩
  | cons turn rest ih =>
    cases turn with
    | worker =>
      obtain ⟨next, hnext⟩ := h.work
      obtain ⟨hauthors, hposted⟩ := Studio.work_keeps (.steady taken) studio
      -- The authors and what they have posted are the same, and so is what lies ahead.
      have hahead := Studio.ahead_work (.steady taken) h.batch_notMem_todo
      rw [← hauthors, ← hposted, ← hahead] at hmirrored
      exact ih hnext hmirrored
    | author i =>
      obtain ⟨more, hnext⟩ := h.write i
      have htogether : Author.Together programs studio.authors studio.ahead := by
        rw [Studio.ahead, h.unapplied_eq]
        exact h.authors
      have hknown : ∀ leaf ∈ studio.unapplied, leaf.Known studio.scenes := by
        rw [h.unapplied_eq]
        exact h.known
      have hahead := Studio.ahead_write hknown fun leaf hleaf =>
        ((htogether.follows i).leaf_of_mem hleaf).1
      obtain ⟨after, hafter⟩ := hmirrored.turn htogether i
      -- The author does not notice how far the worker has come.
      rw [← hahead, Studio.turn_ahead hknown] at hafter
      have hwritten : Author.Mirrored programs (studio.write i).authors after
          (studio.write i).posted (studio.write i).ahead := by
        rw [Studio.write_eq] at hafter ⊢
        exact hafter
      exact ih hnext hwritten

/-- The turns of one author leave the others as they are, however many they are. -/
theorem authors_run_of_ne (receive : Receiver Pixmap ρ) {i j : ι} (hne : j ≠ i)
    (studio : Studio ι Pixmap ρ) (n : Nat) :
    (studio.run receive (List.replicate n (.author i))).authors j = studio.authors j := by
  induction n generalizing studio with
  | zero => rfl
  | succ n ih =>
    refine (ih (studio.write i)).trans ?_
    rw [Studio.write_eq]
    exact Function.update_of_ne hne _ _

/-- All authors can get done, one after another, without a turn of the worker. -/
theorem exists_run_isDone (h : ledger.Agrees programs size taken receiver studio)
    (authors : List ι) :
    ∃ schedule, ∀ i ∈ authors, ((studio.run (.steady taken) schedule).authors i).IsDone := by
  induction authors with
  | nil => exact ⟨[], fun _ hi => absurd hi List.not_mem_nil⟩
  | cons i rest ih =>
    obtain ⟨schedule, hrest⟩ := ih
    obtain ⟨between, hbetween⟩ := h.run schedule
    obtain ⟨n, hcalls, hdone⟩ :=
      (studio.run (.steady taken) schedule).exists_run_calls (.steady taken) i
    obtain ⟨after, hafter⟩ := hbetween.run (List.replicate n (.author i))
    refine ⟨schedule ++ List.replicate n (.author i), fun j hj => ?_⟩
    rw [Studio.run_append]
    -- The author who has just worked is done with its calls, and the others are where they were.
    by_cases hne : j = i
    · subst hne
      rw [(hbetween.authors.follows j).calls] at hdone
      exact (hafter.authors.follows j).isDone_of_le hdone
    · rw [authors_run_of_ne _ hne]
      exact hrest j ((List.mem_cons.mp hj).resolve_left hne)

/-- **Every schedule can be completed**: the authors get done, and then the worker takes turns until
the queue is empty. -/
theorem exists_isComplete (h : ledger.Agrees programs size taken receiver studio)
    {authors : List ι} (hall : ∀ i, i ∈ authors) :
    ∃ schedule, (studio.run (.steady taken) schedule).IsComplete := by
  obtain ⟨schedule, hdone⟩ := h.exists_run_isDone authors
  obtain ⟨after, hafter⟩ := h.run schedule
  -- The worker finds nothing but batches.
  have hqueue : (studio.run (.steady taken) schedule).loop.queue.items =
      (after.waiting.map fun posting => .batch posting.batch).map .apply := by
    rw [List.map_map]
    exact hafter.queue
  obtain ⟨n, hauthors, -, hrest⟩ := Studio.exists_run_atRest taken _ hafter.worker hqueue
  refine ⟨schedule ++ List.replicate n .worker, fun i => ?_, ?_⟩
  · rw [Studio.run_append, hauthors]
    exact hdone i (hall i)
  · rw [Studio.run_append]
    exact hrest

end Ledger.Agrees

end Easel
