import Easel.Proofs.Render.Traffic
import Mathlib.Data.Finset.Card

/-!
# Waiting at a queue

A thread that finds the queue empty goes to sleep, and lets go of the lock in the same moment. Who
has pushed an item announces it afterwards, without the lock, and wakes one sleeper if there is one.
In between other threads may have come and taken the item, or discarded it. A sleeper may also wake
for no reason.

A thread that takes the lock does what it came for before it lets go of it, so a critical section is
one step (`Traffic.Step`), also that of a consumer who has woken and looks again.

* `Monitor.Step` — what the threads do, one step at a time;
* `Monitor.traffic_of_trail` — to the queue itself they do what its traffic may do;
* `Monitor.Sound`, `Monitor.Step.sound` — while somebody sleeps, each queued item has somebody who
  looks after it: a push still to be announced, or a consumer about to look;
* `Monitor.no_lost_wakeup` — nobody sleeps while an item lies in the queue unannounced.
-/

namespace Easel

/-- A queue and the threads that are in the middle of something there. All others are outside. -/
structure Monitor (κ α : Type) where
  queue : Queue α
  /-- Those that have pushed an item and have not announced it yet. -/
  announcing : Finset κ
  asleep : Finset κ
  /-- Those that have been woken and have not taken the lock since. -/
  woken : Finset κ

namespace Monitor

variable {κ α : Type}

/-- What happens at a queue. Announcing comes after the critical section of the push, so other
threads may come in between. -/
inductive Event (κ α : Type) where
  /-- A thread takes the lock, does this, and lets go of the lock. -/
  | enter (access : Access κ α)
  /-- A thread announces its item. Of the sleepers one wakes, if there are any. -/
  | announce (thread : κ) (sleeper? : Option κ)
  /-- A sleeper wakes for no reason. -/
  | stir (sleeper : κ)

/-- The critical sections among what happens. -/
def Event.access? : Event κ α → Option (Access κ α)
  | .enter access => some access
  | .announce .. => none
  | .stir .. => none

section Threads

variable (m : Monitor κ α)

/-- The thread is not in the middle of anything, so it may begin anything: it neither announces nor
sleeps nor has just been woken. -/
def IsOutside (thread : κ) : Prop :=
  thread ∉ m.announcing ∧ thread ∉ m.asleep ∧ thread ∉ m.woken

/-- Who has been woken looks again and does nothing else; who looks for the first time comes from
outside. Everything else begins outside. -/
def MayDo : Access κ α → Prop
  | .pull thread _ | .wait thread => m.IsOutside thread ∨ thread ∈ m.woken
  | .push thread _ | .tryPull thread _ | .count thread _ | .clear thread _ => m.IsOutside thread

variable [DecidableEq κ]

instance (thread : κ) : Decidable (m.IsOutside thread) :=
  inferInstanceAs (Decidable (_ ∧ _))

instance : (access : Access κ α) → Decidable (m.MayDo access)
  | .pull .. | .wait _ => inferInstanceAs (Decidable (_ ∨ _))
  | .push .. | .tryPull .. | .count .. | .clear .. => inferInstanceAs (Decidable (m.IsOutside _))

/-- Where the threads are when a critical section has left this queue. A push is still to be
announced, and a consumer that finds nothing falls asleep in the same moment. -/
def left (queue : Queue α) : Access κ α → Monitor κ α
  | .push thread _ => { m with queue, announcing := insert thread m.announcing }
  | .pull thread _ => { m with queue, woken := m.woken.erase thread }
  | .wait thread =>
    { m with queue, asleep := insert thread m.asleep, woken := m.woken.erase thread }
  | .tryPull .. | .count .. | .clear .. => { m with queue }

/-- The threads when one of them has announced its item. -/
def announced (thread : κ) : Monitor κ α := { m with announcing := m.announcing.erase thread }

/-- The threads when a sleeper has woken, for whatever reason. It is about to look again. -/
def roused (sleeper : κ) : Monitor κ α :=
  { m with asleep := m.asleep.erase sleeper, woken := insert sleeper m.woken }

/-- The queue is the one that the critical section has left. -/
theorem queue_left (queue : Queue α) (access : Access κ α) :
    (m.left queue access).queue = queue := by
  cases access <;> rfl

end Threads

/-- Nobody is at the queue, and nothing in it: where every trail begins. -/
def start : Monitor κ α := ⟨.empty, ∅, ∅, ∅⟩

variable [DecidableEq κ] {m next : Monitor κ α}

/-- What the threads do. An announcement wakes a sleeper if there is one, and which one is open; it
goes unheard only if nobody sleeps. -/
inductive Step : Monitor κ α → Event κ α → Monitor κ α → Prop where
  | enter {m : Monitor κ α} {queue : Queue α} {access : Access κ α} (may : m.MayDo access)
      (locked : Traffic.Step m.queue access queue) :
      Step m (.enter access) (m.left queue access)
  | wake {m : Monitor κ α} {thread sleeper : κ} (pending : thread ∈ m.announcing)
      (sleeps : sleeper ∈ m.asleep) :
      Step m (.announce thread (some sleeper)) ((m.announced thread).roused sleeper)
  | unheard {m : Monitor κ α} {thread : κ} (pending : thread ∈ m.announcing)
      (nobody : m.asleep = ∅) : Step m (.announce thread none) (m.announced thread)
  | stir {m : Monitor κ α} {sleeper : κ} (sleeps : sleeper ∈ m.asleep) :
      Step m (.stir sleeper) (m.roused sleeper)

/-- What happens to the queue is what the critical sections do to it, so that items pass it in
order. -/
theorem traffic_of_trail {first last : Monitor κ α} {events : List (Event κ α)}
    (trail : Trail Step first events last) :
    Trail Traffic.Step first.queue (events.filterMap Event.access?) last.queue := by
  induction trail with
  | nil => exact .nil _
  | cons hstep _ ih =>
    cases hstep with
    | enter _ locked =>
      rw [queue_left] at ih
      exact .cons locked ih
    | wake | unheard | stir => exact ih

/-- No thread sleeps and is awake, and while somebody sleeps no item goes unattended: for each there
is a push to be announced or a consumer about to look. -/
structure Sound (m : Monitor κ α) : Prop where
  disjoint : Disjoint m.asleep m.woken
  attended : m.asleep.Nonempty → m.queue.size ≤ m.woken.card + m.announcing.card

omit [DecidableEq κ] in
/-- Where nobody sleeps nothing need be attended to. -/
theorem sound_start : (start : Monitor κ α).Sound :=
  ⟨Finset.disjoint_empty_left ∅, fun h => absurd h Finset.not_nonempty_empty⟩

/-- Waking makes one more consumer who is about to look, since a sleeper was not among them. -/
theorem card_woken_roused (h : Disjoint m.asleep m.woken) {sleeper : κ}
    (sleeps : sleeper ∈ m.asleep) : (m.roused sleeper).woken.card = m.woken.card + 1 :=
  Finset.card_insert_of_notMem (Finset.disjoint_left.mp h sleeps)

/-- Who has woken does not sleep any more. -/
theorem disjoint_roused (h : Disjoint m.asleep m.woken) (sleeper : κ) :
    Disjoint (m.roused sleeper).asleep (m.roused sleeper).woken := by
  rw [roused, Finset.disjoint_insert_right]
  exact ⟨Finset.notMem_erase sleeper m.asleep, h.mono_left (Finset.erase_subset sleeper m.asleep)⟩

/-- An item that comes has its push to look after it, and a consumer who stops looking has taken an
item or found none. -/
theorem Sound.left {queue : Queue α} {access : Access κ α} (h : m.Sound) (may : m.MayDo access)
    (locked : Traffic.Step m.queue access queue) : (m.left queue access).Sound := by
  cases locked with
  | push thread item =>
    refine ⟨h.disjoint, fun hasleep => ?_⟩
    have hattended := h.attended hasleep
    have hcard := Finset.card_insert_of_notMem may.1
    simp only [Monitor.left, Queue.size, Queue.items_push, List.length_append,
      List.length_singleton] at hattended ⊢
    omega
  | @pull rest item thread hnext =>
    refine ⟨h.disjoint.mono_right (Finset.erase_subset thread m.woken), fun hasleep => ?_⟩
    -- Perhaps it was not among the woken, and has come just in time.
    have hattended := h.attended hasleep
    have hcard := Finset.pred_card_le_card_erase (s := m.woken) (a := thread)
    rw [Queue.size, Queue.pull?_eq_some_iff.mp hnext, List.length_cons] at hattended
    simp only [Monitor.left, Queue.size]
    omega
  | wait thread empty =>
    -- The one who falls asleep does not look any more, but it has found the queue empty.
    refine ⟨?_, fun _ => ?_⟩
    · rw [Monitor.left, Finset.disjoint_insert_left]
      exact ⟨Finset.notMem_erase thread m.woken,
        h.disjoint.mono_right (Finset.erase_subset thread m.woken)⟩
    · rw [Monitor.left, Queue.size, Queue.pull?_eq_none_iff.mp empty]
      exact Nat.zero_le _
  | tryPull thread hnext =>
    refine ⟨h.disjoint, fun hasleep => ?_⟩
    have hattended := h.attended hasleep
    rw [Queue.size, Queue.pull?_eq_some_iff.mp hnext] at hattended
    exact (Nat.le_succ _).trans hattended
  | miss | count => exact ⟨h.disjoint, h.attended⟩
  | clear => exact ⟨h.disjoint, fun _ => Nat.zero_le _⟩

/-- Every step keeps the queue sound. Announcing trades a push for a woken consumer, and a sleeper
that wakes on its own only adds to those who look. -/
theorem Step.sound {event : Event κ α} (hstep : Step m event next) (h : m.Sound) : next.Sound := by
  cases hstep with
  | enter may locked => exact h.left may locked
  | @wake thread sleeper pending sleeps =>
    refine ⟨disjoint_roused h.disjoint sleeper, fun _ => ?_⟩
    -- The one who is woken takes the place of the one who has announced.
    have hattended := h.attended ⟨sleeper, sleeps⟩
    have hwoken := card_woken_roused h.disjoint sleeps
    have hannouncing := Finset.card_erase_add_one pending
    change m.queue.size ≤ (m.roused sleeper).woken.card + (m.announcing.erase thread).card
    omega
  | unheard pending nobody =>
    refine ⟨h.disjoint, fun hasleep => ?_⟩
    rw [announced, nobody] at hasleep
    exact absurd hasleep Finset.not_nonempty_empty
  | @stir sleeper sleeps =>
    refine ⟨disjoint_roused h.disjoint sleeper, fun _ => ?_⟩
    rw [card_woken_roused h.disjoint sleeps]
    exact (h.attended ⟨sleeper, sleeps⟩).trans (Nat.add_le_add_right (Nat.le_succ _) _)

/-- Whatever the threads do, the queue is sound. -/
theorem sound_of_trail {events : List (Event κ α)} (trail : Trail Step start events m) : m.Sound :=
  trail.keeps Step.sound sound_start

/-- **No wakeup is lost.** Any number of threads push items, take them with or without blocking,
count them and discard them, and sleepers wake whenever they like.

While somebody sleeps, there are no more items in the queue than pushes still to be announced and
consumers who have been woken and have not looked yet. So when somebody sleeps and there is an item,
a push is still to be announced, and this wakes any sleeper, or a consumer is awake, and finds an
item when it looks. A consumer gets the item at the front and no other, whether it has slept or not.
-/
theorem no_lost_wakeup {events : List (Event κ α)} (trail : Trail Step start events m) :
    -- the count
    (m.asleep.Nonempty → m.queue.size ≤ m.woken.card + m.announcing.card) ∧
    -- what is still to come
    (∀ sleeper ∈ m.asleep, m.queue.size ≠ 0 →
      (∃ thread next, Step m (.announce thread (some sleeper)) next ∧ sleeper ∈ next.woken) ∨
      ∃ thread ∈ m.woken, ∃ item next, Step m (.enter (.pull thread item)) next) ∧
    -- what a consumer gets
    ∀ before thread item after, events = before ++ .enter (.pull thread item) :: after →
      ∃ between, Trail Step start before between ∧ between.queue.items.head? = some item := by
  have hsound := sound_of_trail trail
  refine ⟨hsound.attended, ?_, ?_⟩
  · intro sleeper sleeps hitems
    have hattended := hsound.attended ⟨sleeper, sleeps⟩
    by_cases hpending : m.announcing.Nonempty
    · obtain ⟨thread, pending⟩ := hpending
      exact .inl ⟨thread, _, .wake pending sleeps, Finset.mem_insert_self sleeper m.woken⟩
    · -- Nothing is to be announced, so somebody has been woken.
      rw [Finset.not_nonempty_iff_eq_empty] at hpending
      rw [hpending, Finset.card_empty, Nat.add_zero] at hattended
      obtain ⟨thread, hthread⟩ :=
        Finset.card_pos.mp ((Nat.pos_of_ne_zero hitems).trans_le hattended)
      obtain ⟨item, rest, hqueue⟩ := List.exists_cons_of_length_pos (Nat.pos_of_ne_zero hitems)
      have hnext : m.queue.pull? = some (item, ⟨rest⟩) := Queue.pull?_eq_some_iff.mpr hqueue
      exact .inr ⟨thread, hthread, item, _, .enter (.inr hthread) (.pull thread hnext)⟩
  · rintro before thread item after rfl
    -- The trail up to the pull leads to a queue with just this item at the front.
    obtain ⟨between, hbefore, hafter⟩ := trail.split
    refine ⟨between, hbefore, ?_⟩
    cases hafter with
    | cons hstep _ =>
      cases hstep with
      | enter _ locked =>
        cases locked with
        | pull _ hnext => rw [Queue.pull?_eq_some_iff.mp hnext, List.head?_cons]

/-- Thread 3 takes the item for which thread 0 was woken, which sleeps again when the next one
comes. -/
theorem no_lost_wakeup_stolen :
    let events : List (Event ℕ ℕ) := [.enter (.wait 0), .enter (.wait 1), .enter (.push 2 7),
      .announce 2 (some 0), .enter (.pull 3 7), .enter (.wait 0), .enter (.push 4 8)]
    ∃ m, Trail Step start events m ∧ m.queue.items = [8] ∧ m.asleep = {0, 1} ∧ m.woken = ∅ ∧
      m.queue.size ≤ m.woken.card + m.announcing.card ∧
      ∃ thread next, Step m (.announce thread (some 1)) next ∧ 1 ∈ next.woken := by
  intro events
  have hrun : ∃ m, Trail Step start events m ∧ m.queue.items = [8] ∧ m.asleep = {0, 1} ∧
      m.woken = ∅ :=
    ⟨_, .cons (.enter (.inl (by decide)) (.wait 0 rfl)) <|
      .cons (.enter (.inl (by decide)) (.wait 1 rfl)) <|
      .cons (.enter (by decide) (.push _ 2 7)) <|
      .cons (.wake (by decide) (by decide)) <|
      .cons (.enter (.inl (by decide)) (.pull 3 rfl)) <|
      .cons (.enter (.inr (by decide)) (.wait 0 rfl)) <|
      .cons (.enter (by decide) (.push _ 4 8)) <| .nil _, rfl, by decide, by decide⟩
  obtain ⟨m, trail, hitems, hasleep, hwoken⟩ := hrun
  obtain ⟨hcount, hcome, -⟩ := no_lost_wakeup trail
  refine ⟨m, trail, hitems, hasleep, hwoken, hcount (hasleep ▸ by decide), ?_⟩
  have hsize : m.queue.size ≠ 0 := by rw [Queue.size, hitems]; decide
  rcases hcome 1 (hasleep ▸ by decide) hsize with hannounce | ⟨thread, hthread, -⟩
  · exact hannounce
  · rw [hwoken] at hthread
    exact absurd hthread (Finset.notMem_empty thread)

end Monitor

end Easel
