import Easel.Render.Queue
import Mathlib.Data.List.Basic

/-!
# Many threads at one queue

Any number of threads share a queue. What they do to it they do in critical sections, of which one
is carried out at a time: a thread pushes an item, takes one, finds that there is none, counts the
items or discards them. `Traffic.Step` says what one section does, and a `Trail` of such steps is
any interleaving of the sections of all threads.

* `Traffic.balance` — what was in the queue at first, and then what has been pushed, is what has
  left the queue, and then what is in it now, item for item and in this order;
* `Passage` — the way of one item: who has pushed it, and what has become of it;
* `Traffic.items_pass_in_order` — every item goes one way and is overtaken by no other, and a
  consumer who is alone gets everything there is.
-/

namespace Easel

/-- Steps taken one after another, with their labels in order. A trail says nothing about who takes
a step, so it is any interleaving. -/
inductive Trail {σ Label : Type} (step : σ → Label → σ → Prop) : σ → List Label → σ → Prop where
  | nil (s : σ) : Trail step s [] s
  | cons {first next last : σ} {label : Label} {labels : List Label} :
      step first label next → Trail step next labels last → Trail step first (label :: labels) last

namespace Trail

variable {σ Label : Type} {step : σ → Label → σ → Prop} {first last : σ}

/-- A trail can be cut where its labels are cut. -/
theorem split {labels later : List Label} (h : Trail step first (labels ++ later) last) :
    ∃ between, Trail step first labels between ∧ Trail step between later last := by
  induction labels generalizing first with
  | nil => exact ⟨first, .nil first, h⟩
  | cons label rest ih =>
    cases h with
    | cons hstep hrest =>
      obtain ⟨between, hbefore, hafter⟩ := ih hrest
      exact ⟨between, .cons hstep hbefore, hafter⟩

/-- What every step keeps holds at the end if it holds at the start. This is the induction behind
every invariant of a trail. -/
theorem keeps {property : σ → Prop} {labels : List Label} (h : Trail step first labels last)
    (hstep : ∀ {s label t}, step s label t → property s → property t) (hfirst : property first) :
    property last := by
  induction h with
  | nil => exact hfirst
  | cons hnext _ ih => exact ih (hstep hnext hfirst)

end Trail

/-- What a thread does to a queue in one critical section, together with what it gets to see
there. -/
inductive Access (κ α : Type) where
  | push (thread : κ) (item : α)
  /-- A pull that may block finds an item. -/
  | pull (thread : κ) (item : α)
  /-- A pull that may block finds nothing, and goes to wait. -/
  | wait (thread : κ)
  /-- A pull that does not block finds an item or nothing. -/
  | tryPull (thread : κ) (item? : Option α)
  | count (thread : κ) (size : Nat)
  | clear (thread : κ) (discarded : List α)

namespace Access

variable {κ α : Type}

/-- The thread that is in the critical section. -/
def thread : Access κ α → κ
  | .push thread _ | .pull thread _ | .wait thread | .tryPull thread _ | .count thread _
  | .clear thread _ => thread

/-- The item that an access puts into the queue, with the thread that does it. -/
def arrival? : Access κ α → Option (κ × α)
  | .push thread item => some (thread, item)
  | .pull .. | .wait _ | .tryPull .. | .count .. | .clear .. => none

/-- The items that an access takes out of the queue, each with the thread that gets it, or with none
if it is discarded. -/
def departures : Access κ α → List (α × Option κ)
  | .pull thread item => [(item, some thread)]
  | .tryPull thread item? => item?.toList.map fun item => (item, some thread)
  | .clear _ discarded => discarded.map fun item => (item, none)
  | .push .. | .wait _ | .count .. => []

end Access

/-! ### The record of a trail -/

section Record

variable {κ α : Type} (accesses : List (Access κ α))

/-- The pushes, in order, with the threads that have made them. -/
def arrivals : List (κ × α) := accesses.filterMap Access.arrival?

/-- The items that have left, in order. -/
def departures : List (α × Option κ) := accesses.flatMap Access.departures

/-- The items pushed, in order. -/
def pushedItems : List α := (arrivals accesses).map Prod.snd

/-- The items that were taken or discarded, in order. -/
def removedItems : List α := (departures accesses).map Prod.fst

/-- The items that threads have got, in order, with the threads. -/
def deliveries : List (κ × α) :=
  (departures accesses).filterMap fun departure => departure.2.map (·, departure.1)

/-- The items that one thread has pushed, in order. -/
def pushedByThread [DecidableEq κ] (thread : κ) : List α :=
  ((arrivals accesses).filter fun arrival => arrival.1 = thread).map Prod.snd

/-- All items that leave go to one thread, which waits for them if it has to. -/
def OnlyPulls (consumer : κ) : Prop :=
  ∀ access ∈ accesses, access.departures ≠ [] → ∃ item, access = .pull consumer item

/-- The items that one thread has got, in order. -/
def deliveredTo [DecidableEq κ] (thread : κ) : List α :=
  ((deliveries accesses).filter fun delivery => delivery.1 = thread).map Prod.snd

end Record

/-- All items that have ever been in a queue, in order, with the threads that have pushed them; none
has pushed those that were there at first. -/
def allArrivals {κ α : Type} (first : Queue α) (accesses : List (Access κ α)) :
    List (Option κ × α) :=
  first.items.map (none, ·) ++ (arrivals accesses).map (Prod.map some id)

section AllArrivals

variable {κ α : Type} (first : Queue α) (accesses : List (Access κ α))

/-- The items that have arrived are those that were there at first and those pushed since. -/
theorem map_snd_allArrivals :
    (allArrivals first accesses).map Prod.snd = first.items ++ pushedItems accesses := by
  rw [allArrivals, List.map_append, List.map_map, List.map_map]
  exact congrArg (· ++ pushedItems accesses) (List.map_id _)

/-- Of all that has arrived, a thread has pushed what it has pushed; nobody has pushed what was
there at first. -/
theorem filter_allArrivals [DecidableEq κ] (thread : κ) :
    ((allArrivals first accesses).filter fun arrival => arrival.1 = some thread).map Prod.snd =
      pushedByThread accesses thread := by
  have hfirst : (first.items.map ((none : Option κ), ·)).filter
      (fun arrival => arrival.1 = some thread) = [] := by
    rw [List.filter_map, List.filter_eq_nil_iff.mpr fun _ _ => by simp, List.map_nil]
  have hlater : (fun arrival => decide (arrival.1 = some thread)) ∘ Prod.map some id =
      fun arrival : κ × α => decide (arrival.1 = thread) := by
    funext arrival
    exact decide_eq_decide.mpr Option.some_inj
  rw [allArrivals, List.filter_append, hfirst, List.nil_append, List.filter_map, hlater,
    List.map_map]
  rfl

end AllArrivals

/-! ### The way of one item -/

/-- What becomes of an item. -/
inductive Fate (κ : Type) where
  | delivered (thread : κ)
  | discarded
  /-- It is in the queue. -/
  | queued
deriving DecidableEq

/-- An item that was in the queue or still is, where it came from and what has become of it. -/
structure Passage (κ α : Type) where
  /-- The thread that has pushed the item; `none` if it was in the queue at first. -/
  origin? : Option κ
  item : α
  fate : Fate κ

namespace Passage

variable {κ α : Type} (passage : Passage κ α)

/-- How an item has come into the queue. -/
def arrival : Option κ × α := (passage.origin?, passage.item)

/-- How an item has left the queue, if it has. -/
def departure? : Option (α × Option κ) :=
  match passage.fate with
  | .delivered thread => some (passage.item, some thread)
  | .discarded => some (passage.item, none)
  | .queued => none

/-- The item, if it is in the queue. -/
def queued? : Option α :=
  match passage.fate with
  | .queued => some passage.item
  | .delivered _ | .discarded => none

/-- The thread that has got the item, if one has. -/
def delivery? : Option (κ × α) :=
  match passage.fate with
  | .delivered thread => some (thread, passage.item)
  | .discarded | .queued => none

/-- The item has been delivered if it has left to a thread. -/
theorem delivery?_eq : passage.delivery? =
    passage.departure?.bind fun departure => departure.2.map (·, departure.1) := by
  obtain ⟨origin?, item, fate⟩ := passage
  cases fate <;> rfl

/-- Whose items they are is told by how they arrived, so picking out passages is picking out
arrivals. -/
theorem map_item_filter [DecidableEq κ] (passages : List (Passage κ α)) (origin? : Option κ) :
    (passages.filter fun passage => passage.origin? = origin?).map Passage.item =
      ((passages.map arrival).filter fun arrival => arrival.1 = origin?).map Prod.snd := by
  rw [List.filter_map, List.map_map]
  rfl

/-- If the items that have arrived are those that have left and then those that are queued, each of
them has its passage. This turns an equation of lists into the story of every item. -/
theorem exists_of_balance {arrivals : List (Option κ × α)} {departures : List (α × Option κ)}
    {queued : List α} (h : arrivals.map Prod.snd = departures.map Prod.fst ++ queued) :
    ∃ passages : List (Passage κ α), passages.map arrival = arrivals ∧
      passages.filterMap departure? = departures ∧ passages.filterMap queued? = queued := by
  -- The oldest item is the first to have left, if any has.
  induction arrivals generalizing departures queued with
  | nil =>
    obtain ⟨hdepartures, rfl⟩ := List.append_eq_nil_iff.mp h.symm
    obtain rfl := List.map_eq_nil_iff.mp hdepartures
    exact ⟨[], rfl, rfl, rfl⟩
  | cons oldest later ih =>
    obtain ⟨origin?, item⟩ := oldest
    cases departures with
    | cons departure departures =>
      obtain ⟨left, thread?⟩ := departure
      obtain ⟨rfl : item = left, hlater⟩ := List.cons.inj h
      obtain ⟨passages, harrivals, hdepartures, hqueued⟩ := ih hlater
      -- It went to a thread, or nobody has got it.
      cases thread? with
      | some thread =>
        refine ⟨⟨origin?, item, .delivered thread⟩ :: passages, ?_, ?_, hqueued⟩
        · rw [List.map_cons, harrivals]
          rfl
        · exact congrArg ((item, some thread) :: ·) hdepartures
      | none =>
        refine ⟨⟨origin?, item, .discarded⟩ :: passages, ?_, ?_, hqueued⟩
        · rw [List.map_cons, harrivals]
          rfl
        · exact congrArg ((item, none) :: ·) hdepartures
    | nil =>
      -- Nothing has left, so the oldest item is the front of the queue.
      cases queued with
      | nil => exact absurd h nofun
      | cons front queued =>
        obtain ⟨rfl : item = front, hlater⟩ := List.cons.inj h
        obtain ⟨passages, harrivals, hdepartures, hqueued⟩ := @ih [] queued hlater
        refine ⟨⟨origin?, item, .queued⟩ :: passages, ?_, hdepartures, ?_⟩
        · rw [List.map_cons, harrivals]
          rfl
        · exact congrArg (item :: ·) hqueued

end Passage

namespace Traffic

variable {κ α : Type}

/-- What one critical section does to the queue. Taking an item is possible only if there is one,
and coming away empty-handed only if there is none. -/
inductive Step : Queue α → Access κ α → Queue α → Prop where
  | push (q : Queue α) (thread : κ) (item : α) : Step q (.push thread item) (q.push item)
  | pull {q rest : Queue α} {item : α} (thread : κ) (next : q.pull? = some (item, rest)) :
      Step q (.pull thread item) rest
  | wait {q : Queue α} (thread : κ) (empty : q.pull? = none) : Step q (.wait thread) q
  | tryPull {q rest : Queue α} {item : α} (thread : κ) (next : q.pull? = some (item, rest)) :
      Step q (.tryPull thread (some item)) rest
  | miss {q : Queue α} (thread : κ) (empty : q.pull? = none) : Step q (.tryPull thread none) q
  | count (q : Queue α) (thread : κ) : Step q (.count thread q.size) q
  | clear (q : Queue α) (thread : κ) : Step q (.clear thread q.items) q.clear

/-- One section keeps the account: what leaves was at the front, what comes stands at the back. -/
theorem Step.balance {q next : Queue α} {access : Access κ α} (h : Step q access next) :
    q.items ++ access.arrival?.toList.map Prod.snd =
      access.departures.map Prod.fst ++ next.items := by
  cases h with
  | push thread item => rfl
  | pull thread next =>
    rw [Queue.pull?_eq_some_iff] at next
    simp [next, Access.arrival?, Access.departures]
  | wait thread empty => simp [Access.arrival?, Access.departures]
  | tryPull thread next =>
    rw [Queue.pull?_eq_some_iff] at next
    simp [next, Access.arrival?, Access.departures]
  | miss thread empty => simp [Access.arrival?, Access.departures]
  | count thread => simp [Access.arrival?, Access.departures]
  | clear thread =>
    rw [Access.departures, List.map_map]
    exact congrArg (· ++ []) (List.map_id' q.items).symm

/-- **The account of a queue.** What was there at first and what was pushed is what has left and
what is there, item for item: each section keeps the account, and the trail adds them up. -/
theorem balance {first last : Queue α} {accesses : List (Access κ α)}
    (trail : Trail Step first accesses last) :
    first.items ++ pushedItems accesses = removedItems accesses ++ last.items := by
  induction trail with
  | nil => simp [pushedItems, arrivals, removedItems, departures]
  | @cons first next last access accesses hstep _ ih =>
    have hpushed : pushedItems (access :: accesses) =
        access.arrival?.toList.map Prod.snd ++ pushedItems accesses := by
      rw [pushedItems, arrivals, List.filterMap_cons, pushedItems, arrivals]
      cases access.arrival? <;> rfl
    have hremoved : removedItems (access :: accesses) =
        access.departures.map Prod.fst ++ removedItems accesses := by
      rw [removedItems, departures, List.flatMap_cons, List.map_append]
      rfl
    -- The equation of the first section stands in front of that of the others.
    calc first.items ++ pushedItems (access :: accesses)
        = first.items ++ access.arrival?.toList.map Prod.snd ++ pushedItems accesses := by
          rw [hpushed, List.append_assoc]
      _ = access.departures.map Prod.fst ++ (next.items ++ pushedItems accesses) := by
          rw [hstep.balance, List.append_assoc]
      _ = access.departures.map Prod.fst ++ (removedItems accesses ++ last.items) := by rw [ih]
      _ = removedItems (access :: accesses) ++ last.items := by
          rw [hremoved, List.append_assoc]

/-- A pull that does not block finds nothing only if all that has come has left, at the moment of
this pull. -/
theorem removedItems_of_miss {first last : Queue α} {before after : List (Access κ α)} {thread : κ}
    (trail : Trail Step first (before ++ .tryPull thread none :: after) last) :
    removedItems before = first.items ++ pushedItems before := by
  obtain ⟨between, hbefore, hafter⟩ := trail.split
  cases hafter with
  | cons hstep _ =>
    cases hstep with
    | miss thread empty =>
      rw [balance hbefore, Queue.pull?_eq_none_iff.mp empty, List.append_nil]

/-- A consumer who is alone gets all that leaves, in the order of leaving. -/
theorem deliveredTo_eq [DecidableEq κ] {accesses : List (Access κ α)} {consumer : κ}
    (h : OnlyPulls accesses consumer) : deliveredTo accesses consumer = removedItems accesses := by
  have hown : ∀ departure ∈ departures accesses, departure.2 = some consumer := by
    intro departure hdeparture
    obtain ⟨access, haccess, hmem⟩ := List.mem_flatMap.mp hdeparture
    obtain ⟨item, rfl⟩ := h access haccess (List.ne_nil_of_mem hmem)
    obtain rfl := List.mem_singleton.mp hmem
    rfl
  have hdeliveries : deliveries accesses =
      (departures accesses).map fun departure => (consumer, departure.1) := by
    rw [deliveries, ← List.filterMap_eq_map]
    refine List.filterMap_congr ?_
    intro departure hdeparture
    rw [hown departure hdeparture]
    rfl
  rw [deliveredTo, hdeliveries, List.filter_eq_self.mpr, List.map_map]
  · rfl
  · intro delivery hdelivery
    obtain ⟨departure, -, rfl⟩ := List.mem_map.mp hdelivery
    exact decide_eq_true rfl

/-- **Items pass a queue in order.** Any number of threads push items, take them with or without
blocking, count them and discard them, in any order.

What was in the queue at first and what has been pushed, in the order of the pushes, is what has
left, in the order of leaving, and then what is in the queue. So every item has one passage: in the
order of arrival, some are delivered or discarded, in just this order, and the others are queued
behind them. The items of one thread come in the order in which it has pushed them, and those that
are delivered are delivered in this order.

A thread that does not want to block comes away empty-handed only if everything has left. If one
thread alone takes items, and waits for them if it has to, it gets the items of the queue and then
the items pushed, and it waits only as long as there are pushes to come. -/
theorem items_pass_in_order [DecidableEq κ] {first last : Queue α} {accesses : List (Access κ α)}
    (trail : Trail Step first accesses last) :
    -- the account
    first.items ++ pushedItems accesses = removedItems accesses ++ last.items ∧
    -- the items, one by one
    (∃ passages : List (Passage κ α),
      passages.map Passage.arrival = allArrivals first accesses ∧
      passages.filterMap Passage.departure? = departures accesses ∧
      passages.filterMap Passage.queued? = last.items ∧
      ∀ thread, let own := passages.filter fun passage => passage.origin? = some thread
        own.map Passage.item = pushedByThread accesses thread ∧
          (own.filterMap Passage.delivery?).Sublist (deliveries accesses)) ∧
    -- nothing to be had
    (∀ before thread after, accesses = before ++ .tryPull thread none :: after →
      removedItems before = first.items ++ pushedItems before) ∧
    -- one consumer
    ∀ consumer all, OnlyPulls accesses consumer → pushedItems accesses <+: all →
      let got := deliveredTo accesses consumer
      got.length ≤ first.size + all.length ∧
      (got.length = first.size + all.length → got = first.items ++ all) ∧
      (got.length < first.size + all.length → pushedItems accesses = all →
        ∃ item rest, Step last (.pull consumer item) rest) := by
  have hbalance := balance trail
  refine ⟨hbalance, ?_, ?_, ?_⟩
  -- The passages come from the account: in the order of arrival, first those that left, then the
  -- queue.
  · have hitems := (map_snd_allArrivals first accesses).trans hbalance
    obtain ⟨passages, harrivals, hdepartures, hqueued⟩ := Passage.exists_of_balance hitems
    refine ⟨passages, harrivals, hdepartures, hqueued, ?_⟩
    intro thread
    constructor
    · rw [Passage.map_item_filter, harrivals]
      exact filter_allArrivals first accesses thread
    · -- The deliveries of all threads are among what has left.
      have hdeliveries : passages.filterMap Passage.delivery? = deliveries accesses := by
        rw [deliveries, ← hdepartures, List.filterMap_filterMap]
        exact List.filterMap_congr fun passage _ => passage.delivery?_eq
      rw [← hdeliveries]
      exact List.filter_sublist.filterMap _
  · rintro before thread after rfl
    exact removedItems_of_miss trail
  · intro consumer all honly hall
    rw [deliveredTo_eq honly]
    have hlength := congrArg List.length hbalance
    rw [List.length_append, List.length_append] at hlength
    have hcome : (pushedItems accesses).length ≤ all.length := hall.length_le
    refine ⟨?_, ?_, ?_⟩
    · rw [Queue.size]
      omega
    · -- If that many items have left, all have been pushed and none is queued.
      intro hgot
      rw [Queue.size] at hgot
      have hpushed : pushedItems accesses = all := hall.eq_of_length (by omega)
      have hempty : last.items = [] := List.length_eq_zero_iff.mp (by omega)
      rw [hpushed, hempty, List.append_nil] at hbalance
      exact hbalance.symm
    -- Fewer have been got than have come, so there is one at the front.
    · intro hgot hpushed
      rw [Queue.size] at hgot
      rw [hpushed] at hlength
      cases hitems : last.items with
      | nil =>
        rw [hitems, List.length_nil] at hlength
        omega
      | cons item rest => exact ⟨item, ⟨rest⟩, .pull consumer (Queue.pull?_eq_some_iff.mpr hitems)⟩

/-- Two producers and a consumer, who is alone, has to wait once and gets all four items. -/
theorem items_pass_in_order_alone :
    let accesses : List (Access ℕ ℕ) := [.push 0 1, .pull 2 9, .push 1 2, .pull 2 1, .count 0 1,
      .pull 2 2, .wait 2, .tryPull 3 none, .clear 3 [], .push 0 3, .pull 2 3]
    Trail Step ⟨[9]⟩ accesses ⟨[]⟩ ∧ removedItems accesses = [9] ++ pushedItems accesses ∧
      OnlyPulls accesses 2 ∧ deliveredTo accesses 2 = [9] ++ [1, 2, 3] := by
  intro accesses
  have trail : Trail Step ⟨[9]⟩ accesses ⟨[]⟩ :=
    .cons (.push _ 0 1) <| .cons (.pull 2 rfl) <| .cons (.push _ 1 2) <| .cons (.pull 2 rfl) <|
      .cons (.count _ 0) <| .cons (.pull 2 rfl) <| .cons (.wait 2 rfl) <| .cons (.miss 3 rfl) <|
        .cons (.clear _ 3) <| .cons (.push _ 0 3) <| .cons (.pull 2 rfl) <| .nil _
  have honly : OnlyPulls accesses 2 := by simp [OnlyPulls, accesses, Access.departures]
  obtain ⟨haccount, -, -, halone⟩ := items_pass_in_order trail
  have hall : deliveredTo accesses 2 = [9] ++ [1, 2, 3] :=
    (halone 2 [1, 2, 3] honly (List.prefix_refl _)).2.1 rfl
  exact ⟨trail, by simpa using haccount.symm, honly, hall⟩

end Traffic

end Easel
