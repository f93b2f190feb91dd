import Easel.Render.FrameChannel
import Mathlib.Data.List.Basic

/-!
# Frames that find no room

A channel is used through its ends, in any order: senders present frames, are cloned and closed, and
the listener takes frames until it hangs up. `FrameChannel.run` follows such events, and the
outcomes are the record of what has come of them.

* `FrameChannel.answer` — what a channel does with a frame: it stores the frame, or it is full, or
  nobody listens any more;
* `FrameChannel.refusalsBehind` — how often a sender, or the one that it was cloned from before
  that, and so on, has found the channel full;
* `FrameChannel.Accounted`, `FrameChannel.Accounted.happen` — what holds between the record and the
  channel, and that every event keeps it;
* `FrameChannel.frames_accounted` — every frame is received, in the channel or counted as dropped,
  as long as somebody listens.
-/

namespace Easel

namespace FrameChannel

variable {α : Type}

/-! ### What a channel does with a frame -/

/-- What comes of a frame that is handed to a channel: there is room, there is none, or nobody is
there to take it. -/
inductive Answer where
  | stored
  | full
  | disconnected
deriving DecidableEq

/-- A channel without a listener takes nothing; another one takes a frame if there is room. -/
def answer (ch : FrameChannel α) : Answer :=
  if ch.listening then if ch.IsFull then .full else .stored else .disconnected

/-- A frame is stored where somebody listens and there is room. -/
theorem answer_eq_stored_iff {ch : FrameChannel α} :
    ch.answer = .stored ↔ ch.listening = true ∧ ¬ ch.IsFull := by
  unfold answer
  cases ch.listening with
  | false => simp
  | true => by_cases hfull : ch.IsFull <;> simp [hfull]

/-- A frame finds the channel full where somebody listens and there is no room. -/
theorem answer_eq_full_iff {ch : FrameChannel α} :
    ch.answer = .full ↔ ch.listening = true ∧ ch.IsFull := by
  unfold answer
  cases ch.listening with
  | false => simp
  | true => by_cases hfull : ch.IsFull <;> simp [hfull]

/-- A frame is lost on nobody where the listener has hung up, full or not. -/
theorem answer_eq_disconnected_iff {ch : FrameChannel α} :
    ch.answer = .disconnected ↔ ch.listening = false := by
  unfold answer
  cases ch.listening with
  | false => simp
  | true => by_cases hfull : ch.IsFull <;> simp [hfull]

/-- Only a full channel makes a difference to the sender: it counts one more. A frame that nobody
listens to is gone without a trace. -/
theorem present_eq {ch : FrameChannel α} {sender count : Nat}
    (h : ch.dropped? sender = some count) (frame : α) : ch.present sender frame =
      match ch.answer with
      | .stored => { ch with frames := ch.frames ++ [frame] }
      | .full => { ch with senders := ch.senders.setIfInBounds sender (some (count + 1)) }
      | .disconnected => ch := by
  unfold present answer
  rw [h]
  cases ch.listening with
  | false => rfl
  | true => by_cases hfull : ch.IsFull <;> simp [hfull]

/-- A sender that is closed presents nothing. -/
theorem present_of_closed {ch : FrameChannel α} {sender : Nat} (h : ch.dropped? sender = none)
    (frame : α) : ch.present sender frame = ch := by
  rw [present, h]

/-! ### Counts -/

/-- Setting the count of one sender leaves those of the others. -/
theorem dropped?_set (ch : FrameChannel α) (sender other : Nat) (count? : Option Nat) :
    dropped? { ch with senders := ch.senders.setIfInBounds sender count? } other =
      if sender = other ∧ sender < ch.senders.size then count? else ch.dropped? other := by
  unfold dropped?
  rw [Array.getElem?_setIfInBounds]
  by_cases hsame : sender = other
  · subst hsame
    by_cases hlt : sender < ch.senders.size
    · simp [hlt]
    · simp [hlt]
  · simp [hsame]

/-- A sender that is added has the next number and leaves the counts of the others. -/
theorem dropped?_push (ch : FrameChannel α) (other : Nat) (count? : Option Nat) :
    dropped? { ch with senders := ch.senders.push count? } other =
      if other = ch.senders.size then count? else ch.dropped? other := by
  unfold dropped?
  rw [Array.getElem?_push]
  split <;> rfl

/-- A sender that has a count has been given out. -/
theorem lt_size_of_dropped? {ch : FrameChannel α} {sender count : Nat}
    (h : ch.dropped? sender = some count) : sender < ch.senders.size := by
  by_contra hge
  unfold dropped? at h
  rw [Array.getElem?_eq_none (Nat.le_of_not_lt hge)] at h
  exact absurd h nofun

/-- A sender counts a frame if and only if the frame finds the channel full. The count tells the two
apart, since it never stays the same when it is raised. -/
theorem dropped?_present_eq_succ_iff {ch : FrameChannel α} {sender count : Nat}
    (h : ch.dropped? sender = some count) (frame : α) :
    (ch.present sender frame).dropped? sender = some (count + 1) ↔ ch.answer = .full := by
  have hkept : ch.dropped? sender ≠ some (count + 1) := by
    rw [h]
    exact fun heq => Nat.succ_ne_self count (Option.some.inj heq).symm
  rw [present_eq h]
  cases ch.answer with
  | stored => exact iff_of_false hkept nofun
  | disconnected => exact iff_of_false hkept nofun
  | full =>
    refine iff_of_true ?_ rfl
    dsimp only
    rw [dropped?_set, if_pos ⟨rfl, lt_size_of_dropped? h⟩]

/-! ### Events and outcomes -/

/-- What can happen at the ends of a channel. Senders are named by the number under which they were
given out, and an event may name one that is closed or was never there. -/
inductive Event (α : Type) where
  | present (sender : Nat) (frame : α)
  | clone (sender : Nat)
  | close (sender : Nat)
  | receive
  | hangUp

/-- What has come of an event. The frames that the listener takes and the refusals are read off the
outcomes alone, so the account does not look into the channel. -/
inductive Outcome (α : Type) where
  | offered (sender : Nat) (frame : α) (answer : Answer)
  | cloned (parent copy : Nat)
  | received (reception : Reception α)
  | hungUp
  /-- Nobody is told anything. A closed sender cannot be heard either. -/
  | nothing

/-- The channel after an event. Cloning a sender that is not open does nothing. -/
def happen (ch : FrameChannel α) : Event α → FrameChannel α
  | .present sender frame => ch.present sender frame
  | .clone sender => (ch.clone? sender).elim ch Prod.snd
  | .close sender => ch.close sender
  | .receive => ch.receive.2
  | .hangUp => ch.hangUp

/-- What comes of an event in a channel. The outcome is decided before the event changes the
channel. -/
def outcome (ch : FrameChannel α) : Event α → Outcome α
  | .present sender frame =>
    if (ch.dropped? sender).isSome then .offered sender frame ch.answer else .nothing
  | .clone sender => (ch.clone? sender).elim .nothing fun clone => .cloned sender clone.1
  | .close _ => .nothing
  | .receive => .received ch.receive.1
  | .hangUp => .hungUp

/-- The outcome of presenting says that the channel is full exactly if it is. -/
theorem outcome_present_eq_full_iff {ch : FrameChannel α} {sender count : Nat}
    (h : ch.dropped? sender = some count) (frame : α) :
    ch.outcome (.present sender frame) = .offered sender frame .full ↔ ch.answer = .full := by
  have hsome : (ch.dropped? sender).isSome = true := Option.isSome_of_eq_some h
  have hoffered : ch.outcome (.present sender frame) = .offered sender frame ch.answer :=
    if_pos hsome
  rw [hoffered, Outcome.offered.injEq]
  exact ⟨fun heq => heq.2.2, fun heq => ⟨rfl, rfl, heq⟩⟩

/-- The channel after events, one after another. -/
def run (ch : FrameChannel α) (events : List (Event α)) : FrameChannel α := events.foldl happen ch

/-- The outcomes of events, in order. -/
def outcomes (ch : FrameChannel α) : List (Event α) → List (Outcome α)
  | [] => []
  | event :: rest => ch.outcome event :: (ch.happen event).outcomes rest

/-! ### The record -/

/-- The frame that the listener has taken, if it has taken one. -/
def Outcome.received? : Outcome α → Option α
  | .received (.frame frame) => some frame
  | .received .empty | .received .disconnected | .received .closed | .offered .. | .cloned ..
  | .hungUp | .nothing => none

/-- The frame that was presented, unless the channel was full. -/
def Outcome.unrefused? : Outcome α → Option α
  | .offered _ frame .stored | .offered _ frame .disconnected => some frame
  | .offered _ _ .full | .cloned .. | .received _ | .hungUp | .nothing => none

/-- Whether a sender has found the channel full. -/
def Outcome.refuses (sender : Nat) : Outcome α → Bool
  | .offered name _ .full => name = sender
  | .offered _ _ .stored | .offered _ _ .disconnected | .cloned .. | .received _ | .hungUp
  | .nothing => false

/-- The sender that a sender was before: the one it was cloned from, if that has just happened, and
else itself. -/
def Outcome.before (sender : Nat) : Outcome α → Nat
  | .cloned parent copy => if copy = sender then parent else sender
  | .offered .. | .received _ | .hungUp | .nothing => sender

/-- The frames that the listener has taken, in order. -/
def receivedFrames (record : List (Outcome α)) : List α := record.filterMap Outcome.received?

/-- The frames that were presented and did not find the channel full, in order. -/
def unrefusedFrames (record : List (Outcome α)) : List α := record.filterMap Outcome.unrefused?

/-- How often the channel was full on the way that leads back from a sender to the sender that it
was cloned from, and so on. The record is read backwards, its latest outcome first. -/
def refusalsBehind (sender : Nat) : List (Outcome α) → Nat
  | [] => 0
  | last :: earlier =>
    (if last.refuses sender then 1 else 0) + refusalsBehind (last.before sender) earlier

/-- The last outcome adds its frame at the end of those that were taken. -/
theorem receivedFrames_concat (record : List (Outcome α)) (last : Outcome α) :
    receivedFrames (record ++ [last]) = receivedFrames record ++ last.received?.toList := by
  rw [receivedFrames, List.filterMap_append, receivedFrames]
  cases h : last.received? <;> simp [h]

/-- The last outcome adds its frame at the end of those that were not refused. -/
theorem unrefusedFrames_concat (record : List (Outcome α)) (last : Outcome α) :
    unrefusedFrames (record ++ [last]) = unrefusedFrames record ++ last.unrefused?.toList := by
  rw [unrefusedFrames, List.filterMap_append, unrefusedFrames]
  cases h : last.unrefused? <;> simp [h]

/-- The way back from a sender begins with the last outcome. -/
theorem refusalsBehind_concat (sender : Nat) (record : List (Outcome α)) (last : Outcome α) :
    refusalsBehind sender (record ++ [last]).reverse =
      (if last.refuses sender then 1 else 0) +
        refusalsBehind (last.before sender) record.reverse := by
  rw [List.reverse_concat, refusalsBehind]

/-! ### The account -/

/-- What holds between the record and the channel that it has led to. The balance of frames holds
only while somebody listens, and the counts hold in any case. -/
structure Accounted (capacity : Nat) (record : List (Outcome α)) (ch : FrameChannel α) : Prop where
  sized : ch.capacity = capacity
  room : ch.frames.length ≤ capacity
  listening : ch.listening = true ↔ .hungUp ∉ record
  balance : ch.listening = true →
    receivedFrames record ++ ch.frames = unrefusedFrames record
  counts : ∀ sender count, ch.dropped? sender = some count →
    refusalsBehind sender record.reverse = count

section Accounted

variable {capacity : Nat} {record : List (Outcome α)} {ch : FrameChannel α}

/-- A channel that is new is accounted for by an empty record. -/
theorem accounted_bounded (capacity : Nat) :
    Accounted capacity ([] : List (Outcome α)) (bounded capacity) where
  sized := rfl
  room := Nat.zero_le _
  listening := iff_of_true rfl List.not_mem_nil
  balance _ := rfl
  counts := by
    intro sender count h
    -- There is one sender, and it has dropped nothing.
    have hsender : sender < 1 := lt_size_of_dropped? h
    obtain rfl : sender = 0 := Nat.lt_one_iff.mp hsender
    exact Option.some.inj h

/-- The record of anything but hanging up leaves open whether somebody listens. -/
theorem Accounted.listening_concat (h : Accounted capacity record ch) {last : Outcome α}
    (hlast : last ≠ .hungUp) : ch.listening = true ↔ .hungUp ∉ record ++ [last] := by
  rw [h.listening, List.mem_append, List.mem_singleton, or_iff_left hlast.symm]

/-- An outcome that tells of no sender leaves the counts as they are. -/
theorem Accounted.counts_concat (h : Accounted capacity record ch) {last : Outcome α}
    (hrefuses : ∀ sender, last.refuses sender = false)
    (hbefore : ∀ sender, last.before sender = sender) {sender count : Nat}
    (hcount : ch.dropped? sender = some count) :
    refusalsBehind sender (record ++ [last]).reverse = count := by
  rw [refusalsBehind_concat, hrefuses, hbefore, if_neg Bool.false_ne_true, Nat.zero_add]
  exact h.counts sender count hcount

/-- An outcome that tells of no frame and of no sender leaves the account as it is. Most events are
of this kind, at least in most states of the channel. -/
theorem Accounted.concat (h : Accounted capacity record ch) {last : Outcome α}
    (hhung : last ≠ .hungUp) (hreceived : last.received? = none)
    (hunrefused : ch.listening = true → last.unrefused? = none)
    (hrefuses : ∀ sender, last.refuses sender = false)
    (hbefore : ∀ sender, last.before sender = sender) :
    Accounted capacity (record ++ [last]) ch := by
  refine ⟨h.sized, h.room, ?_, fun hlistening => ?_, fun sender count hcount => ?_⟩
  · exact h.listening_concat hhung
  · rw [receivedFrames_concat, unrefusedFrames_concat, hreceived, hunrefused hlistening,
      Option.toList_none, List.append_nil, List.append_nil]
    exact h.balance hlistening
  · exact h.counts_concat hrefuses hbefore hcount

/-- Where nothing comes of an event, the account stays as it is. -/
theorem Accounted.concat_nothing (h : Accounted capacity record ch) :
    Accounted capacity (record ++ [.nothing]) ch :=
  h.concat nofun rfl (fun _ => rfl) (fun _ => rfl) fun _ => rfl

/-- A listener that is told why there is no frame takes none. -/
theorem Accounted.concat_received (h : Accounted capacity record ch) {reception : Reception α}
    (hnone : (Outcome.received reception).received? = none) :
    Accounted capacity (record ++ [.received reception]) ch :=
  h.concat nofun hnone (fun _ => rfl) (fun _ => rfl) fun _ => rfl

/-- A frame is stored, or counted, or lost on nobody. The three cases are those of the answer, and
each touches one clause of the account only. -/
theorem Accounted.present (h : Accounted capacity record ch) {sender count : Nat}
    (hopen : ch.dropped? sender = some count) (frame : α) :
    Accounted capacity (record ++ [.offered sender frame ch.answer]) (ch.present sender frame) := by
  rw [present_eq hopen]
  cases hanswer : ch.answer with
  | stored =>
    obtain ⟨hlistening, hroom⟩ := answer_eq_stored_iff.mp hanswer
    refine ⟨h.sized, ?_, ?_, fun _ => ?_, fun other n hn => ?_⟩
    · rw [List.length_append, List.length_singleton, ← h.sized]
      exact Nat.lt_of_not_le hroom
    · exact h.listening_concat nofun
    · rw [receivedFrames_concat, unrefusedFrames_concat, ← h.balance hlistening]
      simp [Outcome.received?, Outcome.unrefused?]
    · exact h.counts_concat (fun _ => rfl) (fun _ => rfl) hn
  | full =>
    refine ⟨h.sized, h.room, ?_, fun hlistening => ?_, fun other n hn => ?_⟩
    · exact h.listening_concat nofun
    · rw [receivedFrames_concat, unrefusedFrames_concat]
      -- The frame is on neither side of the balance, as the channel has refused it.
      simpa [Outcome.received?, Outcome.unrefused?] using h.balance hlistening
    · -- The sender itself counts one more, and nobody else does.
      rw [dropped?_set] at hn
      rw [refusalsBehind_concat, Outcome.refuses, Outcome.before]
      by_cases hsame : sender = other
      · subst hsame
        rw [if_pos ⟨rfl, lt_size_of_dropped? hopen⟩] at hn
        rw [decide_eq_true rfl, if_pos rfl, h.counts sender count hopen, Nat.add_comm]
        exact Option.some.inj hn
      · rw [if_neg fun hc => hsame hc.1] at hn
        rw [decide_eq_false hsame, if_neg Bool.false_ne_true, Nat.zero_add]
        exact h.counts other n hn
  | disconnected =>
    have hgone : ch.listening = false := answer_eq_disconnected_iff.mp hanswer
    refine h.concat nofun rfl (fun hlistening => ?_) (fun _ => rfl) fun _ => rfl
    -- Nobody listens, so nothing is said of the balance that the frame would upset.
    exact absurd (hgone.symm.trans hlistening) Bool.false_ne_true

/-- A channel that is accounted for is full exactly if it holds as many frames as it can. -/
theorem Accounted.isFull_iff (h : Accounted capacity record ch) :
    ch.IsFull ↔ ch.frames.length = capacity := by
  show ch.capacity ≤ ch.frames.length ↔ _
  rw [h.sized]
  exact ⟨fun hle => Nat.le_antisymm h.room hle, fun heq => Nat.le_of_eq heq.symm⟩

/-- The copy of a sender starts with what has been counted for the sender. -/
theorem Accounted.clone (h : Accounted capacity record ch) {sender count : Nat}
    (hopen : ch.dropped? sender = some count) :
    Accounted capacity (record ++ [.cloned sender ch.senders.size])
      { ch with senders := ch.senders.push (some count) } := by
  refine ⟨h.sized, h.room, ?_, fun hlistening => ?_, fun other n hn => ?_⟩
  · exact h.listening_concat nofun
  · rw [receivedFrames_concat, unrefusedFrames_concat]
    simpa [Outcome.received?, Outcome.unrefused?] using h.balance hlistening
  · rw [dropped?_push] at hn
    rw [refusalsBehind_concat, Outcome.refuses, Outcome.before, if_neg Bool.false_ne_true,
      Nat.zero_add]
    -- The way back from the copy leads to the sender first, and the others have their way back as
    -- before.
    by_cases hcopy : other = ch.senders.size
    · rw [if_pos hcopy] at hn
      rw [if_pos hcopy.symm, h.counts sender count hopen]
      exact Option.some.inj hn
    · rw [if_neg hcopy] at hn
      rw [if_neg (Ne.symm hcopy)]
      exact h.counts other n hn

/-- Closing a sender takes its count out of the account, and nothing else. -/
theorem Accounted.close (h : Accounted capacity record ch) (sender : Nat) :
    Accounted capacity (record ++ [.nothing]) (ch.close sender) := by
  have hsame : Accounted capacity (record ++ [.nothing]) ch := h.concat_nothing
  refine ⟨hsame.sized, hsame.room, hsame.listening, hsame.balance, ?_⟩
  intro other n hn
  unfold FrameChannel.close at hn
  rw [dropped?_set] at hn
  -- The sender is not heard of any more, and the others are what they were.
  split at hn
  · exact absurd hn nofun
  · exact hsame.counts other n hn

/-- What the listener takes is the oldest frame in the channel. It moves from the one part of the
balance to the other, at the place where they meet. -/
theorem Accounted.receive (h : Accounted capacity record ch) :
    Accounted capacity (record ++ [.received ch.receive.1]) ch.receive.2 := by
  unfold FrameChannel.receive
  by_cases hlistening : ch.listening = true
  · rw [if_neg (not_not_intro hlistening)]
    cases hframes : ch.frames with
    | cons frame rest =>
      refine ⟨h.sized, ?_, ?_, fun _ => ?_, fun sender count hcount => ?_⟩
      · have hroom := h.room
        rw [hframes, List.length_cons] at hroom
        exact Nat.le_of_succ_le hroom
      · exact h.listening_concat nofun
      · -- The frame at the head of the channel is the last one received now, and the list of both
        -- stays as it is.
        have hbalance := h.balance hlistening
        rw [hframes] at hbalance
        rw [receivedFrames_concat, unrefusedFrames_concat, ← hbalance]
        simp [Outcome.received?, Outcome.unrefused?]
      · exact h.counts_concat (fun _ => rfl) (fun _ => rfl) hcount
    | nil =>
      dsimp only
      split
      · exact h.concat_received rfl
      · exact h.concat_received rfl
  · rw [if_pos hlistening]
    exact h.concat_received rfl

/-- Hanging up ends the balance and keeps the counts. -/
theorem Accounted.hangUp (h : Accounted capacity record ch) :
    Accounted capacity (record ++ [.hungUp]) ch.hangUp := by
  refine ⟨h.sized, Nat.zero_le _, ?_, fun hlistening => ?_, fun sender count hcount => ?_⟩
  · refine iff_of_false Bool.false_ne_true fun hnone => hnone ?_
    exact List.mem_append_right _ (List.mem_singleton.mpr rfl)
  · exact absurd hlistening Bool.false_ne_true
  · exact h.counts_concat (fun _ => rfl) (fun _ => rfl) hcount

/-- **Every event keeps the account.** An event that names a sender that is not open does nothing,
and is recorded so. -/
theorem Accounted.happen (h : Accounted capacity record ch) (event : Event α) :
    Accounted capacity (record ++ [ch.outcome event]) (ch.happen event) := by
  -- One lemma for each event; a sender that is not open makes the event nothing.
  cases event with
  | present sender frame =>
    show Accounted capacity (record ++ [if _ then _ else _]) (ch.present sender frame)
    cases hopen : ch.dropped? sender with
    | some count => exact h.present hopen frame
    | none =>
      rw [present_of_closed hopen]
      exact h.concat_nothing
  | clone sender =>
    show Accounted capacity (record ++ [(Option.map _ (ch.dropped? sender)).elim _ _])
      ((Option.map _ (ch.dropped? sender)).elim ch Prod.snd)
    cases hopen : ch.dropped? sender with
    | some count => exact h.clone hopen
    | none => exact h.concat_nothing
  | close sender => exact h.close sender
  | receive => exact h.receive
  | hangUp => exact h.hangUp

/-- Events one after another keep the account. -/
theorem Accounted.run (h : Accounted capacity record ch) (events : List (Event α)) :
    Accounted capacity (record ++ ch.outcomes events) (ch.run events) := by
  induction events generalizing record ch with
  | nil =>
    rw [outcomes, List.append_nil]
    exact h
  | cons event rest ih =>
    have hrest := ih (h.happen event)
    rw [List.append_assoc] at hrest
    exact hrest

end Accounted

/-! ### After the listener has hung up -/

section HungUp

variable {ch : FrameChannel α}

/-- Where nobody listens, presenting changes nothing, not even a count. -/
theorem present_of_not_listening (h : ch.listening = false) (sender : Nat) (frame : α) :
    ch.present sender frame = ch := by
  cases hopen : ch.dropped? sender with
  | none => exact present_of_closed hopen frame
  | some count => rw [present_eq hopen, answer_eq_disconnected_iff.mpr h]

/-- Where nobody listens, nothing is received. -/
theorem receive_of_not_listening (h : ch.listening = false) : ch.receive = (.closed, ch) := by
  unfold receive
  rw [h]
  rfl

/-- A listener that has hung up does not come back, and takes no frame. -/
theorem happen_of_not_listening (h : ch.listening = false) (event : Event α) :
    (ch.happen event).listening = false ∧ (ch.outcome event).received? = none := by
  cases event with
  | present sender frame =>
    refine ⟨(congrArg listening (present_of_not_listening h sender frame)).trans h, ?_⟩
    show Outcome.received? (if _ then _ else _) = none
    split <;> rfl
  | clone sender =>
    show ((Option.map _ (ch.dropped? sender)).elim ch Prod.snd).listening = false ∧
      Outcome.received? ((Option.map _ (ch.dropped? sender)).elim _ _) = none
    cases ch.dropped? sender with
    | none => exact ⟨h, rfl⟩
    | some count => exact ⟨h, rfl⟩
  | close sender => exact ⟨h, rfl⟩
  | receive =>
    show ch.receive.2.listening = false ∧ Outcome.received? (.received ch.receive.1) = none
    rw [receive_of_not_listening h]
    exact ⟨h, rfl⟩
  | hangUp => exact ⟨rfl, rfl⟩

/-- After the listener has hung up it takes no frame, whatever happens. -/
theorem receivedFrames_of_not_listening (h : ch.listening = false) (events : List (Event α)) :
    receivedFrames (ch.outcomes events) = [] := by
  induction events generalizing ch with
  | nil => rfl
  | cons event rest ih =>
    obtain ⟨hafter, hnone⟩ := happen_of_not_listening h event
    unfold outcomes receivedFrames
    rw [List.filterMap_cons_none hnone]
    exact ih hafter

/-- Only hanging up is recorded as such. -/
theorem outcome_eq_hungUp_iff {event : Event α} : ch.outcome event = .hungUp ↔ event = .hangUp := by
  cases event with
  | present sender frame =>
    show (if _ then _ else _) = Outcome.hungUp ↔ _
    split <;> exact iff_of_false nofun nofun
  | clone sender =>
    show (Option.map _ (ch.dropped? sender)).elim _ _ = Outcome.hungUp ↔ _
    cases ch.dropped? sender <;> exact iff_of_false nofun nofun
  | close sender => exact iff_of_false nofun nofun
  | receive => exact iff_of_false nofun nofun
  | hangUp => exact iff_of_true rfl rfl

/-- The record tells of hanging up exactly if it is among the events. -/
theorem hungUp_mem_outcomes_iff {events : List (Event α)} :
    .hungUp ∈ ch.outcomes events ↔ .hangUp ∈ events := by
  -- Events and outcomes go side by side, so they can be compared one at a time.
  induction events generalizing ch with
  | nil => exact iff_of_false List.not_mem_nil List.not_mem_nil
  | cons event rest ih =>
    rw [outcomes, List.mem_cons, List.mem_cons, ih]
    exact or_congr (eq_comm.trans (outcome_eq_hungUp_iff.trans eq_comm)) Iff.rfl

end HungUp

/-! ### From the beginning -/

/-- The channel listens until somebody has hung up. -/
theorem listening_run_bounded (capacity : Nat) (events : List (Event α)) :
    ((bounded capacity).run events).listening = true ↔ .hangUp ∉ events := by
  rw [((accounted_bounded capacity).run events).listening, List.nil_append, hungUp_mem_outcomes_iff]

/-- **Every frame is accounted for.** A channel never holds more frames than its capacity. Before
the listener hangs up the frames that it has taken and those in the channel are the presented frames
but for those that found it full, in their order; afterwards nothing is taken. A sender counts the
frames that found the channel full on the way along which it was cloned. That happens only while
somebody listens and the channel holds as many frames as it can, and then the sender counts one
more; whatever is presented after the listener has hung up changes nothing. -/
theorem frames_accounted (capacity : Nat) (events : List (Event α)) :
    let ch := (bounded capacity).run events
    let record := (bounded capacity).outcomes events
    ch.frames.length ≤ capacity ∧
      (.hangUp ∉ events → receivedFrames record ++ ch.frames = unrefusedFrames record) ∧
      (.hangUp ∈ events → ∀ later, receivedFrames (ch.outcomes later) = []) ∧
      (∀ sender count, ch.dropped? sender = some count →
        refusalsBehind sender record.reverse = count) ∧
      (.hangUp ∈ events → ∀ sender frame, ch.present sender frame = ch) ∧
      ∀ sender count frame, ch.dropped? sender = some count →
        ((ch.present sender frame).dropped? sender = some (count + 1) ↔
          .hangUp ∉ events ∧ ch.frames.length = capacity) ∧
        (ch.outcome (.present sender frame) = .offered sender frame .full ↔
          .hangUp ∉ events ∧ ch.frames.length = capacity) := by
  intro ch record
  -- Both are facts about the channel as it is; the rest reads the clauses off.
  have haccount : Accounted capacity record ch := (accounted_bounded capacity).run events
  have hlistens : ch.listening = true ↔ .hangUp ∉ events := listening_run_bounded capacity events
  have hdeaf : .hangUp ∈ events → ch.listening = false := by
    intro hmem
    refine Bool.eq_false_iff.mpr fun hlistening => ?_
    exact hlistens.mp hlistening hmem
  refine ⟨haccount.room, ?_, ?_, haccount.counts, ?_, ?_⟩
  · intro hnone
    exact haccount.balance (hlistens.mpr hnone)
  · intro hmem later
    exact receivedFrames_of_not_listening (hdeaf hmem) later
  · intro hmem sender frame
    exact present_of_not_listening (hdeaf hmem) sender frame
  · intro sender count frame hopen
    -- A channel that is full and has not been overfilled holds exactly what it can.
    have hfull : ch.answer = .full ↔ .hangUp ∉ events ∧ ch.frames.length = capacity := by
      rw [answer_eq_full_iff, hlistens, haccount.isFull_iff]
    exact ⟨(dropped?_present_eq_succ_iff hopen frame).trans hfull,
      (outcome_present_eq_full_iff hopen frame).trans hfull⟩

/-- The copy has dropped one frame itself, and one before it was made. -/
example :
    ((bounded 0).run
      [.present 0 'a', .clone 0, .present 1 'b', .hangUp, .present 1 'c']).senders =
      #[some 1, some 2] := rfl

end FrameChannel

end Easel
