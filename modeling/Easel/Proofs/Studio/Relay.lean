import Easel.Proofs.Studio.Outcome
import Easel.Render.FrameChannel

/-!
# A listener at the other end

The worker of a studio hands its frames to a channel, and waits for nobody. At the other end a
listener takes one frame after another, until it is told that there will be none: the worker is gone
and has let go of the channel, and the channel is empty. Author, worker and listener take turns in
any order.

A frame is lost if it finds the channel full. So none is lost if the channel has room for all
frames.

* `Studio.turnToStop_withReceiver` — studios with different receivers show the same frames;
* `Relay.turn`, `Relay.run` — a studio with a channel and a listener;
* `Relay.Carries` — where the frames are that a studio with a receiver of its own would have kept;
* `Relay.heard_of_isOver` — in the end the listener has heard of all frames, in order;
* `Relay.exists_isOver` — and every schedule can be brought to an end.
-/

namespace Easel

/-! ### Channels -/

namespace FrameChannel

variable {α : Type} {channel : FrameChannel α}

/-- A frame that finds room is put behind those that are in the channel, and none is dropped. -/
theorem present_of_room (hopen : channel.senders = #[some 0])
    (hlistening : channel.listening = true) (hroom : ¬ channel.IsFull) (frame : α) :
    channel.present 0 frame = { channel with frames := channel.frames ++ [frame] } := by
  have hdropped : channel.dropped? 0 = some 0 := by
    rw [dropped?, hopen]
    rfl
  rw [present, hdropped]
  dsimp only
  rw [if_neg (not_not_intro hlistening), if_neg hroom]

/-- The frame that has been in the channel for longest is the one that is received. -/
theorem receive_of_cons (hlistening : channel.listening = true) {frame : α} {rest : List α}
    (hframes : channel.frames = frame :: rest) :
    channel.receive = (.frame frame, { channel with frames := rest }) := by
  rw [receive, if_neg (not_not_intro hlistening), hframes]

/-- With the sender's end open, an empty channel says nothing about frames to come. -/
theorem receive_of_open (hlistening : channel.listening = true) (hframes : channel.frames = [])
    (hopen : channel.senders = #[some 0]) : channel.receive = (.empty, channel) := by
  have hsome : channel.senders.any Option.isSome = true := by simp [hopen]
  rw [receive, if_neg (not_not_intro hlistening), hframes]
  dsimp only
  rw [if_pos hsome]

/-- With the sender's end closed, an empty channel says that there will be no frames. -/
theorem receive_of_closed (hlistening : channel.listening = true) (hframes : channel.frames = [])
    (hclosed : channel.senders = #[none]) : channel.receive = (.disconnected, channel) := by
  have hnone : ¬ channel.senders.any Option.isSome = true := by simp [hclosed]
  rw [receive, if_neg (not_not_intro hlistening), hframes]
  dsimp only
  rw [if_neg hnone]

end FrameChannel

/-! ### Receivers -/

namespace Studio

variable {σ ρ ρ' : Type}

/-- The same studio with another receiver. The queue, the surfaces and the counts of the loop are
those of before. -/
def withReceiver {ι : Type} (studio : Studio ι σ ρ) (receiver : ρ') : Studio ι σ ρ' where
  authors := studio.authors
  scenes := studio.scenes
  loop := ⟨studio.loop.lifecycle, studio.loop.queue, studio.loop.worker, studio.loop.drawing,
    studio.loop.standby, receiver, studio.loop.tally⟩
  hand := studio.hand
  posted := studio.posted

/-- What the receiver is shown in a turn: the surface under way, when the worker concludes an
operation that presents. -/
def shownIn {ι : Type} (studio : Studio ι σ ρ) : Turn ι → Option σ
  | .author _ => none
  | .worker =>
    match studio.hand with
    | some ([], true) => some studio.loop.drawing
    | _ => none

/-- The author does not know the receiver. Whatever it does is done to the queue, to the scenes and
to its own compiler. -/
theorem proceed_withReceiver (studio : Studio Unit σ ρ) (receiver : ρ') :
    (studio.withReceiver receiver).proceed = studio.proceed.withReceiver receiver := by
  by_cases hdone : (studio.authors ()).IsDone
  · have hdone' : ((studio.withReceiver receiver).authors ()).IsDone := hdone
    by_cases hrunning : studio.loop.lifecycle = .running
    · rw [proceed_of_running hdone hrunning, proceed_of_running hdone' hrunning]
      rfl
    · rw [proceed_of_asked hdone hrunning, proceed_of_asked hdone' hrunning]
  · have hdone' : ¬ ((studio.withReceiver receiver).authors ()).IsDone := hdone
    rw [proceed_of_not_isDone hdone, proceed_of_not_isDone hdone', write_eq, write_eq]
    rfl

/-- The author does not touch what the worker has in its hand, and does not make it leave. -/
theorem proceed_keeps (studio : Studio Unit σ ρ) :
    studio.proceed.loop.worker = studio.loop.worker ∧ studio.proceed.hand = studio.hand := by
  by_cases hdone : (studio.authors ()).IsDone
  · by_cases hrunning : studio.loop.lifecycle = .running
    · rw [proceed_of_running hdone hrunning]
      exact ⟨rfl, rfl⟩
    · rw [proceed_of_asked hdone hrunning]
      exact ⟨rfl, rfl⟩
  · rw [proceed_of_not_isDone hdone, write_eq]
    exact ⟨rfl, rfl⟩

variable [Surface σ]

/-- The worker does not know the receiver, except that it shows it something. A receiver that never
fails has no other way to make a difference. -/
theorem work_withReceiver {ι : Type} (studio : Studio ι σ ρ) (taken : ρ → σ → ρ)
    (taken' : ρ' → σ → ρ') (receiver : ρ') :
    (studio.withReceiver receiver).work (.steady taken') =
      (studio.work (.steady taken)).withReceiver
        ((studio.shownIn .worker).elim receiver (taken' receiver)) := by
  obtain ⟨authors, scenes, ⟨lifecycle, ⟨items⟩, worker, drawing, standby, own, tally⟩, hand,
    posted⟩ := studio
  cases hand with
  | some held =>
    obtain ⟨leaves, ready⟩ := held
    cases leaves with
    | cons leaf rest => rfl
    | nil => cases ready <;> rfl
  | none =>
    cases worker with
    | finished => rfl
    | dead => rfl
    | alive =>
      cases items with
      | nil => rfl
      | cons message rest => cases message <;> rfl

/-- **Studios with different receivers show the same frames.** So a studio whose frames go to a
channel may be compared with one that keeps them all. -/
theorem turnToStop_withReceiver (studio : Studio Unit σ ρ) (taken : ρ → σ → ρ)
    (taken' : ρ' → σ → ρ') (receiver : ρ') (turn : Turn Unit) :
    (studio.withReceiver receiver).turnToStop (.steady taken') turn =
      (studio.turnToStop (.steady taken) turn).withReceiver
        ((studio.shownIn turn).elim receiver (taken' receiver)) := by
  cases turn with
  | author _ => exact studio.proceed_withReceiver receiver
  | worker => exact studio.work_withReceiver taken taken' receiver

omit [Surface σ] in
/-- What is shown in a turn does not depend on who is shown it. -/
theorem shownIn_withReceiver {ι : Type} (studio : Studio ι σ ρ) (receiver : ρ') (turn : Turn ι) :
    (studio.withReceiver receiver).shownIn turn = studio.shownIn turn := by
  cases turn <;> rfl

/-- The receiver takes what is shown in a turn, and is left alone in all other turns. -/
theorem receiver_turnToStop (studio : Studio Unit σ ρ) (taken : ρ → σ → ρ) (turn : Turn Unit) :
    (studio.turnToStop (.steady taken) turn).loop.receiver =
      (studio.shownIn turn).elim studio.loop.receiver (taken studio.loop.receiver) :=
  congrArg (·.loop.receiver)
    (studio.turnToStop_withReceiver taken taken studio.loop.receiver turn)

end Studio

/-! ### The listener -/

/-- A studio whose worker hands its frames to a channel, and a listener at the other end. The
channel is the receiver of the loop, so that author and worker go on as in any other studio. -/
structure Relay (σ ρ : Type) where
  studio : Studio Unit σ (FrameChannel σ)
  /-- What the listener has made of the frames that it has taken. -/
  heard : ρ
  /-- The listener has been told that no frames are to come. -/
  finished : Bool

namespace Relay

variable {σ ρ : Type}

/-- Whose turn it is. -/
inductive Turn where
  /-- The author's or the worker's. -/
  | studio (turn : Easel.Turn Unit)
  /-- If the worker is gone, its end of the channel is closed. -/
  | release
  | listener

/-- A turn of the studio, if it is one. -/
def Turn.studio? : Turn → Option (Easel.Turn Unit)
  | .studio turn => some turn
  | .release | .listener => none

/-- The channel between worker and listener. -/
def channel (relay : Relay σ ρ) : FrameChannel σ := relay.studio.loop.receiver

/-- The worker has left or died. It has nothing in its hand then, and its end of the channel may be
closed. -/
def IsReleased (relay : Relay σ ρ) : Prop :=
  relay.studio.loop.worker ≠ .alive ∧ relay.studio.hand = none

instance (relay : Relay σ ρ) : Decidable relay.IsReleased := inferInstanceAs (Decidable (_ ∧ _))

/-- The listener takes a frame, or learns that there will be none. If neither is the case it does
nothing in this turn, and may try again in a later one. -/
def listen (taken : ρ → σ → ρ) (relay : Relay σ ρ) : Relay σ ρ :=
  if relay.finished then relay
  else
    match relay.channel.receive with
    | (.frame frame, channel) =>
      ⟨relay.studio.withReceiver channel, taken relay.heard frame, false⟩
    -- The listener waits.
    | (.empty, _) => relay
    | (.disconnected, _) | (.closed, _) => { relay with finished := true }

section Listen

variable (taken : ρ → σ → ρ) {relay : Relay σ ρ} (hgoing : relay.finished = false)
  (hlistening : relay.channel.listening = true)

include hgoing hlistening

/-- The listener takes the oldest frame. -/
theorem listen_of_cons {frame : σ} {rest : List σ}
    (hframes : relay.channel.frames = frame :: rest) :
    relay.listen taken =
      ⟨relay.studio.withReceiver { relay.channel with frames := rest }, taken relay.heard frame,
        false⟩ := by
  rw [listen, hgoing, FrameChannel.receive_of_cons hlistening hframes]
  rfl

/-- The listener waits as long as frames may come. -/
theorem listen_of_open (hframes : relay.channel.frames = [])
    (hopen : relay.channel.senders = #[some 0]) : relay.listen taken = relay := by
  rw [listen, hgoing, FrameChannel.receive_of_open hlistening hframes hopen]
  rfl

/-- The listener is told that there will be no frames. -/
theorem listen_of_closed (hframes : relay.channel.frames = [])
    (hclosed : relay.channel.senders = #[none]) :
    relay.listen taken = { relay with finished := true } := by
  rw [listen, hgoing, FrameChannel.receive_of_closed hlistening hframes hclosed]
  rfl

end Listen

/-- Closes the worker's end of the channel. As long as the worker is there this does nothing, so
that it may stand anywhere in a schedule. -/
def release (relay : Relay σ ρ) : Relay σ ρ :=
  if relay.IsReleased then
    { relay with studio := relay.studio.withReceiver (relay.channel.close 0) }
  else relay

/-- The receiver of a loop that hands its frames to a channel. -/
def send : FrameChannel σ → σ → FrameChannel σ := fun channel frame => channel.present 0 frame

variable [Surface σ]

/-- A turn of a relay: of its studio, of its channel or of its listener. -/
def turn (taken : ρ → σ → ρ) (relay : Relay σ ρ) : Turn → Relay σ ρ
  | .studio turn => { relay with studio := relay.studio.turnToStop (.steady send) turn }
  | .release => relay.release
  | .listener => relay.listen taken

/-- Turns are taken in the order of a schedule. -/
def run (taken : ρ → σ → ρ) (relay : Relay σ ρ) (schedule : List Turn) : Relay σ ρ :=
  schedule.foldl (turn taken) relay

/-- A relay in which nothing has happened. -/
def opening (program : Program) (first second : σ) (capacity : Nat) (start : ρ) : Relay σ ρ :=
  ⟨.opening program first second (.bounded capacity), start, false⟩

omit [Surface σ] in
/-- Author and worker have got done, and the listener has been told so. -/
def IsOver (relay : Relay σ ρ) : Prop := relay.studio.IsOver ∧ relay.finished = true

omit [Surface σ] in
instance (relay : Relay σ ρ) : Decidable relay.IsOver := inferInstanceAs (Decidable (_ ∧ _))

/-! ### Where the frames are -/

/-- The receiver of a studio that keeps all frames. -/
def keep : List σ → σ → List σ := fun frames frame => frames ++ [frame]

omit [Surface σ] in
/-- A receiver that keeps all frames puts them behind those that it has. -/
theorem foldl_keep (frames shown : List σ) : shown.foldl keep frames = frames ++ shown :=
  List.foldl_append_eq_append.trans (congrArg (frames ++ ·) (List.flatMap_singleton' shown))

omit [Surface σ] in
/-- A relay against a studio that has kept all frames: the listener has heard of the earlier ones,
and the others are in the channel. The two studios differ in nothing but the receiver. If the end of
the channel is closed, the worker is gone, and if the listener has been told so, no frame is left
behind. -/
structure Carries (taken : ρ → σ → ρ) (start : ρ) (capacity : Nat) (kept : Studio Unit σ (List σ))
    (relay : Relay σ ρ) : Prop where
  studio : relay.studio = kept.withReceiver relay.channel
  capacity : relay.channel.capacity = capacity
  listening : relay.channel.listening = true
  senders : relay.channel.senders = #[some 0] ∨
    relay.channel.senders = #[none] ∧ relay.IsReleased
  frames : ∃ passed, kept.loop.receiver = passed ++ relay.channel.frames ∧
    relay.heard = passed.foldl taken start
  finished : relay.finished = true → relay.channel.frames = [] ∧ relay.channel.senders = #[none]

omit [Surface σ] in
/-- A relay in which nothing has happened carries nothing. -/
theorem carries_opening (program : Program) (first second : σ) (capacity : Nat) (taken : ρ → σ → ρ)
    (start : ρ) : (opening program first second capacity start).Carries taken start capacity
      (Studio.opening program first second []) where
  studio := rfl
  capacity := rfl
  listening := rfl
  senders := .inl rfl
  frames := ⟨[], rfl, rfl⟩
  finished := nofun

section Carries

variable {taken : ρ → σ → ρ} {start : ρ} {capacity : Nat} {kept : Studio Unit σ (List σ)}
  {relay : Relay σ ρ}

/-- A worker who is gone stays so, and shows nothing. The author may still go on with its calls. -/
theorem IsReleased.studio_turn (h : relay.IsReleased) (turn : Easel.Turn Unit) :
    (relay.turn taken (.studio turn)).IsReleased ∧ relay.studio.shownIn turn = none := by
  obtain ⟨hgone, hhand⟩ := h
  cases turn with
  | author _ =>
    obtain ⟨hworker, hsame⟩ := relay.studio.proceed_keeps
    exact ⟨⟨hworker ▸ hgone, hsame.trans hhand⟩, rfl⟩
  | worker =>
    have hidle : relay.studio.turnToStop (.steady send) .worker = relay.studio :=
      Studio.work_of_gone (.steady send) hhand hgone
    refine ⟨?_, ?_⟩
    · rw [turn, hidle]
      exact ⟨hgone, hhand⟩
    · rw [Studio.shownIn, hhand]

/-- What the studio shows goes into the channel, if there is room. The studio that keeps its frames
takes the same turn, and shows the same frame, if any. Whoever shows a frame is not gone, so the
channel is still open for it; and since the channel holds only what has been kept and not been heard
of, the frame fits if all frames do. -/
theorem Carries.studio_turn (h : relay.Carries taken start capacity kept)
    (turn : Easel.Turn Unit)
    (hroom : (kept.turnToStop (.steady keep) turn).loop.receiver.length ≤ capacity) :
    (relay.turn taken (.studio turn)).Carries taken start capacity
      (kept.turnToStop (.steady keep) turn) := by
  obtain ⟨passed, hframes, hheard⟩ := h.frames
  have hreceiver := kept.receiver_turnToStop keep turn
  have hstudio := kept.turnToStop_withReceiver keep send relay.channel turn
  -- The relay takes the turn of the studio that keeps its frames, but for the receiver.
  have hnext : relay.turn taken (.studio turn) =
      ⟨(kept.turnToStop (.steady keep) turn).withReceiver
        ((kept.shownIn turn).elim relay.channel (send relay.channel)), relay.heard,
        relay.finished⟩ := by
    rw [← hstudio, ← h.studio]
    rfl
  -- If the worker is gone, nothing is shown.
  have hreleased : relay.IsReleased →
      (relay.turn taken (.studio turn)).IsReleased ∧ kept.shownIn turn = none := by
    intro hreleased
    rw [← kept.shownIn_withReceiver relay.channel, ← h.studio]
    exact hreleased.studio_turn turn
  cases hshown : kept.shownIn turn with
  | none =>
    -- With no frame shown, the channel and the frames that have been kept are as they were.
    rw [hshown] at hreceiver hnext
    rw [hnext] at hreleased ⊢
    exact ⟨rfl, h.capacity, h.listening,
      h.senders.imp_right fun ⟨hclosed, hgone⟩ => ⟨hclosed, (hreleased hgone).1⟩,
      ⟨passed, hreceiver.trans hframes, hheard⟩, h.finished⟩
  | some frame =>
    -- A worker who shows a frame is not gone, so its end of the channel is open.
    have hopen : relay.channel.senders = #[some 0] := by
      refine h.senders.resolve_right fun ⟨_, hgone⟩ => ?_
      rw [hshown] at hreleased
      exact absurd (hreleased hgone).2 (Option.some_ne_none frame)
    have hkept : (kept.turnToStop (.steady keep) turn).loop.receiver =
        passed ++ (relay.channel.frames ++ [frame]) := by
      rw [hreceiver, hshown, ← List.append_assoc, ← hframes]
      rfl
    -- With this frame no more are in the channel than have been kept, and these have room.
    have hfits : ¬ relay.channel.IsFull := by
      rw [hkept, List.length_append, List.length_append, List.length_singleton] at hroom
      rw [FrameChannel.IsFull, h.capacity]
      omega
    have hsent : send relay.channel frame =
        { relay.channel with frames := relay.channel.frames ++ [frame] } :=
      FrameChannel.present_of_room hopen h.listening hfits frame
    rw [hshown, Option.elim_some, hsent] at hnext
    rw [hnext]
    refine ⟨rfl, h.capacity, h.listening, .inl hopen, ⟨passed, hkept, hheard⟩, fun hfinished => ?_⟩
    -- The listener has not been told that this frame would not come.
    exact absurd (hopen.symm.trans (h.finished hfinished).2) (by decide)

omit [Surface σ] in
/-- Whether or not the worker's end has been closed before, it is closed now. -/
theorem Carries.senders_close (h : relay.Carries taken start capacity kept) :
    (relay.channel.close 0).senders = #[none] := by
  rw [FrameChannel.close]
  rcases h.senders with hopen | ⟨hclosed, -⟩
  · rw [hopen]
    rfl
  · rw [hclosed]
    rfl

omit [Surface σ] in
/-- Closing the channel takes nothing out of it. -/
theorem Carries.release (h : relay.Carries taken start capacity kept) :
    relay.release.Carries taken start capacity kept := by
  rw [Relay.release]
  split
  -- The worker is gone, so no frame is to come through the end that is closed.
  · next hreleased =>
    refine ⟨?_, h.capacity, h.listening, .inr ⟨h.senders_close, hreleased⟩, h.frames,
      fun hfinished => ⟨(h.finished hfinished).1, h.senders_close⟩⟩
    rw [h.studio]
    rfl
  · exact h

omit [Surface σ] in
/-- The listener takes the oldest frame from the channel, and goes only if there is none to come. -/
theorem Carries.listen (h : relay.Carries taken start capacity kept) :
    (relay.listen taken).Carries taken start capacity kept := by
  obtain ⟨passed, hframes, hheard⟩ := h.frames
  cases hgoing : relay.finished with
  | true =>
    rw [Relay.listen, if_pos hgoing]
    exact h
  | false =>
    cases hchannel : relay.channel.frames with
    | cons frame rest =>
      rw [listen_of_cons taken hgoing h.listening hchannel]
      -- The frame moves on from those in the channel to those that have been heard of.
      refine ⟨?_, h.capacity, h.listening, h.senders, ⟨passed ++ [frame], ?_, ?_⟩, nofun⟩
      · rw [h.studio]
        rfl
      · rw [hframes, hchannel, List.append_assoc]
        rfl
      · rw [List.foldl_concat, ← hheard]
    | nil =>
      rcases h.senders with hopen | ⟨hclosed, hreleased⟩
      · rw [listen_of_open taken hgoing h.listening hchannel hopen]
        exact h
      · rw [listen_of_closed taken hgoing h.listening hchannel hclosed]
        exact ⟨h.studio, h.capacity, h.listening, .inr ⟨hclosed, hreleased⟩,
          ⟨passed, hframes, hheard⟩, fun _ => ⟨hchannel, hclosed⟩⟩

/-- **What a relay carries on every schedule**, if the channel has room for all frames. The studio
that keeps its frames takes the turns that are turns of a studio, and skips the others. -/
theorem Carries.run (h : relay.Carries taken start capacity kept)
    (hroom : ∀ turns, (kept.runToStop (.steady keep) turns).loop.receiver.length ≤ capacity)
    (schedule : List Turn) :
    (relay.run taken schedule).Carries taken start capacity
      (kept.runToStop (.steady keep) (schedule.filterMap Turn.studio?)) := by
  induction schedule generalizing kept relay with
  | nil => exact h
  | cons turn rest ih =>
    cases turn with
    | studio turn =>
      exact ih (h.studio_turn turn (hroom [turn])) fun turns => hroom (turn :: turns)
    | release => exact ih h.release hroom
    | listener => exact ih h.listen hroom

/-- A listener who is not interrupted takes all frames, and is told that there will be none. -/
theorem Carries.exists_finished (h : relay.Carries taken start capacity kept)
    (hclosed : relay.channel.senders = #[none]) (hover : relay.studio.IsOver) :
    ∃ n, (relay.run taken (List.replicate n .listener)).IsOver := by
  cases hgoing : relay.finished with
  | true => exact ⟨0, hover, hgoing⟩
  | false =>
    -- With one turn for each frame, and one for the news.
    induction hchannel : relay.channel.frames generalizing relay with
    | nil =>
      refine ⟨1, ?_⟩
      change (relay.listen taken).IsOver
      rw [listen_of_closed taken hgoing h.listening hchannel hclosed]
      exact ⟨hover, rfl⟩
    | cons frame rest ih =>
      have hnext := h.listen
      rw [listen_of_cons taken hgoing h.listening hchannel] at hnext
      obtain ⟨n, hn⟩ := ih hnext hclosed hover rfl rfl
      refine ⟨n + 1, ?_⟩
      change ((relay.listen taken).run taken (List.replicate n .listener)).IsOver
      rw [listen_of_cons taken hgoing h.listening hchannel]
      exact hn

end Carries

/-- A schedule may be cut anywhere. -/
theorem run_append (taken : ρ → σ → ρ) (relay : Relay σ ρ) (schedule later : List Turn) :
    relay.run taken (schedule ++ later) = (relay.run taken schedule).run taken later :=
  List.foldl_append

/-- A studio forgets no frame that it has kept. -/
theorem receiver_prefix (kept : Studio Unit σ (List σ)) (turns : List (Easel.Turn Unit)) :
    kept.loop.receiver <+: (kept.runToStop (.steady keep) turns).loop.receiver := by
  induction turns generalizing kept with
  | nil => exact List.prefix_rfl
  | cons turn rest ih =>
    refine List.IsPrefix.trans ?_ (ih (kept.turnToStop (.steady keep) turn))
    rw [kept.receiver_turnToStop keep turn]
    cases kept.shownIn turn with
    | none => exact List.prefix_rfl
    | some frame => exact List.prefix_append _ _

section Outcome

variable {program : Program} {first second : σ} {frames : List σ}
  (hframes : ∀ turns,
    ((Studio.opening program first second []).runToStop (.steady keep) turns).IsOver →
      ((Studio.opening program first second []).runToStop (.steady keep) turns).loop.receiver =
        frames)
  {capacity : Nat} (hroom : frames.length ≤ capacity) (taken : ρ → σ → ρ) (start : ρ)

include hframes hroom

/-- The channel has room for all frames that the studio shows on any schedule. Every schedule can be
brought to an end, and no more frames are shown on the way than in the end. -/
theorem carries_run_opening (schedule : List Turn) :
    ((opening program first second capacity start).run taken schedule).Carries taken start capacity
      ((Studio.opening program first second []).runToStop (.steady keep)
        (schedule.filterMap Turn.studio?)) := by
  refine (carries_opening program first second capacity taken start).run (fun turns => ?_) schedule
  obtain ⟨more, hmore⟩ := ((Studio.orderly_opening program first second []).runToStop
    (.steady keep) turns).exists_isOver (.steady keep)
  have hgrows := receiver_prefix
    ((Studio.opening program first second []).runToStop (.steady keep) turns) more
  rw [← Studio.runToStop_append] at hmore hgrows
  rw [hframes _ hmore] at hgrows
  exact hgrows.length_le.trans hroom

/-- **In the end the listener has heard of all frames**, in order. It has been told that there will
be none, so the channel is empty, and what has been kept has been heard of. -/
theorem heard_of_isOver {schedule : List Turn}
    (hover : ((opening program first second capacity start).run taken schedule).IsOver) :
    ((opening program first second capacity start).run taken schedule).heard =
      frames.foldl taken start := by
  have hcarries := carries_run_opening hframes hroom taken start schedule
  generalize (opening program first second capacity start).run taken schedule = relay at *
  obtain ⟨passed, hpassed, hheard⟩ := hcarries.frames
  obtain ⟨hstudio, hfinished⟩ := hover
  rw [hcarries.studio] at hstudio
  rw [(hcarries.finished hfinished).1, List.append_nil, hframes _ hstudio] at hpassed
  rw [hheard, hpassed]

/-- **Every schedule can be brought to an end.** The author and the worker get done first, then the
channel is closed, and the listener takes what is left in it. -/
theorem exists_isOver (schedule : List Turn) :
    ∃ more,
      ((opening program first second capacity start).run taken (schedule ++ more)).IsOver := by
  obtain ⟨turns, hturns⟩ := ((Studio.orderly_opening program first second []).runToStop
    (.steady keep) (schedule.filterMap Turn.studio?)).exists_isOver (.steady keep)
  -- The author and the worker get done, the channel is closed, and the listener goes.
  have hcarries := carries_run_opening hframes hroom taken start
    (schedule ++ turns.map Turn.studio)
  -- The turns that are added are those of the studio, one by one.
  have hsame : (turns.map Turn.studio).filterMap Turn.studio? = turns := by
    rw [List.filterMap_map]
    exact List.filterMap_some
  rw [List.filterMap_append, hsame, Studio.runToStop_append] at hcarries
  generalize hrelay : (opening program first second capacity start).run taken
    (schedule ++ turns.map Turn.studio) = relay at hcarries
  have hover : relay.studio.IsOver := by
    rw [hcarries.studio]
    exact hturns
  have hreleased : relay.release =
      { relay with studio := relay.studio.withReceiver (relay.channel.close 0) } :=
    if_pos ⟨hover.2.2.1, hover.2.2.2⟩
  have hclosed : relay.release.channel.senders = #[none] := by
    rw [hreleased]
    exact hcarries.senders_close
  obtain ⟨n, hn⟩ := hcarries.release.exists_finished hclosed (by rw [hreleased]; exact hover)
  refine ⟨turns.map Turn.studio ++ .release :: List.replicate n .listener, ?_⟩
  rw [← List.append_assoc, run_append, hrelay]
  exact hn

end Outcome

end Relay

end Easel
