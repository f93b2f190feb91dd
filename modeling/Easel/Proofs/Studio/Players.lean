import Easel.Player
import Easel.Proofs.Studio.Frames

/-!
# Players

A player is a studio in which the author and the worker never interrupt each other.

* `Studio.exists_run_play` — a script that is played takes turns of a studio;
* `Player.frames_show_scripts` — so the frames of a player are those of a studio.
-/

namespace Easel

open Script (Command Compiler Settings Session)

namespace Studio

variable {ρ : Type}

/-- The studio of a player: one author, who may have begun with a list of calls. The author is
between two calls and the worker between two batches. -/
def ofPlayer (player : Player ρ) (calls : List Call) (done : Nat) (posted : List (Posting Unit)) :
    Studio Unit Pixmap ρ where
  authors _ := ⟨player.compiler, calls, done, none⟩
  scenes := player.scenes
  loop := player.loop
  hand := none
  posted := posted

/-- **A player is a studio in which the author and the worker never interrupt each other.** A script
that is played is a call of the author, all of it, and then the worker until the queue is empty. -/
theorem exists_run_play (receive : Receiver Pixmap ρ) {player next : Player ρ} {script : String}
    (hplay : player.play receive script = .ok next) {calls : List Call} {done : Nat}
    (hcall : calls[done]? = some (.text script)) (posted : List (Posting Unit)) :
    ∃ (schedule : List (Turn Unit)) (batch : Batch),
      (ofPlayer player calls done posted).run receive schedule =
        ofPlayer next calls (done + 1) (posted ++ [⟨(), done, batch⟩]) := by
  obtain ⟨c, scenes, loop⟩ := player
  cases hparse : Command.parseText script with
  | error e =>
    rw [Player.play, Compiler.compile, hparse] at hplay
    exact absurd hplay nofun
  | ok commands =>
    -- A script that can be read is compiled by turns of the author.
    have hcommands : (Call.text script).commands? = some commands := by
      rw [Call.commands?, hparse]
      rfl
    rw [Player.play, Compiler.compile, hparse] at hplay
    have hnext : Player.perform receive loop (c.run scenes commands) = next :=
      Except.ok.inj hplay
    -- Between the two halves of the schedule the batch is posted and not yet applied.
    let compiled := c.run scenes commands
    let written : Studio Unit Pixmap ρ :=
      ⟨fun _ => ⟨compiled.compiler, calls, done + 1, none⟩, compiled.scenes,
        loop.post (.batch compiled.batch), none, posted ++ [⟨(), done, compiled.batch⟩]⟩
    have hauthor : (ofPlayer ⟨c, scenes, loop⟩ calls done posted).authors () =
        ⟨c, calls, done, none⟩ := rfl
    obtain ⟨n, hn⟩ := exists_run_compile receive _ hauthor hcall hcommands
    have hwritten : (ofPlayer ⟨c, scenes, loop⟩ calls done posted).run receive
        (List.replicate n (.author ())) = written := by
      rw [hn]
      refine congrArg (fun authors => Studio.mk authors _ _ _ _) (funext fun i => ?_)
      exact Function.update_self () _ _
    -- The worker steps as often as a player drains, once for each pending message.
    obtain ⟨m, hm⟩ := exists_run_steps receive written rfl written.loop.pending
    refine ⟨List.replicate n (.author ()) ++ List.replicate m .worker, compiled.batch, ?_⟩
    rw [run_append, hwritten, hm, ← hnext]
    rfl

end Studio

namespace Player

variable {ρ : Type}

/-- A player that plays scripts in order. -/
def playAll (receive : Receiver Pixmap ρ) (player : Player ρ) (scripts : List String) :
    Except Script.ParseError (Player ρ) :=
  scripts.foldlM (play receive) player

/-- A player whose worker waits for more. The worker is alive and has nothing to do. -/
def IsReady (player : Player ρ) : Prop :=
  player.loop.worker = .alive ∧ player.loop.queue.items = []

/-- A player that has played a script is ready for the next one. -/
theorem IsReady.play {taken : ρ → Pixmap → ρ} {player next : Player ρ} {script : String}
    (h : player.IsReady) (hplay : player.play (.steady taken) script = .ok next) :
    next.IsReady := by
  obtain ⟨c, scenes, loop⟩ := player
  cases hcompile : c.compile scenes script with
  | error e =>
    rw [Player.play, hcompile] at hplay
    exact absurd hplay nofun
  | ok compiled =>
    rw [Player.play, hcompile] at hplay
    have hnext : perform (.steady taken) loop compiled = next := Except.ok.inj hplay
    rw [← hnext]
    -- The queue holds the batch, if there is anything in it.
    have hposted : (loop.post (.batch compiled.batch)).queue.items =
        (if Operation.batch compiled.batch = .batch [] then []
          else [.batch compiled.batch]).map .apply := by
      rw [Loop.items_post, h.2]
      split <;> rfl
    exact Loop.drain_steady taken compiled.scenes ((Loop.worker_post _ _).trans h.1) hposted

/-- Scripts that are played one after another take turns of a studio, and leave a player that is
ready for more. -/
theorem exists_run_playAll (taken : ρ → Pixmap → ρ) {player last : Player ρ}
    (hready : player.IsReady) {scripts : List String}
    (hplay : player.playAll (.steady taken) scripts = .ok last) {calls : List Call} {done : Nat}
    (hcalls : calls.drop done = scripts.map .text) (posted : List (Posting Unit)) :
    last.IsReady ∧ ∃ (schedule : List (Turn Unit)) (all : List (Posting Unit)),
      (Studio.ofPlayer player calls done posted).run (.steady taken) schedule =
        Studio.ofPlayer last calls (done + scripts.length) all := by
  -- Each script continues the schedule where the one before has left the studio.
  induction scripts generalizing player done posted with
  | nil =>
    obtain rfl : player = last := Except.ok.inj hplay
    exact ⟨hready, [], posted, rfl⟩
  | cons script rest ih =>
    rw [playAll, List.foldlM_cons] at hplay
    cases hnext : player.play (.steady taken) script with
    | error e =>
      rw [hnext] at hplay
      exact absurd hplay nofun
    | ok next =>
      rw [hnext] at hplay
      have hcall : calls[done]? = some (.text script) := by
        rw [← List.head?_drop, hcalls]
        rfl
      have hrest : calls.drop (done + 1) = rest.map .text := by
        rw [← List.tail_drop, hcalls]
        rfl
      obtain ⟨schedule, batch, hschedule⟩ := Studio.exists_run_play _ hnext hcall posted
      obtain ⟨hlast, later, all, hlater⟩ := ih (hready.play hnext) hplay hrest _
      refine ⟨hlast, schedule ++ later, all, ?_⟩
      rw [Studio.run_append, hschedule, hlater, List.length_cons, Nat.add_assoc, Nat.add_comm 1]

/-- **The frames of a player.** There is one for each script whose batch presents, and unless the
batch does nothing but present, it is the picture of all commands up to then. -/
theorem frames_show_scripts (taken : ρ → Pixmap → ρ) (receiver : ρ) (settings : Settings)
    {canvas : Pixmap} (hwidth : canvas.size.width ≤ 2147483647)
    (hheight : canvas.size.height ≤ 2147483647) {texts : List String}
    {scripts : List (List Command)}
    (hscripts : (texts.map Call.text).map Call.commands? = scripts.map some) {last : Player ρ}
    (hplay : (start settings canvas receiver).playAll (.steady taken) texts = .ok last) :
    ∃ (posted : List (Posting Unit)) (frames : List Pixmap),
      posted.map (·.call) = List.range scripts.length ∧
      last.loop.receiver = frames.foldl taken receiver ∧
      List.Forall₂
        (fun posting frame => frame.size = canvas.size ∧ (posting.batch ≠ [.present] →
          frame.Depicts settings (scripts.take (posting.call + 1)).flatten))
        (posted.filter (·.presents)) frames := by
  have hlength : (texts.map Call.text).length = scripts.length := by
    have hlengths := congrArg List.length hscripts
    rw [List.length_map Call.commands?, List.length_map some] at hlengths
    exact hlengths
  have hcalls : (texts.map Call.text).drop 0 = texts.map .text := rfl
  have hready : (start settings canvas receiver).IsReady := ⟨rfl, rfl⟩
  obtain ⟨hlast, schedule, posted, hrun⟩ := exists_run_playAll taken hready hplay hcalls []
  change (Studio.start settings (texts.map .text) canvas canvas receiver).run (.steady taken)
    schedule = _ at hrun
  -- The worker has caught up, so that all batches are finished.
  obtain ⟨ledger, hledger⟩ :=
    (Ledger.agrees_start settings (texts.map .text) taken receiver rfl rfl).run schedule
  rw [hrun] at hledger
  have hcount := hledger.length_finished
  have hfinished : ledger.finished = posted := by
    refine hledger.finished_prefix.eq_of_length ?_
    rw [← hcount]
    change _ = _ + 0 + last.loop.queue.items.length
    rw [hlast.2]
    rfl
  have hposted := hledger.posted_eq hscripts
  have hdepicts := hledger.depicts hscripts hwidth hheight
  have hdone : min (0 + texts.length) (texts.map Call.text).length = scripts.length := by
    rw [hlength, Nat.zero_add, ← hlength, List.length_map, Nat.min_self]
  refine ⟨posted, ledger.frames, ?_, hledger.receiver, ?_⟩
  · rw [← hdone]
    exact hposted
  · rw [← hfinished]
    exact hdepicts

end Player

end Easel
