import Easel.Proofs.Script.Desk
import Easel.Proofs.Studio.Exchange

/-!
# Authors as they would be alone

What an author does is settled by its program. However its turns are mixed with those of others, it
has at any time a copy of what it would have at a desk of its own, where every batch is applied at
once, and it posts copies of the batches that it would post there.

* `Program.desk`, `Program.answer?` — the desk of a program, between two calls and when a call is
  about to be answered;
* `Author.Mirrors`, `Author.Mirrors.turn` — an author has a copy of the desk, turn after turn;
* `Author.Mirrored`, `Author.Mirrored.turn` — so have authors who take turns, in scenes that no two
  of them own.
-/

namespace Easel

open Script (Command Compiler Settings Session)

namespace Desk

variable {settings : Settings} {desk : Desk}

/-- A desk that hears commands keeps its session sound, and has a background from then on. -/
theorem sound_hear (h : desk.session.Sound settings desk.scenes) (commands : List Command) :
    (desk.hear settings commands).session.Sound settings (desk.hear settings commands).scenes ∧
      (desk.hear settings commands).session.background? ≠ none := by
  refine h.begin.executeAll ?_ commands
  rw [h.background?_begin]
  exact Option.some_ne_none _

/-- A session that hands over its batch stays sound, and applying the batch does not harm it. -/
theorem sound_handOver (h : desk.session.Sound settings desk.scenes)
    (hbackground : desk.session.background? ≠ none) :
    desk.handOver.session.Sound settings desk.handOver.scenes :=
  (h.assemble hbackground).1.intact (Session.intact_settle _ _ _)

end Desk

namespace Program

/-- What an author would have who works alone, when some of the calls are done. Each batch is
applied as soon as it is handed over, so nothing is ever waiting. -/
def desk (program : Program) : Nat → Desk
  | 0 =>
    match Compiler.start program.settings .empty with
    | (c, scenes) => ⟨c.session, scenes⟩
  | done + 1 =>
    match program.calls[done]? with
    | none => program.desk done
    | some .reset =>
      match Session.reset (program.desk done).scenes with
      | (session, scenes) => ⟨session, scenes⟩
    | some call =>
      match call.commands? with
      | some commands => ((program.desk done).hear program.settings commands).handOver
      | none => program.desk done

/-- What the author would have when a call is about to be answered: all commands of the call have
been heard, and the batch has not been handed over. -/
def answer? (program : Program) (call : Nat) : Option Desk :=
  ((program.calls[call]?).bind Call.commands?).map ((program.desk call).hear program.settings)

/-- A batch that an author would also post alone, but for the name of its scene. The place of the
scene among those that the author owns is the one that it would have alone. -/
def Answers (program : Program) (owned : List SceneId) (call : Nat) (batch : Batch) : Prop :=
  ∃ desk scene, program.answer? call = some desk ∧
    owned[desk.session.scene.index]? = some scene ∧
    batch = desk.session.assemble.1.map (.into scene)

variable {program : Program} {done : Nat} {call : Call}

section Desk

/-- There is no call left, and the desk stays as it is. -/
theorem desk_idle (hcall : program.calls[done]? = none) :
    program.desk (done + 1) = program.desk done := by
  rw [desk, hcall]

/-- A call for a reset opens a scene at the desk as well. -/
theorem desk_reset (hcall : program.calls[done]? = some .reset) :
    program.desk (done + 1) =
      ⟨(Session.reset (program.desk done).scenes).1,
        (Session.reset (program.desk done).scenes).2⟩ := by
  rw [desk, hcall]

/-- A call that is refused leaves the desk as it is. -/
theorem desk_refused (hcall : program.calls[done]? = some call) (hreset : call ≠ .reset)
    (hcommands : call.commands? = none) : program.desk (done + 1) = program.desk done := by
  rw [desk, hcall]
  cases call with
  | reset => exact absurd rfl hreset
  | text script => simp only [hcommands]
  | source bytes => simp only [hcommands]

/-- A call that can be read is heard and answered, and its batch is applied. -/
theorem desk_answered (hcall : program.calls[done]? = some call) {commands : List Command}
    (hcommands : call.commands? = some commands) : program.desk (done + 1) =
      ((program.desk done).hear program.settings commands).handOver := by
  rw [desk, hcall]
  cases call with
  | reset => exact absurd hcommands nofun
  | text script => simp only [hcommands]
  | source bytes => simp only [hcommands]

/-- The session at the desk is sound whenever a call is done. -/
theorem sound_desk (program : Program) (done : Nat) :
    (program.desk done).session.Sound program.settings (program.desk done).scenes := by
  induction done with
  | zero => exact Session.sound_new .empty
  | succ done ih =>
    cases hcall : program.calls[done]? with
    | none =>
      rw [desk_idle hcall]
      exact ih
    | some call =>
      by_cases hreset : call = .reset
      · subst hreset
        rw [desk_reset hcall]
        exact Session.sound_reset _
      · cases hcommands : call.commands? with
        | none =>
          rw [desk_refused hcall hreset hcommands]
          exact ih
        | some commands =>
          -- A call that can be read is heard, which needs the session sound, and then handed over.
          obtain ⟨hheard, hbackground⟩ := Desk.sound_hear ih commands
          rw [desk_answered hcall hcommands]
          exact Desk.sound_handOver hheard hbackground

/-- When all calls are done, nothing more happens at the desk. So what an author ends up with is
what is at the desk after the last call. -/
theorem desk_of_le (hdone : program.calls.length ≤ done) :
    program.desk done = program.desk program.calls.length := by
  induction done, hdone using Nat.le_induction with
  | base => rfl
  | succ done hdone ih => rw [desk_idle (List.getElem?_eq_none hdone), ih]

/-- When all calls are done, no call is answered any more. -/
theorem answered_of_le (hdone : program.calls.length ≤ done) :
    program.answered done = program.answered program.calls.length := by
  induction done, hdone using Nat.le_induction with
  | base => rfl
  | succ done hdone ih =>
    rw [answered_succ, ih, List.getElem?_eq_none hdone]
    exact List.append_nil _

end Desk

/-- An answer stays one when the author opens further scenes, for those that it owns keep their
places. -/
theorem Answers.append {owned : List SceneId} {call : Nat} {batch : Batch}
    (h : program.Answers owned call batch) (opened : List SceneId) :
    program.Answers (owned ++ opened) call batch := by
  obtain ⟨desk, scene, hanswer, hscene, hbatch⟩ := h
  refine ⟨desk, scene, hanswer, ?_, hbatch⟩
  rw [List.getElem?_append_left (List.getElem?_eq_some_iff.mp hscene).1]
  exact hscene

end Program

namespace Author

/-- An author has a copy of the desk of its program, in scenes in which no batch of its waits. The
copy may lie anywhere in the arena, and other authors may own what is around it. -/
structure Mirrors (program : Program) (author : Author) (owned : List SceneId) (ahead : Scenes) :
    Prop where
  between : author.underway = none →
    (program.desk author.done).Copy owned author.compiler.session ahead
  /-- During a call it has heard a part of the commands. -/
  during : ∀ rest, author.underway = some rest → ∃ (call : Call) (performed : List Command),
    program.calls[author.done]? = some call ∧ call.commands? = some (performed ++ rest) ∧
    ((program.desk author.done).hear program.settings performed).Copy owned author.compiler.session
      ahead

namespace Mirrors

variable {program : Program} {author : Author} {owned : List SceneId} {ahead : Scenes}

/-- Between two calls or during one, there is a desk that the author has a copy of. -/
theorem exists_copy (h : author.Mirrors program owned ahead) :
    ∃ desk : Desk, desk.Copy owned author.compiler.session ahead := by
  cases hunderway : author.underway with
  | none => exact ⟨_, h.between hunderway⟩
  | some rest =>
    obtain ⟨call, performed, -, -, hcopy⟩ := h.during rest hunderway
    exact ⟨_, hcopy⟩

/-- The scene of the session is one of those that the author owns. -/
theorem scene_mem (h : author.Mirrors program owned ahead) : author.scene ∈ owned := by
  obtain ⟨desk, hcopy⟩ := h.exists_copy
  exact hcopy.mem

/-- What an author owns exists, so no scene that is opened later is one of them. -/
theorem has (h : author.Mirrors program owned ahead) {scene : SceneId} (hscene : scene ∈ owned) :
    ahead.Has scene := by
  obtain ⟨desk, hcopy⟩ := h.exists_copy
  exact hcopy.has scene hscene

/-- What happens elsewhere does not matter: the author keeps its copy as long as the figures in its
own scenes are the same. -/
theorem elsewhere (h : author.Mirrors program owned ahead) {after : Scenes}
    (hsize : ahead.all.size ≤ after.all.size)
    (hfigures : ∀ scene ∈ owned, after.figures scene = ahead.figures scene) :
    author.Mirrors program owned after := by
  refine ⟨fun hunderway => (h.between hunderway).elsewhere hsize hfigures, fun rest hunderway => ?_⟩
  obtain ⟨call, performed, hcall, hcommands, hcopy⟩ := h.during rest hunderway
  exact ⟨call, performed, hcall, hcommands, hcopy.elsewhere hsize hfigures⟩

/-- An author that opens no scene goes on with those that it owns. -/
theorem opens_nothing {after : Scenes} (h : author.Mirrors program owned after) (ahead : Scenes) :
    ∃ opened : List SceneId, (∀ scene ∈ opened, ¬ ahead.Has scene) ∧
      author.Mirrors program (owned ++ opened) after := by
  refine ⟨[], fun _ hc => absurd hc List.not_mem_nil, ?_⟩
  rw [List.append_nil]
  exact h

section Cases

variable {session : Session} {done : Nat}

/-- An author carries out a command as at the desk. -/
theorem hear {command : Command} {rest : List Command}
    (h : Mirrors program ⟨⟨program.settings, session⟩, program.calls, done, some (command :: rest)⟩
      owned ahead) :
    ∃ opened : List SceneId, (∀ scene ∈ opened, ¬ ahead.Has scene) ∧
      Mirrors program
        ⟨⟨program.settings, (session.execute program.settings ahead command).1⟩, program.calls,
          done, some rest⟩
        (owned ++ opened) (session.execute program.settings ahead command).2 := by
  obtain ⟨call, performed, hcall, hcommands, hcopy⟩ := h.during _ rfl
  obtain ⟨opened, hopened, hnext⟩ := hcopy.execute program.settings command
  refine ⟨opened, hopened, nofun, fun later hlater => ?_⟩
  obtain rfl : rest = later := Option.some.inj hlater
  -- The command moves from what is left of the call to what has been performed.
  refine ⟨call, performed ++ [command], hcall, ?_, ?_⟩
  · rw [hcommands, List.append_assoc, List.singleton_append]
  · dsimp only
    rw [Desk.hear_concat]
    exact hnext

/-- An author posts what it would post at the desk, and the desk applies it at once. So the copy is
one of the desk after the call when the batch has been applied here. -/
theorem post
    (hfollows : Follows program ⟨⟨program.settings, session⟩, program.calls, done, some []⟩ ahead)
    (h : Mirrors program ⟨⟨program.settings, session⟩, program.calls, done, some []⟩ owned ahead) :
    Mirrors program ⟨⟨program.settings, session.assemble.2⟩, program.calls, done + 1, none⟩ owned
      (Operation.settle session.assemble.1 ahead) ∧
    program.Answers owned done session.assemble.1 := by
  obtain ⟨call, performed, hcall, hcommands, hcopy⟩ := h.during _ rfl
  dsimp only at hcall hcopy
  rw [List.append_nil] at hcommands
  -- The batch is the same but for the scene, if both sessions are sound.
  have hsound := (Desk.sound_hear (program.sound_desk done) performed).1
  obtain ⟨hbatch, hnext⟩ := hcopy.handOver hfollows.sound hsound
  refine ⟨⟨fun _ => ?_, nofun⟩, _, _, ?_, hcopy.scene, hbatch⟩
  · dsimp only
    rw [Program.desk_answered hcall hcommands]
    exact hnext
  · rw [Program.answer?, hcall, Option.bind_some, hcommands]
    rfl

/-- An author takes up a call as at the desk. A reset opens a scene in both, and any other call
opens none before its first command. -/
theorem take_up
    (h : Mirrors program ⟨⟨program.settings, session⟩, program.calls, done, none⟩ owned ahead) :
    ∃ opened : List SceneId, (∀ scene ∈ opened, ¬ ahead.Has scene) ∧
      (turn ⟨⟨program.settings, session⟩, program.calls, done, none⟩ ahead).1.Mirrors program
        (owned ++ opened)
        (turn ⟨⟨program.settings, session⟩, program.calls, done, none⟩ ahead).2.1 := by
  have hcopy := h.between rfl
  dsimp only at hcopy
  cases hcall : program.calls[done]? with
  | none =>
    rw [turn_idle hcall]
    exact h.opens_nothing ahead
  | some call =>
    by_cases hreset : call = .reset
    · subst hreset
      -- The scene that a reset opens is one more that the author owns.
      rw [turn_reset hcall]
      refine ⟨[⟨ahead.all.size⟩], fun scene hscene => ?_, fun _ => ?_, nofun⟩
      · rw [List.mem_singleton.mp hscene]
        exact Nat.lt_irrefl _
      · dsimp only
        rw [Program.desk_reset hcall]
        exact hcopy.reset
    · cases hcommands : call.commands? with
      | none =>
        rw [turn_refused hcall hreset hcommands]
        refine opens_nothing ?_ ahead
        refine ⟨fun _ => ?_, nofun⟩
        dsimp only
        rw [Program.desk_refused hcall hreset hcommands]
        exact hcopy
      | some commands =>
        rw [turn_begin hcall hcommands]
        refine opens_nothing ?_ ahead
        refine ⟨nofun, fun rest hrest => ?_⟩
        obtain rfl : commands = rest := Option.some.inj hrest
        -- Nothing of the call has been performed yet.
        exact ⟨call, [], hcall, hcommands, hcopy.begin⟩

end Cases

/-- **An author goes on as it would alone**, and posts what it would post alone. The scenes that it
opens are new, so that they are not among those that somebody else owns. -/
theorem turn (h : author.Mirrors program owned ahead) (hfollows : author.Follows program ahead) :
    ∃ opened : List SceneId, (∀ scene ∈ opened, ¬ ahead.Has scene) ∧
      (author.turn ahead).1.Mirrors program (owned ++ opened)
        (Operation.settle ((author.turn ahead).2.2.getD []) (author.turn ahead).2.1) ∧
      ∀ batch, (author.turn ahead).2.2 = some batch → program.Answers owned author.done batch := by
  obtain ⟨⟨settings, session⟩, calls, done, underway⟩ := author
  have hsettings : settings = program.settings := hfollows.settings
  have hcalls : calls = program.calls := hfollows.calls
  subst hsettings hcalls
  cases underway with
  | some commands =>
    cases commands with
    | cons command rest =>
      obtain ⟨opened, hopened, hnext⟩ := h.hear
      exact ⟨opened, hopened, hnext, nofun⟩
    | nil =>
      obtain ⟨hposted, hanswers⟩ := h.post hfollows
      obtain ⟨opened, hopened, hnext⟩ := hposted.opens_nothing ahead
      refine ⟨opened, hopened, hnext, fun batch hbatch => ?_⟩
      obtain rfl : session.assemble.1 = batch := Option.some.inj hbatch
      exact hanswers
  | none =>
    obtain ⟨opened, hopened, hnext⟩ := h.take_up
    -- A call that is taken up posts no batch.
    have hnothing := hfollows.take_up.2
    rw [hnothing]
    exact ⟨opened, hopened, hnext, nofun⟩

end Mirrors

/-- Authors who go on as they would alone, and what they have posted. Each of them mirrors a desk of
its own, all in the same arena. -/
structure Mirrored {ι : Type} (programs : ι → Program) (authors : ι → Author)
    (owned : ι → List SceneId) (posted : List (Posting ι)) (ahead : Scenes) : Prop where
  mirrors : ∀ i, (authors i).Mirrors (programs i) (owned i) ahead
  /-- No two of them own the same scene. -/
  apart : ∀ i j, i ≠ j → (owned i).Disjoint (owned j)
  answers : ∀ posting ∈ posted,
    (programs posting.author).Answers (owned posting.author) posting.call posting.batch

/-- **When an author takes a turn, all go on as they would alone.** The author goes on with its own
copy, and the others keep theirs, since it touches no scene that they own. -/
theorem Mirrored.turn {ι : Type} [DecidableEq ι] {programs : ι → Program} {authors : ι → Author}
    {owned : ι → List SceneId} {posted : List (Posting ι)} {ahead : Scenes}
    (h : Mirrored programs authors owned posted ahead) (htogether : Together programs authors ahead)
    (i : ι) : ∃ after : ι → List SceneId,
      Mirrored programs (Function.update authors i ((authors i).turn ahead).1) after
        (posted ++ ((authors i).turn ahead).2.2.toList.map fun batch =>
          ⟨i, (authors i).done, batch⟩)
        (Operation.settle (((authors i).turn ahead).2.2.getD []) ((authors i).turn ahead).2.1) := by
  have hfollows := htogether.follows i
  obtain ⟨opened, hopened, hnext, hanswers⟩ := (h.mirrors i).turn hfollows
  have hself : Function.update owned i (owned i ++ opened) i = owned i ++ opened :=
    Function.update_self _ _ _
  have hother : ∀ j, j ≠ i → Function.update owned i (owned i ++ opened) j = owned j :=
    fun j hj => Function.update_of_ne hj _ _
  -- A scene that is opened now is none of those that others own.
  have hdisjoint : ∀ j, j ≠ i → (owned i ++ opened).Disjoint (owned j) := by
    intro j hj
    rw [List.disjoint_append_left]
    refine ⟨h.apart i j hj.symm, fun scene hscene hc => ?_⟩
    exact hopened scene hscene ((h.mirrors j).has hc)
  have hkept : ∀ posting ∈ posted, (programs posting.author).Answers
      (Function.update owned i (owned i ++ opened) posting.author) posting.call posting.batch := by
    intro posting hposting
    by_cases hj : posting.author = i
    · rw [hj, hself, ← hj]
      exact (h.answers posting hposting).append opened
    · rw [hother _ hj]
      exact h.answers posting hposting
  refine ⟨Function.update owned i (owned i ++ opened), fun j => ?_, fun j k hjk => ?_,
    fun posting hposting => ?_⟩
  · -- The author mirrors its desk by its own turn, and the others as nothing of theirs has changed.
    by_cases hj : j = i
    · subst hj
      rw [hself, Function.update_self]
      exact hnext
    · rw [hother j hj, Function.update_of_ne hj]
      refine (h.mirrors j).elsewhere ?_ fun scene hscene => hfollows.figures_elsewhere ?_
      · rw [Operation.size_all_settle]
        exact (authors i).size_all_le_turn ahead
      · rintro rfl
        exact h.apart i j (Ne.symm hj) (h.mirrors i).scene_mem hscene
  · by_cases hj : j = i
    · subst hj
      rw [hself, hother k hjk.symm]
      exact hdisjoint k hjk.symm
    · rw [hother j hj]
      by_cases hk : k = i
      · subst hk
        rw [hself]
        exact fun scene hown hall => hdisjoint j hj hall hown
      · rw [hother k hk]
        exact h.apart j k hjk
  · rcases List.mem_append.mp hposting with hold | hnew
    · exact hkept posting hold
    · obtain ⟨batch, hbatch, rfl⟩ := List.mem_map.mp hnew
      dsimp only
      rw [hself]
      exact (hanswers batch (Option.mem_toList.mp hbatch)).append opened

end Author

end Easel
