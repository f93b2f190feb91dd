import Easel.Proofs.Script.Showing
import Easel.Proofs.Studio.Turns

/-!
# The authors of a studio

An author goes on compiling while earlier batches wait to be applied. What it does is best seen in
the scenes as they will be once all these batches have been applied: there the worker moves nothing,
and every author works alone.

* `Author.turn_settle` — an author does not notice whether the batches have been applied;
* `Author.Follows` — an author shows what it has heard so far;
* `Author.Follows.turn` — it goes on to do so, and posts batches that paint it;
* `Author.Follows.elsewhere` — what others do elsewhere does not matter;
* `Author.Together.turn` — so authors in scenes of their own may take turns in any order.
-/

namespace Easel

open Script (Command Compiler Settings Session Picture)

/-- What an author is asked to do, from beginning to end. -/
structure Program where
  settings : Settings
  calls : List Call

namespace Program

/-- What the session has heard once some of the calls are done, refused scripts not counted. -/
def heard (program : Program) (done : Nat) : List Command :=
  (program.calls.take done).flatMap Call.heard

/-- The fills that a batch owes to a call: those of the picture of all that has been heard by then,
and none if it does nothing but present. -/
def due (program : Program) (bounds : Rect) (call : Nat) (batch : Batch) : List Fill :=
  if batch = [.present] then []
  else (Picture.of program.settings (program.heard (call + 1))).fills bounds

/-- The calls that have been answered with a batch once some of the calls are done, by their
numbers. -/
def answered (program : Program) (done : Nat) : List Nat :=
  (List.range done).filter fun call => ((program.calls[call]?).bind Call.commands?).isSome

/-- One more call is answered if it is a script that can be read. -/
theorem answered_succ (program : Program) (done : Nat) : program.answered (done + 1) =
    program.answered done ++
      if ((program.calls[done]?).bind Call.commands?).isSome then [done] else [] := by
  rw [answered, List.range_succ, List.filter_append, List.filter_singleton, answered]
  cases ((program.calls[done]?).bind Call.commands?).isSome <;> rfl

/-- One more call adds what it tells to what has been heard. -/
theorem heard_succ (program : Program) {done : Nat} {call : Call}
    (hcall : program.calls[done]? = some call) :
    program.heard (done + 1) = program.heard done ++ call.heard := by
  rw [heard, List.take_add_one, hcall, List.flatMap_append, heard]
  simp

end Program

namespace Author

/-- The scene that an author works in. -/
abbrev scene (author : Author) : SceneId := author.compiler.session.scene

/-! ### What a turn reads and writes -/

/-- A session reads no more of the scenes than how many there are and how many figures its own has.
So it cannot tell where figures are. -/
theorem execute_congr {a b : Scenes} (settings : Settings) (s : Session)
    (hall : a.all.size = b.all.size)
    (hrow : (a.figures s.scene).size = (b.figures s.scene).size) (command : Command) :
    (s.execute settings a command).1 = (s.execute settings b command).1 := by
  cases command with
  | figure x y => simp only [Session.execute, Scenes.insert, hrow]
  | reset => simp only [Session.execute, Session.reset, Scenes.create, hall]
  | _ => rfl

/-- **An author reads no more of the scenes than its session does**: what it does next, and what it
posts, depends on nothing else. -/
theorem turn_congr {a b : Scenes} (author : Author) (hall : a.all.size = b.all.size)
    (hrow : (a.figures author.scene).size = (b.figures author.scene).size) :
    (author.turn a).1 = (author.turn b).1 ∧ (author.turn a).2.2 = (author.turn b).2.2 := by
  obtain ⟨⟨settings, session⟩, calls, done, underway⟩ := author
  -- Only a command and a reset look at the scenes.
  cases underway with
  | some commands =>
    cases commands with
    | nil => exact ⟨rfl, rfl⟩
    | cons command rest =>
      have hsession := execute_congr settings session hall hrow command
      simp only [turn, hsession, and_self]
  | none =>
    cases hcall : calls[done]? with
    | none =>
      rw [turn_idle hcall, turn_idle hcall]
      exact ⟨rfl, rfl⟩
    | some call =>
      by_cases hreset : call = .reset
      · subst hreset
        have hsession : (Session.reset a).1 = (Session.reset b).1 :=
          execute_congr settings session hall hrow .reset
        rw [turn_reset hcall, turn_reset hcall, hsession]
        exact ⟨rfl, rfl⟩
      · cases hcommands : call.commands? with
        | none =>
          rw [turn_refused hcall hreset hcommands, turn_refused hcall hreset hcommands]
          exact ⟨rfl, rfl⟩
        | some commands =>
          rw [turn_begin hcall hcommands, turn_begin hcall hcommands]
          exact ⟨rfl, rfl⟩

/-- How an author makes the scenes grow with its next turn. A turn is a command, the beginning
or the end of a script, or a reset, and only some of these add anything. -/
def growth? (author : Author) : Option Scenes.Growth :=
  match author.underway with
  | some (command :: _) => author.compiler.session.growth? author.compiler.settings command
  | some [] => none
  | none =>
    match author.calls[author.done]? with
    | some .reset => some .scene
    | _ => none

/-- All that an author does to the scenes is to make them grow. Moves are left to the worker, who
gets them with the batch. -/
theorem turn_scenes (author : Author) (scenes : Scenes) :
    (author.turn scenes).2.1 = author.growth?.elim scenes scenes.grow := by
  obtain ⟨⟨settings, session⟩, calls, done, underway⟩ := author
  -- Growth is named for each kind of turn, so the cases are those of `growth?`.
  cases underway with
  | some commands =>
    cases commands with
    | nil => rfl
    | cons command rest => exact session.execute_scenes settings scenes command
  | none =>
    cases hcall : calls[done]? with
    | none => simp only [turn, growth?, hcall, Option.elim]
    | some call =>
      cases call with
      | reset =>
        simp only [turn, growth?, hcall, Option.elim]
        rfl
      | text script =>
        simp only [turn, growth?, hcall, Option.elim]
        split <;> rfl
      | source bytes =>
        simp only [turn, growth?, hcall, Option.elim]
        split <;> rfl

/-- **An author does not notice whether known leaves have been applied.** Applying them moves
figures, and the author only counts them. -/
theorem turn_settle {leaves : List Operation} {scenes : Scenes}
    (h : ∀ leaf ∈ leaves, leaf.Known scenes) (author : Author) :
    author.turn (Operation.settle leaves scenes) =
      ((author.turn scenes).1, Operation.settle leaves (author.turn scenes).2.1,
        (author.turn scenes).2.2) := by
  obtain ⟨hauthor, hbatch⟩ := author.turn_congr (Operation.size_all_settle leaves scenes)
    (Operation.size_figures_settle leaves scenes author.scene)
  refine Prod.ext hauthor (Prod.ext ?_ hbatch)
  dsimp only
  rw [turn_scenes, turn_scenes]
  cases author.growth? with
  | none => rfl
  | some growth => exact (Operation.settle_grow h growth).symm

/-- What is known stays known while authors go on, since they take no figures away. -/
theorem known_turn (author : Author) {leaf : Operation} {scenes : Scenes} (h : leaf.Known scenes) :
    leaf.Known (author.turn scenes).2.1 := by
  rw [turn_scenes]
  cases author.growth? with
  | none => exact h
  | some growth => exact h.grow growth

/-- An author adds figures to its own scene only, so a row of another scene never grows by its
turn. -/
theorem scene_of_growth? {author : Author} {scene : SceneId} {figure : Figure}
    (h : author.growth? = some (.figure scene figure)) : scene = author.scene := by
  obtain ⟨⟨settings, session⟩, calls, done, underway⟩ := author
  cases underway with
  | some commands =>
    cases commands with
    | nil => exact absurd h nofun
    | cons command rest =>
      -- The only command that adds a figure adds it to the scene of the session.
      cases command with
      | figure x y =>
        have hgrowth := Option.some.inj h
        exact (Scenes.Growth.figure.inj hgrowth).1.symm
      | _ => exact absurd h nofun
  | none =>
    rw [growth?] at h
    dsimp only at h
    split at h
    · exact absurd h nofun
    · exact absurd h nofun

/-- The turn of an author leaves the scenes of others as they are. -/
theorem figures_turn_of_ne {author : Author} {scene : SceneId} (h : scene ≠ author.scene)
    (scenes : Scenes) : (author.turn scenes).2.1.figures scene = scenes.figures scene := by
  rw [turn_scenes]
  cases hgrowth : author.growth? with
  | none => rfl
  | some growth =>
    cases growth with
    | scene => exact Scenes.figures_create scenes scene
    | figure own figure =>
      rw [← scene_of_growth? hgrowth] at h
      exact Scenes.figures_update_of_ne h (·.push figure)

/-- No scene is taken away by the turn of an author. -/
theorem size_all_le_turn (author : Author) (scenes : Scenes) :
    scenes.all.size ≤ (author.turn scenes).2.1.all.size := by
  -- Growth only extends the arena.
  rw [turn_scenes]
  cases author.growth? with
  | none => exact Nat.le_refl _
  | some growth => exact (scenes.extends_grow growth).size_all

/-- After its turn an author is in the scene that it was in, or in one that it has just opened. -/
theorem scene_turn (author : Author) (scenes : Scenes) :
    (author.turn scenes).1.scene = author.scene ∨
      (author.turn scenes).1.scene = ⟨scenes.all.size⟩ := by
  obtain ⟨⟨settings, session⟩, calls, done, underway⟩ := author
  cases underway with
  | some commands =>
    cases commands with
    | nil =>
      left
      -- A batch is posted, which keeps the scene.
      change session.assemble.2.scene = session.scene
      rw [Session.assemble_eq]
    | cons command rest =>
      cases command with
      | reset => exact Or.inr rfl
      | _ => exact Or.inl rfl
  | none =>
    cases hcall : calls[done]? with
    | none =>
      rw [turn_idle hcall]
      exact Or.inl rfl
    | some call =>
      by_cases hreset : call = .reset
      · rw [hreset] at hcall
        rw [turn_reset hcall]
        exact Or.inr rfl
      · cases hcommands : call.commands? with
        | none =>
          rw [turn_refused hcall hreset hcommands]
          exact Or.inl rfl
        | some commands =>
          rw [turn_begin hcall hcommands]
          left
          change session.begin.scene = session.scene
          unfold Session.begin
          split <;> rfl

/-! ### What an author shows -/

/-- An author shows what it has heard so far, in scenes in which no batch of its waits. Between two
calls that is all it has heard of whole calls; during a call it is a part of this call more. -/
structure Follows (program : Program) (author : Author) (ahead : Scenes) : Prop where
  settings : author.compiler.settings = program.settings
  calls : author.calls = program.calls
  sound : author.compiler.session.Sound program.settings ahead
  /-- Between two calls it has heard all calls that are done. -/
  between : author.underway = none → author.compiler.session.Shows program.settings
    (ahead.figures author.scene) (program.heard author.done)
  /-- During a call it has also heard a part of its commands. -/
  during : ∀ rest, author.underway = some rest → author.compiler.session.background? ≠ none ∧
    ∃ (call : Call) (performed : List Command), program.calls[author.done]? = some call ∧
      call.commands? = some (performed ++ rest) ∧
      author.compiler.session.Shows program.settings (ahead.figures author.scene)
        (program.heard author.done ++ performed)

/-- An author who has not begun yet has heard nothing and shows nothing, in a scene without
figures. -/
theorem follows_start (program : Program) {scenes : Scenes} {scene : SceneId}
    (hhas : scenes.Has scene) (hempty : scenes.figures scene = #[]) :
    Follows program ⟨⟨program.settings, .new scene⟩, program.calls, 0, none⟩ scenes := by
  refine ⟨rfl, rfl, Session.sound_of_empty hhas hempty rfl rfl rfl, fun _ => ?_, nofun⟩
  change (Session.new scene).Shows program.settings (scenes.figures scene) []
  rw [hempty]
  exact Session.shows_new program.settings scene

/-- What an author posts, if it posts anything, and what this does to others. The leaves are known,
move nothing elsewhere, and paint what is due for the call. -/
structure Posts (program : Program) (author : Author) (ahead : Scenes) (batch : Batch) : Prop where
  flat : ∀ leaf ∈ batch, leaf.leaves = [leaf]
  known : ∀ leaf ∈ batch, leaf.Known ahead
  own : ∀ m, .move m ∈ batch → m.scene = author.scene
  nonempty : batch ≠ []
  fills : ∀ bounds, Operation.fills bounds batch ahead = program.due bounds author.done batch

section Follows

variable {program : Program} {author : Author} {ahead : Scenes}

section Cases

variable {session : Session} {done : Nat}

/-- An author hears one more command of a call. The call is not done yet, so nothing is posted. -/
theorem Follows.hear {command : Command} {rest : List Command}
    (h : Follows program ⟨⟨program.settings, session⟩, program.calls, done, some (command :: rest)⟩
      ahead) :
    Follows program
      ⟨⟨program.settings, (session.execute program.settings ahead command).1⟩, program.calls, done,
        some rest⟩
      (session.execute program.settings ahead command).2 := by
  obtain ⟨-, -, hsound, -, hduring⟩ := h
  obtain ⟨hbackground, call, performed, hcall, hcommands, hshows⟩ := hduring _ rfl
  obtain ⟨hnext, hnextBackground⟩ := hsound.execute hbackground command
  have hnextShows := hshows.execute hsound command
  refine ⟨rfl, rfl, hnext, nofun, ?_⟩
  intro later hlater
  obtain rfl : rest = later := Option.some.inj hlater
  -- The command moves from what is left of the call to what has been performed.
  refine ⟨hnextBackground, call, performed ++ [command], hcall, ?_, ?_⟩
  · rw [hcommands, List.append_assoc, List.singleton_append]
  · rw [← List.append_assoc]
    exact hnextShows

/-- An author has heard all commands of a call, and posts the batch. The call is done with that, and
no move of it waits in the session any more. -/
theorem Follows.post
    (h : Follows program ⟨⟨program.settings, session⟩, program.calls, done, some []⟩ ahead) :
    Follows program
      ⟨⟨program.settings, session.assemble.2⟩, program.calls, done + 1, none⟩
      (Operation.settle session.assemble.1 ahead) ∧
    Posts program ⟨⟨program.settings, session⟩, program.calls, done, some []⟩ ahead
      session.assemble.1 := by
  obtain ⟨-, -, hsound, -, hduring⟩ := h
  obtain ⟨hbackground, call, performed, hcall, hcommands, hshows⟩ := hduring _ rfl
  dsimp only [scene] at hsound hcall hshows
  rw [List.append_nil] at hcommands
  -- Nothing of the call is left, so what has been performed is all that it tells.
  have hheard : program.heard (done + 1) = program.heard done ++ performed := by
    rw [program.heard_succ hcall, Call.heard_of_commands? hcommands]
  have hnextSound := (hsound.assemble hbackground).1.intact
    (Session.intact_settle _ session.assemble.1 ahead)
  have hscene : session.assemble.2.scene = session.scene := by rw [Session.assemble_eq]
  have hnextShows := hshows.assemble hsound
  rw [← hscene, ← hheard] at hnextShows
  refine ⟨⟨rfl, rfl, hnextSound, fun _ => hnextShows, nofun⟩, ?_⟩
  refine ⟨fun leaf hleaf => Session.leaves_of_mem_assemble hleaf,
    fun leaf hleaf => (hsound.known_assemble hleaf).1,
    fun m hm => (hsound.known_assemble hm).2 m rfl, Session.assemble_ne_nil hbackground, ?_⟩
  -- The batch paints what the session shows, and that is what is due.
  intro bounds
  rw [Program.due, hheard]
  exact hshows.fills_assemble hsound hbackground bounds

/-- An author takes up the next call, which posts nothing yet. A reset and a script that is refused
are done in the same turn. -/
theorem Follows.take_up
    (h : Follows program ⟨⟨program.settings, session⟩, program.calls, done, none⟩ ahead) :
    (turn ⟨⟨program.settings, session⟩, program.calls, done, none⟩ ahead).1.Follows program
      (turn ⟨⟨program.settings, session⟩, program.calls, done, none⟩ ahead).2.1 ∧
    (turn ⟨⟨program.settings, session⟩, program.calls, done, none⟩ ahead).2.2 = none := by
  obtain ⟨-, -, hsound, hbetween, -⟩ := h
  have hshows := hbetween rfl
  cases hcall : program.calls[done]? with
  | none =>
    rw [turn_idle hcall]
    exact ⟨⟨rfl, rfl, hsound, fun _ => hshows, nofun⟩, rfl⟩
  | some call =>
    have hheard := program.heard_succ hcall
    by_cases hreset : call = .reset
    · -- The new scene is empty, and so is what has been heard since the reset.
      subst hreset
      have hrow : (Session.reset ahead).2.figures (Session.reset ahead).1.scene = #[] :=
        (Scenes.figures_create ahead _).trans ahead.figures_fresh
      rw [turn_reset hcall]
      refine ⟨⟨rfl, rfl, Session.sound_reset ahead, fun _ => ?_, nofun⟩, rfl⟩
      dsimp only
      rw [hheard]
      have hnext : (Session.reset ahead).1.Shows program.settings #[]
          (program.heard done ++ [.reset]) := Session.Shows.reset _ ahead
      rwa [← hrow] at hnext
    · cases hcommands : call.commands? with
      | none =>
        -- A script that cannot be read is heard as nothing.
        rw [turn_refused hcall hreset hcommands]
        refine ⟨⟨rfl, rfl, hsound, fun _ => ?_, nofun⟩, rfl⟩
        dsimp only
        rw [hheard, Call.heard_of_refused hreset hcommands, List.append_nil]
        exact hshows
      | some commands =>
        rw [turn_begin hcall hcommands]
        refine ⟨⟨rfl, rfl, hsound.begin, nofun, ?_⟩, rfl⟩
        -- All commands of the script are still to come.
        intro rest hrest
        obtain rfl : commands = rest := Option.some.inj hrest
        refine ⟨?_, call, [], hcall, hcommands, ?_⟩
        · dsimp only
          rw [hsound.background?_begin]
          exact Option.some_ne_none _
        · rw [List.append_nil]
          exact hshows.begin hsound

end Cases

/-- **An author goes on to show what it hears**, and posts batches that paint it. The scenes are
those after its turn, with the posted batch applied. -/
theorem Follows.turn (h : author.Follows program ahead) :
    (author.turn ahead).1.Follows program
      (Operation.settle ((author.turn ahead).2.2.getD []) (author.turn ahead).2.1) ∧
    ∀ batch, (author.turn ahead).2.2 = some batch →
      author.Posts program (author.turn ahead).2.1 batch := by
  obtain ⟨⟨settings, session⟩, calls, done, underway⟩ := author
  -- The author has the settings and the calls of its program, so these may be named so.
  have hsettings : settings = program.settings := h.settings
  have hcalls : calls = program.calls := h.calls
  subst hsettings hcalls
  cases underway with
  | some commands =>
    cases commands with
    | cons command rest => exact ⟨h.hear, nofun⟩
    | nil =>
      refine ⟨h.post.1, ?_⟩
      intro batch hbatch
      obtain rfl : session.assemble.1 = batch := Option.some.inj hbatch
      exact h.post.2
  | none =>
    obtain ⟨hnext, hnothing⟩ := h.take_up
    rw [hnothing]
    exact ⟨hnext, nofun⟩

/-- What an author posts are known leaves, and those that move anything move its own figures; if it
posts nothing, nothing is to be shown. -/
theorem Follows.leaf_of_mem (h : author.Follows program ahead) {leaf : Operation}
    (hleaf : leaf ∈ (author.turn ahead).2.2.getD []) :
    leaf.leaves = [leaf] ∧ leaf.Known (author.turn ahead).2.1 ∧
      ∀ m, leaf = .move m → m.scene = author.scene := by
  cases hbatch : (author.turn ahead).2.2 with
  | none =>
    rw [hbatch] at hleaf
    exact absurd hleaf List.not_mem_nil
  | some batch =>
    rw [hbatch] at hleaf
    have hposts := h.turn.2 batch hbatch
    exact ⟨hposts.flat leaf hleaf, hposts.known leaf hleaf,
      fun m hm => hposts.own m (hm ▸ hleaf)⟩

/-- What an author does, and what it posts, moves nothing in the scenes of others, and adds nothing
to them. -/
theorem Follows.figures_elsewhere (h : author.Follows program ahead) {scene : SceneId}
    (hscene : scene ≠ author.scene) :
    (Operation.settle ((author.turn ahead).2.2.getD []) (author.turn ahead).2.1).figures scene =
      ahead.figures scene := by
  rw [← figures_turn_of_ne hscene ahead]
  refine Operation.figures_settle_of_ne _ fun m hm hc => hscene ?_
  rw [← hc]
  exact (h.leaf_of_mem hm).2.2 m rfl

/-- An author answers a call with a batch when it is done with it, if the script can be read. So
batches and answered calls come one for one. -/
theorem Follows.answered_turn (h : author.Follows program ahead) :
    program.answered (author.turn ahead).1.done =
      program.answered author.done ++ (author.turn ahead).2.2.toList.map fun _ => author.done := by
  obtain ⟨⟨settings, session⟩, calls, done, underway⟩ := author
  have hcalls : calls = program.calls := h.calls
  subst hcalls
  -- The count of answered calls goes up exactly where a batch is posted: at the end of a script.
  cases underway with
  | some commands =>
    cases commands with
    | cons command rest => exact (List.append_nil _).symm
    | nil =>
      -- The call that gets done is one whose script has been read.
      obtain ⟨-, call, performed, hcall, hcommands, -⟩ := h.during [] rfl
      dsimp only at hcall
      change program.answered (done + 1) = program.answered done ++ [done]
      rw [program.answered_succ, hcall, Option.bind_some, hcommands]
      rfl
  | none =>
    cases hcall : program.calls[done]? with
    | none =>
      rw [turn_idle hcall]
      exact (List.append_nil _).symm
    | some call =>
      by_cases hreset : call = .reset
      · subst hreset
        rw [turn_reset hcall]
        dsimp only
        rw [program.answered_succ, hcall]
        rfl
      · cases hcommands : call.commands? with
        | none =>
          rw [turn_refused hcall hreset hcommands]
          dsimp only
          rw [program.answered_succ, hcall, Option.bind_some, hcommands]
          rfl
        | some commands =>
          rw [turn_begin hcall hcommands]
          exact (List.append_nil _).symm

/-- An author who has done all calls is not in the middle of one, as it would have to be one of its
program. -/
theorem Follows.isDone_of_le (h : author.Follows program ahead)
    (hdone : program.calls.length ≤ author.done) : author.IsDone := by
  refine ⟨?_, by rwa [h.calls]⟩
  cases hunderway : author.underway with
  | none => rfl
  | some rest =>
    obtain ⟨-, call, performed, hcall, -⟩ := h.during rest hunderway
    rw [List.getElem?_eq_none hdone] at hcall
    exact absurd hcall nofun

/-- **What others do elsewhere does not matter**, as long as the row of the scene is left alone. -/
theorem Follows.elsewhere (h : author.Follows program ahead) {after : Scenes}
    (hsize : ahead.all.size ≤ after.all.size)
    (hfigures : after.figures author.scene = ahead.figures author.scene) :
    author.Follows program after := by
  -- The session reads no more of the scenes than their number and its own row.
  have hintact : author.compiler.session.Intact ahead after := by
    refine ⟨hsize, ?_⟩
    rw [hfigures]
  refine ⟨h.settings, h.calls, h.sound.intact hintact, ?_, ?_⟩
  · rw [hfigures]
    exact h.between
  · rw [hfigures]
    exact h.during

end Follows

/-! ### Authors in scenes of their own -/

/-- Authors who follow their programs, each in a scene of its own. This is the invariant of a
studio, in the scenes that lie ahead. -/
structure Together {ι : Type} (programs : ι → Program) (authors : ι → Author) (ahead : Scenes) :
    Prop where
  follows : ∀ i, (authors i).Follows (programs i) ahead
  apart : ∀ i j, i ≠ j → (authors i).scene ≠ (authors j).scene

section Together

variable {ι : Type} {programs : ι → Program} {authors : ι → Author} {ahead : Scenes}

/-- **When an author takes a turn, all go on to show what they hear.** The author itself does by
`Follows.turn`, and for the others its turn happens elsewhere. -/
theorem Together.turn [DecidableEq ι] (h : Together programs authors ahead) (i : ι) :
    Together programs (Function.update authors i ((authors i).turn ahead).1)
      (Operation.settle (((authors i).turn ahead).2.2.getD []) ((authors i).turn ahead).2.1) := by
  have hself : Function.update authors i ((authors i).turn ahead).1 i =
      ((authors i).turn ahead).1 := Function.update_self _ _ _
  have hother : ∀ j, j ≠ i →
      Function.update authors i ((authors i).turn ahead).1 j = authors j :=
    fun j hj => Function.update_of_ne hj _ _
  -- The scene of another author is neither the old one nor a new one.
  have hscene : ∀ j, j ≠ i → (authors j).scene ≠ ((authors i).turn ahead).1.scene := by
    intro j hj hc
    rcases (authors i).scene_turn ahead with hsame | hnew
    · exact h.apart j i hj (hc.trans hsame)
    · have hhas : (authors j).scene.index < ahead.all.size := (h.follows j).sound.has
      rw [hc, hnew] at hhas
      exact Nat.lt_irrefl _ hhas
  refine ⟨?_, ?_⟩
  -- The author whose turn it is follows its program, and the others notice nothing.
  · intro j
    by_cases hj : j = i
    · subst hj
      rw [hself]
      exact (h.follows j).turn.1
    · rw [hother j hj]
      refine (h.follows j).elsewhere ?_ ((h.follows i).figures_elsewhere (h.apart j i hj))
      rw [Operation.size_all_settle]
      exact (authors i).size_all_le_turn ahead
  -- Two others are apart as before.
  · intro j k hjk
    by_cases hj : j = i
    · subst hj
      rw [hself, hother k hjk.symm]
      exact (hscene k hjk.symm).symm
    · rw [hother j hj]
      by_cases hk : k = i
      · subst hk
        rw [hself]
        exact hscene j hj
      · rw [hother k hk]
        exact h.apart j k hjk

end Together

end Author

end Easel
