import Easel.Proofs.Script.Moves
import Easel.Proofs.Studio.Turns

/-!
# The chronicle of a compiler

A compiler is fed with calls, and between the calls its batches are applied, any of them at any time
and as often as one likes. The chronicle keeps what has come of it: the scripts that have been
compiled, and the batches that have been applied.

* `Chronicle.run` — what some events lead to;
* `Chronicle.happen_cases` — all that an event can do;
* `Chronicle.Sound`, `Chronicle.Sound.happen` — what always holds, and that every event keeps it;
* `Chronicle.Sound.exists_translations` — what moves a figure, and how often;
* `Chronicle.moves_exactly_once` — every move of a script that no reset follows stands in one batch,
  once, and shifts its figures once when that batch is applied.
-/

namespace Easel

open Operation
open Script (Command Compiler Settings Session keptMoves)

/-- A script that has been compiled, with what it was compiled from and to. -/
structure Pass where
  /-- The compiler that has been called. -/
  compiler : Compiler
  /-- The scenes at the time of the call. -/
  scenes : Scenes
  call : Call
  batch : Batch

namespace Pass

/-- The commands of the script. -/
def commands (pass : Pass) : List Command := pass.call.commands?.getD []

/-- The moves in the batch, in their order. -/
def moves (pass : Pass) : List Move := pass.batch.filterMap move?

/-- A pass whose batch has one move for each move of the script that no reset follows, and no other
moves. -/
structure IssuesMoves (settings : Settings) (pass : Pass) : Prop where
  read : pass.call.commands? = some pass.commands
  issues : List.Forall₂ (pass.compiler.session.begin.Issues settings pass.scenes pass.commands)
    (keptMoves pass.commands) pass.moves

/-- The moves in the batch, each named by the number of the pass and by the place in the script that
it stands for. -/
def places (pass : Pass) (number : Nat) : List ((Nat × Nat) × Move) :=
  ((keptMoves pass.commands).zip pass.moves).map fun place => ((number, place.1), place.2)

namespace IssuesMoves

variable {settings : Settings} {pass : Pass}

/-- The places in a batch are those of the moves that no reset follows, one for each. -/
theorem map_fst_places (h : pass.IssuesMoves settings) (number : Nat) :
    (pass.places number).map Prod.fst = (keptMoves pass.commands).map fun i => (number, i) := by
  have hfst : ((keptMoves pass.commands).zip pass.moves).map Prod.fst = keptMoves pass.commands :=
    List.map_fst_zip (Nat.le_of_eq h.issues.length_eq)
  conv_rhs => rw [← hfst]
  rw [places, List.map_map, List.map_map]
  rfl

/-- The moves at these places are those of the batch. -/
theorem map_snd_places (h : pass.IssuesMoves settings) (number : Nat) :
    (pass.places number).map Prod.snd = pass.moves := by
  rw [places, List.map_map]
  exact List.map_snd_zip (Nat.le_of_eq h.issues.length_eq.symm)

end IssuesMoves

end Pass

/-- What may happen to a compiler and to its batches. A batch may be applied at any time, again and
again or never. -/
inductive Event (σ : Type) where
  | call (call : Call)
  /-- A batch, given by its number, is applied to a surface. -/
  | apply (number : Nat) (surface : σ)

/-- The call that an event makes, if it is answered with a batch. -/
def Event.answered? {σ : Type} : Event σ → Option Call
  | .call made => if made.commands?.isSome then some made else none
  | .apply .. => none

/-- A compiler, the scenes, and what has come of the compiler. -/
structure Chronicle where
  compiler : Compiler
  scenes : Scenes
  /-- The scripts that have been compiled, in order. -/
  passes : List Pass
  /-- The batches that have been applied, in order, each with its number. -/
  applied : List (Nat × Pass)

namespace Chronicle

/-- A chronicle in which nothing has happened, with a compiler that has just been started. -/
def start (settings : Settings) (scenes : Scenes) : Chronicle :=
  match Compiler.start settings scenes with
  | (compiler, scenes) => ⟨compiler, scenes, [], []⟩

/-- Notes what a call has been answered with. A script that is refused leaves nothing to be noted.
-/
def note (h : Chronicle) (call : Call) : Except Script.ParseError Compiler.Compiled → Chronicle
  | .ok done =>
    { h with
      compiler := done.compiler
      scenes := done.scenes
      passes := h.passes ++ [⟨h.compiler, h.scenes, call, done.batch⟩] }
  | .error _ => h

/-- The chronicle after a call. A reset compiles nothing, so no pass is noted. -/
def hear (h : Chronicle) : Call → Chronicle
  | .text script => h.note (.text script) (h.compiler.compile h.scenes script)
  | .source bytes => h.note (.source bytes) (h.compiler.compileSource h.scenes bytes)
  | .reset =>
    match h.compiler.reset h.scenes with
    | (compiler, scenes) => { h with compiler, scenes }

section Events

variable {σ : Type} [Surface σ]

/-- The chronicle once a batch has been applied. A number without a pass leaves it as it is. -/
def apply (h : Chronicle) (number : Nat) (surface : σ) : Chronicle :=
  match h.passes[number]? with
  | some pass =>
    { h with
      scenes := ((Operation.batch pass.batch).apply h.scenes surface).scenes
      applied := h.applied ++ [(number, pass)] }
  | none => h

/-- The chronicle after an event. -/
def happen (h : Chronicle) : Event σ → Chronicle
  | .call call => h.hear call
  | .apply number surface => h.apply number surface

/-- The chronicle after some events, one after another. -/
def run (h : Chronicle) (events : List (Event σ)) : Chronicle := events.foldl happen h

/-- The last event comes after all others. -/
theorem run_concat (h : Chronicle) (events : List (Event σ)) (event : Event σ) :
    h.run (events ++ [event]) = (h.run events).happen event := List.foldl_append

end Events

/-! ### All that an event can do -/

/-- The chronicle once a script has been compiled. -/
def compiled (h : Chronicle) (call : Call) (commands : List Command) : Chronicle :=
  { h with
    compiler := (h.compiler.run h.scenes commands).compiler
    scenes := (h.compiler.run h.scenes commands).scenes
    passes := h.passes ++
      [⟨h.compiler, h.scenes, call, (h.compiler.run h.scenes commands).batch⟩] }

/-- The chronicle once the session has been reset. -/
def cleared (h : Chronicle) : Chronicle :=
  { h with
    compiler := (h.compiler.reset h.scenes).1
    scenes := (h.compiler.reset h.scenes).2 }

/-- The chronicle once a batch has been applied. -/
def settled (h : Chronicle) (number : Nat) (pass : Pass) : Chronicle :=
  { h with
    scenes := settle (leavesAll pass.batch) h.scenes
    applied := h.applied ++ [(number, pass)] }

/-- What is noted of a script depends on whether it can be read. -/
theorem note_map (h : Chronicle) (call : Call) (parsed : Except Script.ParseError (List Command)) :
    h.note call (parsed.map (h.compiler.run h.scenes)) =
      parsed.toOption.elim h (h.compiled call) := by
  cases parsed <;> rfl

/-- A call that is no reset is noted if its script can be read, and else changes nothing. -/
theorem hear_eq (h : Chronicle) {call : Call} (hreset : call ≠ .reset) :
    h.hear call = call.commands?.elim h (h.compiled call) := by
  cases call with
  -- Both kinds of scripts are parsed first and compiled only if they can be read.
  | text script => exact h.note_map _ (Command.parseText script)
  | source bytes => exact h.note_map _ (Command.parseSource bytes)
  | reset => exact absurd rfl hreset

/-- **All that an event can do**: compile a script, reset the session, apply a batch, or nothing.
Everything below takes events apart by these four cases. -/
theorem happen_cases {σ : Type} [Surface σ] [LawfulSurface σ] (h : Chronicle) (event : Event σ) :
    (∃ call commands, event = .call call ∧ call.commands? = some commands ∧
      h.happen event = h.compiled call commands) ∨
    (event = .call .reset ∧ h.happen event = h.cleared) ∨
    (∃ number surface pass, event = .apply number surface ∧ h.passes[number]? = some pass ∧
      h.happen event = h.settled number pass) ∨
    (event.answered? = none ∧ event ≠ .call .reset ∧ h.happen event = h) := by
  cases event with
  | call call =>
    by_cases hreset : call = .reset
    · subst hreset
      exact Or.inr (Or.inl ⟨rfl, rfl⟩)
    · have hhear := h.hear_eq hreset
      cases hcommands : call.commands? with
      | some commands =>
        rw [hcommands] at hhear
        exact Or.inl ⟨call, commands, rfl, hcommands, hhear⟩
      | none =>
        rw [hcommands] at hhear
        refine Or.inr (Or.inr (Or.inr ⟨?_, fun hc => hreset (Event.call.inj hc), hhear⟩))
        rw [Event.answered?, hcommands]
        rfl
  -- Applying is settling the leaves of the batch, whatever the surface is.
  | apply number surface =>
    cases hpass : h.passes[number]? with
    | some pass =>
      refine Or.inr (Or.inr (Or.inl ⟨number, surface, pass, rfl, hpass, ?_⟩))
      rw [happen, apply, hpass]
      dsimp only
      rw [apply_eq]
      rfl
    | none =>
      refine Or.inr (Or.inr (Or.inr ⟨rfl, nofun, ?_⟩))
      rw [happen, apply, hpass]

/-- Compiling leaves all figures that there are. -/
theorem extends_compiled (h : Chronicle) (call : Call) (commands : List Command) :
    (h.compiled call commands).scenes.Extends h.scenes :=
  Session.extends_executeAll _ _ _ _

/-- A reset leaves all figures that there are. -/
theorem extends_cleared (h : Chronicle) : h.cleared.scenes.Extends h.scenes :=
  h.scenes.extends_grow .scene

/-! ### What always holds -/

/-- What holds of a chronicle at any time. What is said of a pass was true when it was noted, and
nothing that happens later makes it untrue. -/
structure Sound (settings : Settings) (h : Chronicle) : Prop where
  compiler : h.compiler.Sound settings h.scenes
  moves : ∀ pass ∈ h.passes, pass.IssuesMoves settings
  figures : ∀ pass ∈ h.passes, ∀ op ∈ pass.batch, op.HasFigures settings h.scenes
  applied : ∀ entry ∈ h.applied, h.passes[entry.1]? = some entry.2

section Sound

variable {settings : Settings} {h : Chronicle}

/-- Where nothing has happened there are no passes to speak of. -/
theorem sound_start (settings : Settings) (scenes : Scenes) :
    (start settings scenes).Sound settings where
  compiler := ⟨rfl, Session.sound_new scenes, rfl⟩
  moves := fun _ hpass => absurd hpass List.not_mem_nil
  figures := fun _ hpass => absurd hpass List.not_mem_nil
  applied := fun _ hentry => absurd hentry List.not_mem_nil

/-- The batch of a script has the moves of the script, and figures that exist. The session has a
background from then on. -/
theorem Sound.pass (hsound : h.Sound settings) {call : Call} {commands : List Command}
    (hread : call.commands? = some commands) :
    let done := h.compiler.run h.scenes commands
    Pass.IssuesMoves settings ⟨h.compiler, h.scenes, call, done.batch⟩ ∧
      (∀ op ∈ done.batch, op.HasFigures settings done.scenes) ∧
      done.compiler.session.background? ≠ none := by
  obtain ⟨hconfigured, hsession, hmoves⟩ := hsound.compiler
  subst hconfigured
  have hcommands : call.commands?.getD [] = commands := by
    rw [hread]
    rfl
  have hbackground : h.compiler.session.begin.background? ≠ none := by
    rw [hsession.background?_begin]
    exact Option.some_ne_none _
  -- The session stays sound command by command, and keeps a background.
  obtain ⟨hheard, hselected⟩ := hsession.begin.executeAll hbackground commands
  refine ⟨⟨?_, ?_⟩, fun op hop => hheard.hasFigures_assemble hop, ?_⟩
  -- The moves that the session has issued are those of the script, and the batch has been given
  -- them.
  · rw [Pass.commands, hcommands]
    exact hread
  · rw [Pass.commands, hcommands]
    have hnone : h.compiler.session.begin.moves = [] := hmoves
    have hissued := Session.issued_executeAll h.compiler.settings hnone h.scenes commands
    rw [← Session.moves_assemble] at hissued
    exact hissued
  -- Handing over the batch keeps the background.
  · have hleft : ∀ s : Session, s.assemble.2.background? = s.background? := by
      intro s
      rw [Session.assemble_eq]
    exact fun hc => hselected ((hleft _).symm.trans hc)

/-- Compiling keeps a chronicle sound, and the new pass is as it should be. -/
theorem Sound.compiled (hsound : h.Sound settings) {call : Call} {commands : List Command}
    (hread : call.commands? = some commands) : (h.compiled call commands).Sound settings := by
  obtain ⟨hmoves, hfigures, -⟩ := hsound.pass hread
  have hextends := h.extends_compiled call commands
  refine ⟨hsound.compiler.run commands, fun pass hpass => ?_, fun pass hpass op hop => ?_,
    fun entry hentry => ?_⟩
  · rcases List.mem_append.mp hpass with hpass | hpass
    · exact hsound.moves pass hpass
    · rw [List.mem_singleton.mp hpass]
      exact hmoves
  · rcases List.mem_append.mp hpass with hpass | hpass
    · exact (hsound.figures pass hpass op hop).extends hextends
    · rw [List.mem_singleton.mp hpass] at hop
      exact hfigures op hop
  · -- The new pass comes last, so the numbers of the others stand.
    have hget := hsound.applied entry hentry
    exact (List.getElem?_append_left (List.getElem?_eq_some_iff.mp hget).1).trans hget

/-- A reset keeps a chronicle sound, as no figures are taken away. -/
theorem Sound.cleared (hsound : h.Sound settings) : h.cleared.Sound settings where
  compiler := ⟨hsound.compiler.configured, Session.sound_reset _, rfl⟩
  moves := hsound.moves
  figures := fun pass hpass op hop =>
    (hsound.figures pass hpass op hop).extends h.extends_cleared
  applied := hsound.applied

/-- Applying a batch keeps a chronicle sound: figures are moved, and stay the figures they are. -/
theorem Sound.settled (hsound : h.Sound settings) {number : Nat} {pass : Pass}
    (hpass : h.passes[number]? = some pass) : (h.settled number pass).Sound settings where
  compiler := ⟨hsound.compiler.configured,
    hsound.compiler.session.intact (Session.intact_settle _ _ _), hsound.compiler.moves⟩
  moves := hsound.moves
  figures := fun other hother op hop => (hsound.figures other hother op hop).settle _
  applied := by
    intro entry hentry
    rcases List.mem_append.mp hentry with hentry | hentry
    · exact hsound.applied entry hentry
    · rw [List.mem_singleton.mp hentry]
      exact hpass

/-- **Every event keeps a chronicle sound**, one case for each thing that it can do. -/
theorem Sound.happen {σ : Type} [Surface σ] [LawfulSurface σ] (hsound : h.Sound settings)
    (event : Event σ) : (h.happen event).Sound settings := by
  obtain ⟨call, commands, -, hread, heq⟩ | ⟨-, heq⟩ | ⟨number, surface, pass, -, hpass, heq⟩ |
    ⟨-, -, heq⟩ := h.happen_cases event
  · rw [heq]
    exact hsound.compiled hread
  · rw [heq]
    exact hsound.cleared
  · rw [heq]
    exact hsound.settled hpass
  · rw [heq]
    exact hsound

/-- Events one after another keep a chronicle sound. -/
theorem Sound.run {σ : Type} [Surface σ] [LawfulSurface σ] (hsound : h.Sound settings)
    (events : List (Event σ)) : (h.run events).Sound settings := by
  induction events generalizing h with
  | nil => exact hsound
  | cons event rest ih => exact ih (hsound.happen event)

end Sound

/-! ### What moves a figure -/

/-- The moves that have been carried out by applying batches, in order, each with its place in the
scripts. -/
def translations (entries : List (Nat × Pass)) : List ((Nat × Nat) × Move) :=
  entries.flatMap fun entry => entry.2.places entry.1

/-- The last batch carries out its moves after all others. -/
theorem translations_concat (entries : List (Nat × Pass)) (number : Nat) (pass : Pass) :
    translations (entries ++ [(number, pass)]) = translations entries ++ pass.places number := by
  rw [translations, List.flatMap_append, List.flatMap_singleton, translations]

/-- Batches of different passes carry out different moves of scripts. So if no batch is applied
twice, no place comes up twice. -/
theorem nodup_translations {settings : Settings} {entries : List (Nat × Pass)}
    (hmoves : ∀ entry ∈ entries, entry.2.IssuesMoves settings) (h : (entries.map Prod.fst).Nodup) :
    ((translations entries).map Prod.fst).Nodup := by
  rw [translations, List.map_flatMap, List.nodup_flatMap]
  refine ⟨fun entry hentry => ?_, ?_⟩
  · rw [(hmoves entry hentry).map_fst_places]
    exact (Script.nodup_keptMoves _).map fun _ _ hsame => (Prod.mk.inj hsame).2
  · -- The number of the pass tells the places of two batches apart.
    refine (List.pairwise_map.mp h).imp_of_mem fun hone hother hne place hplace hplace' => ?_
    dsimp only at hplace hplace'
    rw [(hmoves _ hone).map_fst_places] at hplace
    rw [(hmoves _ hother).map_fst_places] at hplace'
    obtain ⟨_, -, rfl⟩ := List.mem_map.mp hplace
    obtain ⟨_, -, hsame⟩ := List.mem_map.mp hplace'
    exact hne (Prod.mk.inj hsame).1.symm

section Translations

variable {settings : Settings} {h : Chronicle}

/-- Applying a batch shifts a figure once for each move of the pass that lists the figure, as no
move lists a figure twice. -/
theorem Sound.get?_settled (hsound : h.Sound settings) {number : Nat} {pass : Pass}
    (hpass : pass ∈ h.passes) {scene : SceneId} {id : FigureId} {figure : Figure}
    (hget : h.scenes.get? scene id = some figure) :
    (h.settled number pass).scenes.get? scene id =
      some (pass.moves.foldl (shiftedBy scene id) figure) := by
  have hfigures := hsound.figures pass hpass
  -- A batch has no batches in it, so its leaves are its operations.
  have hflat : leavesAll pass.batch = pass.batch :=
    leavesAll_of_forall fun op hop => (hfigures op hop).leaves_eq
  have hnodup : ∀ op ∈ pass.batch, ∀ m, op = .move m → m.targets.Nodup := by
    rintro op hop m rfl
    exact (hfigures _ hop).1
  have hsettle := get?_settle hnodup h.scenes scene id
  rw [hget] at hsettle
  change (settle (leavesAll pass.batch) h.scenes).get? scene id = _
  rw [hflat]
  exact hsettle

/-- **What moves a figure that exists**: the batches that are applied, and nothing else. Compiling
and resetting add figures and scenes, and leave this one where it is. -/
theorem Sound.exists_translations {σ : Type} [Surface σ] [LawfulSurface σ]
    (hsound : h.Sound settings) {scene : SceneId} {id : FigureId} {figure : Figure}
    (hget : h.scenes.get? scene id = some figure) (later : List (Event σ)) :
    ∃ entries, (h.run later).applied = h.applied ++ entries ∧
      (h.run later).scenes.get? scene id =
        some (((translations entries).map Prod.snd).foldl (shiftedBy scene id) figure) := by
  induction later using List.reverseRecOn with
  | nil => exact ⟨[], (List.append_nil _).symm, hget⟩
  | append_singleton later event ih =>
    obtain ⟨entries, happlied, hshifted⟩ := ih
    have hbefore := hsound.run later
    rw [run_concat]
    obtain ⟨call, commands, -, hread, heq⟩ | ⟨-, heq⟩ | ⟨number, surface, pass, -, hpass, heq⟩ |
      ⟨-, -, heq⟩ := (h.run later).happen_cases event
    · -- Compiling adds figures and leaves this one where it is.
      rw [heq]
      exact ⟨entries, happlied, ((h.run later).extends_compiled call commands).get? hshifted⟩
    · rw [heq]
      exact ⟨entries, happlied, (h.run later).extends_cleared.get? hshifted⟩
    · -- The batch carries out its moves behind all others.
      have hmem := List.mem_of_getElem? hpass
      have hmoves := (hbefore.moves pass hmem).map_snd_places number
      rw [heq]
      refine ⟨entries ++ [(number, pass)], ?_, ?_⟩
      · rw [← List.append_assoc, ← happlied]
        rfl
      · rw [hbefore.get?_settled hmem hshifted, translations_concat, List.map_append,
          List.foldl_append, hmoves]
    · rw [heq]
      exact ⟨entries, happlied, hshifted⟩

end Translations

/-! ### What the events tell -/

section Events

variable {σ : Type} [Surface σ] [LawfulSurface σ] (settings : Settings) (scenes : Scenes)

/-- The passes are the calls that have been answered, in the order of the calls. -/
theorem calls_run (events : List (Event σ)) :
    ((start settings scenes).run events).passes.map (·.call) =
      events.filterMap Event.answered? := by
  induction events using List.reverseRecOn with
  | nil => rfl
  | append_singleton events event ih =>
    rw [run_concat, List.filterMap_append, ← ih]
    obtain ⟨call, commands, rfl, hread, heq⟩ | ⟨rfl, heq⟩ |
      ⟨number, surface, pass, rfl, hpass, heq⟩ | ⟨hnone, -, heq⟩ :=
        ((start settings scenes).run events).happen_cases event
    · rw [heq, compiled, List.map_append]
      simp only [Event.answered?, hread, List.filterMap_cons, List.filterMap_nil]
      rfl
    · rw [heq]
      exact (List.append_nil _).symm
    · rw [heq]
      exact (List.append_nil _).symm
    · rw [heq, List.filterMap_cons, hnone]
      exact (List.append_nil _).symm

/-- A background is missing until a script has been compiled or the session has been reset. A script
that is refused does not count. -/
theorem background?_run (events : List (Event σ)) :
    ((start settings scenes).run events).compiler.session.background? = none ↔
      ((start settings scenes).run events).passes = [] ∧ .call .reset ∉ events := by
  induction events using List.reverseRecOn with
  | nil => exact iff_of_true rfl ⟨rfl, List.not_mem_nil⟩
  | append_singleton events event ih =>
    have hsound := (sound_start settings scenes).run events
    rw [run_concat, List.mem_append, List.mem_singleton]
    obtain ⟨call, commands, rfl, hread, heq⟩ | ⟨rfl, heq⟩ |
      ⟨number, surface, pass, rfl, hpass, heq⟩ | ⟨-, hreset, heq⟩ :=
        ((start settings scenes).run events).happen_cases event
    · -- From now on there is a pass, and a background.
      obtain ⟨-, -, hbackground⟩ := hsound.pass hread
      rw [heq]
      exact iff_of_false hbackground fun hc =>
        List.append_ne_nil_of_right_ne_nil _ (List.cons_ne_nil _ _) hc.1
    · rw [heq]
      exact iff_of_false nofun fun hc => hc.2 (Or.inr rfl)
    · rw [heq, or_iff_left (fun hc : Event.call Call.reset = .apply number surface => nomatch hc)]
      exact ih
    · rw [heq, or_iff_left (Ne.symm hreset)]
      exact ih

/-- **Every move stands in one batch, once.** Whatever calls are made, refused scripts included, and
whichever batches are applied in between: each script that can be read has a batch, and the moves of
this batch are, one for each and in order, the moves of the script that no reset follows. They list
figures that exist, each once, and so do the figures that are drawn; the figures stay, resets or
not. A figure is moved by batches that are applied, and by nothing else, once for each move that
lists it. So if no batch is applied twice, none of the moves is carried out twice. -/
theorem moves_exactly_once (events : List (Event σ)) :
    let last := (start settings scenes).run events
    let session := last.compiler.session
    -- between two calls no move waits, the session lists its scene, and it has a background,
    (session.moves = [] ∧
      session.figures = (List.range (last.scenes.figures session.scene).size).map FigureId.mk ∧
      (session.background? = none ↔ last.passes = [] ∧ .call .reset ∉ events)) ∧
    -- there is a batch for each call that is answered,
    last.passes.map (·.call) = events.filterMap Event.answered? ∧
    -- its moves are those of the script that no reset follows,
    (∀ pass ∈ last.passes, pass.IssuesMoves settings) ∧
    -- its figures still exist,
    (∀ pass ∈ last.passes, ∀ op ∈ pass.batch, op.HasFigures settings last.scenes) ∧
    -- and from then on they are moved by the batches that are applied
    ∀ (later : List (Event σ)) (scene : SceneId) (id : FigureId) (figure : Figure),
      last.scenes.get? scene id = some figure →
      let after := last.run later
      ∃ entries, after.applied = last.applied ++ entries ∧
        (∀ entry ∈ entries, after.passes[entry.1]? = some entry.2) ∧
        after.scenes.get? scene id =
          some (((translations entries).map Prod.snd).foldl (shiftedBy scene id) figure) ∧
        ((entries.map Prod.fst).Nodup → ((translations entries).map Prod.fst).Nodup) := by
  intro last session
  have hsound : last.Sound settings := (sound_start settings scenes).run events
  refine ⟨⟨hsound.compiler.moves, hsound.compiler.session.figures,
    background?_run settings scenes events⟩, calls_run settings scenes events, hsound.moves,
    hsound.figures, fun later scene id figure hget => ?_⟩
  have hafter := hsound.run later
  obtain ⟨entries, happlied, hshifted⟩ := hsound.exists_translations hget later
  have hpasses : ∀ entry ∈ entries, (last.run later).passes[entry.1]? = some entry.2 := by
    intro entry hentry
    refine hafter.applied entry ?_
    rw [happlied]
    exact List.mem_append_right _ hentry
  have hmoves : ∀ entry ∈ entries, entry.2.IssuesMoves settings :=
    fun entry hentry => hafter.moves entry.2 (List.mem_of_getElem? (hpasses entry hentry))
  exact ⟨entries, happlied, hpasses, hshifted, nodup_translations hmoves⟩

end Events

/-- A script with a reset between two moves, a script that is refused, and the batch applied. -/
def resetBetween : List (Event Pixmap) :=
  [.call (.text "figure 0 0\nmove 0 1\nreset\nfigure 0 0\nmove 1 0\nupdate"),
    .call (.text "move 1 0\nnonsense"), .apply 0 (.blank ⟨3, 3, by decide, by decide⟩ (by decide))]

/-- What they lead to. -/
def afterResetBetween : Chronicle := (start .standard .empty).run resetBetween

/-- Only the second move stands in the batch. -/
theorem moves_exactly_once_reset : afterResetBetween.compiler.session.moves = [] ∧
    afterResetBetween.passes.map (fun pass => (keptMoves pass.commands, pass.moves.length)) =
      [([4], 1)] := by
  have hkept : afterResetBetween.passes.map (fun pass => keptMoves pass.commands) = [[4]] := by
    decide +kernel
  unfold afterResetBetween at hkept ⊢
  obtain ⟨⟨hnone, -⟩, -, hmoves, -⟩ := moves_exactly_once .standard .empty resetBetween
  refine ⟨hnone, ?_⟩
  generalize ((start .standard .empty).run resetBetween).passes = passes at hkept hmoves
  calc
    _ = passes.map fun pass => (keptMoves pass.commands, (keptMoves pass.commands).length) :=
      List.map_congr_left fun pass hpass => congrArg _ (hmoves pass hpass).issues.length_eq.symm
    _ = (passes.map fun pass => keptMoves pass.commands).map fun kept => (kept, kept.length) := by
      rw [List.map_map]
      rfl
    _ = [([4], 1)] := by
      rw [hkept]
      rfl

end Chronicle

end Easel
