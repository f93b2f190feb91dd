import Easel.Canvas.Recording
import Easel.Proofs.Operation.Regions
import Easel.Proofs.Studio.Authors

/-!
# Batches from before a reset

A portfolio holds all batches that an author has handed out. Anyone may apply any operation of them,
at any time and as often as they like, while the author goes on: between any two commands of a
script, operations of several batches in any order. Applying a batch as a whole is one way to do so.

A reset parts the scenes. What was handed out before it stays in the scenes that existed then, and
what is handed out after it stays in scenes opened since; so neither notices the other.

* `Portfolio.run` — what some beats lead to;
* `Portfolio.Akin` — portfolios that the author cannot tell apart;
* `Portfolio.Housed`, `Portfolio.Parted` — where batches refer to, before and after a reset;
* `Portfolio.Matches` — portfolios that are alike in a region of the scenes;
* `Portfolio.reset_isolates` — batches of either side may be applied or not, the other side does not
  notice.
-/

namespace Easel

open Script (Background Command Compiler Settings Session)

namespace Script.Session

/-- A session all of whose moves are moves of its own scene. A reset drops the moves with the scene,
so that none of them outlives the scene that it is about. -/
def AtHome (s : Session) : Prop := ∀ m ∈ s.moves, m.scene = s.scene

/-- A command notes moves of the scene of the session only. A move is noted for the scene there is,
and a reset leaves no moves. -/
theorem AtHome.execute {s : Session} (h : s.AtHome) (settings : Settings) (scenes : Scenes)
    (command : Command) : (s.execute settings scenes command).1.AtHome := by
  cases command with
  -- Only a move notes one, and a reset drops them all; no other command touches the list.
  | move dx dy =>
    intro m hm
    rcases List.mem_append.mp hm with hm | hm
    · exact h m hm
    · rw [List.mem_singleton.mp hm]
      rfl
  | reset => exact fun m hm => absurd hm List.not_mem_nil
  | _ => exact h

/-- A batch refers to the scene of the session only: its moves do since the session is at home, and
its figures do since they are handed out by that scene. -/
theorem AtHome.staysIn_assemble {s : Session} (h : s.AtHome) {op : Operation}
    (hop : op ∈ s.assemble.1) : op.StaysIn (· = s.scene) := by
  rcases mem_assemble hop with ⟨_, rfl⟩ | ⟨_, rfl⟩ | ⟨m, hm, rfl⟩ | ⟨_, -, rfl⟩ | rfl
  · trivial
  · trivial
  · exact h m hm
  · rfl
  · trivial

end Script.Session

namespace Author

/-- The next thing that the author does is to reset its session: because the script under way says
so, or because it is called to. -/
def ResetsNext (author : Author) : Prop :=
  (∃ rest, author.underway = some (.reset :: rest)) ∨
    (author.underway = none ∧ author.calls[author.done]? = some .reset)

/-- A reset leads to a cleared session in a scene opened for it, and hands out no batch. -/
theorem ResetsNext.turn_eq {author : Author} (h : author.ResetsNext) (scenes : Scenes) :
    (author.turn scenes).1.compiler.session = Session.cleared ⟨scenes.all.size⟩ ∧
      (author.turn scenes).2 = (scenes.create.2, none) := by
  obtain ⟨⟨settings, session⟩, calls, done, underway⟩ := author
  rcases h with ⟨rest, hrest⟩ | ⟨hnone, hcall⟩
  · obtain rfl : underway = some (.reset :: rest) := hrest
    exact ⟨rfl, rfl⟩
  · obtain rfl : underway = none := hnone
    rw [turn_reset hcall]
    exact ⟨rfl, rfl⟩

/-- **All that a turn does.** Only the turn that hands over the session posts a batch, and only
commands change the scenes. -/
theorem turn_cases (author : Author) (scenes : Scenes) :
    let session := author.compiler.session
    let next := author.turn scenes
    (∃ command, (next.1.compiler.session, next.2.1) =
        session.execute author.compiler.settings scenes command ∧ next.2.2 = none) ∨
      (next.1.compiler.session = session.assemble.2 ∧ next.2 = (scenes, some session.assemble.1)) ∨
      (next.1.compiler.session = session.begin ∧ next.2 = (scenes, none)) ∨
      (next.1.compiler.session = session ∧ next.2 = (scenes, none)) := by
  obtain ⟨⟨settings, session⟩, calls, done, underway⟩ := author
  -- While a script is under way, its commands decide; else the next call does.
  cases underway with
  | some commands =>
    cases commands with
    | nil => exact Or.inr (Or.inl ⟨rfl, rfl⟩)
    | cons command rest => exact Or.inl ⟨command, rfl, rfl⟩
  | none =>
    cases hcall : calls[done]? with
    | none =>
      rw [turn_idle hcall]
      exact Or.inr (Or.inr (Or.inr ⟨rfl, rfl⟩))
    | some call =>
      -- A call for a reset is the command of that name without a script around it.
      by_cases hreset : call = .reset
      · rw [hreset] at hcall
        rw [turn_reset hcall]
        exact Or.inl ⟨.reset, rfl, rfl⟩
      · cases hcommands : call.commands? with
        | none =>
          rw [turn_refused hcall hreset hcommands]
          exact Or.inr (Or.inr (Or.inr ⟨rfl, rfl⟩))
        | some commands =>
          rw [turn_begin hcall hcommands]
          exact Or.inr (Or.inr (Or.inl ⟨rfl, rfl⟩))

/-- The scene of the session exists at any time. A figure grows it, a reset opens another one, and
no command takes a scene away. -/
theorem has_scene_turn {author : Author} {scenes : Scenes} (h : scenes.Has author.scene) :
    (author.turn scenes).2.1.Has (author.turn scenes).1.scene := by
  obtain ⟨command, hnext, -⟩ | ⟨hsession, hnext⟩ | ⟨hsession, hnext⟩ | ⟨hsession, hnext⟩ :=
    author.turn_cases scenes
  · obtain ⟨hsession, hscenes⟩ := Prod.mk.inj hnext
    rw [scene, hsession, hscenes]
    -- Only a figure and a reset change the arena, and neither makes it smaller.
    cases command with
    | figure x y => exact Nat.lt_of_lt_of_eq h (Scenes.size_all_insert _ _ _).symm
    | reset => exact Nat.lt_of_lt_of_eq (Nat.lt_succ_self _) (Scenes.size_all_create scenes).symm
    | _ => exact h
  · rw [scene, hsession, hnext, Session.assemble_eq]
    exact h
  · rw [scene, hsession, hnext]
    exact h
  · rw [scene, hsession, hnext]
    exact h

/-- A session stays at home, and what is posted refers to the scene that it has been in. A batch is
posted for the session as it is then, before anything else can happen to it. -/
theorem atHome_turn {author : Author} (h : author.compiler.session.AtHome) (scenes : Scenes) :
    (author.turn scenes).1.compiler.session.AtHome ∧
      ∀ batch, (author.turn scenes).2.2 = some batch →
        ∀ op ∈ batch, op.StaysIn (· = author.scene) := by
  obtain ⟨command, hnext, hbatch⟩ | ⟨hsession, hnext⟩ | ⟨hsession, hnext⟩ | ⟨hsession, hnext⟩ :=
    author.turn_cases scenes
  · rw [(Prod.mk.inj hnext).1, hbatch]
    exact ⟨h.execute _ scenes command, nofun⟩
  · rw [hsession, hnext]
    refine ⟨?_, ?_⟩
    · -- No move is left.
      rw [Session.assemble_eq]
      exact fun m hm => absurd hm List.not_mem_nil
    · rintro batch ⟨⟩ op hop
      exact h.staysIn_assemble hop
  · rw [hsession, hnext]
    exact ⟨h, nofun⟩
  · rw [hsession, hnext]
    exact ⟨h, nofun⟩

end Author

/-- An author, the scenes, and what has come of the batches. Unlike a studio, it has no loop: a
batch that has been handed out may be applied at any time, and more than once. -/
structure Portfolio where
  author : Author
  scenes : Scenes
  /-- The batches that have been handed out, in order. -/
  batches : List Batch
  /-- The fills that operations of batches have issued, in order, each time with the number of the
  batch. -/
  drawn : List (Nat × List Fill)

/-- What happens next. Beats come in any order, and an operation may be asked for that no batch
has. -/
inductive Beat where
  /-- The author takes its turn. -/
  | author
  /-- An operation, given by the number of a batch and by its place in the batch, is applied to a
  surface with some bounds. -/
  | apply (number place : Nat) (bounds : Rect)
deriving DecidableEq

/-- The batch that is applied. -/
def Beat.number? : Beat → Option Nat
  | .author => none
  | .apply number _ _ => some number

namespace Portfolio

/-- A portfolio of an author who has done nothing so far, in an arena that may hold other scenes. -/
def start (settings : Settings) (calls : List Call) (scenes : Scenes) : Portfolio :=
  match Compiler.start settings scenes with
  | (compiler, scenes) => ⟨⟨compiler, calls, 0, none⟩, scenes, [], []⟩

/-- The operation at a place in a batch, if both exist. -/
def operation? (p : Portfolio) (number place : Nat) : Option Operation :=
  p.batches[number]?.bind (·[place]?)

/-- The author takes its turn, and a batch that it posts is handed out. -/
def write (p : Portfolio) : Portfolio :=
  match p.author.turn p.scenes with
  | (author, scenes, batch?) => { p with author, scenes, batches := p.batches ++ batch?.toList }

/-- An operation of a batch is applied to a recording, which keeps the fills. -/
def apply (p : Portfolio) (number place : Nat) (bounds : Rect) : Portfolio :=
  match p.operation? number place with
  | some op =>
    match op.apply p.scenes (Recording.mk number bounds #[]) with
    | ⟨_, scenes, recording⟩ =>
      { p with scenes, drawn := p.drawn ++ [(number, recording.fills.toList)] }
  | none => p

/-- What a beat leads to. -/
def next (p : Portfolio) : Beat → Portfolio
  | .author => p.write
  | .apply number place bounds => p.apply number place bounds

/-- What some beats lead to, one after another. -/
def run (p : Portfolio) (beats : List Beat) : Portfolio := beats.foldl next p

/-- Batches that have been handed out stay as they are. Later ones are added behind them. -/
theorem batches_prefix_run (p : Portfolio) (beats : List Beat) :
    p.batches <+: (p.run beats).batches := by
  -- Each beat extends the list or leaves it, and prefixes compose.
  induction beats generalizing p with
  | nil => exact List.prefix_rfl
  | cons beat rest ih =>
    refine List.IsPrefix.trans ?_ (ih (p.next beat))
    cases beat with
    | author => exact List.prefix_append _ _
    | apply number place bounds =>
      rw [next, apply]
      split <;> exact List.prefix_rfl

/-- What comes of an operation that is a leaf: it moves the figures that it names, if it is a move,
and issues its own fills for the scenes as they are before. -/
def draw (p : Portfolio) (number : Nat) (bounds : Rect) (leaf : Operation) : Portfolio :=
  { p with
    scenes := Operation.ownMove p.scenes leaf
    drawn := p.drawn ++ [(number, Operation.ownFills bounds p.scenes leaf)] }

/-- An operation that stays in a region is a leaf, so all that comes of it is what comes of a
leaf. -/
theorem apply_of_staysIn {p : Portfolio} {number place : Nat} {op : Operation}
    (hop : p.operation? number place = some op) {region : SceneId → Prop}
    (h : op.StaysIn region) (bounds : Rect) :
    p.apply number place bounds = p.draw number bounds op := by
  have hleaf := h.leaves_eq
  rw [apply, hop]
  dsimp only
  rw [Operation.apply_eq, hleaf]
  -- A recording keeps the fills that it is painted with, and its bounds are those given.
  simp [draw, Recording.paint_eq, Operation.settle, Operation.fills, Surface.bounds]

/-- If there is no such operation, nothing happens. -/
theorem apply_of_none {p : Portfolio} {number place : Nat}
    (hnone : p.operation? number place = none) (bounds : Rect) :
    p.apply number place bounds = p := by
  rw [apply, hnone]

/-- An operation that is found belongs to a batch that has been handed out. -/
theorem mem_of_operation? {p : Portfolio} {number place : Nat} {op : Operation}
    (hop : p.operation? number place = some op) :
    ∃ batch, p.batches[number]? = some batch ∧ op ∈ batch := by
  obtain ⟨batch, hbatch, hplace⟩ := Option.bind_eq_some_iff.mp hop
  exact ⟨batch, hbatch, List.mem_of_getElem? hplace⟩

/-! ### What the author notices -/

/-- Two portfolios that the author cannot tell apart: it sees how many scenes there are and how many
figures are in them, not where the figures are. A figure gets its number from how many there are, so
this decides all batches to come. -/
structure Akin (p q : Portfolio) : Prop where
  author : p.author = q.author
  batches : p.batches = q.batches
  size : p.scenes.all.size = q.scenes.all.size
  rows : ∀ scene, (p.scenes.figures scene).size = (q.scenes.figures scene).size

section Akin

variable {p q : Portfolio}

/-- A portfolio is akin to itself. -/
theorem Akin.refl (p : Portfolio) : p.Akin p := ⟨rfl, rfl, rfl, fun _ => rfl⟩

/-- Being akin does not depend on which of the two comes first. -/
theorem Akin.symm (h : p.Akin q) : q.Akin p :=
  ⟨h.author.symm, h.batches.symm, h.size.symm, fun scene => (h.rows scene).symm⟩

/-- An author that sees the same in both takes the same turn, and the scenes grow alike. -/
theorem Akin.write (h : p.Akin q) : p.write.Akin q.write := by
  obtain ⟨hauthor, hbatch⟩ := p.author.turn_congr h.size (h.rows p.author.scene)
  refine ⟨?_, ?_, ?_, fun scene => ?_⟩
  · show (p.author.turn p.scenes).1 = (q.author.turn q.scenes).1
    rw [hauthor, h.author]
  · show p.batches ++ (p.author.turn p.scenes).2.2.toList =
      q.batches ++ (q.author.turn q.scenes).2.2.toList
    rw [hbatch, h.batches, h.author]
  -- The scenes grow by the same.
  · show (p.author.turn p.scenes).2.1.all.size = (q.author.turn q.scenes).2.1.all.size
    rw [Author.turn_scenes, Author.turn_scenes, h.author]
    cases q.author.growth? with
    | none => exact h.size
    | some growth => exact Scenes.size_all_grow_congr h.size growth
  · show ((p.author.turn p.scenes).2.1.figures scene).size =
      ((q.author.turn q.scenes).2.1.figures scene).size
    rw [Author.turn_scenes, Author.turn_scenes, h.author]
    cases q.author.growth? with
    | none => exact h.rows scene
    | some growth => exact Scenes.size_figures_grow_congr h.size growth (h.rows scene)

/-- An operation moves figures, but leaves all of them where the author looks. Moves change neither
how many scenes there are nor how many figures they have. -/
theorem akin_apply (p : Portfolio) (number place : Nat) (bounds : Rect) :
    (p.apply number place bounds).Akin p := by
  cases hop : p.operation? number place with
  | none =>
    rw [apply_of_none hop]
    exact Akin.refl p
  | some op =>
    -- Only the moves of the operation reach the scenes, and a move keeps all sizes.
    have hscenes : (p.apply number place bounds).scenes = Operation.settle op.leaves p.scenes := by
      rw [apply, hop]
      dsimp only
      rw [Operation.apply_eq]
    have hrest : (p.apply number place bounds).author = p.author ∧
        (p.apply number place bounds).batches = p.batches := by
      rw [apply, hop]
      exact ⟨rfl, rfl⟩
    refine ⟨hrest.1, hrest.2, ?_, fun scene => ?_⟩
    · rw [hscenes, Operation.size_all_settle]
    · rw [hscenes, Operation.size_figures_settle]

/-- Portfolios that are akin to a third one are akin. -/
theorem Akin.trans {r : Portfolio} (h : p.Akin q) (h' : q.Akin r) : p.Akin r :=
  ⟨h.author.trans h'.author, h.batches.trans h'.batches, h.size.trans h'.size,
    fun scene => (h.rows scene).trans (h'.rows scene)⟩

/-- **The author does not notice which operations are applied.** Any of the other beats may be left
out, for they lead to portfolios that are akin to the ones before. -/
theorem Akin.run (h : p.Akin q) {keep : Beat → Bool} (hkeep : keep .author = true)
    (beats : List Beat) : (p.run beats).Akin (q.run (beats.filter keep)) := by
  induction beats generalizing p q with
  | nil => exact h
  | cons beat rest ih =>
    cases beat with
    | author =>
      rw [List.filter_cons_of_pos hkeep]
      exact ih h.write
    | apply number place bounds =>
      -- Applied or not, the left side stays akin to the right one, so a beat that is left out costs
      -- nothing.
      have hleft := (p.akin_apply number place bounds).trans h
      cases hkept : keep (.apply number place bounds) with
      | true =>
        rw [List.filter_cons_of_pos hkept]
        exact ih (hleft.trans (q.akin_apply number place bounds).symm)
      | false =>
        rw [List.filter_cons_of_neg (by simp [hkept])]
        exact ih hleft

end Akin

/-! ### Before a reset -/

/-- All batches refer to scenes that exist, and what has been drawn is of these batches. This is the
invariant that a reset finds, whatever has been going on before it. -/
structure Housed (p : Portfolio) : Prop where
  scene : p.scenes.Has p.author.scene
  home : p.author.compiler.session.AtHome
  batches : ∀ batch ∈ p.batches, ∀ op ∈ batch, op.StaysIn p.scenes.Has
  drawn : ∀ entry ∈ p.drawn, entry.1 < p.batches.length

/-- At the beginning there are no batches, and the scene of the session has just been opened. -/
theorem housed_start (settings : Settings) (calls : List Call) (scenes : Scenes) :
    (start settings calls scenes).Housed where
  scene := Nat.lt_of_lt_of_eq (Nat.lt_succ_self _) (Scenes.size_all_create scenes).symm
  home := fun _ hm => absurd hm List.not_mem_nil
  batches := fun _ hbatch => absurd hbatch List.not_mem_nil
  drawn := fun _ hentry => absurd hentry List.not_mem_nil

section Housed

variable {p : Portfolio}

/-- The author opens scenes and closes none, so what the batches refer to goes on to exist. -/
theorem Housed.write (h : p.Housed) : p.write.Housed := by
  obtain ⟨hhome, hposts⟩ := Author.atHome_turn h.home p.scenes
  have hhas : ∀ scene, p.scenes.Has scene → (p.author.turn p.scenes).2.1.Has scene :=
    fun scene hscene => Nat.lt_of_lt_of_le hscene (p.author.size_all_le_turn p.scenes)
  refine ⟨Author.has_scene_turn h.scene, hhome, fun batch hbatch op hop => ?_,
    fun entry hentry => ?_⟩
  · rcases List.mem_append.mp hbatch with hbatch | hbatch
    · exact (h.batches batch hbatch op hop).mono hhas
    · -- A batch that is handed out now refers to the scene that the session has been in.
      refine (hposts batch (Option.mem_toList.mp hbatch) op hop).mono fun scene hscene => ?_
      rw [hscene]
      exact hhas _ h.scene
  · exact Nat.lt_of_lt_of_le (h.drawn entry hentry) (List.prefix_append _ _).length_le

/-- An operation changes figures in scenes that exist, and opens or closes none. -/
theorem Housed.apply (h : p.Housed) (number place : Nat) (bounds : Rect) :
    (p.apply number place bounds).Housed := by
  cases hop : p.operation? number place with
  | none =>
    rw [apply_of_none hop]
    exact h
  | some op =>
    obtain ⟨batch, hbatch, hmem⟩ := mem_of_operation? hop
    have hstays := h.batches batch (List.mem_of_getElem? hbatch) op hmem
    -- A move keeps the number of scenes, and whether a scene exists depends on nothing else.
    have hsize : (Operation.ownMove p.scenes op).all.size = p.scenes.all.size :=
      Operation.size_all_settle [op] p.scenes
    have hhas : ∀ scene, p.scenes.Has scene → (Operation.ownMove p.scenes op).Has scene :=
      fun scene hscene => Nat.lt_of_lt_of_eq hscene hsize.symm
    rw [apply_of_staysIn hop hstays]
    refine ⟨hhas _ h.scene, h.home,
      fun batch hbatch op hop => (h.batches batch hbatch op hop).mono hhas,
      fun entry hentry => ?_⟩
    rcases List.mem_append.mp hentry with hentry | hentry
    · exact h.drawn entry hentry
    · rw [List.mem_singleton.mp hentry]
      exact (List.getElem?_eq_some_iff.mp hbatch).1

/-- **All batches refer to scenes that exist, at any time.** Each beat preserves this, whether it is
a turn of the author or an operation. -/
theorem Housed.run (h : p.Housed) (beats : List Beat) : (p.run beats).Housed := by
  induction beats generalizing p with
  | nil => exact h
  | cons beat rest ih =>
    cases beat with
    | author => exact ih h.write
    | apply number place bounds => exact ih (h.apply number place bounds)

end Housed

/-! ### After a reset -/

/-- The scenes are parted: the first batches refer to scenes that existed at some time, and the
session and all other batches refer to scenes opened since. It is the invariant of everything that
happens after a reset, a second reset included. -/
structure Parted (former : Scenes) (first : Nat) (p : Portfolio) : Prop where
  size : former.all.size ≤ p.scenes.all.size
  scene : ¬ former.Has p.author.scene
  home : p.author.compiler.session.AtHome
  length : first ≤ p.batches.length
  old : ∀ number < first, ∀ batch, p.batches[number]? = some batch →
    ∀ op ∈ batch, op.StaysIn former.Has
  new : ∀ number, first ≤ number → ∀ batch, p.batches[number]? = some batch →
    ∀ op ∈ batch, op.StaysIn fun scene => ¬ former.Has scene

section Parted

variable {former : Scenes} {first : Nat} {p q : Portfolio}

/-- **A reset parts the scenes.** All batches so far are housed in scenes that exist, and the
session goes on in one that did not. -/
theorem Housed.parted (h : p.Housed) (hreset : p.author.ResetsNext) :
    p.write.Parted p.scenes p.batches.length := by
  obtain ⟨hsession, hrest⟩ := hreset.turn_eq p.scenes
  have hbatches : p.write.batches = p.batches := by
    change p.batches ++ (p.author.turn p.scenes).2.2.toList = p.batches
    rw [hrest]
    exact List.append_nil _
  have hscenes : p.write.scenes = p.scenes.create.2 := congrArg Prod.fst hrest
  -- The new scene has the number after the last one, so it did not exist before.
  have hsession' : p.write.author.compiler.session = Session.cleared ⟨p.scenes.all.size⟩ := hsession
  refine ⟨?_, ?_, ?_, ?_, ?_, ?_⟩
  · rw [hscenes, Scenes.size_all_create]
    exact Nat.le_succ _
  · rw [Author.scene, hsession']
    exact Nat.lt_irrefl _
  · rw [hsession']
    exact fun m hm => absurd hm List.not_mem_nil
  · rw [hbatches]
  · intro number _ batch hbatch op hop
    rw [hbatches] at hbatch
    exact h.batches batch (List.mem_of_getElem? hbatch) op hop
  · intro number hnumber batch hbatch
    rw [hbatches, List.getElem?_eq_none hnumber] at hbatch
    exact absurd hbatch nofun

/-- The author goes on in a scene of its own side, and hands out batches for that side. -/
theorem Parted.write (h : p.Parted former first) : p.write.Parted former first := by
  obtain ⟨hhome, hposts⟩ := Author.atHome_turn h.home p.scenes
  have hsize := p.author.size_all_le_turn p.scenes
  -- The author appends to the batches, so those there were keep their numbers.
  have hinitial : ∀ number < p.batches.length, p.write.batches[number]? = p.batches[number]? :=
    fun number hnumber => List.getElem?_append_left hnumber
  refine ⟨Nat.le_trans h.size hsize, ?_, hhome, ?_, ?_, ?_⟩
  · -- A scene that is opened now did not exist then.
    rcases p.author.scene_turn p.scenes with hsame | hopened
    · exact hsame.symm ▸ h.scene
    · exact hopened.symm ▸ Nat.not_lt_of_le h.size
  · exact Nat.le_trans h.length (List.prefix_append _ _).length_le
  · intro number hnumber batch hbatch
    rw [hinitial number (Nat.lt_of_lt_of_le hnumber h.length)] at hbatch
    exact h.old number hnumber batch hbatch
  · intro number hnumber batch hbatch op hop
    rcases Nat.lt_or_ge number p.batches.length with hlt | hge
    · rw [hinitial number hlt] at hbatch
      exact h.new number hnumber batch hbatch op hop
    · -- A batch that is handed out now refers to the scene that the session has been in.
      change (p.batches ++ _)[number]? = some batch at hbatch
      rw [List.getElem?_append_right hge] at hbatch
      have hbatch := Option.mem_toList.mp (List.mem_of_getElem? hbatch)
      refine (hposts batch hbatch op hop).mono fun scene hscene => ?_
      rw [hscene]
      exact h.scene

/-- What comes of a leaf is the business of the figures, and parts no less than before. -/
theorem Parted.draw (h : p.Parted former first) (number : Nat) (bounds : Rect) (leaf : Operation) :
    (p.draw number bounds leaf).Parted former first := by
  refine ⟨?_, h.scene, h.home, h.length, h.old, h.new⟩
  exact Nat.le_trans h.size (Nat.le_of_eq (Operation.size_all_settle [leaf] p.scenes).symm)

/-- What comes of applying an operation: nothing, if there is none, or what a leaf does that stays
on its side. -/
theorem Parted.apply_cases (h : p.Parted former first) (number place : Nat) (bounds : Rect) :
    (p.operation? number place = none ∧ p.apply number place bounds = p) ∨
      ∃ leaf, p.operation? number place = some leaf ∧
        p.apply number place bounds = p.draw number bounds leaf ∧
        (number < first → leaf.StaysIn former.Has) ∧
        (first ≤ number → leaf.StaysIn fun scene => ¬ former.Has scene) := by
  cases hop : p.operation? number place with
  | none => exact Or.inl ⟨rfl, apply_of_none hop bounds⟩
  | some leaf =>
    obtain ⟨batch, hbatch, hmem⟩ := mem_of_operation? hop
    have hold : number < first → leaf.StaysIn former.Has :=
      fun hnumber => h.old number hnumber batch hbatch leaf hmem
    have hnew : first ≤ number → leaf.StaysIn fun scene => ¬ former.Has scene :=
      fun hnumber => h.new number hnumber batch hbatch leaf hmem
    -- Which of the two regions the leaf stays in does not matter here: either makes it a leaf.
    refine Or.inr ⟨leaf, rfl, ?_, hold, hnew⟩
    rcases Nat.lt_or_ge number first with hlt | hge
    · exact apply_of_staysIn hop (hold hlt) bounds
    · exact apply_of_staysIn hop (hnew hge) bounds

/-- An operation leaves the batches and the session alone. -/
theorem Parted.apply (h : p.Parted former first) (number place : Nat) (bounds : Rect) :
    (p.apply number place bounds).Parted former first := by
  obtain ⟨-, heq⟩ | ⟨leaf, -, heq, -, -⟩ := h.apply_cases number place bounds
  · rw [heq]
    exact h
  · rw [heq]
    exact h.draw number bounds leaf

/-- **The scenes stay parted**, whatever happens next. -/
theorem Parted.next (h : p.Parted former first) (beat : Beat) :
    (p.next beat).Parted former first := by
  cases beat with
  | author => exact h.write
  | apply number place bounds => exact h.apply number place bounds

/-- The scenes stay parted through any number of beats. -/
theorem Parted.run (h : p.Parted former first) (beats : List Beat) :
    (p.run beats).Parted former first := by
  induction beats generalizing p with
  | nil => exact h
  | cons beat rest ih => exact ih (h.next beat)

end Parted

/-! ### Portfolios that are alike on one side -/

/-- Two portfolios have the same figures in a region, and the same has been drawn of some batches.
Nothing is said about the other figures and the other batches. -/
structure Matches (region : SceneId → Prop) (shown : Nat → Bool) (p q : Portfolio) : Prop where
  figures : ∀ scene, region scene → p.scenes.figures scene = q.scenes.figures scene
  drawn : p.drawn.filter (fun entry => shown entry.1) = q.drawn.filter fun entry => shown entry.1

section Matches

variable {region : SceneId → Prop} {shown : Nat → Bool} {p q : Portfolio}

/-- Matching does not depend on which of the two comes first. -/
theorem Matches.symm (h : p.Matches region shown q) : q.Matches region shown p :=
  ⟨fun scene hscene => (h.figures scene hscene).symm, h.drawn.symm⟩

/-- A leaf that stays in the region does the same to both, and draws the same. What it draws depends
on the figures that it names, and these are in the region. -/
theorem Matches.draw (h : p.Matches region shown q) {leaf : Operation} (hleaf : leaf.StaysIn region)
    (number : Nat) (bounds : Rect) :
    (p.draw number bounds leaf).Matches region shown (q.draw number bounds leaf) := by
  refine ⟨fun scene hscene => Operation.figures_ownMove_congr leaf (h.figures scene hscene), ?_⟩
  have hfills := Operation.ownFills_congr hleaf h.figures bounds
  simp only [Portfolio.draw, List.filter_append, h.drawn, hfills]

/-- A leaf that stays outside the region, of a batch that is not shown, is not noticed. It may be
applied to one of the two and not to the other. -/
theorem Matches.draw_left (h : p.Matches region shown q) {leaf : Operation}
    (hleaf : leaf.StaysIn fun scene => ¬ region scene) {number : Nat}
    (hnumber : shown number = false) (bounds : Rect) :
    (p.draw number bounds leaf).Matches region shown q := by
  -- Figures in the region are out of reach of the leaf, and its entry is dropped by the filter.
  refine ⟨fun scene hscene => ?_, ?_⟩
  · rw [← h.figures scene hscene]
    exact Operation.figures_ownMove_of_outside hleaf (not_not_intro hscene) p.scenes
  · rw [← h.drawn, Portfolio.draw, List.filter_append]
    simp [hnumber]

end Matches

/-! ### What the old batches do -/

/-- Two portfolios between which old batches make no difference: all is the same, but for the
figures that existed before and what has been drawn of old batches. -/
structure Twins (former : Scenes) (first : Nat) (p q : Portfolio) : Prop extends p.Akin q where
  opened : p.Matches (fun scene => ¬ former.Has scene) (fun number => first ≤ number) q

/-- Whether a beat applies a batch of a set of batches, all of them among the first ones. -/
def isOld (first : Nat) (old : Nat → Bool) (beat : Beat) : Bool :=
  beat.number?.any fun number => number < first && old number

@[simp] theorem isOld_apply (first : Nat) (old : Nat → Bool) (number place : Nat) (bounds : Rect) :
    isOld first old (.apply number place bounds) = (number < first && old number) := rfl

section Twins

variable {former : Scenes} {first : Nat} {p q : Portfolio}

/-- **A reset makes twins** of portfolios that the author cannot tell apart: the scene that it opens
is empty in both, and no new batch has been handed out. -/
theorem Akin.twins (h : p.Akin q) (hp : p.Housed) (hq : q.Housed) (hreset : p.author.ResetsNext) :
    p.write.Twins p.scenes p.batches.length q.write := by
  have hscenes : p.write.scenes = p.scenes.create.2 := congrArg Prod.fst (hreset.turn_eq p.scenes).2
  have hscenes' : q.write.scenes = q.scenes.create.2 :=
    congrArg Prod.fst ((h.author ▸ hreset).turn_eq q.scenes).2
  -- What has been drawn before the reset is of old batches.
  have hnone : ∀ {r : Portfolio}, r.Housed →
      r.drawn.filter (fun entry => r.batches.length ≤ entry.1) = [] := fun hr =>
    List.filter_eq_nil_iff.mpr fun entry hentry => by simpa using hr.drawn entry hentry
  refine ⟨h.write, fun scene hscene => ?_, ?_⟩
  · have hhas : ¬ q.scenes.Has scene := by
      rw [Scenes.Has, ← h.size]
      exact hscene
    rw [hscenes, hscenes', Scenes.figures_create, Scenes.figures_create,
      Scenes.figures_of_not_has hscene, Scenes.figures_of_not_has hhas]
  · exact (hnone hp).trans (h.batches ▸ (hnone hq).symm)

/-- **The author does not notice what the old batches have done.** It adds figures to scenes opened
since, where both have the same. -/
theorem Twins.write (h : p.Twins former first q) : p.write.Twins former first q.write := by
  refine ⟨h.toAkin.write, fun scene hscene => ?_, h.opened.drawn⟩
  show (p.author.turn p.scenes).2.1.figures scene = (q.author.turn q.scenes).2.1.figures scene
  rw [Author.turn_scenes, Author.turn_scenes, h.author]
  cases q.author.growth? with
  | none => exact h.opened.figures scene hscene
  | some growth => exact Scenes.figures_grow_congr h.size growth (h.opened.figures scene hscene)

/-- Twins are parted alike, since they have the same batches and as many scenes. -/
theorem Twins.parted (h : p.Twins former first q) (hp : p.Parted former first) :
    q.Parted former first := by
  obtain ⟨⟨hauthor, hbatches, hsize, -⟩, -⟩ := h
  obtain ⟨author, scenes, batches, drawn⟩ := p
  obtain ⟨author', scenes', batches', drawn'⟩ := q
  dsimp only at hauthor hbatches hsize
  subst hauthor hbatches
  exact ⟨hsize ▸ hp.size, hp.scene, hp.home, hp.length, hp.old, hp.new⟩

/-- What an old batch does is not noticed. It moves and draws figures that existed before the reset,
and twins need not agree on those. -/
theorem Twins.apply_left (h : p.Twins former first q) (hp : p.Parted former first) {number : Nat}
    (hnumber : number < first) (place : Nat) (bounds : Rect) :
    (p.apply number place bounds).Twins former first q := by
  refine ⟨(p.akin_apply number place bounds).trans h.toAkin, ?_⟩
  obtain ⟨-, heq⟩ | ⟨leaf, -, heq, hold, -⟩ := hp.apply_cases number place bounds
  · rw [heq]
    exact h.opened
  · rw [heq]
    have hstays : leaf.StaysIn fun scene => ¬ ¬ former.Has scene :=
      (hold hnumber).mono fun _ hscene => not_not_intro hscene
    exact h.opened.draw_left hstays (by simpa) bounds

/-- Being twins does not depend on which of the two comes first. -/
theorem Twins.symm (h : p.Twins former first q) : q.Twins former first p :=
  ⟨h.toAkin.symm, h.opened.symm⟩

/-- An operation that is applied to both keeps them alike. An old one is noticed in neither, and a
new one finds the same figures in both. -/
theorem Twins.apply (h : p.Twins former first q) (hp : p.Parted former first) (number place : Nat)
    (bounds : Rect) :
    (p.apply number place bounds).Twins former first (q.apply number place bounds) := by
  have hq := h.parted hp
  rcases Nat.lt_or_ge number first with hlt | hge
  · exact ((h.apply_left hp hlt place bounds).symm.apply_left hq hlt place bounds).symm
  · -- The same batches have been handed out, so the same operation is found in both.
    have hsame : p.operation? number place = q.operation? number place := by
      rw [operation?, operation?, h.batches]
    refine ⟨?_, ?_⟩
    · exact (p.akin_apply number place bounds).trans
        (h.toAkin.trans (q.akin_apply number place bounds).symm)
    · obtain ⟨hnone, heq⟩ | ⟨leaf, hleaf, heq, -, hnew⟩ := hp.apply_cases number place bounds
      · rw [heq, apply_of_none (hsame ▸ hnone)]
        exact h.opened
      · have hstays := hnew hge
        rw [heq, apply_of_staysIn (hsame ▸ hleaf) hstays]
        exact h.opened.draw hstays number bounds

/-- **Old batches may be left out.** The portfolio that they are left out of stays a twin at every
beat. -/
theorem Twins.run (h : p.Twins former first q) (hp : p.Parted former first) (old : Nat → Bool)
    (beats : List Beat) :
    (p.run beats).Twins former first (q.run (beats.filter fun beat => !isOld first old beat)) := by
  -- By induction on the beats. Only the left portfolio carries the invariant; the right one is its
  -- twin and inherits it.
  induction beats generalizing p q with
  | nil => exact h
  | cons beat rest ih =>
    cases beat with
    | author => exact ih h.write hp.write
    | apply number place bounds =>
      have hp' := hp.apply number place bounds
      cases hold : isOld first old (.apply number place bounds) with
      | true =>
        obtain ⟨hlt, -⟩ : number < first ∧ old number = true := by simpa using hold
        rw [List.filter_cons_of_neg (by simp [hold])]
        exact ih (h.apply_left hp hlt place bounds) hp'
      | false =>
        rw [List.filter_cons_of_pos (by simp [hold])]
        exact ih (h.apply hp number place bounds) hp'

end Twins

/-! ### What happens to the old batches -/

/-- Two portfolios with the same first batches, the same figures of old, and the same drawn of the
first batches. The authors may have gone on differently, and one of them may have stopped. -/
structure Remains (former : Scenes) (first : Nat) (p q : Portfolio) : Prop where
  batches : ∀ number < first, p.batches[number]? = q.batches[number]?
  existed : p.Matches former.Has (fun number => number < first) q

section Remains

variable {former : Scenes} {first : Nat} {p q : Portfolio}

/-- **The author touches no figures of old.** Its session is in a scene opened since, and only there
it adds figures. -/
theorem Remains.write_left (h : p.Remains former first q) (hp : p.Parted former first) :
    p.write.Remains former first q := by
  refine ⟨fun number hnumber => ?_, fun scene hscene => ?_, h.existed.drawn⟩
  · rw [← h.batches number hnumber]
    exact List.getElem?_append_left (Nat.lt_of_lt_of_le hnumber hp.length)
  · rw [← h.existed.figures scene hscene]
    have hne : scene ≠ p.author.scene := by
      rintro rfl
      exact hp.scene hscene
    exact Author.figures_turn_of_ne hne p.scenes

/-- A new batch touches no figures of old, and what is drawn of it is not counted here. -/
theorem Remains.apply_left (h : p.Remains former first q) (hp : p.Parted former first)
    {number : Nat} (hnumber : first ≤ number) (place : Nat) (bounds : Rect) :
    (p.apply number place bounds).Remains former first q := by
  obtain ⟨-, heq⟩ | ⟨leaf, -, heq, -, hnew⟩ := hp.apply_cases number place bounds
  · rw [heq]
    exact h
  · rw [heq]
    exact ⟨h.batches, h.existed.draw_left (hnew hnumber) (by simpa) bounds⟩

/-- An old batch does the same to both. It is the same batch, and it finds the same figures. -/
theorem Remains.apply (h : p.Remains former first q) (hp : p.Parted former first) {number : Nat}
    (hnumber : number < first) (place : Nat) (bounds : Rect) :
    (p.apply number place bounds).Remains former first (q.apply number place bounds) := by
  have hsame : p.operation? number place = q.operation? number place := by
    rw [operation?, operation?, h.batches number hnumber]
  obtain ⟨hnone, heq⟩ | ⟨leaf, hleaf, heq, hold, -⟩ := hp.apply_cases number place bounds
  · rw [heq, apply_of_none (hsame ▸ hnone)]
    exact h
  · have hstays := hold hnumber
    rw [heq, apply_of_staysIn (hsame ▸ hleaf) hstays]
    exact ⟨h.batches, h.existed.draw hstays number bounds⟩

/-- **All but the old batches may be left out**, and the turns of the author with them. -/
theorem Remains.run (h : p.Remains former first q) (hp : p.Parted former first)
    (beats : List Beat) :
    (p.run beats).Remains former first (q.run (beats.filter (isOld first fun _ => true))) := by
  -- By induction on the beats. The right portfolio takes no turn and applies no new batch, so only
  -- the left one has to stay parted.
  induction beats generalizing p q with
  | nil => exact h
  | cons beat rest ih =>
    cases beat with
    | author => exact ih (h.write_left hp) hp.write
    | apply number place bounds =>
      have hp' := hp.apply number place bounds
      rcases Nat.lt_or_ge number first with hlt | hge
      · rw [List.filter_cons_of_pos (by simpa using hlt)]
        exact ih (h.apply hp hlt place bounds) hp'
      · rw [List.filter_cons_of_neg (by simpa using hge)]
        exact ih (h.apply_left hp hge place bounds) hp'

end Remains

/-! ### The main result -/

/-- **A reset isolates the batches from before it.** An author has been going on for any time, and
its batches have been applied in any way. Now it carries out a reset, told to by a script or called
to, and goes on, while operations of old and new batches are applied, interleaved with single
commands in any order and as often as one likes.

Leave out what is applied of some old batches, `early` before the reset and `late` after it. The
author, all batches, the figures in the scenes opened since, the scene of its session among them,
and what is drawn of new batches are the same. And the figures that old batches refer to, and what
is drawn of old batches, are as if the author had stopped and no new batch had been applied. -/
theorem reset_isolates {settings : Settings} {calls : List Call} {scenes : Scenes}
    {before : List Beat} (hreset : ((start settings calls scenes).run before).author.ResetsNext)
    (later : List Beat) (early late : Nat → Bool) :
    let earlier := (start settings calls scenes).run before
    let first := earlier.batches.length
    let last := (earlier.next .author).run later
    let spared := (start settings calls scenes).run
      (before.filter fun beat => !isOld first early beat)
    let undisturbed := (spared.next .author).run (later.filter fun beat => !isOld first late beat)
    let alone := (earlier.next .author).run (later.filter (isOld first fun _ => true))
    -- old batches do nothing to the new session,
    (last.author = undisturbed.author ∧ last.batches = undisturbed.batches ∧
      ¬ earlier.scenes.Has last.author.scene ∧
      (∀ scene, ¬ earlier.scenes.Has scene →
        last.scenes.figures scene = undisturbed.scenes.figures scene) ∧
      last.drawn.filter (fun entry => first ≤ entry.1) =
        undisturbed.drawn.filter fun entry => first ≤ entry.1) ∧
    -- and neither the author nor new batches do anything to old ones
    earlier.batches <+: last.batches ∧
      (∀ batch ∈ earlier.batches, ∀ op ∈ batch, op.StaysIn earlier.scenes.Has) ∧
      (∀ scene, earlier.scenes.Has scene →
        last.scenes.figures scene = alone.scenes.figures scene) ∧
      last.drawn.filter (fun entry => entry.1 < first) =
        alone.drawn.filter fun entry => entry.1 < first := by
  intro earlier first last spared undisturbed alone
  have hhoused : earlier.Housed := (housed_start settings calls scenes).run before
  -- What is left out before the reset makes no difference that the author could see.
  have hspared : spared.Housed := (housed_start settings calls scenes).run _
  have hakin : earlier.Akin spared := (Akin.refl (start settings calls scenes)).run rfl before
  -- The reset parts the scenes, whatever has been applied before.
  have hparted : (earlier.next .author).Parted earlier.scenes first := hhoused.parted hreset
  refine ⟨?_, ?_⟩
  · have htwins := (hakin.twins hhoused hspared hreset).run hparted late later
    exact ⟨htwins.author, htwins.batches, (hparted.run later).scene, htwins.opened.figures,
      htwins.opened.drawn⟩
  · -- Nothing has happened yet after the reset, so both sides start from the same portfolio.
    have hself : (earlier.next .author).Remains earlier.scenes first (earlier.next .author) :=
      ⟨fun _ _ => rfl, fun _ _ => rfl, rfl⟩
    have hremains := hself.run hparted later
    exact ⟨earlier.batches_prefix_run (.author :: later), hhoused.batches, hremains.existed.figures,
      hremains.existed.drawn⟩

/-- The author hands out its first batch, whose move is applied, and begins with its second
script. -/
def beforeReset : List Beat :=
  List.replicate 4 .author ++ [.apply 0 1 (.ofSize Loop.defaultSize), .author, .author]

/-- The move of the old batch is applied before, between and after the commands of the script and
the move of the new batch. -/
def acrossReset : List Beat :=
  [.apply 0 1 (.ofSize Loop.defaultSize), .author, .apply 0 1 (.ofSize Loop.defaultSize), .author,
    .author, .author, .apply 1 1 (.ofSize Loop.defaultSize), .apply 0 1 (.ofSize Loop.defaultSize)]

/-- Each move reaches the figures of its own session, although their numbers are the same. The old
figure has been moved four times and the new one once. -/
theorem reset_isolates_figures :
    let earlier := (start .standard [.text "figure 0 0\nmove 1 0",
      .text "figure 0 0\nreset\nfigure 0 0\nmove 0 1\nupdate"] .empty).run beforeReset
    earlier.author.ResetsNext ∧
      ((earlier.next .author).run acrossReset).scenes.figures ⟨1⟩ = #[⟨0, 400, .pureRed⟩] ∧
      (((earlier.next .author).run acrossReset).scenes.figures ⟨0⟩)[0]? =
        some ⟨1600, 0, .pureRed⟩ := by
  intro earlier
  have hreset : earlier.author.ResetsNext := by
    refine Or.inl ?_
    have hhead : (earlier.author.underway.bind List.head?) = some .reset := by decide +kernel
    obtain ⟨commands, hcommands, hfirst⟩ := Option.bind_eq_some_iff.mp hhead
    obtain ⟨rest, rfl⟩ := List.head?_eq_some_iff.mp hfirst
    exact ⟨rest, hcommands⟩
  obtain ⟨⟨-, -, -, hopened, -⟩, -, -, hexisted, -⟩ :=
    reset_isolates hreset acrossReset (fun _ => true) fun _ => true
  refine ⟨hreset, ?_, ?_⟩
  · rw [hopened ⟨1⟩ (by decide +kernel)]
    decide +kernel
  · rw [hexisted ⟨0⟩ (by decide +kernel)]
    decide +kernel

end Portfolio

end Easel
