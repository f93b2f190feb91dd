import Easel.Proofs.Script.Showing

/-!
# Sessions in other scenes

The scene of a session is a name, and what a session does not depend on it: a session that works
among others does what it would do at a desk of its own, where there are no other scenes than those
it has opened itself and where every batch is applied at once.

* `Session.into`, `Operation.into` — the same session and the same leaf in another scene;
* `Session.assemble_into` — the batch of the one is the batch of the other;
* `Desk` — a session and the scenes that it has opened;
* `Desk.Copy` — a session among others and what it would be at a desk, with the scenes that it owns;
* `Desk.Copy.execute`, `Desk.Copy.begin`, `Desk.Copy.handOver`, `Desk.Copy.elsewhere` — commands,
  batches and the doings of others keep the two alike.
-/

namespace Easel

open Script (Background Command Settings Session)

/-- The same move in another scene. It lists the same numbers, which are other figures there. -/
def Move.into (scene : SceneId) (m : Move) : Move := { m with scene }

/-- What moves do to a row does not depend on the scene that they name. -/
@[simp] theorem Move.pushAll_map_into (scene : SceneId) (moves : List Move) (row : Array Figure) :
    pushAll (moves.map (into scene)) row = pushAll moves row := by
  induction moves generalizing row with
  | nil => rfl
  | cons m rest ih => exact ih _

namespace Operation

/-- The same leaf in another scene. -/
def into (scene : SceneId) : Operation → Operation
  | .figure ref => .figure ⟨scene, ref.id⟩
  | .move m => .move (m.into scene)
  | .fill color => .fill color
  | .overlay rect => .overlay rect
  | .present => .present
  | .batch members => .batch members

/-- The figure that a leaf draws, if it draws one. -/
def drawn? : Operation → Option FigureRef
  | .figure ref => some ref
  | .fill _ | .overlay _ | .move _ | .present | .batch _ => none

/-- Whether an operation presents does not depend on its scene. -/
@[simp] theorem presents_into (scene : SceneId) (op : Operation) :
    (op.into scene).presents = op.presents := by
  cases op <;> rfl

/-- Whether operations present does not depend on their scene. -/
@[simp] theorem presentsAny_map_into (scene : SceneId) (ops : List Operation) :
    presentsAny (ops.map (into scene)) = presentsAny ops := by
  rw [presentsAny_eq_any, presentsAny_eq_any, List.any_map]
  exact congrArg (ops.any ·) (funext (presents_into scene))

/-- Only presenting is presenting, in every scene. -/
theorem into_eq_present_iff (scene : SceneId) (op : Operation) :
    op.into scene = .present ↔ op = .present := by
  cases op <;> simp [into]

/-- What does nothing but present does so in every scene, so a bare present stays bare. -/
theorem map_into_eq_present_iff (scene : SceneId) (ops : List Operation) :
    ops.map (into scene) = [.present] ↔ ops = [.present] := by
  cases ops with
  | nil => simp
  | cons op rest => simp [into_eq_present_iff]

/-- The figures that leaves draw are the same in scenes with the same figures, even where the
numbers are looked up under different names. -/
theorem figures_map_into {scenes others : Scenes} {scene other : SceneId}
    (h : scenes.figures scene = others.figures other) (ops : List Operation) :
    ((ops.map (into scene)).filterMap drawn?).map (·.get? scenes) =
      ((ops.map (into other)).filterMap drawn?).map (·.get? others) := by
  induction ops with
  | nil => rfl
  | cons op rest ih =>
    cases op with
    | figure ref =>
      have hget : (FigureRef.mk scene ref.id).get? scenes =
          (FigureRef.mk other ref.id).get? others := by
        rw [FigureRef.get?, FigureRef.get?, Scenes.get?, Scenes.get?]
        dsimp only
        rw [h]
      exact List.cons_eq_cons.mpr ⟨hget, ih⟩
    | _ => exact ih

end Operation

namespace Script.Session

/-- The same session in another scene, which its pending moves name too. -/
def into (scene : SceneId) (s : Session) : Session :=
  { s with scene, moves := s.moves.map (.into scene) }

/-- A session begins a script in the same way in every scene. -/
theorem begin_into (scene : SceneId) (s : Session) : (s.into scene).begin = s.begin.into scene := by
  have huntouched : (s.into scene).IsUntouched ↔ s.IsUntouched := by
    simp [IsUntouched, into]
  -- Whether a session is untouched does not depend on its scene.
  have hbackground : (if (s.into scene).IsUntouched then some Background.reset else s.background?) =
      if s.IsUntouched then some .reset else s.background? := if_congr huntouched rfl rfl
  exact congrArg (fun background? => { s.into scene with background?, presentRequested := false })
    hbackground

/-- Only a reset makes a session leave its scene. -/
theorem scene_execute {command : Command} (hcommand : command ≠ .reset) (settings : Settings)
    (s : Session) (scenes : Scenes) : (s.execute settings scenes command).1.scene = s.scene := by
  cases command with
  | reset => exact absurd rfl hcommand
  | _ => rfl

/-- A session does with a command the same in every scene with as many figures. The number of
figures counts because it is the number of the next one. -/
theorem execute_into {command : Command} (hcommand : command ≠ .reset) (settings : Settings)
    (s : Session) {scenes others : Scenes} {scene : SceneId}
    (hsize : (scenes.figures scene).size = (others.figures s.scene).size) :
    ((s.into scene).execute settings scenes command).1 =
      (s.execute settings others command).1.into scene := by
  cases command with
  | reset => exact absurd rfl hcommand
  | figure x y => simp only [execute, into, Scenes.insert, hsize]
  | move dx dy => simp only [execute, into, List.map_append, List.map_singleton, Move.into]
  | background _ => rfl
  | bgrect _ _ _ _ => rfl
  | update => rfl

/-- **A session hands over the same batch in every scene**, but for the name of the scene in its
operations. -/
theorem assemble_into (scene : SceneId) (s : Session) :
    (s.into scene).assemble = (s.assemble.1.map (.into scene), s.assemble.2.into scene) := by
  have hbare : (s.into scene).IsBarePresent ↔ s.IsBarePresent := by
    simp [IsBarePresent, into]
  -- Only figures and moves name a scene, and they name the one of the session.
  have hoperations : (s.into scene).operations = s.operations.map (.into scene) := by
    cases hrequested : s.presentRequested <;>
      simp [operations, into, Operation.into, Function.comp_def, hrequested]
  rw [assemble_eq, assemble_eq]
  simp only [hbare, hoperations]
  refine Prod.ext ?_ rfl
  dsimp only
  split <;> rfl

end Script.Session

/-- A session in scenes that nobody else uses. It is what a session would be if its author were
alone. -/
structure Desk where
  session : Session
  scenes : Scenes

namespace Desk

/-- The desk once a session has begun with a script and heard some commands of it. -/
def hear (settings : Settings) (desk : Desk) (commands : List Command) : Desk :=
  match desk.session.begin.executeAll settings desk.scenes commands with
  | (session, scenes) => ⟨session, scenes⟩

/-- The desk after one command. -/
def execute (settings : Settings) (desk : Desk) (command : Command) : Desk :=
  match desk.session.execute settings desk.scenes command with
  | (session, scenes) => ⟨session, scenes⟩

/-- The desk once the session has handed over its batch, and the batch has been applied. -/
def handOver (desk : Desk) : Desk :=
  match desk.session.assemble with
  | (batch, session) => ⟨session, Operation.settle batch desk.scenes⟩

/-- The last command of a script comes after the others. -/
theorem hear_concat (settings : Settings) (desk : Desk) (commands : List Command)
    (command : Command) :
    desk.hear settings (commands ++ [command]) =
      (desk.hear settings commands).execute settings command := by
  rw [hear, Session.executeAll_concat]
  rfl

/-- A session among others does what it would do at a desk of its own. It owns one scene for each
scene of the desk, in the order of opening, and nothing is said of the scenes of others. -/
structure Copy (desk : Desk) (owned : List SceneId) (s : Session) (scenes : Scenes) : Prop where
  session : s = desk.session.into s.scene
  scene : owned[desk.session.scene.index]? = some s.scene
  length : owned.length = desk.scenes.all.size
  /-- The scenes that it owns hold the same figures. -/
  rows : ∀ i scene, owned[i]? = some scene → scenes.figures scene = desk.scenes.figures ⟨i⟩
  has : ∀ scene ∈ owned, scenes.Has scene
  nodup : owned.Nodup

namespace Copy

variable {desk : Desk} {owned : List SceneId} {s : Session} {scenes : Scenes} {settings : Settings}

/-- The scene of a session is among those that it owns. -/
theorem mem (h : desk.Copy owned s scenes) : s.scene ∈ owned := List.mem_of_getElem? h.scene

/-- The scene of the desk exists there. -/
theorem has_desk (h : desk.Copy owned s scenes) : desk.scenes.Has desk.session.scene := by
  rw [Scenes.Has, ← h.length]
  exact (List.getElem?_eq_some_iff.mp h.scene).1

/-- The scene in use holds the same figures here and at the desk. -/
theorem row (h : desk.Copy owned s scenes) :
    scenes.figures s.scene = desk.scenes.figures desk.session.scene := h.rows _ _ h.scene

/-- Each scene is owned in one place, so another place is another scene. -/
theorem ne_scene (h : desk.Copy owned s scenes) {i : Nat} {scene : SceneId}
    (hget : owned[i]? = some scene) (hi : i ≠ desk.session.scene.index) : scene ≠ s.scene := by
  intro hc
  refine hi ?_
  -- If it were the same scene, it would be owned in two places.
  obtain ⟨hlt, -⟩ := List.getElem?_eq_some_iff.mp hget
  exact (List.getElem?_inj hlt h.nodup).mp (by rw [hget, hc, h.scene])

/-- If the two rows in use change in the same way, all rows are still the same. The two hypotheses
on the others say that nothing else has changed on either side. -/
theorem rows_change (h : desk.Copy owned s scenes) {after deskAfter : Scenes}
    (hown : after.figures s.scene = deskAfter.figures desk.session.scene)
    (hothers : ∀ scene, scene ≠ s.scene → after.figures scene = scenes.figures scene)
    (hdesk : ∀ scene, scene ≠ desk.session.scene →
      deskAfter.figures scene = desk.scenes.figures scene)
    (i : Nat) (scene : SceneId) (hget : owned[i]? = some scene) :
    after.figures scene = deskAfter.figures ⟨i⟩ := by
  by_cases hi : i = desk.session.scene.index
  · subst hi
    obtain rfl : scene = s.scene := Option.some.inj (hget.symm.trans h.scene)
    exact hown
  · -- A scene that is not in use is as it was, on both sides.
    rw [hothers scene (h.ne_scene hget hi), hdesk ⟨i⟩ fun hc => hi (congrArg SceneId.index hc)]
    exact h.rows i scene hget

/-- Beginning a script keeps the two alike, as it does not touch the scenes. -/
theorem begin (h : desk.Copy owned s scenes) :
    Copy ⟨desk.session.begin, desk.scenes⟩ owned s.begin scenes := by
  refine ⟨?_, h.scene, h.length, h.rows, h.has, h.nodup⟩
  change s.begin = desk.session.begin.into s.scene
  rw [← Session.begin_into, ← h.session]

/-- A session that starts over starts over at its desk, in a scene that it owns from now on. The old
scenes stay owned, since batches under way may still draw them. -/
theorem reset (h : desk.Copy owned s scenes) :
    Copy ⟨(Session.reset desk.scenes).1, (Session.reset desk.scenes).2⟩
      (owned ++ [⟨scenes.all.size⟩]) (Session.reset scenes).1 (Session.reset scenes).2 := by
  have hfresh : ∀ scene ∈ owned, scene ≠ ⟨scenes.all.size⟩ := by
    rintro scene hscene rfl
    exact Nat.lt_irrefl _ (h.has _ hscene)
  refine ⟨rfl, ?_, ?_, ?_, ?_, ?_⟩
  · change (owned ++ [_])[desk.scenes.all.size]? = _
    rw [← h.length, List.getElem?_concat_length]
    rfl
  · rw [List.length_append, h.length]
    exact (Scenes.size_all_create desk.scenes).symm
  · intro i scene hget
    change scenes.create.2.figures scene = desk.scenes.create.2.figures ⟨i⟩
    rw [Scenes.figures_create, Scenes.figures_create]
    -- An old place holds the old scene; the last place holds the new one.
    rcases Nat.lt_or_ge i owned.length with hi | hi
    · rw [List.getElem?_append_left hi] at hget
      exact h.rows i scene hget
    · -- The new scene is empty on both sides.
      obtain ⟨hlt, hsome⟩ := List.getElem?_eq_some_iff.mp hget
      rw [List.length_append, List.length_singleton] at hlt
      obtain rfl : i = owned.length := Nat.le_antisymm (Nat.le_of_lt_succ hlt) hi
      rw [List.getElem_concat_length rfl] at hsome
      rw [← hsome, h.length, Scenes.figures_fresh, Scenes.figures_fresh]
  · intro scene hscene
    rw [Scenes.Has]
    change scene.index < scenes.create.2.all.size
    rw [Scenes.size_all_create]
    rcases List.mem_append.mp hscene with hold | hnew
    · exact Nat.lt_succ_of_lt (h.has scene hold)
    · rw [List.mem_singleton.mp hnew]
      exact Nat.lt_succ_self _
  · rw [← List.concat_eq_append, List.nodup_concat]
    exact ⟨fun hc => hfresh _ hc rfl, h.nodup⟩

/-- **A session does with a command what it would do at its desk.** It may open a scene, and then
owns one more, which nobody had before. -/
theorem execute (h : desk.Copy owned s scenes) (settings : Settings) (command : Command) :
    ∃ opened : List SceneId, (∀ scene ∈ opened, ¬ scenes.Has scene) ∧
      (desk.execute settings command).Copy (owned ++ opened) (s.execute settings scenes command).1
        (s.execute settings scenes command).2 := by
  by_cases hcommand : command = .reset
  · subst hcommand
    refine ⟨[⟨scenes.all.size⟩], fun scene hscene => ?_, h.reset⟩
    rw [List.mem_singleton.mp hscene]
    exact Nat.lt_irrefl _
  · refine ⟨[], fun _ hc => absurd hc List.not_mem_nil, ?_⟩
    -- The numbers of new figures are the same, since both rows are of the same length.
    have hsame := Session.execute_into hcommand settings desk.session (congrArg Array.size h.row)
    rw [← h.session, ← Session.scene_execute hcommand settings s scenes] at hsame
    have hscene := h.scene
    rw [← Session.scene_execute hcommand settings s scenes,
      ← Session.scene_execute hcommand settings desk.session desk.scenes] at hscene
    rw [List.append_nil]
    -- Of the commands that are left, only a new figure changes the scenes.
    cases command with
    | reset => exact absurd rfl hcommand
    | figure x y =>
      have hhas := h.has _ h.mem
      refine ⟨hsame, hscene, ?_, h.rows_change ?_ ?_ ?_, fun scene hmem => ?_, h.nodup⟩
      · rw [h.length]
        exact (Scenes.size_all_insert _ _ _).symm
      · change (scenes.update s.scene (·.push _)).figures s.scene =
          (desk.scenes.update desk.session.scene (·.push _)).figures desk.session.scene
        rw [Scenes.figures_update_self hhas, Scenes.figures_update_self h.has_desk, h.row]
      · exact fun scene hne => Scenes.figures_update_of_ne hne _
      · exact fun scene hne => Scenes.figures_update_of_ne hne _
      · exact Nat.lt_of_lt_of_eq (h.has scene hmem) (Scenes.size_all_insert _ _ _).symm
    | background _ => exact ⟨hsame, hscene, h.length, h.rows, h.has, h.nodup⟩
    | bgrect _ _ _ _ => exact ⟨hsame, hscene, h.length, h.rows, h.has, h.nodup⟩
    | move _ _ => exact ⟨hsame, hscene, h.length, h.rows, h.has, h.nodup⟩
    | update => exact ⟨hsame, hscene, h.length, h.rows, h.has, h.nodup⟩

/-- The batch of a session moves nothing but the figures of its scene, so others need not ask when
it is applied. -/
theorem figures_settle_of_ne (hsound : s.Sound settings scenes) {scene : SceneId}
    (hscene : scene ≠ s.scene) :
    (Operation.settle s.assemble.1 scenes).figures scene = scenes.figures scene := by
  refine Operation.figures_settle_of_ne scenes fun m hm hc => hscene ?_
  rw [← hc, (hsound.known_assemble hm).2 m rfl]

/-- **A session hands over the batch that it would hand over at its desk**, which does the same to
the figures. At the desk the batch is applied at once, here it may wait. -/
theorem handOver (h : desk.Copy owned s scenes) (hsound : s.Sound settings scenes)
    (hdesk : desk.session.Sound settings desk.scenes) :
    s.assemble.1 = desk.session.assemble.1.map (.into s.scene) ∧
      desk.handOver.Copy owned s.assemble.2 (Operation.settle s.assemble.1 scenes) := by
  -- The session is the one of the desk in another scene, and so is its batch.
  have hassemble : s.assemble = _ := (congrArg Session.assemble h.session).trans
    (Session.assemble_into s.scene desk.session)
  have hscene : s.assemble.2.scene = s.scene := by rw [Session.assemble_eq]
  have hdeskScene : desk.session.assemble.2.scene = desk.session.scene := by
    rw [Session.assemble_eq]
  refine ⟨congrArg Prod.fst hassemble, ?_, ?_, ?_, h.rows_change ?_ ?_ ?_, fun scene hmem => ?_,
    h.nodup⟩
  · rw [hscene]
    exact congrArg Prod.snd hassemble
  · change owned[desk.session.assemble.2.scene.index]? = _
    rw [hdeskScene, hscene]
    exact h.scene
  · rw [h.length]
    exact (Operation.size_all_settle _ _).symm
  · -- The moves push the same row in the same way.
    have hmoves : s.moves = desk.session.moves.map (.into s.scene) :=
      congrArg Session.moves h.session
    change _ = (Operation.settle desk.session.assemble.1 desk.scenes).figures desk.session.scene
    rw [hsound.figures_settle_assemble, hdesk.figures_settle_assemble, hmoves, h.row,
      Move.pushAll_map_into]
  · exact fun scene hne => figures_settle_of_ne hsound hne
  · exact fun scene hne => figures_settle_of_ne hdesk hne
  · rw [Scenes.Has, Operation.size_all_settle]
    exact h.has scene hmem

/-- What others do in scenes of their own does not matter, as long as they leave those that are
owned as they are. -/
theorem elsewhere (h : desk.Copy owned s scenes) {after : Scenes}
    (hsize : scenes.all.size ≤ after.all.size)
    (hfigures : ∀ scene ∈ owned, after.figures scene = scenes.figures scene) :
    desk.Copy owned s after where
  session := h.session
  scene := h.scene
  length := h.length
  rows i scene hget := by
    rw [hfigures scene (List.mem_of_getElem? hget)]
    exact h.rows i scene hget
  has scene hscene := Nat.lt_of_lt_of_le (h.has scene hscene) hsize
  nodup := h.nodup

end Copy

end Desk

end Easel
