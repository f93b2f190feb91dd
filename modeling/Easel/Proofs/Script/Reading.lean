import Easel.Script.Session
import Mathlib.Data.List.Basic
import Mathlib.Data.List.DropRight

/-!
# What commands say

A list of commands, read as a whole and without carrying anything out. Only the commands after the
last reset count, `sinceReset`. Of these, the last background and the last overlay win, every figure
is created, and a move reaches the figures created before it.

* `IsShown` — whether a script asks to be shown;
* `lastBackground?`, `lastOverlay?`, `created`, `createdIds` — the parts of a reading;
* `movesAmong` — the moves, each with the figures that it reaches;
* `placed` — where the figures end up if every move is carried out.

Each part comes with its law for one more command at the end, which is how a session hears them.
-/

namespace Easel.Script

namespace Command

/-- The background that a command selects. -/
def background? : Command → Option Background
  | .background shade => some shade
  | .update | .bgrect .. | .figure .. | .move .. | .reset => none

/-- The overlay that a command lays over the background. -/
def overlay? (settings : Settings) : Command → Option Rect
  | .bgrect x1 y1 x2 y2 =>
    some (.ofCorners (settings.scale x1) (settings.scale y1) (settings.scale x2)
      (settings.scale y2))
  | .background _ | .update | .figure .. | .move .. | .reset => none

/-- The figure that a command creates. -/
def figure? (settings : Settings) : Command → Option Figure
  | .figure x y => some ⟨settings.scale x, settings.scale y, settings.figureColor⟩
  | .background _ | .update | .bgrect .. | .move .. | .reset => none

/-- Whether a command creates a figure. -/
def isFigure : Command → Bool
  | .figure .. => true
  | .background _ | .update | .bgrect .. | .move .. | .reset => false

/-- A figure after a command that comes later: a move shifts it, and no other command touches it. -/
def push (settings : Settings) (figure : Figure) : Command → Figure
  | .move dx dy => figure.shift (settings.scale dx) (settings.scale dy)
  | .background _ | .update | .bgrect .. | .figure .. | .reset => figure

/-- No command changes the color of a figure. -/
@[simp] theorem color_push (settings : Settings) (figure : Figure) (command : Command) :
    (command.push settings figure).color = figure.color := by
  cases command <;> rfl

end Command

/-- The commands after the last reset, all of them if there is none. -/
def sinceReset (commands : List Command) : List Command :=
  commands.rtakeWhile fun command => command ≠ .reset

/-- A script that asks to be shown after its last reset. What was asked before the reset is
forgotten with all the rest. -/
def IsShown (commands : List Command) : Prop := .update ∈ sinceReset commands

instance (commands : List Command) : Decidable (IsShown commands) :=
  inferInstanceAs (Decidable (_ ∈ _))

/-- The background last selected, if any. -/
def lastBackground? (commands : List Command) : Option Background :=
  (commands.filterMap Command.background?).getLast?

/-- The overlay last given, if any. -/
def lastOverlay? (settings : Settings) (commands : List Command) : Option Rect :=
  (commands.filterMap (Command.overlay? settings)).getLast?

/-- The figures that commands create, as they are created, in this order. -/
def created (settings : Settings) (commands : List Command) : List Figure :=
  commands.filterMap (Command.figure? settings)

/-- The numbers of the figures that commands create in a scene with `first` figures: the next ones,
one after another. -/
def createdIds (first : Nat) (commands : List Command) : List FigureId :=
  (List.range' first (commands.countP Command.isFigure)).map FigureId.mk

/-- The moves among commands that are heard when there are some figures already. Each reaches these
and the ones created before it. -/
def movesAmong (settings : Settings) (scene : SceneId) (known : List FigureId)
    (commands : List Command) : List Move :=
  commands.zipIdx.filterMap fun
    | (.move dx dy, i) => some ⟨settings.scale dx, settings.scale dy, scene,
        known ++ createdIds known.length (commands.take i)⟩
    | _ => none

/-- Where the figures end up that commands create: each where it is created, and then moved by every
later move, in order. -/
def placed (settings : Settings) : List Command → List Figure
  | [] => []
  | command :: later =>
    ((command.figure? settings).toList.map
      fun figure => later.foldl (Command.push settings) figure) ++
      placed settings later

/-! ### One more command -/

section Concat

variable (settings : Settings) (commands : List Command) (command : Command)

/-- Of no commands none counts. -/
@[simp] theorem sinceReset_nil : sinceReset [] = [] := List.rtakeWhile_nil _

/-- After a reset no command counts. -/
@[simp] theorem sinceReset_concat_reset : sinceReset (commands ++ [.reset]) = [] :=
  List.rtakeWhile_concat_neg _ _ _ (by simp)

/-- Any other command counts, with those before it that do. -/
theorem sinceReset_concat {command : Command} (h : command ≠ .reset) :
    sinceReset (commands ++ [command]) = sinceReset commands ++ [command] :=
  List.rtakeWhile_concat_pos _ _ _ (by simpa using h)

/-- Only the later commands count if there is a reset among them. -/
theorem sinceReset_append (later : List Command) : sinceReset (commands ++ later) =
    if .reset ∈ later then sinceReset later else sinceReset commands ++ later := by
  induction later using List.reverseRecOn with
  | nil => simp
  | append_singleton later command ih =>
    rw [← List.append_assoc]
    by_cases hcommand : command = .reset
    · subst hcommand
      rw [sinceReset_concat_reset, sinceReset_concat_reset,
        if_pos (List.mem_append_right _ List.mem_cons_self)]
    · -- A command that is no reset decides nothing, so the later part is looked at without it.
      have hmem : .reset ∈ later ++ [command] ↔ .reset ∈ later := by
        rw [List.mem_append, List.mem_singleton]
        exact or_iff_left (Ne.symm hcommand)
      rw [sinceReset_concat _ hcommand, sinceReset_concat _ hcommand, ih]
      simp only [hmem]
      split
      · rfl
      · rw [List.append_assoc]

/-- A script in two parts is shown if the second part asks for it, or the first one does and is not
reset. -/
theorem isShown_append (later : List Command) : IsShown (commands ++ later) ↔
    IsShown later ∨ (.reset ∉ later ∧ IsShown commands) := by
  -- Without a reset, all commands count.
  have hall : .reset ∉ later → sinceReset later = later := fun h => by
    have hnone := sinceReset_append [] later
    rwa [if_neg h, sinceReset_nil] at hnone
  rw [IsShown, sinceReset_append]
  by_cases hreset : .reset ∈ later
  · rw [if_pos hreset]
    exact (or_iff_left fun hc => hc.1 hreset).symm
  · rw [if_neg hreset, List.mem_append, or_comm, IsShown, hall hreset]
    exact or_congr_right (and_iff_right hreset).symm

/-- The last command selects the background, or leaves it as it was. -/
theorem lastBackground?_concat : lastBackground? (commands ++ [command]) =
    command.background?.or (lastBackground? commands) := by
  rw [lastBackground?, List.filterMap_append, List.getLast?_append, lastBackground?]
  cases h : command.background? <;> simp [h]

/-- The last command gives the overlay, or leaves it as it was. -/
theorem lastOverlay?_concat : lastOverlay? settings (commands ++ [command]) =
    (command.overlay? settings).or (lastOverlay? settings commands) := by
  rw [lastOverlay?, List.filterMap_append, List.getLast?_append, lastOverlay?]
  cases h : command.overlay? settings <;> simp [h]

/-- The last command adds its figure, if it creates one. -/
theorem created_concat : created settings (commands ++ [command]) =
    created settings commands ++ (command.figure? settings).toList := by
  rw [created, List.filterMap_append, created]
  -- If the command creates no figure, nothing is added.
  cases h : command.figure? settings <;> simp [h]

/-- There are as many figures as commands that create one. -/
theorem length_created : (created settings commands).length = commands.countP Command.isFigure := by
  rw [created, List.length_filterMap_eq_countP]
  refine List.countP_congr fun command _ => ?_
  cases command <;> simp [Command.figure?, Command.isFigure]

/-- The last command adds the next number, if it creates a figure. -/
theorem createdIds_concat (first : Nat) : createdIds first (commands ++ [command]) =
    createdIds first commands ++
      if command.isFigure = true then [⟨first + commands.countP Command.isFigure⟩] else [] := by
  rw [createdIds, List.countP_append, List.countP_singleton, createdIds]
  cases command.isFigure with
  | false => simp
  -- The next number is the number of figures so far.
  | true => rw [if_pos rfl, if_pos rfl, List.range'_1_concat, List.map_append]; rfl

/-- The last command adds its move, which reaches all figures created before it. -/
theorem movesAmong_concat (scene : SceneId) (known : List FigureId) :
    movesAmong settings scene known (commands ++ [command]) =
      movesAmong settings scene known commands ++
        match command with
        | .move dx dy => [⟨settings.scale dx, settings.scale dy, scene,
            known ++ createdIds known.length commands⟩]
        | _ => [] := by
  rw [movesAmong, List.zipIdx_append, List.filterMap_append, movesAmong]
  congr 1
  · -- Within the old commands, what stands before a move is the same as ever.
    refine List.filterMap_congr fun ⟨earlier, i⟩ hentry => ?_
    have hi : i < commands.length := List.snd_lt_of_mem_zipIdx hentry
    have htake : (commands ++ [command]).take i = commands.take i :=
      List.take_append_of_le_length (Nat.le_of_lt hi)
    cases earlier with
    | move dx dy =>
      dsimp only
      rw [htake]
    | _ => rfl
  · -- The new command stands behind all the others.
    cases command <;> simp

/-- There are no moves exactly if no command is one. -/
theorem movesAmong_eq_nil_iff (scene : SceneId) (known : List FigureId) :
    movesAmong settings scene known commands = [] ↔ ∀ dx dy, Command.move dx dy ∉ commands := by
  rw [movesAmong, List.filterMap_eq_nil_iff]
  constructor
  · intro h dx dy hmem
    -- A move among the commands stands somewhere, and would be listed for that place.
    obtain ⟨i, hi⟩ := List.getElem?_of_mem hmem
    have hnone := h (.move dx dy, i) (List.mem_zipIdx_iff_getElem?.mpr hi)
    exact absurd hnone (Option.some_ne_none _)
  · rintro h ⟨command, i⟩ hmem
    cases command with
    | move dx dy => exact absurd (List.fst_mem_of_mem_zipIdx hmem) (h dx dy)
    | _ => rfl

/-- The last command moves the figures before it, or adds its own where it is created. -/
theorem placed_concat : placed settings (commands ++ [command]) =
    (placed settings commands).map (fun figure => command.push settings figure) ++
      (command.figure? settings).toList := by
  induction commands with
  | nil => simp [placed]
  | cons first rest ih => simp [placed, ih]

/-- Every figure that commands create has the color of the settings, wherever it is moved. -/
theorem color_of_mem_placed {figure : Figure} (h : figure ∈ placed settings commands) :
    figure.color = settings.figureColor := by
  induction commands using List.reverseRecOn generalizing figure with
  | nil => exact absurd h List.not_mem_nil
  | append_singleton commands command ih =>
    rw [placed_concat] at h
    rcases List.mem_append.mp h with h | h
    -- An old figure has been pushed once more, which keeps its color.
    · obtain ⟨earlier, hearlier, rfl⟩ := List.mem_map.mp h
      rw [Command.color_push]
      exact ih hearlier
    · cases command with
      | figure x y => rw [List.mem_singleton.mp h]
      | _ => exact absurd h List.not_mem_nil

end Concat

end Easel.Script
