import Easel.CommandLine.Report
import Easel.Proofs.Studio.Exhibits
import Easel.Proofs.Studio.Relay
import Easel.Proofs.Text.Encoding

/-!
# The summary of a run

Scripts are run from the command line, and of each frame there is a line with the counts of the four
colors that scripts can draw with. The frames are the exhibits of the scripts. Frames that are not
shown as soon as they are drawn, but go through a channel to a listener, come to the same lines, if
the channel has room for all of them.

* `loadAll_of_utf8` — scripts that are texts are read;
* `Frame.sum_counts` — a frame has no other colors than the four;
* `Report.plain_eq` — the frames of a run;
* `Report.plain_summarizes` — the lines of a run, with and without a channel.
-/

namespace Easel.CommandLine

open Script (Command Compiler Settings)

/-- Scripts that are texts are read, each as its text. -/
theorem loadAll_of_utf8 {raws : List RawScript} {texts : List String}
    (hread : List.Forall₂ (fun raw text => raw.content = .ok (Text.utf8 text)) raws texts) :
    ∃ loaded, loadAll raws = .ok loaded ∧ loaded.map (·.text) = texts := by
  induction hread with
  | nil => exact ⟨[], rfl, rfl⟩
  | @cons raw text raws texts hraw _ ih =>
    obtain ⟨loaded, hloaded, htexts⟩ := ih
    have hload : raw.load = .ok ⟨raw.origin, text⟩ := by
      rw [RawScript.load, hraw]
      dsimp only
      rw [Text.decode_utf8]
    refine ⟨⟨raw.origin, text⟩ :: loaded, ?_, congrArg (text :: ·) htexts⟩
    rw [loadAll, hload, hloaded]

namespace Frame

/-- The colors that are counted. -/
def palette : Finset Color := {.black, .white, .pureGreen, .pureRed}

/-- Scripts draw with nothing else: backgrounds, overlays and figures of the standard settings have
one of the four colors. -/
theorem suits_palette : Settings.standard.Suits palette where
  background shade := by cases shade <;> decide
  overlay := by decide
  figure := by decide

/-- The four counts add up to the number of pixels, since a frame has no fifth color. -/
theorem sum_counts {p : Pixmap} (h : p.KeepsTo palette) :
    p.count .black + p.count .white + p.count .pureGreen + p.count .pureRed = p.size.area := by
  rw [← h.sum_count, palette, Finset.sum_insert (by decide), Finset.sum_insert (by decide),
    Finset.sum_insert (by decide), Finset.sum_singleton]
  omega

/-- Notes the summary of a frame. -/
def note : List Frame → Pixmap → List Frame := fun frames p => frames ++ [ofPixmap p]

/-- What is noted of several frames are their summaries, in order. -/
theorem foldl_note (frames : List Frame) (shown : List Pixmap) :
    shown.foldl note frames = frames ++ shown.map ofPixmap := by
  rw [List.map_eq_flatMap, List.flatMap_def]
  exact List.foldl_append_eq_append

/-- The line for a frame of the usual size, with the two sides written out. -/
theorem describe_mk (number black white green red : Nat) :
    describe number ⟨Loop.defaultSize, black, white, green, red⟩ =
      s!"frame {number}: 800x800 black={black} white={white} " ++
        s!"green={green} red={red}\n" := by
  have hwidth : toString Loop.defaultSize.width = "800" := by decide +kernel
  have hheight : toString Loop.defaultSize.height = "800" := by decide +kernel
  -- The texts around the sides, in the pieces that the line is joined from.
  have hwords : toString ": 800x800 black=" =
      toString ": " ++ ("800" ++ (toString "x" ++ ("800" ++ toString " black="))) := by
    decide +kernel
  unfold describe
  simp only [hwidth, hheight, hwords, String.append_assoc]

/-- The lines of several frames are those of each, joined, with the numbers going on. -/
theorem describeFrom_map (number : Nat) {shown : List Pixmap}
    (hsize : ∀ p ∈ shown, p.size = Loop.defaultSize) :
    describeFrom number (shown.map ofPixmap) = String.join (shown.mapIdx fun i p =>
      s!"frame {number + i}: 800x800 black={p.count .black} white={p.count .white} " ++
        s!"green={p.count .pureGreen} red={p.count .pureRed}\n") := by
  induction shown generalizing number with
  | nil => rfl
  | cons p rest ih =>
    obtain ⟨hfirst, hrest⟩ := List.forall_mem_cons.mp hsize
    rw [List.map_cons, describeFrom, ih (number + 1) hrest, ofPixmap, hfirst, describe_mk,
      List.mapIdx_cons, String.join_cons]
    simp only [Nat.add_zero, Nat.add_assoc, Nat.add_comm 1]

end Frame

namespace Report

/-- A player who waits for more has nothing to finish: its worker lives and no message waits, so
stopping adds the request to halt and nothing else. -/
theorem finish_of_isReady {ρ : Type} (taken : ρ → Pixmap → ρ) {player : Player ρ}
    (hready : player.IsReady) : (player.finish (.steady taken)).2 = player.loop.receiver := by
  obtain ⟨compiler, scenes, ⟨lifecycle, ⟨items⟩, worker, drawing, standby, receiver, tally⟩⟩ :=
    player
  obtain ⟨rfl : worker = .alive, rfl : items = []⟩ := hready
  rfl

/-- Scripts that are not refused are played one after another. The report is then what the last
player has shown, without a failure. -/
theorem playAll_eq {ρ : Type} {receive : Receiver Pixmap ρ} {player last : Player ρ}
    {loaded : List LoadedScript}
    (hplay : player.playAll receive (loaded.map (·.text)) = .ok last) :
    playAll receive player loaded = ⟨(last.finish receive).2, none⟩ := by
  induction loaded generalizing player with
  | nil =>
    obtain rfl : player = last := Except.ok.inj hplay
    rfl
  | cons script rest ih =>
    rw [List.map_cons, Player.playAll, List.foldlM_cons] at hplay
    rw [playAll]
    cases hnext : player.play receive script.text with
    | error e =>
      rw [hnext] at hplay
      cases hplay
    | ok next =>
      rw [hnext] at hplay
      exact ih hplay

/-- What each script shows: a frame, or nothing if it does not ask to be shown. -/
def exhibits (scripts : List (List Command)) : List (Option Pixmap) :=
  let origin := Compiler.start .standard .empty
  origin.1.exhibit origin.2 canvas canvas scripts

/-- Exhibits have the size of the canvas and no other colors than the four. -/
theorem exhibits_keepTo (scripts : List (List Command)) :
    ∀ frame ∈ (exhibits scripts).reduceOption,
      frame.KeepsTo Frame.palette ∧ frame.size = Loop.defaultSize := by
  have hcanvas : canvas.KeepsTo Frame.palette ∧ canvas.size = Loop.defaultSize :=
    ⟨Pixmap.keepsTo_blank _ (by decide), rfl⟩
  exact (Compiler.Reached.start .empty).sound.exhibit Frame.suits_palette hcanvas hcanvas scripts

/-- A script has an exhibit exactly if it asks to be shown after its last reset. -/
theorem isSome_exhibits (scripts : List (List Command)) :
    (exhibits scripts).map Option.isSome =
      scripts.map fun commands => decide (Script.IsShown commands) :=
  Compiler.isSome_exhibit _ _ _ _ scripts

/-- There are as many frames as scripts that ask to be shown. -/
theorem length_exhibits (scripts : List (List Command)) :
    (exhibits scripts).reduceOption.length =
      scripts.countP fun commands => decide (Script.IsShown commands) := by
  -- Exhibits are there exactly where scripts are shown, so both are counted alike.
  have hcount := congrArg (List.countP id) (isSome_exhibits scripts)
  rw [List.countP_map, List.countP_map] at hcount
  rw [List.reduceOption_length_eq, ← List.countP_eq_length_filter]
  exact hcount

section Plain

variable {raws : List RawScript} {texts : List String} {scripts : List (List Command)}

/-- **The frames of a run** are the exhibits of its scripts. Reading and playing succeed, the player
ends waiting for more, and what its receiver has noted are the summaries. -/
theorem plain_eq
    (hread : List.Forall₂ (fun raw text => raw.content = .ok (Text.utf8 text)) raws texts)
    (hparse : texts.map Command.parseText = scripts.map .ok) :
    plain raws = ⟨(exhibits scripts).reduceOption.map Frame.ofPixmap, none⟩ := by
  obtain ⟨loaded, hloaded, rfl⟩ := loadAll_of_utf8 hread
  have hready : (Player.start .standard canvas ([] : List Frame)).IsReady := ⟨rfl, rfl⟩
  obtain ⟨last, hplay, hlast, hreceiver⟩ := Player.exists_playAll Frame.note hready
    (Compiler.Reached.start .empty).sound hparse
  have hframes : last.loop.receiver = (exhibits scripts).reduceOption.map Frame.ofPixmap :=
    hreceiver.trans (Frame.foldl_note [] _)
  have hrun : plain raws = playAll (.steady Frame.note) (.start .standard canvas []) loaded := by
    rw [plain, ofScripts, hloaded]
    rfl
  rw [hrun, playAll_eq hplay, finish_of_isReady Frame.note hlast, hframes]

/-- How many frames there is room for between a loop and its listener. -/
def roomForFrames : Nat := 8

/-- A loop, an author who posts the batches of scripts, and a listener who notes the frames. The
author compiles while the loop works and the listener hears, so their turns may come in any
order. -/
def relay (texts : List String) : Relay Pixmap (List Frame) :=
  .opening ⟨.standard, texts.map .text⟩ canvas canvas roomForFrames []

/-- **The lines of a run.** Scripts that can be read and are not refused, and that show no more
frames than there is room for, have an exhibit each if they ask to be shown after their last reset.
The run succeeds, and its lines are those of the exhibits. The four colors are all that there is on
a frame.

With a channel between the loop and a listener, every schedule can be brought to an end, and then
the lines are the same. -/
theorem plain_summarizes
    (hread : List.Forall₂ (fun raw text => raw.content = .ok (Text.utf8 text)) raws texts)
    (hparse : texts.map Command.parseText = scripts.map .ok)
    (hfew : (scripts.countP fun commands => decide (Script.IsShown commands)) ≤ roomForFrames) :
    let report := plain raws
    let shown := (exhibits scripts).reduceOption
    report.exitCode = 0 ∧ report.errorOutput = "" ∧
    -- which scripts there is a line for,
    ((exhibits scripts).map Option.isSome =
      scripts.map fun commands => decide (Script.IsShown commands)) ∧
    -- what the lines say,
    report.plainOutput = String.join (shown.mapIdx fun i frame =>
      s!"frame {1 + i}: 800x800 black={frame.count .black} white={frame.count .white} " ++
        s!"green={frame.count .pureGreen} red={frame.count .pureRed}\n") ∧
    (∀ frame ∈ shown, frame.size = Loop.defaultSize ∧
      frame.count .black + frame.count .white + frame.count .pureGreen + frame.count .pureRed =
        640000) ∧
    -- and that the channel makes no difference.
    (∀ schedule, ∃ more, ((relay texts).run Frame.note (schedule ++ more)).IsOver) ∧
    ∀ schedule, ((relay texts).run Frame.note schedule).IsOver →
      Frame.describeFrom 1 ((relay texts).run Frame.note schedule).heard = report.plainOutput := by
  intro report shown
  have hreport : report = ⟨shown.map Frame.ofPixmap, none⟩ := plain_eq hread hparse
  have hkeep := exhibits_keepTo scripts
  have hsize : ∀ frame ∈ shown, frame.size = Loop.defaultSize := fun frame hframe =>
    (hkeep frame hframe).2
  have hroom : shown.length ≤ roomForFrames := (length_exhibits scripts).trans_le hfew
  -- However the turns come, a loop that keeps all of its frames ends with the same ones.
  have hstudio : ∀ turns,
      ((Studio.opening ⟨.standard, texts.map .text⟩ canvas canvas []).runToStop
        (.steady Relay.keep) turns).IsOver →
      ((Studio.opening ⟨.standard, texts.map .text⟩ canvas canvas []).runToStop
        (.steady Relay.keep) turns).loop.receiver = shown := by
    intro turns hover
    rw [Studio.receiver_of_isOver Relay.keep [] .standard hparse canvas hover]
    exact Relay.foldl_keep [] shown
  refine ⟨?_, ?_, isSome_exhibits scripts, ?_, ?_, ?_, ?_⟩
  · rw [hreport]
    rfl
  · rw [hreport]
    rfl
  · rw [hreport]
    exact Frame.describeFrom_map 1 hsize
  · intro frame hframe
    refine ⟨hsize frame hframe, ?_⟩
    rw [Frame.sum_counts (hkeep frame hframe).1, hsize frame hframe]
    rfl
  -- The channel has room for all frames, so nobody is ever kept from going on.
  · exact Relay.exists_isOver hstudio hroom Frame.note []
  · intro schedule hover
    rw [relay, Relay.heard_of_isOver hstudio hroom Frame.note [] hover, Frame.foldl_note, hreport]
    rfl

/-- Three scripts, of which the second one takes back that it has asked to be shown. -/
theorem plain_summarizes_three :
    let texts := ["green\nbgrect 0 0 1 1\nupdate\n", "update\nreset\n", "figure 1 1\r\nupdate"]
    let raws := texts.map fun text => RawScript.mk .standardInput (.ok (Text.utf8 text))
    (plain raws).exitCode = 0 ∧
      ∃ frames : List Pixmap, frames.length = 2 ∧
        (plain raws).plainOutput = String.join (frames.mapIdx fun i frame =>
          s!"frame {1 + i}: 800x800 black={frame.count .black} white={frame.count .white} " ++
            s!"green={frame.count .pureGreen} red={frame.count .pureRed}\n") := by
  intro texts raws
  let zero : Binary64 := .zero false
  let one : Binary64 := .ofBits 0x3FF0000000000000
  let scripts : List (List Command) :=
    [[.background .green, .bgrect zero zero one one, .update], [.update, .reset],
      [.figure one one, .update]]
  have hparse : texts.map Command.parseText = scripts.map .ok := by decide +kernel
  have hread : List.Forall₂ (fun raw text => raw.content = .ok (Text.utf8 text)) raws texts :=
    .cons rfl (.cons rfl (.cons rfl .nil))
  obtain ⟨hcode, -, -, hlines, -⟩ := plain_summarizes hread hparse (by decide)
  exact ⟨hcode, _, (length_exhibits scripts).trans (by decide), hlines⟩

end Plain

end Report

end Easel.CommandLine
