import Easel.CommandLine.Report
import Easel.Proofs.Script.FirstFault

/-!
# What a run fails for

All scripts are read before the first one is compiled. So a run fails for the first script that
cannot be read, whatever stands in the others, and only if all can be read for the first script that
has a bad line. What a script is refused for depends on nothing but the script.

* `RawScript.IsReadable`, `LoadedScript.IsRefusedFor` — the two ways to fail;
* `Report.ofScriptsNoted`, `Report.ofScriptsNoted_fst` — a run that notes which scripts it reads
  and which ones it compiles, and that is the run otherwise;
* `Report.exists_unreadable`, `Report.exists_refused`, `Report.exists_sound` — the three ways in
  which a run can end;
* `Report.plain_fails_for_first` — the code of a run, and what it writes about its failure.
-/

namespace Easel.CommandLine

open Script (ParseError)
open Script.Command (IsFirstFault parseLine)

/-! ### Scripts that fail -/

/-- The script is a text: it could be opened, and its bytes are those of some text. -/
def RawScript.IsReadable (raw : RawScript) : Prop := ∃ text, raw.content = .ok (Text.utf8 text)

/-- Why a script that is no text cannot be read. Bytes that are there all the same are no UTF-8. -/
def readCause : Except FileError (List UInt8) → String
  | .error cause => cause.message
  | .ok _ => Text.ReadError.invalidText.message

/-- The first bad line of a script is bad for this reason. The lines are counted from one. -/
def LoadedScript.IsRefusedFor (script : LoadedScript) (error : ParseError) : Prop :=
  IsFirstFault 1 (Text.lines script.text) error

/-- Some line of the script is no command. The script may have bad lines of other kinds before
it. -/
def RawScript.HasBadLine (raw : RawScript) : Prop :=
  ∃ text k line error,
    raw.content = .ok (Text.utf8 text) ∧ (Text.lines text)[k]? = some line ∧
    parseLine line (k + 1) = .error error

/-- A script as it is found in a file that holds its text. Every script that can be read is of this
kind, so lists of such scripts stand for the readable part of a command line. -/
def LoadedScript.raw (script : LoadedScript) : RawScript :=
  ⟨script.origin, .ok (Text.utf8 script.text)⟩

/-- What is read from such a file is the script. -/
theorem LoadedScript.load_raw (script : LoadedScript) : script.raw.load = .ok script := by
  unfold RawScript.load raw
  dsimp only
  rw [Text.decode_utf8]

/-- Of the bad lines of a script one is the first. So a script with bad lines is refused for exactly
one of them. -/
theorem LoadedScript.hasBadLine_raw_iff (script : LoadedScript) :
    script.raw.HasBadLine ↔ ∃ error, script.IsRefusedFor error := by
  unfold IsRefusedFor
  rw [Script.Command.exists_isFirstFault_iff]
  constructor
  · rintro ⟨text, k, line, error, htext, hline, herror⟩
    -- A text is known from its bytes, so both speak of the same lines.
    have hdecode := congrArg Text.decode (Except.ok.inj htext)
    rw [Text.decode_utf8, Text.decode_utf8] at hdecode
    obtain rfl : script.text = text := Except.ok.inj hdecode
    exact ⟨k, line, error, hline, (Nat.add_comm 1 k).symm ▸ herror⟩
  · rintro ⟨k, line, error, hline, herror⟩
    exact ⟨script.text, k, line, error, rfl, hline, Nat.add_comm 1 k ▸ herror⟩

/-- A script that can be read is the file of a text. -/
theorem RawScript.IsReadable.exists_raw_eq {raw : RawScript} (h : raw.IsReadable) :
    ∃ script : LoadedScript, script.raw = raw := by
  obtain ⟨origin, content⟩ := raw
  obtain ⟨text, rfl⟩ := h
  exact ⟨⟨origin, text⟩, rfl⟩

/-- Scripts that can be read are texts. -/
theorem exists_map_raw_eq {raws : List RawScript} (h : ∀ raw ∈ raws, raw.IsReadable) :
    ∃ scripts : List LoadedScript, scripts.map LoadedScript.raw = raws := by
  induction raws with
  | nil => exact ⟨[], rfl⟩
  | cons raw rest ih =>
    obtain ⟨hfirst, hrest⟩ := List.forall_mem_cons.mp h
    obtain ⟨script, rfl⟩ := hfirst.exists_raw_eq
    obtain ⟨scripts, rfl⟩ := ih hrest
    exact ⟨script :: scripts, rfl⟩

/-- A script that cannot be read fails in one of two ways: it could not be opened, or its bytes are
no text. Context and cause are worded alike for both. -/
theorem RawScript.exists_load_eq_error {raw : RawScript} (h : ¬ raw.IsReadable) :
    ∃ failure, raw.load = .error failure ∧ failure.context = Failure.readContext raw.origin ∧
      failure.cause = readCause raw.content := by
  obtain ⟨origin, content⟩ := raw
  cases content with
  | error cause => exact ⟨.unopened origin cause, rfl, rfl, rfl⟩
  | ok bytes =>
    have hbytes : ¬ Text.IsText bytes := by
      rintro ⟨text, rfl⟩
      exact h ⟨text, rfl⟩
    refine ⟨.undecoded origin .invalidText, ?_, rfl, rfl⟩
    unfold load
    dsimp only
    rw [Text.decode_of_not_isText hbytes]

/-- A script is refused for its first bad line, whatever has been played before: the state of the
player does not occur on the right. -/
theorem play_eq_error_iff {ρ : Type} (receive : Receiver Pixmap ρ) (player : Player ρ)
    (text : String) (error : ParseError) :
    player.play receive text = .error error ↔ IsFirstFault 1 (Text.lines text) error := by
  obtain ⟨compiler, scenes, loop⟩ := player
  -- Only the parsing of a script can fail, so the session and the loop play no part.
  show Except.map _ (compiler.compile scenes text) = _ ↔ _
  rw [Script.Compiler.map_eq_error_iff, compiler.compile_eq_error_iff scenes]

/-- A script without bad lines is played. -/
theorem exists_play_eq_ok {ρ : Type} (receive : Receiver Pixmap ρ) (player : Player ρ)
    {script : LoadedScript} (h : ∀ error, ¬ script.IsRefusedFor error) :
    ∃ next, player.play receive script.text = .ok next := by
  cases hplay : player.play receive script.text with
  | ok next => exact ⟨next, rfl⟩
  | error error =>
    exact absurd ((play_eq_error_iff receive player script.text error).mp hplay) (h error)

/-! ### Runs that note what they do -/

/-- What is done with a script. The program says nothing of it, so it is noted on the side. -/
inductive Act where
  | read (origin : Origin)
  | compile (origin : Origin)
deriving DecidableEq

/-- Reads all scripts, and notes what it does. It is `loadAll` with one more component, noted before
it is known whether the reading succeeds. -/
def loadAllNoted : List RawScript → Except Failure (List LoadedScript) × List Act
  | [] => (.ok [], [])
  | raw :: rest =>
    match raw.load with
    | .error e => (.error e, [.read raw.origin])
    | .ok script =>
      match loadAllNoted rest with
      | (.error e, acts) => (.error e, .read raw.origin :: acts)
      | (.ok scripts, acts) => (.ok (script :: scripts), .read raw.origin :: acts)

/-- The notes change nothing. -/
theorem loadAllNoted_fst (raws : List RawScript) : (loadAllNoted raws).1 = loadAll raws := by
  induction raws with
  | nil => rfl
  | cons raw rest ih =>
    unfold loadAllNoted loadAll
    cases raw.load with
    | error e => rfl
    | ok script =>
      dsimp only
      rw [← ih]
      obtain ⟨loaded, acts⟩ := loadAllNoted rest
      cases loaded <;> rfl

/-- Scripts that can be read are read one after another, up to the first one that cannot. The
induction is on the readable part in front. -/
theorem loadAllNoted_append (scripts : List LoadedScript) (rest : List RawScript) :
    loadAllNoted (scripts.map LoadedScript.raw ++ rest) =
      ((loadAllNoted rest).1.map (scripts ++ ·),
        (scripts.map fun script => .read script.origin) ++ (loadAllNoted rest).2) := by
  induction scripts with
  | nil =>
    rw [List.map_nil, List.nil_append]
    obtain ⟨loaded, acts⟩ := loadAllNoted rest
    cases loaded <;> rfl
  | cons script scripts ih =>
    rw [List.map_cons, List.cons_append, loadAllNoted, script.load_raw, ih]
    dsimp only
    cases (loadAllNoted rest).1 <;> rfl

namespace Report

variable {ρ : Type} (receive : Receiver Pixmap ρ)

/-- Plays scripts in order, and notes what it does. A script that is refused is noted too, since it
is compiled up to its fault. -/
def playAllNoted (player : Player ρ) : List LoadedScript → Report ρ × List Act
  | [] => (⟨(player.finish receive).2, none⟩, [])
  | script :: rest =>
    match player.play receive script.text with
    | .error e =>
      (⟨player.loop.receiver, some (.refused script.origin e)⟩, [.compile script.origin])
    | .ok player =>
      match playAllNoted player rest with
      | (report, acts) => (report, .compile script.origin :: acts)

/-- The notes change nothing. -/
theorem playAllNoted_fst (player : Player ρ) (scripts : List LoadedScript) :
    (playAllNoted receive player scripts).1 = playAll receive player scripts := by
  induction scripts generalizing player with
  | nil => rfl
  | cons script rest ih =>
    unfold playAllNoted playAll
    cases player.play receive script.text with
    | error e => rfl
    | ok player => exact ih player

/-- Scripts without bad lines are played one after another. The player that comes of it depends on
what they show, but nothing will depend on which player that is. -/
theorem exists_playAllNoted_append {before : List LoadedScript}
    (h : ∀ script ∈ before, ∀ error, ¬ script.IsRefusedFor error) (player : Player ρ)
    (rest : List LoadedScript) :
    ∃ next, playAllNoted receive player (before ++ rest) =
      ((playAllNoted receive next rest).1,
        (before.map fun script => .compile script.origin) ++
          (playAllNoted receive next rest).2) := by
  induction before generalizing player with
  | nil => exact ⟨player, rfl⟩
  | cons script before ih =>
    obtain ⟨hfirst, hbefore⟩ := List.forall_mem_cons.mp h
    obtain ⟨next, hnext⟩ := exists_play_eq_ok receive player hfirst
    obtain ⟨last, hlast⟩ := ih hbefore next
    refine ⟨last, ?_⟩
    rw [List.cons_append, playAllNoted, hnext]
    dsimp only
    rw [hlast]
    rfl

/-- How scripts fail does not depend on what has been played before. Two players that play the same
scripts go different ways, but they are refused at the same place. -/
theorem failure?_playAll (player other : Player ρ) (scripts : List LoadedScript) :
    (playAll receive player scripts).failure? = (playAll receive other scripts).failure? := by
  induction scripts generalizing player other with
  | nil => rfl
  | cons script rest ih =>
    unfold playAll
    -- Both players refuse the script, for the same reason, or neither does.
    cases hplay : player.play receive script.text with
    | error error =>
      have hfault := (play_eq_error_iff receive player script.text error).mp hplay
      rw [(play_eq_error_iff receive other script.text error).mpr hfault]
    | ok next =>
      cases hother : other.play receive script.text with
      | error error =>
        have hfault := (play_eq_error_iff receive other script.text error).mp hother
        rw [(play_eq_error_iff receive player script.text error).mpr hfault] at hplay
        exact absurd hplay nofun
      | ok last => exact ih next last

/-- Reads scripts, then plays them with the standard settings, and notes what it does. The notes of
reading come before all notes of compiling. -/
def ofScriptsNoted (receiver : ρ) (raws : List RawScript) : Report ρ × List Act :=
  match loadAllNoted raws with
  | (.error e, acts) => (⟨receiver, some e⟩, acts)
  | (.ok scripts, acts) =>
    match playAllNoted receive (.start .standard canvas receiver) scripts with
    | (report, more) => (report, acts ++ more)

/-- The notes change nothing. -/
theorem ofScriptsNoted_fst (receiver : ρ) (raws : List RawScript) :
    (ofScriptsNoted receive receiver raws).1 = ofScripts receive receiver raws := by
  unfold ofScriptsNoted ofScripts
  rw [← loadAllNoted_fst raws]
  obtain ⟨loaded, acts⟩ := loadAllNoted raws
  cases loaded with
  | error e => rfl
  | ok scripts => exact playAllNoted_fst receive _ scripts

/-! ### The three ways in which a run can end -/

/-- The first script that cannot be read ends it all, before anything is compiled. What comes after
it is not read. -/
theorem ofScriptsNoted_of_unreadable (receiver : ρ) (before : List LoadedScript) {raw : RawScript}
    {failure : Failure} (h : raw.load = .error failure) (after : List RawScript) :
    ofScriptsNoted receive receiver (before.map LoadedScript.raw ++ raw :: after) =
      (⟨receiver, some failure⟩,
        (before.map fun script => .read script.origin) ++ [.read raw.origin]) := by
  have hrest : loadAllNoted (raw :: after) = (.error failure, [.read raw.origin]) := by
    rw [loadAllNoted, h]
  unfold ofScriptsNoted
  rw [loadAllNoted_append, hrest]
  rfl

/-- Scripts that can be read are all read before they are played, so the run is the playing with the
notes of reading in front. -/
theorem ofScriptsNoted_of_readable (receiver : ρ) (scripts : List LoadedScript) :
    ofScriptsNoted receive receiver (scripts.map LoadedScript.raw) =
      ((playAllNoted receive (.start .standard canvas receiver) scripts).1,
        (scripts.map fun script => .read script.origin) ++
          (playAllNoted receive (.start .standard canvas receiver) scripts).2) := by
  have hload : loadAllNoted (scripts.map LoadedScript.raw) =
      (.ok scripts, scripts.map fun script => .read script.origin) := by
    have happend := loadAllNoted_append scripts []
    rw [List.append_nil, loadAllNoted] at happend
    simpa [Except.map] using happend
  unfold ofScriptsNoted
  rw [hload]

/-- Otherwise the first script with a bad line ends it all, after all have been read. -/
theorem exists_ofScriptsNoted_of_refused (receiver : ρ) {before : List LoadedScript}
    (hbefore : ∀ script ∈ before, ∀ error, ¬ script.IsRefusedFor error)
    {script : LoadedScript}
    {error : ParseError} (h : script.IsRefusedFor error) (after : List LoadedScript) :
    ∃ shown, ofScriptsNoted receive receiver
        (before.map LoadedScript.raw ++ script.raw :: after.map LoadedScript.raw) =
      (⟨shown, some (.refused script.origin error)⟩,
        ((before.map LoadedScript.raw ++ script.raw :: after.map LoadedScript.raw).map
          fun raw => .read raw.origin) ++
        ((before.map LoadedScript.raw).map fun raw => .compile raw.origin) ++
          [.compile script.origin]) := by
  obtain ⟨next, hnext⟩ := exists_playAllNoted_append receive hbefore
    (.start .standard canvas receiver) (script :: after)
  have hscript : playAllNoted receive next (script :: after) =
      (⟨next.loop.receiver, some (.refused script.origin error)⟩,
        [.compile script.origin]) := by
    rw [playAllNoted, (play_eq_error_iff receive next script.text error).mpr h]
  have hraws : before.map LoadedScript.raw ++ script.raw :: after.map LoadedScript.raw =
      (before ++ script :: after).map LoadedScript.raw := by
    rw [List.map_append, List.map_cons]
  rw [hscript] at hnext
  rw [hraws, ofScriptsNoted_of_readable, hnext, List.map_map, List.map_map, List.append_assoc]
  exact ⟨_, rfl⟩

/-- Otherwise nothing fails, and every script is read and then compiled. -/
theorem exists_ofScriptsNoted_of_sound (receiver : ρ) {scripts : List LoadedScript}
    (h : ∀ script ∈ scripts, ∀ error, ¬ script.IsRefusedFor error) :
    ∃ shown, ofScriptsNoted receive receiver (scripts.map LoadedScript.raw) =
      (⟨shown, none⟩, (scripts.map fun script => .read script.origin) ++
        scripts.map fun script => .compile script.origin) := by
  obtain ⟨next, hnext⟩ := exists_playAllNoted_append receive h
    (.start .standard canvas receiver) []
  rw [List.append_nil] at hnext
  rw [ofScriptsNoted_of_readable, hnext, playAllNoted, List.append_nil]
  exact ⟨_, rfl⟩

/-- Scripts that do not fail make no difference to how the scripts after them fail. If those after
them cannot be read this is a matter of reading alone, and otherwise the players differ but fail
alike. -/
theorem failure?_ofScripts_append (receiver : ρ) {before : List LoadedScript}
    (h : ∀ script ∈ before, ∀ error, ¬ script.IsRefusedFor error) (raws : List RawScript) :
    (ofScripts receive receiver (before.map LoadedScript.raw ++ raws)).failure? =
      (ofScripts receive receiver raws).failure? := by
  unfold ofScripts
  rw [← loadAllNoted_fst, ← loadAllNoted_fst, loadAllNoted_append]
  cases (loadAllNoted raws).1 with
  | error e => rfl
  | ok scripts =>
    obtain ⟨next, hnext⟩ := exists_playAllNoted_append receive h
      (.start .standard canvas receiver) scripts
    show (playAll receive _ (before ++ scripts)).failure? = (playAll receive _ scripts).failure?
    rw [← playAllNoted_fst, hnext, playAllNoted_fst]
    exact failure?_playAll receive _ _ scripts

end Report

/-! ### What a run writes about its failure -/

/-- The message of a script that could not be read, put together from context and cause. -/
theorem Failure.message_of_read {failure : Failure} {name cause : String}
    (hcontext : failure.context = s!"failed to read {name}") (hcause : failure.cause = cause) :
    failure.message = s!"Error: failed to read {name}\n\nCaused by:\n    {cause}\n" := by
  -- Interpolated texts are joined from their pieces, so the pieces are cut in the same places
  -- first.
  have hwords : toString "Error: failed to read " =
      toString "Error: " ++ toString "failed to read " := by decide +kernel
  have hplain : ∀ text : String, toString text = text := fun _ => rfl
  unfold message
  rw [hcontext, hcause, hwords, hplain (_ ++ _)]
  simp only [String.append_assoc]

/-- The message of a script that was refused. -/
theorem Failure.message_refused (name : String) (error : ParseError) :
    message (.refused (.file name) error) =
      s!"Error: failed to parse {name}\n\nCaused by:\n    {error.message}\n" := by
  have hwords : toString "Error: failed to parse " =
      toString "Error: " ++ toString "failed to parse " := by decide +kernel
  have hplain : ∀ text : String, toString text = text := fun _ => rfl
  unfold message context cause Origin.name
  dsimp only
  rw [hwords, hplain (_ ++ _)]
  simp only [String.append_assoc]

/-- Of the elements that lack a property one is the first: all those before it have the property. -/
theorem exists_first_not {α : Type} {p : α → Prop} {l : List α} (h : ∃ a ∈ l, ¬ p a) :
    ∃ before a after,
      l = before ++ a :: after ∧ (∀ earlier ∈ before, p earlier) ∧ ¬ p a := by
  classical
  obtain ⟨a, ha⟩ : ∃ a, l.find? (fun a => decide (¬ p a)) = some a := by
    rw [← Option.isSome_iff_exists, List.find?_isSome]
    simpa using h
  obtain ⟨hnot, before, after, hsplit, hbefore⟩ := List.find?_eq_some_iff_append.mp ha
  exact ⟨before, a, after, hsplit, by simpa using hbefore, by simpa using hnot⟩

/-- The files that a command line names, each with what is found there. -/
def filesOf (arguments : List (String × Except FileError (List UInt8))) : List RawScript :=
  arguments.map fun argument => ⟨.file argument.1, argument.2⟩

/-- All of these scripts come from files. -/
theorem exists_eq_of_mem_filesOf {arguments : List (String × Except FileError (List UInt8))}
    {raw : RawScript} (h : raw ∈ filesOf arguments) :
    ∃ name content, raw = ⟨.file name, content⟩ := by
  obtain ⟨⟨name, content⟩, -, rfl⟩ := List.mem_map.mp h
  exact ⟨name, content, rfl⟩

/-- Files without bad lines hold scripts that are not refused. -/
theorem not_isRefusedFor_of_not_hasBadLine {scripts : List LoadedScript}
    (h : ∀ raw ∈ scripts.map LoadedScript.raw, ¬ raw.HasBadLine) :
    ∀ script ∈ scripts, ∀ error, ¬ script.IsRefusedFor error := by
  intro script hscript error herror
  have hbad : script.raw.HasBadLine := script.hasBadLine_raw_iff.mpr ⟨error, herror⟩
  exact h script.raw (List.mem_map_of_mem hscript) hbad

namespace Report

variable {ρ : Type} (receive : Receiver Pixmap ρ) (receiver : ρ)
  {arguments : List (String × Except FileError (List UInt8))}

/-- The first file that cannot be read ends a run. The files before it are scripts, since they can
all be read, and so the run is one that was described above. -/
theorem exists_unreadable (h : ∃ raw ∈ filesOf arguments, ¬ raw.IsReadable) :
    ∃ before name content after failure,
      filesOf arguments = before ++ ⟨.file name, content⟩ :: after ∧
      (∀ raw ∈ before, raw.IsReadable) ∧ ¬ RawScript.IsReadable ⟨.file name, content⟩ ∧
      failure.message =
        s!"Error: failed to read {name}\n\nCaused by:\n    {readCause content}\n" ∧
      ofScriptsNoted receive receiver (filesOf arguments) =
        (⟨receiver, some failure⟩,
          (before.map fun raw => .read raw.origin) ++ [.read (.file name)]) := by
  obtain ⟨before, raw, after, hsplit, hbefore, hraw⟩ := exists_first_not h
  have hmem : raw ∈ filesOf arguments := hsplit ▸ List.mem_append_right _ List.mem_cons_self
  obtain ⟨name, content, rfl⟩ := exists_eq_of_mem_filesOf hmem
  obtain ⟨failure, hload, hcontext, hcause⟩ := RawScript.exists_load_eq_error hraw
  refine ⟨before, name, content, after, failure, hsplit, hbefore, hraw,
    Failure.message_of_read hcontext hcause, ?_⟩
  -- The files before it can all be read.
  obtain ⟨scripts, rfl⟩ := exists_map_raw_eq hbefore
  rw [hsplit, ofScriptsNoted_of_unreadable receive receiver scripts hload after, List.map_map]
  rfl

/-- If there is none, the first file with a bad line ends a run, with the error of its first bad
line. All files have been read by then, and those up to it have been compiled. -/
theorem exists_refused (hread : ∀ raw ∈ filesOf arguments, raw.IsReadable)
    (h : ∃ raw ∈ filesOf arguments, raw.HasBadLine) :
    ∃ before name text after error shown,
      filesOf arguments = before ++ ⟨.file name, .ok (Text.utf8 text)⟩ :: after ∧
      (∀ raw ∈ before, ¬ raw.HasBadLine) ∧ IsFirstFault 1 (Text.lines text) error ∧
      ofScriptsNoted receive receiver (filesOf arguments) =
        (⟨shown, some (.refused (.file name) error)⟩,
          ((filesOf arguments).map fun raw => .read raw.origin) ++
            (before.map fun raw => .compile raw.origin) ++ [.compile (.file name)]) := by
  obtain ⟨before, raw, after, hsplit, hbefore, hraw⟩ :=
    exists_first_not (p := fun raw : RawScript => ¬ raw.HasBadLine) (by simpa using h)
  have hmem : raw ∈ filesOf arguments := hsplit ▸ List.mem_append_right _ List.mem_cons_self
  obtain ⟨name, content, hname⟩ := exists_eq_of_mem_filesOf hmem
  -- All files hold scripts.
  obtain ⟨scripts, hscripts⟩ := exists_map_raw_eq hread
  -- The files are cut where the bad one stands, and the scripts that they hold are cut along with
  -- them.
  rw [hsplit] at hscripts
  obtain ⟨front, back, rfl, rfl, hback⟩ := List.map_eq_append_iff.mp hscripts
  obtain ⟨script, rest, rfl, rfl, rfl⟩ := List.map_eq_cons_iff.mp hback
  obtain ⟨error, herror⟩ := script.hasBadLine_raw_iff.mp (not_not.mp hraw)
  obtain ⟨shown, hrun⟩ := exists_ofScriptsNoted_of_refused receive receiver
    (not_isRefusedFor_of_not_hasBadLine hbefore) herror rest
  have horigin : script.origin = .file name := congrArg RawScript.origin hname
  have hscript : script.raw = ⟨.file name, .ok (Text.utf8 script.text)⟩ := by
    rw [← horigin]
    rfl
  -- The run is that of the scripts, and its bad script comes from the file that was found first.
  refine ⟨front.map LoadedScript.raw, name, script.text, rest.map LoadedScript.raw, error, shown,
    hscript ▸ hsplit, hbefore, herror, ?_⟩
  rw [horigin] at hrun
  rw [hsplit]
  exact hrun

/-- If there is none either, nothing fails. -/
theorem exists_sound (h : ∀ raw ∈ filesOf arguments, raw.IsReadable ∧ ¬ raw.HasBadLine) :
    ∃ shown acts,
      ofScriptsNoted receive receiver (filesOf arguments) = (⟨shown, none⟩, acts) := by
  obtain ⟨scripts, hscripts⟩ := exists_map_raw_eq fun raw hraw => (h raw hraw).1
  have hgood : ∀ raw ∈ scripts.map LoadedScript.raw, ¬ raw.HasBadLine := by
    rw [hscripts]
    exact fun raw hraw => (h raw hraw).2
  obtain ⟨shown, hrun⟩ := exists_ofScriptsNoted_of_sound receive receiver
    (not_isRefusedFor_of_not_hasBadLine hgood)
  rw [hscripts] at hrun
  exact ⟨shown, _, hrun⟩

end Report

/-- **What a run fails for.**

If some script cannot be read, the run fails for the first of these, whatever stands in the others.
No script is compiled then, and nothing is shown. If all can be read and some have bad lines, all
are read, and the run fails for the first one of those that have, with the error of its first bad
line. It succeeds if and only if neither is the case.

Scripts that do not fail make no difference to how those after them fail; and a player refuses a
script for its first bad line, whatever it has played before. -/
theorem plain_fails_for_first (arguments : List (String × Except FileError (List UInt8))) :
    let raws := filesOf arguments
    let report := Report.plain raws
    let noted := Report.ofScriptsNoted Frame.collect [] raws
    noted.1 = report ∧
    -- some script cannot be read,
    ((∃ raw ∈ raws, ¬ raw.IsReadable) →
      ∃ before name content after, raws = before ++ ⟨.file name, content⟩ :: after ∧
        (∀ raw ∈ before, raw.IsReadable) ∧
        ¬ RawScript.IsReadable ⟨.file name, content⟩ ∧
        report.exitCode = 1 ∧
        report.errorOutput =
          s!"Error: failed to read {name}\n\nCaused by:\n    {readCause content}\n" ∧
        report.shown = [] ∧
        noted.2 = (before.map fun raw => .read raw.origin) ++ [.read (.file name)]) ∧
    -- all can be read, and some have bad lines,
    ((∀ raw ∈ raws, raw.IsReadable) → (∃ raw ∈ raws, raw.HasBadLine) →
      ∃ before name text after error,
        raws = before ++ ⟨.file name, .ok (Text.utf8 text)⟩ :: after ∧
        (∀ raw ∈ before, ¬ raw.HasBadLine) ∧ IsFirstFault 1 (Text.lines text) error ∧
        report.exitCode = 1 ∧
        report.errorOutput =
          s!"Error: failed to parse {name}\n\nCaused by:\n    {error.message}\n" ∧
        noted.2 = (raws.map fun raw => .read raw.origin) ++
          (before.map fun raw => .compile raw.origin) ++ [.compile (.file name)]) ∧
    -- or nothing is wrong.
    (report.exitCode = 0 ↔ ∀ raw ∈ raws, raw.IsReadable ∧ ¬ raw.HasBadLine) ∧
    (∀ before : List RawScript, (∀ raw ∈ before, raw.IsReadable ∧ ¬ raw.HasBadLine) →
      (Report.plain (before ++ raws)).failure? = report.failure?) ∧
    ∀ (player : Player (List Frame)) text error,
      player.play Frame.collect text = .error error ↔ IsFirstFault 1 (Text.lines text) error := by
  intro raws report noted
  have hnoted : noted.1 = report := Report.ofScriptsNoted_fst Frame.collect [] raws
  refine ⟨hnoted, ?_, ?_, ?_, ?_, play_eq_error_iff Frame.collect⟩
  -- Some file cannot be read.
  · intro h
    obtain ⟨before, name, content, after, failure, hsplit, hbefore, hraw, hmessage, hrun⟩ :=
      Report.exists_unreadable Frame.collect ([] : List Frame) h
    have hreport : report = ⟨[], some failure⟩ := hnoted.symm.trans (congrArg Prod.fst hrun)
    exact ⟨before, name, content, after, hsplit, hbefore, hraw, hreport ▸ rfl,
      hreport ▸ hmessage, hreport ▸ rfl, congrArg Prod.snd hrun⟩
  -- All can be read, and some have bad lines.
  · intro hread h
    obtain ⟨before, name, text, after, error, shown, hsplit, hbefore, herror, hrun⟩ :=
      Report.exists_refused Frame.collect ([] : List Frame) hread h
    have hreport : report = ⟨shown, some (.refused (.file name) error)⟩ :=
      hnoted.symm.trans (congrArg Prod.fst hrun)
    exact ⟨before, name, text, after, error, hsplit, hbefore, herror, hreport ▸ rfl,
      hreport ▸ Failure.message_refused name error, congrArg Prod.snd hrun⟩
  -- A run that succeeds is neither of the two, since both end with another code.
  · constructor
    · intro hzero
      by_cases hread : ∀ raw ∈ raws, raw.IsReadable
      · refine fun raw hraw => ⟨hread raw hraw, fun hbad => ?_⟩
        obtain ⟨_, name, _, _, error, shown, -, -, -, hrun⟩ :=
          Report.exists_refused Frame.collect ([] : List Frame) hread ⟨raw, hraw, hbad⟩
        rw [← hnoted, show noted = _ from hrun] at hzero
        exact absurd hzero Nat.one_ne_zero
      · obtain ⟨_, name, _, _, failure, -, -, -, -, hrun⟩ :=
          Report.exists_unreadable Frame.collect ([] : List Frame) (by simpa using hread)
        rw [← hnoted, show noted = _ from hrun] at hzero
        exact absurd hzero Nat.one_ne_zero
    · intro hall
      obtain ⟨shown, acts, hrun⟩ := Report.exists_sound Frame.collect ([] : List Frame) hall
      rw [← hnoted, show noted = _ from hrun]
      rfl
  -- Files that do not fail, in front of the others.
  · intro before hbefore
    obtain ⟨scripts, rfl⟩ := exists_map_raw_eq fun raw hraw => (hbefore raw hraw).1
    have hgood := not_isRefusedFor_of_not_hasBadLine fun raw hraw => (hbefore raw hraw).2
    exact Report.failure?_ofScripts_append Frame.collect [] hgood raws

/-- The first script has a bad line, but it is the second one that cannot be read. -/
example : (Report.plain (filesOf [("a", .ok (Text.utf8 "paint")), ("b", .ok [0xFF])])).errorOutput =
    "Error: failed to read b\n\nCaused by:\n    stream did not contain valid UTF-8\n" := by
  decide +kernel

end Easel.CommandLine
