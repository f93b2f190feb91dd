import Easel.Proofs.Studio.Gallery

/-!
# What a reset leaves on the surfaces

A reset forgets what a session has heard, and nothing else: a script that after its last reset asks
to be shown, and does nothing more, compiles to a batch that does nothing but present. What it shows
is what is on the surface, and that is not black in general.

* `Session.assemble_of_isShownCleared` — the batch of such a script;
* `Posting.map_presents` — the batches that present are those of the scripts that ask to be shown;
* `Gallery.frame_of_isShownCleared` — the frame of such a script;
* `Studio.frame_after_reset` — the frame of such a script, on every schedule;
* `Studio.frame_after_reset_not_black` — a frame that is white.
-/

namespace Easel

open Operation
open Script (Command Compiler Settings Session)

namespace Script

/-- A script whose last reset is followed by a request to be shown, perhaps by several, and by no
other command. What it does before its last reset does not matter. -/
def IsShownCleared (commands : List Command) : Prop :=
  .reset ∈ commands ∧ sinceReset commands ≠ [] ∧ ∀ command ∈ sinceReset commands, command = .update

instance (commands : List Command) : Decidable (IsShownCleared commands) :=
  inferInstanceAs (Decidable (_ ∧ _ ∧ _))

/-- The commands after the last reset are those after some reset, so that a script can be split
where the session forgets. -/
theorem exists_eq_append_sinceReset {commands : List Command} (h : .reset ∈ commands) :
    ∃ before, commands = before ++ .reset :: sinceReset commands := by
  induction commands using List.reverseRecOn with
  | nil => exact absurd h List.not_mem_nil
  | append_singleton commands command ih =>
    -- A reset at the end is the last one; otherwise the last one is where it was without this
    -- command.
    by_cases hcommand : command = .reset
    · subst hcommand
      refine ⟨commands, ?_⟩
      rw [sinceReset_concat_reset]
    · have hmem : .reset ∈ commands :=
        (List.mem_append.mp h).resolve_right fun hc => hcommand (List.mem_singleton.mp hc).symm
      obtain ⟨before, hbefore⟩ := ih hmem
      refine ⟨before, ?_⟩
      rw [sinceReset_concat commands hcommand, ← List.cons_append, ← List.append_assoc, ← hbefore]

namespace Session

variable {settings : Settings}

/-- Requests to be shown change nothing else. One of them has the effect of any number. -/
theorem executeAll_updates (s : Session) (scenes : Scenes) {commands : List Command}
    (h : ∀ command ∈ commands, command = .update) (hne : commands ≠ []) :
    s.executeAll settings scenes commands = ({ s with presentRequested := true }, scenes) := by
  induction commands generalizing s with
  | nil => exact absurd rfl hne
  | cons command rest ih =>
    obtain rfl := h command List.mem_cons_self
    -- The first request sets the flag, and those after it set it again.
    cases rest with
    | nil => rfl
    | cons next rest =>
      have hrest : ∀ later ∈ next :: rest, later = .update :=
        fun later hlater => h later (List.mem_cons_of_mem _ hlater)
      exact ih { s with presentRequested := true } hrest (List.cons_ne_nil _ _)

/-- **A script that is shown cleared does nothing but present.** The session has heard nothing since
the reset, so there is nothing to fill or to draw. -/
theorem assemble_of_isShownCleared (s : Session) (scenes : Scenes) {commands : List Command}
    (h : IsShownCleared commands) :
    (s.executeAll settings scenes commands).1.assemble.1 = [.present] := by
  obtain ⟨hreset, hne, hupdates⟩ := h
  obtain ⟨before, hbefore⟩ := exists_eq_append_sinceReset hreset
  rw [hbefore, executeAll_append]
  change ((Session.reset _).1.executeAll settings (Session.reset _).2 _).1.assemble.1 = _
  rw [executeAll_updates _ _ hupdates hne]
  rfl

end Session

end Script

namespace Program

variable {program : Program} {owned : List SceneId} {call : Nat} {batch : Batch}

/-- What the batch of a script tells about the script: whether it asks to be shown, and that it does
nothing else if it is shown cleared. -/
theorem Answers.shows (h : program.Answers owned call batch) {commands : List Command}
    (hcommands : (program.calls[call]?).bind Call.commands? = some commands) :
    presentsAny batch = decide (Script.IsShown commands) ∧
      (Script.IsShownCleared commands → batch = [.present]) := by
  obtain ⟨desk, scene, hanswer, -, rfl⟩ := h
  rw [answer?, hcommands] at hanswer
  obtain rfl := Option.some.inj hanswer
  refine ⟨?_, fun hcleared => ?_⟩
  · rw [presentsAny_map_into, Session.presentsAny_assemble]
    exact Bool.eq_iff_iff.mpr
      ((Session.presentRequested_executeAll rfl _ commands).trans decide_eq_true_iff.symm)
  · rw [map_into_eq_present_iff]
    exact Session.assemble_of_isShownCleared _ _ hcleared

end Program

/-! ### Batches and scripts -/

section Scripts

variable {program : Program} {scripts : List (List Command)}
  (hscripts : program.calls.map Call.commands? = scripts.map some)

include hscripts in
/-- A script of the list is what its call asks for. -/
theorem Program.commands_of_getElem? {k : Nat} {commands : List Command}
    (hget : scripts[k]? = some commands) :
    (program.calls[k]?).bind Call.commands? = some commands := by
  have hcall : (program.calls[k]?).map Call.commands? = some (some commands) := by
    rw [← List.getElem?_map, hscripts, List.getElem?_map, hget]
    rfl
  obtain ⟨call, hfound, hcommands⟩ := Option.map_eq_some_iff.mp hcall
  rw [hfound]
  exact hcommands

variable {postings : List (Posting Unit)} {owned : List SceneId}
  (hcalls : postings.map (·.call) = List.range scripts.length)
  (hanswers : ∀ posting ∈ postings, program.Answers owned posting.call posting.batch)

include hcalls in
/-- There is a batch for each script, at the same place, since all scripts can be read. -/
theorem Posting.exists_of_script {k : Nat} {commands : List Command}
    (hget : scripts[k]? = some commands) :
    ∃ posting, postings[k]? = some posting ∧ posting.call = k := by
  have hcall : (postings[k]?).map (·.call) = some k := by
    rw [← List.getElem?_map, hcalls, List.getElem?_range (List.getElem?_eq_some_iff.mp hget).1]
  exact Option.map_eq_some_iff.mp hcall

include hscripts hcalls hanswers

/-- The batches that present are those of the scripts that ask to be shown. Whether a batch presents
can be read from its script, without the sessions and the scenes. -/
theorem Posting.map_presents :
    postings.map (·.presents) = scripts.map fun commands => decide (Script.IsShown commands) := by
  have hlength : postings.length = scripts.length := by
    rw [← List.length_map, hcalls, List.length_range]
  -- Place by place: there is a batch exactly where there is a script, and the two agree there.
  refine List.ext_getElem? fun k => ?_
  rw [List.getElem?_map, List.getElem?_map]
  cases hget : scripts[k]? with
  | none =>
    rw [List.getElem?_eq_none_iff, ← hlength, ← List.getElem?_eq_none_iff] at hget
    rw [hget]
    rfl
  | some commands =>
    obtain ⟨posting, hposting, rfl⟩ := exists_of_script hcalls hget
    have hshows := (hanswers posting (List.mem_of_getElem? hposting)).shows
      (program.commands_of_getElem? hscripts hget)
    rw [hposting]
    exact congrArg some hshows.1

/-- Before each script, as many batches have presented as scripts have asked to be shown. -/
theorem Posting.count_presents (k : Nat) : ((postings.take k).filter (·.presents)).length =
    (scripts.take k).countP (Script.IsShown ·) := by
  have hcount := congrArg (fun shown => (shown.take k).countP id)
    (map_presents hscripts hcalls hanswers)
  rw [← List.map_take, ← List.map_take, List.countP_map, List.countP_map] at hcount
  rw [← List.countP_eq_length_filter]
  exact hcount

/-- The last batch before a script presents if the last script before it asks to be shown. -/
theorem Posting.last_presents (k : Nat) : (postings.take k).getLast?.map (·.presents) =
    (scripts.take k).getLast?.map fun commands => decide (Script.IsShown commands) := by
  rw [← List.getLast?_map, ← List.getLast?_map, List.map_take, List.map_take,
    map_presents hscripts hcalls hanswers]

namespace Gallery

variable {size : Size} {first second : Pixmap} (hfirst : first.size = size)
  (hsecond : second.size = size)

include hfirst hsecond

/-- The frame of a script that is shown cleared is what is on the surface. Its batch owes no fills,
so painting it leaves the surface as it is. -/
theorem frame_of_isShownCleared {k : Nat} {commands : List Command}
    (hget : scripts[k]? = some commands) (hcleared : Script.IsShownCleared commands) :
    postings[k]? = some ⟨(), k, [.present]⟩ ∧
    (after (fun _ => program) size postings ⟨first, second, []⟩).frames[
        (scripts.take k).countP (Script.IsShown ·)]? =
      some (after (fun _ => program) size (postings.take k) ⟨first, second, []⟩).drawing := by
  obtain ⟨⟨⟨⟩, call, batch⟩, hposting, rfl : call = k⟩ := Posting.exists_of_script hcalls hget
  obtain ⟨-, hbatch⟩ := (hanswers _ (List.mem_of_getElem? hposting)).shows
    (program.commands_of_getElem? hscripts hget)
  obtain rfl : batch = [.present] := hbatch hcleared
  refine ⟨hposting, ?_⟩
  rw [← Posting.count_presents hscripts hcalls hanswers]
  exact frame_of_presents hfirst hsecond hposting rfl

/-- After a script that has not been shown, the picture of all commands is on the surface. The batch
of that script has painted it, and no batch has painted since. -/
theorem depicts_of_not_isShown (hwidth : size.width ≤ 2147483647)
    (hheight : size.height ≤ 2147483647) {k : Nat} (hk : k ≤ scripts.length)
    {before : List Command} (hbefore : before ∈ (scripts.take k).getLast?)
    (hhidden : ¬ Script.IsShown before) :
    (after (fun _ => program) size (postings.take k) ⟨first, second, []⟩).drawing.Depicts
      program.settings (scripts.take k).flatten := by
  have hlast := Posting.last_presents hscripts hcalls hanswers k
  rw [hbefore] at hlast
  obtain ⟨posting, hmem, hsame⟩ := Option.map_eq_some_iff.mp hlast
  have hpresents : posting.presents = false := hsame.trans (decide_eq_false hhidden)
  -- The last of the first batches is the one before this script.
  have hcall : posting.call + 1 = k := by
    have hcall := congrArg (fun calls => (calls.take k).getLast?) hcalls
    rw [← List.map_take, List.getLast?_map, hmem, List.take_range, List.getLast?_range,
      Nat.min_eq_left hk] at hcall
    split at hcall
    · exact absurd hcall (Option.some_ne_none _)
    · next hne =>
      rw [show posting.call = k - 1 from Option.some.inj hcall]
      omega
  -- A batch that does nothing but present does present.
  have hbare : posting.batch ≠ [.present] := by
    intro hc
    rw [Posting.presents, hc] at hpresents
    exact Bool.false_ne_true hpresents.symm
  have htells : Tells (fun _ => program) size first second (postings.take k) _ :=
    tells_after hfirst hsecond (postings.take k)
  have hdepicts := (htells.painted posting hmem hpresents).depicts hwidth hheight hbare
  rw [hcall, Program.heard_eq hscripts] at hdepicts
  exact hdepicts

/-- After a script that has been shown, the frame before the last one is on the surface, or one of
the two first surfaces if there is none. The surfaces have changed places since. -/
theorem frame_of_isShown {k : Nat}
    (hshown : ∀ before ∈ (scripts.take k).getLast?, Script.IsShown before) :
    (first :: second :: (after (fun _ => program) size postings ⟨first, second, []⟩).frames)[
        (scripts.take k).countP (Script.IsShown ·)]? =
      some (after (fun _ => program) size (postings.take k) ⟨first, second, []⟩).drawing := by
  have htells : Tells (fun _ => program) size first second (postings.take k) _ :=
    tells_after hfirst hsecond (postings.take k)
  have hlast := Posting.last_presents hscripts hcalls hanswers k
  have hleft := htells.left fun posting hmem => by
    rw [hmem] at hlast
    obtain ⟨before, hbefore, hsame⟩ := Option.map_eq_some_iff.mp hlast.symm
    exact hsame.symm.trans (decide_eq_true (hshown before hbefore))
  rw [htells.count, Posting.count_presents hscripts hcalls hanswers] at hleft
  -- Later frames stand behind the ones that there are.
  have hprefix := frames_prefix (fun _ : Unit => program) size (postings.drop k)
    (after (fun _ => program) size (postings.take k) ⟨first, second, []⟩)
  rw [← after_append, List.take_append_drop] at hprefix
  obtain ⟨later, hlater⟩ := hprefix
  rw [← hlater, ← List.cons_append, ← List.cons_append]
  exact (List.getElem?_append_left (List.getElem?_eq_some_iff.mp hleft).1).trans hleft

end Gallery

end Scripts

namespace Studio

/-- **The frame of a script that is shown cleared**, on every schedule. One author feeds scripts to
a compiler, posts the batches and finally stops the loop. In the end there is one frame for each
script that asks to be shown. The batch of a script whose last reset is followed by nothing but
requests to be shown does nothing but present, so its frame is what is on the surface under way: the
picture of all commands before it, if the script before it has not been shown, and else the frame
before the last one. It is black only if that is. -/
theorem frame_after_reset {ρ : Type} (taken : ρ → Pixmap → ρ) (receiver : ρ) (settings : Settings)
    {calls : List Call} {scripts : List (List Command)}
    (hscripts : calls.map Call.commands? = scripts.map some) {first second : Pixmap} {size : Size}
    (hfirst : first.size = size) (hsecond : second.size = size)
    (hwidth : size.width ≤ 2147483647) (hheight : size.height ≤ 2147483647)
    {schedule : List (Turn Unit)}
    (hover : ((opening ⟨settings, calls⟩ first second receiver).runToStop (.steady taken)
      schedule).IsOver) :
    let last := (opening ⟨settings, calls⟩ first second receiver).runToStop (.steady taken) schedule
    last.posted.map (·.call) = List.range scripts.length ∧
    ∃ frames : List Pixmap, last.loop.receiver = frames.foldl taken receiver ∧
      frames.length = scripts.countP (Script.IsShown ·) ∧
      ∀ k commands, scripts[k]? = some commands → Script.IsShownCleared commands →
        last.posted[k]? = some ⟨(), k, [.present]⟩ ∧
        ∃ frame, frames[(scripts.take k).countP (Script.IsShown ·)]? = some frame ∧
          (∀ before ∈ (scripts.take k).getLast?, ¬ Script.IsShown before →
            frame.Depicts settings (scripts.take k).flatten) ∧
          ((∀ before ∈ (scripts.take k).getLast?, Script.IsShown before) →
            (first :: second :: frames)[(scripts.take k).countP (Script.IsShown ·)]? =
              some frame) := by
  obtain ⟨other, hend, hreceiver, hcalls, owned, hanswers⟩ :=
    exists_ending taken receiver ⟨settings, calls⟩ hfirst hsecond
  -- Every schedule that comes to an end leads to what this one leads to.
  rw [← (orderly_opening _ first second receiver).runToStop_eq (.steady taken) hover hend]
    at hreceiver hcalls hanswers
  intro last
  rw [Program.answered_eq hscripts, Nat.min_self, ← List.length_map, hscripts, List.length_map]
    at hcalls
  refine ⟨hcalls, _, hreceiver, ?_, fun k commands hget hcleared => ?_⟩
  · -- One batch for each script, so the gallery counts the scripts that ask to be shown.
    have hlength : last.posted.length = scripts.length := by
      rw [← List.length_map, hcalls, List.length_range]
    have hcount := Posting.count_presents hscripts hcalls hanswers scripts.length
    rw [List.take_length, ← hlength, List.take_length] at hcount
    rw [← hcount]
    exact (Gallery.tells_after hfirst hsecond last.posted).count
  · obtain ⟨hposting, hframe⟩ := Gallery.frame_of_isShownCleared hscripts hcalls hanswers hfirst
      hsecond hget hcleared
    have hk : k ≤ scripts.length := Nat.le_of_lt (List.getElem?_eq_some_iff.mp hget).1
    refine ⟨hposting, _, hframe, fun before hbefore hhidden => ?_, fun hshown => ?_⟩
    · exact Gallery.depicts_of_not_isShown hscripts hcalls hanswers hfirst hsecond hwidth hheight hk
        hbefore hhidden
    · exact Gallery.frame_of_isShown hscripts hcalls hanswers hfirst hsecond hshown

/-- Two scripts that fill the surfaces, and one that is shown cleared. -/
def whiteThenCleared : Program :=
  ⟨.standard, [.text "white\nupdate", .text "white\nupdate", .text "reset\nupdate"]⟩

/-- A studio with these scripts on two pixels, whose receiver keeps the frames. -/
def clearing : Studio Unit Pixmap (List Pixmap) :=
  (opening whiteThenCleared twoPixels twoPixels []).runToStop
    (.steady fun frames frame => frames ++ [frame])
    (List.replicate 13 (.author ()) ++ List.replicate 12 .worker)

/-- The frame of the third script is the one of the first. Both have been drawn on the same surface,
and the third script has painted nothing over it. -/
theorem frame_after_reset_again : clearing.IsOver ∧ clearing.loop.receiver.length = 3 ∧
    clearing.loop.receiver[2]? = clearing.loop.receiver[0]? := by
  have hscripts : whiteThenCleared.calls.map Call.commands? = [[Command.background .white, .update],
      [.background .white, .update], [.reset, .update]].map some := by
    decide +kernel
  have hcanvas : twoPixels.size = ⟨2, 1, by decide, by decide⟩ := rfl
  have hover : clearing.IsOver := by decide +kernel
  unfold clearing at hover ⊢
  obtain ⟨-, frames, hreceiver, hlength, hframes⟩ :=
    frame_after_reset (fun frames frame => frames ++ [frame]) [] .standard hscripts hcanvas hcanvas
      (by decide) (by decide) hover
  obtain ⟨-, frame, hframe, -, hleft⟩ := hframes 2 _ rfl (by decide)
  have hagain := hleft (by decide)
  rw [List.foldl_append_eq_append, List.nil_append, ← List.flatMap_def, List.flatMap_singleton']
    at hreceiver
  refine ⟨hover, ?_, ?_⟩
  · exact (congrArg List.length hreceiver).trans hlength
  · calc
      _ = frames[2]? := congrArg (·[2]?) hreceiver
      _ = some frame := hframe
      _ = frames[0]? := hagain.symm
      _ = _ := congrArg (·[0]?) hreceiver.symm

/-- The third frame is white, although its session has been cleared before. -/
theorem frame_after_reset_not_black : Script.IsShownCleared [.reset, .update] ∧
    clearing.IsOver ∧ (clearing.loop.receiver[2]?).bind (·.pixel? 0 0) = some .white := by
  decide +kernel

end Studio

end Easel
