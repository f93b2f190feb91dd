import Easel.Proofs.Script.History
import Easel.Proofs.Text.Encoding

/-!
# Scripts that are read from bytes

A script may be given as a text or as a source of bytes. The bytes of a text compile to what the
text compiles to. Other sources are refused: somewhere there is a first line that cannot be read,
because its bytes are no text or because the reader fails in it, and the script is refused for this
line, or for a line before it that is no command.

* `Text.ByteSource.BreaksAfter` — the text of the lines before the first one that cannot be read;
* `Text.ByteSource.exists_breaksAfter` — every source that does not give a text breaks somewhere;
* `Script.Command.IsFirstFault` — what a script is refused for if all its lines can be read;
* `Script.Compiler.compileSource_first_fault` — bytes against text.
-/

namespace Easel

namespace Text

/-! ### The first line that cannot be read -/

/-- The first line that a source yields cannot be read. There are three ways, and the bytes behind
the line do not matter in any of them. -/
inductive Unreadable : ByteSource → ReadError → Prop where
  | garbled {row : List UInt8} (line : 10 ∉ row) (noText : ¬ IsText row) (later : List UInt8)
      (failure? : Option String) : Unreadable ⟨row ++ 10 :: later, failure?⟩ .invalidText
  /-- The line without a line feed at the end of all bytes. -/
  | garbledEnd {row : List UInt8} (line : 10 ∉ row) (noText : ¬ IsText row) :
      Unreadable ⟨row, none⟩ .invalidText
  /-- The reader fails in the line, or right before it. -/
  | failed {row : List UInt8} (line : 10 ∉ row) (message : String) :
      Unreadable ⟨row, some message⟩ (.failed message)

/-- A text of complete lines, each with a line feed at its end. It can be cut off a source without
cutting a line in two. -/
def IsComplete (text : String) : Prop := text = "" ∨ ∃ front, text = front ++ "\n"

/-- The source yields this text of complete lines, and the line after it is the first one that
cannot be read. -/
def ByteSource.BreaksAfter (source : ByteSource) (before : String) (cause : ReadError) : Prop :=
  IsComplete before ∧
    ∃ rest, source.bytes = utf8 before ++ rest ∧ Unreadable ⟨rest, source.failure?⟩ cause

/-- A line put in front of complete lines gives complete lines. -/
theorem IsComplete.append {row text : String} (h : IsComplete text) :
    IsComplete (row ++ "\n" ++ text) := by
  rcases h with rfl | ⟨front, rfl⟩
  · exact .inr ⟨row, String.append_empty⟩
  · exact .inr ⟨row ++ "\n" ++ front, String.append_assoc.symm⟩

/-- A line feed is one byte. -/
theorem utf8_lineFeed : utf8 "\n" = [10] := by decide +kernel

/-- Every source that does not give a text breaks somewhere. The lines are taken off one after
another, as long as they can be read. -/
theorem ByteSource.exists_breaksAfter (source : ByteSource)
    (h : source.failure? ≠ none ∨ ¬ IsText source.bytes) :
    ∃ before cause, source.BreaksAfter before cause := by
  obtain ⟨bytes, failure?⟩ := source
  induction hn : bytes.length using Nat.strongRecOn generalizing bytes with
  | ind n ih =>
    by_cases hfeed : 10 ∈ bytes
    · obtain ⟨row, later, rfl, hrow⟩ := List.eq_append_cons_of_mem hfeed
      by_cases htext : IsText row
      · -- This line can be read, so it is a later one.
        obtain ⟨text, rfl⟩ := htext
        have hline : ∀ rest, utf8 text ++ 10 :: rest = utf8 (text ++ "\n") ++ rest := by
          intro rest
          rw [utf8_append, utf8_lineFeed, List.append_assoc]
          rfl
        have hlater : failure? ≠ none ∨ ¬ IsText later := by
          refine h.imp_right fun hwhole hlater => hwhole ?_
          show IsText (utf8 text ++ 10 :: later)
          rw [hline]
          exact (isText_utf8 _).append hlater
        obtain ⟨before, cause, hcomplete, rest, hrest, hunreadable⟩ :=
          ih later.length (by rw [← hn]; simp; omega) later hlater rfl
        refine ⟨text ++ "\n" ++ before, cause, hcomplete.append, rest, ?_, hunreadable⟩
        obtain rfl : later = utf8 before ++ rest := hrest
        show utf8 text ++ 10 :: (utf8 before ++ rest) = _
        rw [hline, utf8_append (text ++ "\n"), List.append_assoc]
      · exact ⟨"", .invalidText, .inl rfl, _, rfl, .garbled hrow htext later failure?⟩
    -- The rest is one line without an end, which is no text, or in which the reader fails.
    · cases failure? with
      | none =>
        have htext : ¬ IsText bytes := h.resolve_left fun hne => hne rfl
        exact ⟨"", .invalidText, .inl rfl, bytes, rfl, .garbledEnd hfeed htext⟩
      | some message => exact ⟨"", .failed message, .inl rfl, bytes, rfl, .failed hfeed message⟩

/-! ### The lines of a source that breaks -/

/-- A reader that does not fail yields every line. -/
theorem ByteSource.lines_ended (bytes : List UInt8) : lines ⟨bytes, none⟩ =
    (splitLines 10 13 bytes).map fun line => decode line.content := rfl

/-- A reader that fails yields the lines that were complete, and then its failure. -/
theorem ByteSource.lines_failed (bytes : List UInt8) (message : String) :
    lines ⟨bytes, some message⟩ =
      (((splitLines 10 13 bytes).filter Line.terminated).map fun line => decode line.content) ++
        [.error (.failed message)] := rfl

/-- Symbols that a line feed ends are complete lines, down to the last one. -/
theorem terminated_of_mem {α : Type} [DecidableEq α] {lineFeed carriageReturn : α}
    {passed symbols : List α} {line : Line α}
    (h : line ∈ splitLinesFrom lineFeed carriageReturn passed (symbols ++ [lineFeed])) :
    line.terminated = true := by
  -- The last symbol is the line feed, so nothing is left over when the symbols end.
  induction symbols generalizing passed with
  | nil =>
    rw [List.nil_append, splitLinesFrom, if_pos rfl] at h
    rw [List.mem_singleton.mp h]
  | cons first rest ih =>
    rw [List.cons_append, splitLinesFrom] at h
    split at h
    · rcases List.mem_cons.mp h with rfl | hmem
      · rfl
      · exact ih hmem
    · exact ih h

/-- The lines of a text come first if it is made of complete lines, and what follows them is read as
if it stood alone. -/
theorem lines_append {before : String} (h : IsComplete before) (rest : List UInt8)
    (failure? : Option String) : ByteSource.lines ⟨utf8 before ++ rest, failure?⟩ =
      (lines before).map .ok ++ ByteSource.lines ⟨rest, failure?⟩ := by
  rcases h with rfl | ⟨front, rfl⟩
  · rfl
  have hbytes : utf8 (front ++ "\n") = utf8 front ++ [10] := by
    rw [utf8_append, utf8_lineFeed]
  have hcut : splitLines 10 13 (utf8 (front ++ "\n") ++ rest) =
      splitLines 10 13 (utf8 (front ++ "\n")) ++ splitLines 10 13 rest := by
    rw [hbytes, List.append_assoc]
    exact splitLinesFrom_append 10 13 [] (utf8 front) rest
  have hlines := lines_utf8 (front ++ "\n")
  rw [ByteSource.lines_ended] at hlines
  cases failure? with
  | none =>
    rw [ByteSource.lines_ended, ByteSource.lines_ended, hcut, List.map_append, hlines]
  | some message =>
    -- None of the complete lines is dropped when the reader fails later.
    have hterminated : (splitLines 10 13 (utf8 (front ++ "\n"))).filter Line.terminated =
        splitLines 10 13 (utf8 (front ++ "\n")) := by
      rw [hbytes]
      exact List.filter_eq_self.mpr fun line hline => terminated_of_mem hline
    rw [ByteSource.lines_failed, ByteSource.lines_failed, hcut, List.filter_append, hterminated,
      List.map_append, hlines, List.append_assoc]

/-- Without its carriage return a line is not any more of a text: a return is one byte that any text
may end with. -/
theorem not_isText_dropReturn {row : List UInt8} (h : ¬ IsText row) :
    ¬ IsText (dropReturn 13 row.reverse).reverse := by
  intro hdropped
  apply h
  cases hrow : row.reverse with
  | nil =>
    rw [hrow] at hdropped
    rwa [List.reverse_eq_nil_iff.mp hrow]
  | cons last before =>
    have hsplit : row = before.reverse ++ [last] := by
      rw [← List.reverse_reverse row, hrow, List.reverse_cons]
    rw [hrow, dropReturn] at hdropped
    split at hdropped
    · next hlast =>
      rw [hsplit, hlast]
      exact hdropped.append ⟨"\r", by decide +kernel⟩
    · rwa [List.reverse_cons, ← hsplit] at hdropped

/-- What no line feed ends is one line, unless it is nothing, and this line is not complete. -/
theorem splitLines_of_notMem {α : Type} [DecidableEq α] {lineFeed : α} (carriageReturn : α)
    {symbols : List α} (h : lineFeed ∉ symbols) :
    splitLines lineFeed carriageReturn symbols =
      if symbols.isEmpty then [] else [⟨symbols, false⟩] := by
  have hsplit := splitLinesFrom_append_of_notMem carriageReturn h [] []
  rw [List.append_nil, List.append_nil] at hsplit
  rw [splitLines, hsplit, splitLinesFrom, List.isEmpty_reverse, List.reverse_reverse]

/-- A line that cannot be read is an error in its place, the first of all. -/
theorem Unreadable.lines {source : ByteSource} {cause : ReadError} (h : Unreadable source cause) :
    ∃ later, source.lines = .error cause :: later := by
  -- One case for each way to be unreadable: no text before a line feed, no text at the end, or a
  -- failure.
  cases h with
  | @garbled row line noText later failure? =>
    have hcut : splitLines 10 13 (row ++ 10 :: later) =
        ⟨(dropReturn 13 row.reverse).reverse, true⟩ :: splitLines 10 13 later := by
      rw [splitLines, splitLinesFrom_append_of_notMem 13 line, List.append_nil, splitLinesFrom,
        if_pos rfl]
      rfl
    have hdecode := decode_of_not_isText (not_isText_dropReturn noText)
    cases failure? with
    | none =>
      rw [ByteSource.lines_ended, hcut, List.map_cons, hdecode]
      exact ⟨_, rfl⟩
    | some message =>
      rw [ByteSource.lines_failed, hcut, List.filter_cons_of_pos rfl, List.map_cons, hdecode]
      exact ⟨_, rfl⟩
  | @garbledEnd row line noText =>
    -- No bytes are a text.
    have hne : row ≠ [] := by
      rintro rfl
      exact noText (isText_utf8 "")
    have hcut := splitLines_of_notMem 13 line
    rw [List.isEmpty_eq_false_iff.mpr hne] at hcut
    rw [ByteSource.lines_ended, hcut]
    exact ⟨[], congrArg (· :: []) (decode_of_not_isText noText)⟩
  | @failed row line message =>
    have hfilter : (splitLines 10 13 row).filter Line.terminated = [] := by
      rw [splitLines_of_notMem 13 line]
      split <;> rfl
    rw [ByteSource.lines_failed, hfilter]
    exact ⟨[], rfl⟩

/-- A source that breaks yields the lines before the break as they are, and then the cause. -/
theorem ByteSource.BreaksAfter.lines {source : ByteSource} {before : String} {cause : ReadError}
    (h : source.BreaksAfter before cause) :
    ∃ later, source.lines = (Text.lines before).map .ok ++ .error cause :: later := by
  obtain ⟨bytes, failure?⟩ := source
  obtain ⟨hcomplete, rest, rfl, hunreadable⟩ := h
  obtain ⟨later, hlater⟩ := hunreadable.lines
  exact ⟨later, by rw [lines_append hcomplete, hlater]⟩

end Text

namespace Script

namespace Command

/-! ### What a script is refused for -/

/-- The first of these lines that is no command is refused like this. The lines are numbered from
`first` on. -/
def IsFirstFault (first : Nat) (texts : List String) (error : ParseError) : Prop :=
  ∃ k text, texts[k]? = some text ∧ parseLine text (first + k) = .error error ∧
    ∀ i < k, ∀ earlier, texts[i]? = some earlier →
      ∃ command?, parseLine earlier (first + i) = .ok command?

/-- A bad line is itself the first fault. -/
theorem isFirstFault_cons_of_error {first : Nat} {text : String} {rest : List String}
    {cause error : ParseError} (h : parseLine text first = .error cause) :
    IsFirstFault first (text :: rest) error ↔ error = cause := by
  constructor
  · rintro ⟨k, other, hother, herror, hearlier⟩
    cases k with
    | zero =>
      obtain rfl := Option.some.inj hother
      exact Except.error.inj (herror.symm.trans h)
    | succ k =>
      obtain ⟨command?, hcommand⟩ := hearlier 0 k.succ_pos text rfl
      exact absurd (h.symm.trans hcommand) nofun
  · rintro rfl
    exact ⟨0, text, rfl, h, fun i hi => absurd hi i.not_lt_zero⟩

/-- After a good line the first fault is that of the others, counted from the next number. -/
theorem isFirstFault_cons_of_ok {first : Nat} {text : String} {rest : List String}
    {command? : Option Command} {error : ParseError} (h : parseLine text first = .ok command?) :
    IsFirstFault first (text :: rest) error ↔ IsFirstFault (first + 1) rest error := by
  have hnumber : ∀ k, first + (k + 1) = first + 1 + k := fun k => by omega
  constructor
  · rintro ⟨k, other, hother, herror, hearlier⟩
    cases k with
    | zero =>
      obtain rfl := Option.some.inj hother
      exact absurd (h.symm.trans herror) nofun
    | succ k =>
      refine ⟨k, other, hother, hnumber k ▸ herror, fun i hi earlier hmem => ?_⟩
      rw [← hnumber]
      exact hearlier (i + 1) (Nat.succ_lt_succ hi) earlier hmem
  · rintro ⟨k, other, hother, herror, hearlier⟩
    refine ⟨k + 1, other, hother, (hnumber k).symm ▸ herror, fun i hi earlier hmem => ?_⟩
    cases i with
    | zero =>
      obtain rfl := Option.some.inj hmem
      exact ⟨command?, h⟩
    | succ i =>
      rw [hnumber]
      exact hearlier i (Nat.lt_of_succ_lt_succ hi) earlier hmem

/-- Lines that can all be read are refused for the first one that is no command, and only then. This
ties the recursion of the reader to a statement about the lines as a whole. -/
theorem parseLinesFrom_eq_error_iff {first : Nat} {texts : List String} {error : ParseError} :
    parseLinesFrom first (texts.map .ok) = .error error ↔ IsFirstFault first texts error := by
  induction texts generalizing first with
  | nil =>
    constructor
    · intro h
      cases h
    · rintro ⟨k, text, htext, -⟩
      cases htext
  | cons text rest ih =>
    rw [List.map_cons, parseLinesFrom]
    -- A bad line is the fault; after a good one the fault is looked for in the rest.
    cases hline : parseLine text first with
    | error cause =>
      rw [isFirstFault_cons_of_error hline]
      exact ⟨fun h => (Except.error.inj h).symm, fun h => congrArg Except.error h.symm⟩
    | ok command? =>
      rw [isFirstFault_cons_of_ok hline, ← ih]
      dsimp only
      cases parseLinesFrom (first + 1) (rest.map .ok) with
      | error cause => exact Iff.rfl
      | ok commands => simp only [reduceCtorEq]

/-- A line that cannot be read comes after the lines before it, and nothing comes after it: a fault
before it is reported first, and the lines behind it are never looked at. -/
theorem parseLinesFrom_append_error (first : Nat) (texts : List String) (cause : Text.ReadError)
    (later : List (Except Text.ReadError String)) :
    parseLinesFrom first (texts.map .ok ++ .error cause :: later) =
      (parseLinesFrom first (texts.map .ok)).bind fun _ => .error (.unreadable cause) := by
  induction texts generalizing first with
  | nil => rfl
  | cons text rest ih =>
    rw [List.map_cons, List.cons_append, parseLinesFrom, parseLinesFrom, ih]
    cases parseLine text first with
    | error _ => rfl
    | ok command? => cases parseLinesFrom (first + 1) (rest.map .ok) <;> rfl

end Command

namespace Compiler

open Command

variable (c : Compiler) (scenes : Scenes)

/-- **Bytes are compiled as the text they are, and refused for what is wrong first.**

The bytes of a text compile to what the text compiles to, or are refused for the same reason, and
leave the same session. A text is refused for the first line that is no command.

Every other source, of bytes that are no text or of a reader that fails, breaks after some lines:
the line after them is the first that cannot be read, because it is no text or because the reader
fails before it has ended. The source is refused for the first of the lines before it that is no
command, or if there is none, because of this line, and the session stays what it was. -/
theorem compileSource_first_fault :
    -- the bytes of a text,
    (∀ text, c.compileSource scenes ⟨Text.utf8 text, none⟩ = c.compile scenes text ∧
      c.after scenes (c.compileSource scenes ⟨Text.utf8 text, none⟩) =
        c.after scenes (c.compile scenes text)) ∧
    (∀ text error, c.compile scenes text = .error error ↔
      IsFirstFault 1 (Text.lines text) error) ∧
    -- and every other source
    ∀ source : Text.ByteSource, source.failure? ≠ none ∨ ¬ Text.IsText source.bytes →
      (∃ before cause, source.BreaksAfter before cause) ∧
      ∀ before cause, source.BreaksAfter before cause →
        (∀ error, IsFirstFault 1 (Text.lines before) error →
          c.compileSource scenes source = .error error) ∧
        ((∀ error, ¬ IsFirstFault 1 (Text.lines before) error) →
          c.compileSource scenes source = .error (.unreadable cause)) ∧
        c.after scenes (c.compileSource scenes source) = (c, scenes) := by
  -- The lines of the bytes are the lines of the text, so the two are read alike from there on.
  have htext : ∀ text, c.compileSource scenes ⟨Text.utf8 text, none⟩ = c.compile scenes text := by
    intro text
    rw [compileSource, parseSource, Text.lines_utf8]
    rfl
  refine ⟨fun text => ⟨htext text, congrArg (c.after scenes) (htext text)⟩, ?_, ?_⟩
  · intro text error
    rw [← parseLinesFrom_eq_error_iff, compile, parseText]
    cases parseLinesFrom 1 ((Text.lines text).map .ok) with
    | error _ => exact ⟨fun h => congrArg Except.error (Except.error.inj h),
        fun h => congrArg Except.error (Except.error.inj h)⟩
    | ok _ => simp only [Except.map, reduceCtorEq]
  · intro source hsource
    refine ⟨source.exists_breaksAfter hsource, ?_⟩
    intro before cause hbreaks
    obtain ⟨later, hlines⟩ := hbreaks.lines
    -- What the source is refused for is decided by the lines before the break.
    have hresult : c.compileSource scenes source =
        ((parseLinesFrom 1 ((Text.lines before).map .ok)).bind fun _ =>
          .error (.unreadable cause)).map (c.run scenes) := by
      rw [compileSource, parseSource, hlines, parseLinesFrom_append_error]
    rw [hresult]
    refine ⟨?_, ?_, ?_⟩
    · intro error hfault
      rw [parseLinesFrom_eq_error_iff.mpr hfault]
      rfl
    · intro hnone
      cases hbefore : parseLinesFrom 1 ((Text.lines before).map .ok) with
      | error error => exact absurd (parseLinesFrom_eq_error_iff.mp hbefore) (hnone error)
      | ok _ => rfl
    · cases parseLinesFrom 1 ((Text.lines before).map .ok) <;> rfl

/-- A reader that fails in its third line. In its second line there is no command, or there is one.
-/
theorem compileSource_first_fault_torn :
    let origin := start .standard .empty
    let torn : String → Text.ByteSource := fun before => ⟨Text.utf8 before ++ [0xE2], some "gone"⟩
    origin.1.compileSource origin.2 (torn "update\r\nmove 1\r\n") =
        .error (.malformedArguments 2 .move 1 none) ∧
      origin.1.compileSource origin.2 (torn "update\r\nreset\r\n") =
        .error (.unreadable (.failed "gone")) := by
  intro origin torn
  have hbreaks : ∀ before : String, Text.IsComplete before →
      (torn before).BreaksAfter before (.failed "gone") := fun before hcomplete =>
    ⟨hcomplete, [0xE2], rfl, .failed (by decide) "gone"⟩
  have hsource : ∀ before, (torn before).failure? ≠ none ∨ ¬ Text.IsText (torn before).bytes :=
    fun before => .inl (Option.some_ne_none "gone")
  have hfault : IsFirstFault 1 (Text.lines "update\r\nmove 1\r\n")
      (.malformedArguments 2 .move 1 none) := by
    refine ⟨1, "move 1", by decide +kernel, rfl, fun i hi earlier hmem => ?_⟩
    obtain rfl : i = 0 := by omega
    obtain rfl : "update" = earlier := Option.some.inj hmem
    exact ⟨some .update, rfl⟩
  have hnone : ∀ error, ¬ IsFirstFault 1 (Text.lines "update\r\nreset\r\n") error := by
    intro error herror
    have hread : parseLinesFrom 1 ((Text.lines "update\r\nreset\r\n").map .ok) =
        .ok [.update, .reset] := by decide +kernel
    exact absurd (hread.symm.trans (parseLinesFrom_eq_error_iff.mpr herror)) nofun
  obtain ⟨-, -, hothers⟩ := compileSource_first_fault origin.1 origin.2
  exact ⟨((hothers _ (hsource _)).2 _ _ (hbreaks _ (.inr ⟨"update\r\nmove 1\r", rfl⟩))).1 _ hfault,
    ((hothers _ (hsource _)).2 _ _ (hbreaks _ (.inr ⟨"update\r\nreset\r", rfl⟩))).2.1 hnone⟩

end Compiler

end Script

end Easel
