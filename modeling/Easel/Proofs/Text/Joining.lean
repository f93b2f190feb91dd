import Easel.Script.Command

/-!
# Scripts joined by a line feed

Two scripts, one after the other with a line feed between them, hold the commands of the first and
then those of the second, however the first one ends: a line feed more is a blank line, and a
carriage return before it is a blank.

* `Text.splitLinesFrom_append` — the lines of a joined text;
* `Script.Command.parseLine_congr` — what line a text stands on makes no difference, as long as it
  can be read;
* `Script.Command.parseText_append` — the commands of joined scripts.
-/

namespace Easel

namespace Text

/-- What follows a line feed is cut into lines on its own. Nothing that has been passed before it is
carried over. -/
theorem splitLinesFrom_append {α : Type} [DecidableEq α] (lineFeed carriageReturn : α)
    (passed symbols later : List α) :
    splitLinesFrom lineFeed carriageReturn passed (symbols ++ lineFeed :: later) =
      splitLinesFrom lineFeed carriageReturn passed (symbols ++ [lineFeed]) ++
        splitLines lineFeed carriageReturn later := by
  induction symbols generalizing passed with
  | nil =>
    rw [List.nil_append, List.nil_append, splitLinesFrom, splitLinesFrom, if_pos rfl, if_pos rfl]
    rfl
  | cons a rest ih =>
    rw [List.cons_append, List.cons_append, splitLinesFrom, splitLinesFrom, ih, ih]
    split <;> rfl

/-- A blank at the end of a line belongs to no token. It closes the token before it, which the end
of the line would have done as well. -/
theorem tokensFrom_concat_of_isBlank {c : Char} (h : isBlank c = true) (passed line : List Char) :
    tokensFrom passed (line ++ [c]) = tokensFrom passed line := by
  induction line generalizing passed with
  | nil =>
    show (if isBlank c = true then closeToken passed ++ [] else _) = closeToken passed
    rw [if_pos h, List.append_nil]
  | cons first rest ih => rw [List.cons_append, tokensFrom, tokensFrom, ih, ih]

/-- A carriage return at the end of a line belongs to no token, so it does not matter whether it has
been dropped. -/
theorem tokensFrom_dropReturn (passed : List Char) :
    tokensFrom [] (dropReturn '\r' passed).reverse = tokensFrom [] passed.reverse := by
  cases passed with
  | nil => rfl
  | cons last rest =>
    rw [dropReturn]
    split
    · next hreturn =>
      rw [hreturn, List.reverse_cons, tokensFrom_concat_of_isBlank (by decide)]
    · rfl

end Text

namespace Script.Command

/-! ### Where a line stands -/

/-- A number is read the same on every line, and so is what comes of it. The line is only told to
whoever gets an error. -/
theorem number_bind_ok {line other : Nat} {keyword : Keyword} {token : String}
    {read reread : Binary64 → Except ParseError Command} {command : Command}
    (hread : ∀ x, read x = .ok command → reread x = .ok command)
    (h : number line keyword token >>= read = .ok command) :
    number other keyword token >>= reread = .ok command := by
  -- The line and the keyword are only named in the error.
  unfold number at h ⊢
  cases hx : Decimal.finite? token with
  | none =>
    rw [hx] at h
    exact absurd h nofun
  | some x =>
    rw [hx] at h
    exact hread x h

/-- Arguments that make a command make the same one on every line. -/
theorem ofTokens_ok {line : Nat} {keyword : Keyword} {arguments : List String} {command : Command}
    (h : ofTokens line keyword arguments = .ok command) (other : Nat) :
    ofTokens other keyword arguments = .ok command := by
  unfold ofTokens at h ⊢
  split at h
  -- Only the keywords with numbers look at the line, and only for the error.
  · exact h
  · exact h
  · exact h
  · exact h
  · exact number_bind_ok (fun _ => number_bind_ok fun _ => number_bind_ok fun _ =>
      number_bind_ok fun _ => id) h
  · exact number_bind_ok (fun _ => number_bind_ok fun _ => id) h
  · exact number_bind_ok (fun _ => number_bind_ok fun _ => id) h
  · exact absurd h nofun

/-- **A line that can be read is read by its tokens**, wherever it stands. How the tokens are spaced
makes no difference either. -/
theorem parseLine_congr {text same : String} {line : Nat} {command? : Option Command}
    (h : parseLine text line = .ok command?) (htokens : Text.tokens text = Text.tokens same)
    (other : Nat) : parseLine same other = .ok command? := by
  unfold parseLine at h ⊢
  rw [← htokens]
  -- Each way to fail is ruled out by the command that has been read, and none of the others looks
  -- at the line.
  cases hwords : Text.tokens text with
  | nil =>
    rw [hwords] at h
    exact h
  | cons word arguments =>
    rw [hwords] at h
    dsimp only at h ⊢
    cases hkeyword : Keyword.ofName? word with
    | none =>
      rw [hkeyword] at h
      exact absurd h nofun
    | some keyword =>
      rw [hkeyword] at h
      dsimp only at h ⊢
      cases hcommand : ofTokens line keyword arguments with
      | error e =>
        rw [hcommand] at h
        exact absurd h nofun
      | ok command =>
        rw [hcommand] at h
        rw [ofTokens_ok hcommand other]
        exact h

/-! ### Lists of lines -/

/-- Lines can be read if the first one and the others can be read. -/
theorem parseLinesFrom_cons_ok_iff {line : Nat} {text : String}
    {rest : List (Except Text.ReadError String)} {commands : List Command} :
    parseLinesFrom line (.ok text :: rest) = .ok commands ↔ ∃ command? later,
      parseLine text line = .ok command? ∧ parseLinesFrom (line + 1) rest = .ok later ∧
        commands = command?.toList ++ later := by
  rw [parseLinesFrom]
  constructor
  · intro h
    split at h
    · exact absurd h nofun
    · next command? hfirst =>
      split at h
      · exact absurd h nofun
      · next later hrest => exact ⟨command?, later, hfirst, hrest, (Except.ok.inj h).symm⟩
  · rintro ⟨command?, later, hfirst, hrest, rfl⟩
    rw [hfirst]
    dsimp only
    rw [hrest]

/-- Lines that can be read may be numbered anew. The numbers are for errors only, and there are
none. -/
theorem parseLinesFrom_ok {texts : List String} {line : Nat} {commands : List Command}
    (h : parseLinesFrom line (texts.map .ok) = .ok commands) (other : Nat) :
    parseLinesFrom other (texts.map .ok) = .ok commands := by
  induction texts generalizing line other commands with
  | nil => exact h
  | cons text rest ih =>
    obtain ⟨command?, after, hfirst, hrest, rfl⟩ := parseLinesFrom_cons_ok_iff.mp h
    exact parseLinesFrom_cons_ok_iff.mpr
      ⟨command?, after, parseLine_congr hfirst rfl other, ih hrest (other + 1), rfl⟩

/-- The lines of two scripts, one after the other. The second script begins in the middle of the
numbers, and is read all the same. -/
theorem parseLinesFrom_append {texts later : List String} {line other : Nat}
    {commands laterCommands : List Command}
    (htexts : parseLinesFrom line (texts.map .ok) = .ok commands)
    (hlater : parseLinesFrom other (later.map .ok) = .ok laterCommands) :
    parseLinesFrom line ((texts ++ later).map .ok) = .ok (commands ++ laterCommands) := by
  induction texts generalizing line commands with
  | nil =>
    obtain rfl : [] = commands := Except.ok.inj htexts
    exact parseLinesFrom_ok hlater line
  | cons text rest ih =>
    obtain ⟨command?, after, hfirst, hrest, rfl⟩ := parseLinesFrom_cons_ok_iff.mp htexts
    rw [List.append_assoc]
    exact parseLinesFrom_cons_ok_iff.mpr ⟨command?, _, hfirst, ih hrest, rfl⟩

/-- A line feed at the end of a script adds at most a blank line. If the last line has been ended by
the end of the script, it is ended by the line feed instead. -/
theorem parseLinesFrom_concat_lineFeed {symbols passed : List Char} {line : Nat}
    {commands : List Command}
    (h : parseLinesFrom line (((Text.splitLinesFrom '\n' '\r' passed symbols).map
      fun line => String.ofList line.content).map .ok) = .ok commands) :
    parseLinesFrom line (((Text.splitLinesFrom '\n' '\r' passed (symbols ++ ['\n'])).map
      fun line => String.ofList line.content).map .ok) = .ok commands := by
  -- By induction on the symbols up to the end, where the line feed is met.
  induction symbols generalizing passed line commands with
  | nil =>
    have htokens : ∀ passed : List Char, Text.tokens (String.ofList passed.reverse) =
        Text.tokens (String.ofList (Text.dropReturn '\r' passed).reverse) := fun passed => by
      rw [Text.tokens, Text.tokens, String.toList_ofList, String.toList_ofList,
        Text.tokensFrom_dropReturn]
    refine parseLinesFrom_cons_ok_iff.mpr ?_
    cases passed with
    | nil =>
      obtain rfl : [] = commands := Except.ok.inj h
      exact ⟨none, [], rfl, rfl, rfl⟩
    | cons last rest =>
      -- The line under way ends here in either case, and has the same tokens.
      obtain ⟨command?, after, hfirst, hrest, rfl⟩ := parseLinesFrom_cons_ok_iff.mp h
      exact ⟨command?, after, parseLine_congr hfirst (htokens (last :: rest)) line, hrest, rfl⟩
  | cons a rest ih =>
    rw [List.cons_append]
    unfold Text.splitLinesFrom at h ⊢
    split
    · next hfeed =>
      rw [if_pos hfeed] at h
      obtain ⟨command?, after, hfirst, hrest, rfl⟩ := parseLinesFrom_cons_ok_iff.mp h
      exact parseLinesFrom_cons_ok_iff.mpr ⟨command?, after, hfirst, ih hrest, rfl⟩
    · next hfeed =>
      rw [if_neg hfeed] at h
      exact ih h

/-- **Scripts joined by a line feed hold the commands of both.** The line feed ends the last line of
the first one, whether or not it has been ended before. -/
theorem parseText_append {script later : String} {commands laterCommands : List Command}
    (hscript : parseText script = .ok commands) (hlater : parseText later = .ok laterCommands) :
    parseText (script ++ "\n" ++ later) = .ok (commands ++ laterCommands) := by
  -- The joined text is cut at this line feed, and the second script is cut on its own.
  have hlines : Text.lines (script ++ "\n" ++ later) =
      ((Text.splitLinesFrom '\n' '\r' [] (script.toList ++ ['\n'])).map
        fun line => String.ofList line.content) ++ Text.lines later := by
    have htoList : (script ++ "\n" ++ later).toList = script.toList ++ '\n' :: later.toList := by
      rw [String.toList_append, String.toList_append, List.append_assoc]
      rfl
    rw [Text.lines, htoList, Text.splitLines, Text.splitLinesFrom_append, List.map_append]
    rfl
  rw [parseText, hlines]
  exact parseLinesFrom_append (parseLinesFrom_concat_lineFeed hscript) hlater

example : (parseText ("reset\r" ++ "\n" ++ "\nupdate")).toOption = some [.reset, .update] := by
  decide +kernel

end Script.Command

end Easel
