import Easel.Proofs.Script.Refusals

/-!
# The first bad line

A script is refused for its first line that is no command, and the error names this line by its
number among all lines, blank ones included. Nothing of a line but its tokens makes a difference.

* `Script.Command.IsBlamedOn` — errors that name a line, as all errors of a line name it;
* `Script.Command.parseLinesFrom_eq_of_tokens` — lines with the same tokens are the same to the
  compiler;
* `Script.Command.exists_isFirstFault_iff` — of bad lines one is the first;
* `Script.Compiler.compile_eq_error_iff` — what a compiler refuses.
-/

namespace Easel

namespace Script

namespace Command

/-! ### The number of a bad line -/

/-- If this result is an error, then the error names the line. A result that is none is blamed on
every line, which lets the property pass through a bind. -/
def IsBlamedOn {α : Type} (line : Nat) (result : Except ParseError α) : Prop :=
  ∀ error, result = .error error → error.line? = some line

section IsBlamedOn

variable {α β : Type} {line : Nat}

/-- What succeeds is blamed on nobody. -/
theorem isBlamedOn_ok (a : α) : IsBlamedOn line (.ok a) := nofun

/-- An error that names the line is blamed on it. -/
theorem isBlamedOn_error {error : ParseError} (h : error.line? = some line) :
    IsBlamedOn line (.error error : Except ParseError α) := by
  intro other hother
  rw [← Except.error.inj hother]
  exact h

/-- If each of two steps is blamed on a line, so are both in a row. -/
theorem IsBlamedOn.bind {result : Except ParseError α} {next : α → Except ParseError β}
    (h : IsBlamedOn line result) (hnext : ∀ a, IsBlamedOn line (next a)) :
    IsBlamedOn line (result >>= next) := by
  cases result with
  | error error => exact isBlamedOn_error (h error rfl)
  | ok a => exact hnext a

/-- What is done with a success does not change who is blamed. -/
theorem IsBlamedOn.map {result : Except ParseError α} (h : IsBlamedOn line result) (f : α → β) :
    IsBlamedOn line (result.map f) := by
  cases result with
  | error error => exact isBlamedOn_error (h error rfl)
  | ok a => exact isBlamedOn_ok (f a)

/-- An argument that cannot be read is blamed on its line. -/
theorem isBlamedOn_number (line : Nat) (keyword : Keyword) (token : String) :
    IsBlamedOn line (number line keyword token) := by
  unfold number
  split
  · exact isBlamedOn_ok _
  · exact isBlamedOn_error rfl

/-- A keyword with its arguments is blamed on its line, whichever it is. -/
theorem isBlamedOn_ofTokens (line : Nat) (keyword : Keyword) (arguments : List String) :
    IsBlamedOn line (ofTokens line keyword arguments) := by
  unfold ofTokens
  split
  case h_5 | h_6 | h_7 =>
    -- One argument after another is read.
    repeat
      refine (isBlamedOn_number line _ _).bind fun _ => ?_
    exact isBlamedOn_ok _
  case h_8 => exact isBlamedOn_error rfl
  all_goals exact isBlamedOn_ok _

/-- An error in a line names the line: an unknown word, a wrong number of arguments and an argument
that is no number do so alike. -/
theorem isBlamedOn_parseLine (text : String) (line : Nat) :
    IsBlamedOn line (parseLine text line) := by
  unfold parseLine
  split
  · exact isBlamedOn_ok _
  · -- A line with a token is a command if its first token is a keyword.
    split
    · exact isBlamedOn_error rfl
    · exact (isBlamedOn_ofTokens line _ _).map some

end IsBlamedOn

/-! ### Tokens -/

/-- A line is read by its tokens alone. -/
theorem parseLine_eq_of_tokens {text other : String} (h : Text.tokens text = Text.tokens other)
    (line : Nat) : parseLine text line = parseLine other line := by
  unfold parseLine
  rw [h]

/-- Lines with the same tokens are the same to the compiler, and so are their numbers, as blank
lines are counted too. -/
theorem parseLinesFrom_eq_of_tokens {texts others : List String}
    (h : texts.map Text.tokens = others.map Text.tokens) (first : Nat) :
    parseLinesFrom first (texts.map .ok) = parseLinesFrom first (others.map .ok) := by
  induction texts generalizing others first with
  | nil =>
    obtain rfl : others = [] := List.map_eq_nil_iff.mp h.symm
    rfl
  | cons text rest ih =>
    obtain ⟨other, others, rfl, hfirst, hrest⟩ := List.map_eq_cons_iff.mp h.symm
    -- The heads have the same tokens, and the numbers of the others go on from the same place.
    rw [List.map_cons, List.map_cons, parseLinesFrom, parseLinesFrom,
      parseLine_eq_of_tokens hfirst.symm first, ih hrest.symm (first + 1)]

/-! ### The first of the bad lines -/

/-- Of bad lines one is the first, so a script with a bad line has a first fault. -/
theorem exists_isFirstFault_iff {first : Nat} {texts : List String} :
    (∃ error, IsFirstFault first texts error) ↔
      ∃ k text error, texts[k]? = some text ∧ parseLine text (first + k) = .error error := by
  constructor
  · rintro ⟨error, k, text, htext, herror, -⟩
    exact ⟨k, text, error, htext, herror⟩
  · rintro ⟨k, text, error, htext, herror⟩
    induction texts generalizing first k with
    | nil => exact absurd htext nofun
    | cons head rest ih =>
      cases hhead : parseLine head first with
      | error cause => exact ⟨cause, (isFirstFault_cons_of_error hhead).mpr rfl⟩
      | ok command? =>
        -- The first line is good, so the bad one is among the others.
        cases k with
        | zero =>
          obtain rfl := Option.some.inj htext
          exact absurd (hhead.symm.trans herror) nofun
        | succ k =>
          have hnumber : first + (k + 1) = first + 1 + k := by omega
          rw [hnumber] at herror
          obtain ⟨cause, hfault⟩ := ih k htext herror
          exact ⟨cause, (isFirstFault_cons_of_ok hhead).mpr hfault⟩

/-- Lines are refused for the first bad one, and the error names it. The lines are counted from one
here, as a reader would count them. -/
theorem isFirstFault_one_iff {texts : List String} {error : ParseError} :
    IsFirstFault 1 texts error ↔
      ∃ k text, texts[k]? = some text ∧ parseLine text (k + 1) = .error error ∧
        error.line? = some (k + 1) ∧
        ∀ i < k, ∀ earlier, texts[i]? = some earlier →
          ∃ command?, parseLine earlier (i + 1) = .ok command? := by
  constructor
  · rintro ⟨k, text, htext, herror, hearlier⟩
    rw [Nat.add_comm 1 k] at herror
    -- The number that the error names is that of the line it comes from.
    refine ⟨k, text, htext, herror, isBlamedOn_parseLine text (k + 1) error herror, ?_⟩
    intro i hi earlier hmem
    rw [Nat.add_comm i 1]
    exact hearlier i hi earlier hmem
  · rintro ⟨k, text, htext, herror, -, hearlier⟩
    refine ⟨k, text, htext, (Nat.add_comm 1 k).symm ▸ herror, fun i hi earlier hmem => ?_⟩
    rw [Nat.add_comm 1 i]
    exact hearlier i hi earlier hmem

end Command

namespace Compiler

open Command (IsFirstFault)

/-- What comes after a success does not change the errors, so a script is refused by its parser or
not at all. -/
theorem map_eq_error_iff {ε α β : Type} {result : Except ε α} {next : α → β} {error : ε} :
    result.map next = .error error ↔ result = .error error := by
  cases result with
  | error cause => simp only [Except.map, Except.error.injEq]
  | ok a => simp only [Except.map, reduceCtorEq]

/-- A compiler refuses a script for the first line of it that is no command. -/
theorem compile_eq_error_iff (c : Compiler) (scenes : Scenes) {script : String}
    {error : ParseError} :
    c.compile scenes script = .error error ↔ IsFirstFault 1 (Text.lines script) error :=
  map_eq_error_iff.trans Command.parseLinesFrom_eq_error_iff

/-- Scripts with the same tokens, line by line, are answered alike, whatever blanks stand between
the tokens. -/
theorem compile_eq_of_tokens (c : Compiler) (scenes : Scenes) {script other : String}
    (h : (Text.lines script).map Text.tokens = (Text.lines other).map Text.tokens) :
    c.compile scenes script = c.compile scenes other := by
  unfold compile Command.parseText
  rw [Command.parseLinesFrom_eq_of_tokens h]

end Compiler

end Script

end Easel
