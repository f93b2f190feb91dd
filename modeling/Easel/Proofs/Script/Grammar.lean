import Easel.Proofs.Script.Arguments
import Easel.Proofs.Text.Runs

/-!
# The grammar of a line

A line is blank, a command, or one of three kinds of fault: an unknown word at its start, a wrong
number of arguments, an argument that is no number. `Outcome` says which lines are what, and reading
a line finds just this.

* `Outcome` — what the words of a line amount to; `parseLine_eq_iff` — reading finds it;
* `ofTokens_eq_bind` — the arguments of all keywords are read in one way;
* `parseLine_accepts_grammar` — which lines have which outcome.
-/

namespace Easel.Script

/-! ### Keywords -/

/-- A word is no keyword exactly if none has it as its name. -/
theorem Keyword.ofName?_eq_none_iff {word : String} :
    ofName? word = none ↔ ∀ keyword : Keyword, keyword.name ≠ word := by
  constructor
  · intro h keyword hname
    rw [ofName?_eq_some_iff.mpr hname] at h
    exact absurd h nofun
  · intro h
    rw [Option.eq_none_iff_forall_ne_some]
    exact fun keyword hkeyword => h keyword (name_of_ofName? hkeyword)

/-- Two keywords have different names. -/
theorem Keyword.name_injective : Function.Injective Keyword.name := fun _ other h =>
  Option.some.inj (((ofName?_eq_some_iff.mpr h)).symm.trans (ofName?_name other))

/-- There are seven keywords, and this is how they are written. -/
theorem Keyword.exists_name_eq_iff {word : String} : (∃ keyword : Keyword, keyword.name = word) ↔
    word ∈ ["white", "green", "update", "reset", "bgrect", "figure", "move"] := by
  constructor
  · rintro ⟨keyword, rfl⟩
    cases keyword <;> decide
  · intro h
    obtain ⟨keyword, -, rfl⟩ := List.mem_map.mp (show word ∈ Keyword.all.map Keyword.name from h)
    exact ⟨keyword, rfl⟩

namespace Command

/-- A text that is read as a finite double. -/
def IsNumeric (token : String) : Prop := ∃ x, Decimal.finite? token = some x

/-- What the words of a line amount to. The cases exclude one another and are stated without any
reading: they are the grammar, and the reader is measured by them. -/
inductive Outcome (line : Nat) : List String → Except ParseError (Option Command) → Prop where
  | blank : Outcome line [] (.ok none)
  | unknown {word : String} (arguments : List String)
      (hword : ∀ keyword : Keyword, keyword.name ≠ word) :
      Outcome line (word :: arguments) (.error (.unknownCommand line word))
  | miscounted {keyword : Keyword} {arguments : List String}
      (hcount : arguments.length ≠ keyword.arity) :
      Outcome line (keyword.name :: arguments)
        (.error (.malformedArguments line keyword arguments.length none))
  | invalid {keyword : Keyword} {before after : List String} {token : String}
      (hcount : (before ++ token :: after).length = keyword.arity)
      (hbefore : ∀ earlier ∈ before, IsNumeric earlier) (htoken : ¬ IsNumeric token) :
      Outcome line (keyword.name :: (before ++ token :: after))
        (.error (.malformedArguments line keyword keyword.arity (some token)))
  | command {command : Command} {arguments : List String} (hreset : command ≠ .background .reset)
      (harguments : arguments.map Decimal.finite? = command.arguments.map some) :
      Outcome line (command.name :: arguments) (.ok (some command))

/-! ### Numbers in a row -/

section Numbers

variable {line : Nat} {keyword : Keyword} {tokens before after : List String} {token : String}
  {numbers : List Binary64}

/-- Texts that are all numbers are read one after another. -/
theorem mapM_number_eq_ok (h : tokens.map Decimal.finite? = numbers.map some) :
    tokens.mapM (number line keyword) = .ok numbers := by
  induction tokens generalizing numbers with
  | nil =>
    obtain rfl : numbers = [] := List.map_eq_nil_iff.mp h.symm
    rfl
  | cons token rest ih =>
    obtain ⟨x, numbers, rfl, hx, hrest⟩ := List.map_eq_cons_iff.mp h.symm
    rw [List.mapM_cons, number_eq_ok_iff.mpr hx.symm, ih hrest.symm]
    rfl

/-- The first text that is no number ends it, whatever comes after. -/
theorem mapM_number_eq_error (hbefore : ∀ earlier ∈ before, IsNumeric earlier)
    (htoken : ¬ IsNumeric token) :
    (before ++ token :: after).mapM (number line keyword) =
      .error (.malformedArguments line keyword keyword.arity (some token)) := by
  induction before with
  | nil =>
    have hnone : Decimal.finite? token = none :=
      Option.eq_none_iff_forall_ne_some.mpr fun x hx => htoken ⟨x, hx⟩
    rw [List.nil_append, List.mapM_cons, number_eq_error_iff.mpr ⟨hnone, rfl⟩]
    rfl
  | cons first rest ih =>
    obtain ⟨⟨x, hx⟩, hrest⟩ := List.forall_mem_cons.mp hbefore
    rw [List.cons_append, List.mapM_cons, number_eq_ok_iff.mpr hx, ih hrest]
    rfl

/-- Of texts either all are numbers, or one is the first that is none. -/
theorem exists_numbers_or_invalid (tokens : List String) :
    (∃ numbers : List Binary64, tokens.map Decimal.finite? = numbers.map some) ∨
      ∃ before token after, tokens = before ++ token :: after ∧
        (∀ earlier ∈ before, IsNumeric earlier) ∧ ¬ IsNumeric token := by
  induction tokens with
  | nil => exact .inl ⟨[], rfl⟩
  | cons first rest ih =>
    by_cases hfirst : IsNumeric first
    · obtain ⟨x, hx⟩ := id hfirst
      rcases ih with ⟨numbers, hnumbers⟩ | ⟨before, token, after, rfl, hbefore, htoken⟩
      · refine .inl ⟨x :: numbers, ?_⟩
        rw [List.map_cons, hx, hnumbers, List.map_cons]
      · exact .inr ⟨first :: before, token, after, rfl, List.forall_mem_cons.mpr ⟨hfirst, hbefore⟩,
          htoken⟩
    · exact .inr ⟨[], first, rest, rfl, nofun, hfirst⟩

end Numbers

/-! ### Commands by their numbers -/

/-- The command of a keyword and its numbers, if they are as many as it takes. It puts the seven
cases of the reader into one table. -/
def ofNumbers? : Keyword → List Binary64 → Option Command
  | .white, [] => some (.background .white)
  | .green, [] => some (.background .green)
  | .update, [] => some .update
  | .reset, [] => some .reset
  | .bgrect, [x1, y1, x2, y2] => some (.bgrect x1 y1 x2 y2)
  | .figure, [x, y] => some (.figure x y)
  | .move, [dx, dy] => some (.move dx dy)
  | _, _ => none

/-- A command has as many numbers as its keyword takes. -/
theorem length_arguments (command : Command) :
    command.arguments.length = command.keyword.arity := by
  cases command with
  | background shade => cases shade <;> rfl
  | _ => rfl

/-- Texts for the numbers of a command are as many as its keyword takes. -/
theorem length_eq_arity {command : Command} {arguments : List String}
    (h : arguments.map Decimal.finite? = command.arguments.map some) :
    arguments.length = command.keyword.arity := by
  have hlength := congrArg List.length h
  rwa [List.length_map, List.length_map, length_arguments] at hlength

/-- No numbers select the black background but those of a reset, so this one command is not written
in any script. -/
theorem ofNumbers?_arguments {command : Command} (h : command ≠ .background .reset) :
    ofNumbers? command.keyword command.arguments = some command := by
  cases command with
  | background shade =>
    cases shade with
    | reset => exact absurd rfl h
    | _ => rfl
  | _ => rfl

/-- Every keyword with the right number of numbers is a command. -/
theorem exists_command {keyword : Keyword} {numbers : List Binary64}
    (h : numbers.length = keyword.arity) : ∃ command : Command, command ≠ .background .reset ∧
      command.keyword = keyword ∧ command.arguments = numbers := by
  cases keyword with
  | white => exact ⟨.background .white, by decide, rfl, (List.length_eq_zero_iff.mp h).symm⟩
  | green => exact ⟨.background .green, by decide, rfl, (List.length_eq_zero_iff.mp h).symm⟩
  | update => exact ⟨.update, by decide, rfl, (List.length_eq_zero_iff.mp h).symm⟩
  | reset => exact ⟨.reset, by decide, rfl, (List.length_eq_zero_iff.mp h).symm⟩
  | bgrect =>
    match numbers, h with
    | [x1, y1, x2, y2], _ => exact ⟨.bgrect x1 y1 x2 y2, nofun, rfl, rfl⟩
  | figure =>
    obtain ⟨x, y, rfl⟩ := List.length_eq_two.mp h
    exact ⟨.figure x y, nofun, rfl, rfl⟩
  | move =>
    obtain ⟨dx, dy, rfl⟩ := List.length_eq_two.mp h
    exact ⟨.move dx dy, nofun, rfl, rfl⟩

/-! ### The arguments of a keyword -/

section OfTokens

variable {line : Nat} {keyword : Keyword} {arguments : List String}

/-- A wrong number of arguments is an error, which tells how many there were. -/
theorem ofTokens_of_length_ne (h : arguments.length ≠ keyword.arity) :
    ofTokens line keyword arguments =
      .error (.malformedArguments line keyword arguments.length none) := by
  unfold ofTokens
  split
  case h_8 => rfl
  all_goals exact absurd rfl h

/-- **Of every keyword the arguments are read one after the other, and the numbers make up the
command.** So the seven ways of the reader are one way, and what is proved of it holds for each
keyword. -/
theorem ofTokens_eq_bind (h : arguments.length = keyword.arity) :
    ofTokens line keyword arguments = arguments.mapM (number line keyword) >>= fun numbers =>
      match ofNumbers? keyword numbers with
      | some command => .ok command
      | none => .error (.malformedArguments line keyword numbers.length none) := by
  cases keyword with
  | white | green | update | reset =>
    rw [List.length_eq_zero_iff.mp h]
    rfl
  | bgrect =>
    match arguments, h with
    | [a, b, c, d], _ =>
      simp only [List.mapM_cons, List.mapM_nil, bind_assoc, pure_bind]
      rfl
  | figure =>
    obtain ⟨a, b, rfl⟩ := List.length_eq_two.mp h
    simp only [List.mapM_cons, List.mapM_nil, bind_assoc, pure_bind]
    rfl
  | move =>
    obtain ⟨a, b, rfl⟩ := List.length_eq_two.mp h
    simp only [List.mapM_cons, List.mapM_nil, bind_assoc, pure_bind]
    rfl

end OfTokens

/-! ### Lines -/

section Lines

variable {line : Nat} {text : String} {words : List String}
  {result : Except ParseError (Option Command)}

/-- A line that begins with a keyword is read by its keyword. -/
theorem parseLine_of_tokens_cons {keyword : Keyword} {arguments : List String}
    (h : Text.tokens text = keyword.name :: arguments) :
    parseLine text line = (ofTokens line keyword arguments).map some := by
  unfold parseLine
  rw [h]
  dsimp only
  rw [Keyword.ofName?_name]

/-- A line is read as what its words amount to. -/
theorem Outcome.parseLine_eq (h : Outcome line (Text.tokens text) result) :
    parseLine text line = result := by
  generalize hwords : Text.tokens text = words at h
  cases h with
  | blank =>
    unfold parseLine
    rw [hwords]
  | unknown arguments hword =>
    unfold parseLine
    rw [hwords]
    dsimp only
    rw [Keyword.ofName?_eq_none_iff.mpr hword]
  | miscounted hcount =>
    rw [parseLine_of_tokens_cons hwords, ofTokens_of_length_ne hcount]
    rfl
  | invalid hcount hbefore htoken =>
    rw [parseLine_of_tokens_cons hwords, ofTokens_eq_bind hcount,
      mapM_number_eq_error hbefore htoken]
    rfl
  | @command command arguments hreset harguments =>
    rw [parseLine_of_tokens_cons hwords, ofTokens_eq_bind (length_eq_arity harguments),
      mapM_number_eq_ok harguments]
    show Except.map some (match ofNumbers? command.keyword command.arguments with
      | some command => _
      | none => _) = _
    rw [ofNumbers?_arguments hreset]
    rfl

/-- Every line is something: its first word is a keyword or not, the number of arguments is right or
not, and they are numbers or one of them is the first that is none. -/
theorem exists_outcome (line : Nat) (words : List String) :
    ∃ result, Outcome line words result := by
  cases words with
  | nil => exact ⟨_, .blank⟩
  | cons word arguments =>
    by_cases hword : ∃ keyword : Keyword, keyword.name = word
    · obtain ⟨keyword, rfl⟩ := hword
      by_cases hcount : arguments.length = keyword.arity
      · rcases exists_numbers_or_invalid arguments with
          ⟨numbers, hnumbers⟩ | ⟨before, token, after, rfl, hbefore, htoken⟩
        · have hlength := congrArg List.length hnumbers
          rw [List.length_map, List.length_map, hcount] at hlength
          obtain ⟨command, hreset, rfl, rfl⟩ := exists_command hlength.symm
          exact ⟨_, .command hreset hnumbers⟩
        · exact ⟨_, .invalid hcount hbefore htoken⟩
      · exact ⟨_, .miscounted hcount⟩
    · exact ⟨_, .unknown arguments (not_exists.mp hword)⟩

/-- **Reading a line finds what its words amount to.** Since every line is something, the cases of
`Outcome` can be used in both directions. -/
theorem parseLine_eq_iff :
    parseLine text line = result ↔ Outcome line (Text.tokens text) result := by
  constructor
  · rintro rfl
    obtain ⟨result, hresult⟩ := exists_outcome line (Text.tokens text)
    rwa [hresult.parseLine_eq]
  · exact Outcome.parseLine_eq

/-- A line with the name of a command and texts for its numbers is that command. -/
theorem parseLine_eq_command {command : Command} {arguments : List String}
    (hwords : Text.tokens text = command.name :: arguments) (hreset : command ≠ .background .reset)
    (harguments : arguments.map Decimal.finite? = command.arguments.map some) :
    parseLine text line = .ok (some command) :=
  parseLine_eq_iff.mpr (hwords ▸ .command hreset harguments)

end Lines

/-- **Which lines have which outcome.** The words are the runs of characters between blanks; each of
the five outcomes has its own condition on them, and every error tells of its line. -/
theorem parseLine_accepts_grammar (text : String) (line : Nat) :
    ∃ words : List String, (∀ others, Text.RunsOf text others ↔ others = words) ∧
    -- Without a word the line is blank.
    (parseLine text line = .ok none ↔ words = []) ∧
    -- The first word may be no keyword, whatever follows it;
    (∀ l word, parseLine text line = .error (.unknownCommand l word) ↔
      l = line ∧ words.head? = some word ∧
        word ∉ ["white", "green", "update", "reset", "bgrect", "figure", "move"]) ∧
    -- the number of arguments may be wrong, whatever they are;
    (∀ l keyword actual, parseLine text line = .error (.malformedArguments l keyword actual none) ↔
      l = line ∧ ∃ arguments, words = keyword.name :: arguments ∧ actual = arguments.length ∧
        arguments.length ≠ keyword.arity) ∧
    -- if it is right, the leftmost argument that is no number is to blame.
    (∀ l keyword actual token,
      parseLine text line = .error (.malformedArguments l keyword actual (some token)) ↔
        l = line ∧ actual = keyword.arity ∧ ∃ before after,
          words = keyword.name :: (before ++ token :: after) ∧
            (before ++ token :: after).length = keyword.arity ∧
            (∀ earlier ∈ before, IsNumeric earlier) ∧ ¬ IsNumeric token) ∧
    -- Otherwise the line is the command with the numbers that its arguments are, in order,
    (∀ command, parseLine text line = .ok (some command) ↔
      command ≠ .background .reset ∧ ∃ arguments, words = command.name :: arguments ∧
        arguments.length = command.keyword.arity ∧
        arguments.map Decimal.finite? = command.arguments.map some) ∧
    -- and there is no other error. Each one names the line, its first word and, if that is a
    -- keyword, how many arguments it takes.
    (∀ error, parseLine text line = .error error → error.line? = some line ∧
      error.command? = words.head? ∧
      ∀ keyword : Keyword, words.head? = some keyword.name → error.expected? = some keyword.arity) ∧
    (Keyword.all.map fun keyword => (keyword.name, keyword.arity)) =
      [("white", 0), ("green", 0), ("update", 0), ("reset", 0), ("bgrect", 4), ("figure", 2),
        ("move", 2)] := by
  refine ⟨Text.tokens text, fun others => Text.runsOf_iff, ?_, fun l word => ?_,
    fun l keyword actual => ?_, fun l keyword actual token => ?_, fun command => ?_,
    fun error herror => ?_, rfl⟩
  -- All but the first statement are read off the cases of `Outcome`, for the words that there are.
  all_goals
    rw [parseLine_eq_iff] at *
    generalize Text.tokens text = words at *
  · constructor
    · rintro ⟨⟩
      rfl
    · rintro rfl
      exact .blank
  · constructor
    · intro h
      cases h with
      | unknown arguments hword =>
        exact ⟨rfl, rfl, Keyword.exists_name_eq_iff.not.mp (not_exists.mpr hword)⟩
    · rintro ⟨rfl, hhead, hword⟩
      obtain ⟨arguments, rfl⟩ := List.head?_eq_some_iff.mp hhead
      exact .unknown arguments (not_exists.mp (Keyword.exists_name_eq_iff.not.mpr hword))
  · constructor
    · intro h
      cases h with
      | miscounted hcount => exact ⟨rfl, _, rfl, rfl, hcount⟩
    · rintro ⟨rfl, arguments, rfl, rfl, hcount⟩
      exact .miscounted hcount
  · constructor
    · intro h
      cases h with
      | invalid hcount hbefore htoken => exact ⟨rfl, rfl, _, _, rfl, hcount, hbefore, htoken⟩
    · rintro ⟨rfl, rfl, before, after, rfl, hcount, hbefore, htoken⟩
      exact .invalid hcount hbefore htoken
  · constructor
    · intro h
      cases h with
      | command hreset harguments =>
        exact ⟨hreset, _, rfl, length_eq_arity harguments, harguments⟩
    · rintro ⟨hreset, arguments, rfl, -, harguments⟩
      exact .command hreset harguments
  · -- An error is one of the three kinds of fault.
    cases herror with
    | unknown arguments hword =>
      exact ⟨rfl, rfl, fun keyword hhead => absurd (Option.some.inj hhead).symm (hword keyword)⟩
    | miscounted | invalid =>
      refine ⟨rfl, rfl, fun other hhead => congrArg (some ∘ Keyword.arity) ?_⟩
      exact Keyword.name_injective (Option.some.inj hhead)

/-- The count is looked at before the numbers. -/
example : parseLine "figure 0.5 nan 1" 3 = .error (.malformedArguments 3 .figure 3 none) := by
  decide +kernel

end Command

end Easel.Script
