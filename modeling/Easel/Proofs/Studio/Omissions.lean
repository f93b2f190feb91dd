import Easel.Proofs.Script.FirstFault
import Easel.Proofs.Studio.Chronicle

/-!
# Refused scripts leave no trace

A call that is answered with an error may have asked for anything in the lines before the bad one.
It might as well not have been made: the calls after it are answered as they would have been without
it.

* `Chronicle.answer?`, `Chronicle.answers` — what the calls for a script are answered with;
* `Chronicle.withoutRefusals` — the events without the calls that are answered with an error;
* `Chronicle.refusals_leave_no_trace` — these events lead where all events lead.
-/

namespace Easel

/-! ### What is refused -/

namespace Chronicle

open Script (Compiler ParseError)
open Script.Command (parseLine exists_isFirstFault_iff isFirstFault_one_iff)

section Answers

variable {σ : Type} [Surface σ]

/-- What a call for a script is answered with. Nothing else has an answer: a reset cannot be
refused, and what the worker does is no call. -/
def answer? (h : Chronicle) : Event σ → Option (Except ParseError Batch)
  | .call (.text script) => some ((h.compiler.compile h.scenes script).map (·.batch))
  | .call (.source bytes) => some ((h.compiler.compileSource h.scenes bytes).map (·.batch))
  | .call .reset | .apply .. => none

/-- Whether an event is a call that is answered with an error. -/
def refuses (h : Chronicle) (event : Event σ) : Bool :=
  (h.answer? event).any fun answer => !answer.isOk

/-- What the calls for scripts are answered with, in order. -/
def answers (h : Chronicle) : List (Event σ) → List (Except ParseError Batch)
  | [] => []
  | event :: rest => (h.answer? event).toList ++ (h.happen event).answers rest

/-- The events without the calls that are answered with an error. Whether a call is refused is
decided where it stands, after all events before it, those that are left out included. -/
def withoutRefusals (h : Chronicle) : List (Event σ) → List (Event σ)
  | [] => []
  | event :: rest =>
    if h.refuses event then (h.happen event).withoutRefusals rest
    else event :: (h.happen event).withoutRefusals rest

omit [Surface σ] in
/-- Nothing is noted of a call that is answered with an error. -/
theorem note_of_not_isOk (h : Chronicle) (call : Call)
    {answer : Except ParseError Compiler.Compiled}
    (hanswer : (!(answer.map (·.batch)).isOk) = true) : h.note call answer = h := by
  cases answer with
  | error error => rfl
  | ok done => exact absurd hanswer Bool.false_ne_true

/-- A call that is answered with an error changes nothing. Neither the compiler nor the scenes are
touched before the whole script has been read. -/
theorem happen_of_refuses {h : Chronicle} {event : Event σ} (hrefuses : h.refuses event = true) :
    h.happen event = h := by
  cases event with
  | apply number surface => exact absurd hrefuses Bool.false_ne_true
  | call call =>
    cases call with
    | reset => exact absurd hrefuses Bool.false_ne_true
    | text script => exact h.note_of_not_isOk (.text script) hrefuses
    | source bytes => exact h.note_of_not_isOk (.source bytes) hrefuses

omit [Surface σ] in
/-- Of what an event is answered with, the errors are the answers to the events that are refused. -/
theorem filter_answer (h : Chronicle) (event : Event σ) :
    (h.answer? event).toList.filter Except.isOk =
      if h.refuses event then [] else (h.answer? event).toList := by
  -- An event without an answer is not refused; otherwise the answer is an error or is none.
  unfold refuses
  cases h.answer? event with
  | none => rfl
  | some answer => cases answer <;> rfl

/-- The events that are left lead where all events lead. Each event that is left out would have led
nowhere. -/
theorem run_withoutRefusals (h : Chronicle) (events : List (Event σ)) :
    h.run (h.withoutRefusals events) = h.run events := by
  -- By induction on the events: what is left out leads to the same state, where the rest goes on.
  induction events generalizing h with
  | nil => rfl
  | cons event rest ih =>
    unfold withoutRefusals
    cases hrefuses : h.refuses event with
    | true =>
      show h.run ((h.happen event).withoutRefusals rest) = (h.happen event).run rest
      rw [happen_of_refuses hrefuses]
      exact ih h
    | false => exact ih (h.happen event)

/-- The calls that are left are answered as they were. -/
theorem answers_withoutRefusals (h : Chronicle) (events : List (Event σ)) :
    h.answers (h.withoutRefusals events) = (h.answers events).filter Except.isOk := by
  induction events generalizing h with
  | nil => rfl
  | cons event rest ih =>
    unfold withoutRefusals
    rw [answers, List.filter_append, filter_answer]
    cases hrefuses : h.refuses event with
    | true =>
      -- The answer that is missed is the one that the filter drops.
      show h.answers ((h.happen event).withoutRefusals rest) = [] ++ _
      rw [List.nil_append, happen_of_refuses hrefuses]
      exact ih h
    | false => exact congrArg (_ ++ ·) (ih (h.happen event))

/-- **Refused scripts leave no trace.**

A script is refused if and only if one of its lines is no command, and then for the first of these;
the error names the line by its number among all lines. Scripts whose lines have the same tokens,
one by one, are answered alike.

The calls that are answered with an error can be left out: the others are answered as before, and
the compiler, the scenes and all that has been noted are in the end what they would have been. -/
theorem refusals_leave_no_trace :
    (∀ (c : Compiler) (scenes : Scenes) (script : String),
      ((∃ error, c.compile scenes script = .error error) ↔
        ∃ k text error, (Text.lines script)[k]? = some text ∧
          parseLine text (k + 1) = .error error) ∧
      ∀ error, c.compile scenes script = .error error ↔
        ∃ k text, (Text.lines script)[k]? = some text ∧ parseLine text (k + 1) = .error error ∧
          error.line? = some (k + 1) ∧
          ∀ i < k, ∀ earlier, (Text.lines script)[i]? = some earlier →
            ∃ command?, parseLine earlier (i + 1) = .ok command?) ∧
    (∀ script other, (Text.lines script).map Text.tokens = (Text.lines other).map Text.tokens →
      ∀ (c : Compiler) (scenes : Scenes), c.compile scenes script = c.compile scenes other) ∧
    ∀ (h : Chronicle) (events : List (Event σ)),
      h.answers (h.withoutRefusals events) = (h.answers events).filter Except.isOk ∧
        h.run (h.withoutRefusals events) = h.run events := by
  refine ⟨?_, ?_, ?_⟩
  · intro c scenes script
    -- The fault is in a line that has a number, counted from one.
    refine ⟨?_, ?_⟩
    · simp only [c.compile_eq_error_iff scenes, exists_isFirstFault_iff, Nat.add_comm 1]
    · intro error
      rw [c.compile_eq_error_iff scenes, isFirstFault_one_iff]
  · intro script other htokens c scenes
    exact c.compile_eq_of_tokens scenes htokens
  · intro h events
    exact ⟨h.answers_withoutRefusals events, h.run_withoutRefusals events⟩

end Answers

end Chronicle

end Easel
