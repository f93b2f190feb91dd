import Easel.Terminal.Presenter

/-!
# What a writer is offered

A writer may take any part of what it is offered, take nothing, or fail, at any byte of a frame and
at the end of it. A frame that fails is gone: the presenter goes on as if it had not been tried, and
what the next writer is offered does not depend on it.

* `Noted` — a writer with notes of what it is offered and how it answers;
* `Offered` — the offers that writing some bytes takes;
* `writeAll_noted`, `deliver_noted` — to take notes changes nothing, and these are the notes;
* `Presentation` — a call of a presenter, with a pixmap and a writer of any kind;
* `Presenter.failures_leave_no_trace` — the main result.
-/

namespace Easel.Terminal

/-! ### Notes of a writer -/

/-- Bytes that a writer is offered, and its answer: how many of them it takes, or why it fails. -/
structure Offer where
  bytes : List UInt8
  answer : Except WriteError Nat

namespace Offer

/-- How many bytes are taken. A writer that fails takes none. -/
def count (o : Offer) : Nat := o.answer.toOption.getD 0

/-- The bytes that are taken, from the front. -/
def taken (o : Offer) : List UInt8 := o.bytes.take o.count

end Offer

/-- All bytes that are taken. -/
def received (offers : List Offer) : List UInt8 := offers.flatMap Offer.taken

/-- Without offers nothing is received. -/
@[simp] theorem received_nil : received [] = [] := rfl

/-- What is received is received offer by offer. -/
@[simp] theorem received_cons (o : Offer) (rest : List Offer) :
    received (o :: rest) = o.taken ++ received rest := List.flatMap_cons

/-- A writer with notes of the offers to it and of the answers to being flushed. It is a writer
itself, so the presenter may be given it in place of the other one. -/
structure Noted (ω : Type) where
  writer : ω
  offers : List Offer
  flushes : List (Except WriteError Unit)

namespace Noted

variable {ω : Type}

/-- A writer that notes are taken of from now on. -/
def start (w : ω) : Noted ω := ⟨w, [], []⟩

instance [Writer ω] : Writer (Noted ω) where
  offer noted bytes :=
    match Writer.offer noted.writer bytes with
    | (answer, w) =>
      (answer, { noted with writer := w, offers := noted.offers ++ [⟨bytes, answer.map Fin.val⟩] })
  flush noted :=
    match Writer.flush noted.writer with
    | (answer, w) => (answer, { noted with writer := w, flushes := noted.flushes ++ [answer] })

/-- An offer is passed on to the writer, and noted together with its answer. -/
theorem offer_eq [Writer ω] (noted : Noted ω) (bytes : List UInt8) :
    Writer.offer noted bytes = ((Writer.offer noted.writer bytes).1,
      { noted with
        writer := (Writer.offer noted.writer bytes).2
        offers := noted.offers ++ [⟨bytes, (Writer.offer noted.writer bytes).1.map Fin.val⟩] }) :=
  rfl

end Noted

/-! ### The offers of some bytes -/

/-- The offers that writing some bytes takes, and how it ends. Each offer is of all that is left,
and there is no further offer once one of them has not been taken at all. -/
inductive Offered : List UInt8 → List Offer → Except WriteError Unit → Prop
  | done : Offered [] [] (.ok ())
  | failed {bytes : List UInt8} (some_left : bytes ≠ []) (e : WriteError) :
    Offered bytes [⟨bytes, .error e⟩] (.error e)
  | stuck {bytes : List UInt8} (some_left : bytes ≠ []) :
    Offered bytes [⟨bytes, .ok 0⟩] (.error .nothingTaken)
  | taken {bytes : List UInt8} {n : Nat} {offers : List Offer} {result : Except WriteError Unit}
    (pos : 0 < n) (rest : Offered (bytes.drop n) offers result) :
    Offered bytes (⟨bytes, .ok n⟩ :: offers) result

namespace Offered

variable {bytes : List UInt8} {offers : List Offer} {result : Except WriteError Unit}

/-- **Where writing succeeds, all bytes are received**, some of them by each offer. An offer begins
where the one before has stopped taking. -/
theorem received_eq (h : Offered bytes offers result) (hok : result = .ok ()) :
    received offers = bytes ∧ ∀ o ∈ offers, 0 < o.count := by
  induction h with
  | done => exact ⟨rfl, List.forall_mem_nil _⟩
  | failed some_left e => exact nomatch hok
  | stuck some_left => exact nomatch hok
  | @taken bytes n offers result pos rest ih =>
    obtain ⟨hrest, hall⟩ := ih hok
    refine ⟨?_, List.forall_mem_cons.mpr ⟨pos, hall⟩⟩
    -- What this offer takes and what the others take make up all bytes.
    rw [received_cons, hrest]
    exact List.take_append_drop n bytes

/-- **Where writing fails, the last offer is refused**, and no offer before it. The bytes received
reach to where that offer begins. -/
theorem refused (h : Offered bytes offers result) {e : WriteError} (herror : result = .error e) :
    ∃ accepted last, offers = accepted ++ [last] ∧ (∀ o ∈ accepted, 0 < o.count) ∧
      (last.answer = .error e ∨ last.answer = .ok 0 ∧ e = .nothingTaken) ∧
      received offers ++ last.bytes = bytes ∧ last.bytes ≠ [] := by
  induction h with
  | done => exact nomatch herror
  | failed some_left reason =>
    cases herror
    exact ⟨[], _, rfl, List.forall_mem_nil _, .inl rfl, rfl, some_left⟩
  | stuck some_left =>
    cases herror
    exact ⟨[], _, rfl, List.forall_mem_nil _, .inr ⟨rfl, rfl⟩, rfl, some_left⟩
  | @taken bytes n offers result pos rest ih =>
    obtain ⟨accepted, last, heq, hall, hanswer, hbytes, hleft⟩ := ih herror
    refine ⟨⟨bytes, .ok n⟩ :: accepted, last, by rw [heq, List.cons_append],
      List.forall_mem_cons.mpr ⟨pos, hall⟩, hanswer, ?_, hleft⟩
    rw [received_cons, List.append_assoc, hbytes]
    exact List.take_append_drop n bytes

end Offered

/-! ### Writing with notes -/

section Writing

variable {ω : Type} [Writer ω]

/-- **Writing with notes.** The writer does the same as without, and the notes are of the offers
that writing these bytes takes. The cases are those of `writeAll`: nothing left, a failure, nothing
taken, and some bytes taken with the rest to be written. -/
theorem writeAll_noted (w : ω) (bytes : List UInt8) (offers : List Offer)
    (flushes : List (Except WriteError Unit)) :
    ∃ more, writeAll (⟨w, offers, flushes⟩ : Noted ω) bytes =
        ((writeAll w bytes).1, ⟨(writeAll w bytes).2, offers ++ more, flushes⟩) ∧
      Offered bytes more (writeAll w bytes).1 := by
  -- The notes so far differ from offer to offer, and are only added to.
  induction w, bytes using writeAll.induct generalizing offers with
  | case1 w =>
    refine ⟨[], ?_, ?_⟩
    · rw [writeAll, if_pos rfl, writeAll, if_pos rfl, List.append_nil]
    · rw [writeAll, if_pos rfl]
      exact .done
  | case2 w bytes hleft e after hoffer =>
    have hplain : writeAll w bytes = (.error e, after) := by
      rw [writeAll, if_neg hleft, hoffer]
    have hnoted : Writer.offer (⟨w, offers, flushes⟩ : Noted ω) bytes =
        (.error e, ⟨after, offers ++ [⟨bytes, .error e⟩], flushes⟩) := by
      rw [Noted.offer_eq, hoffer]
      rfl
    rw [hplain, writeAll, if_neg hleft, hnoted]
    exact ⟨_, rfl, .failed hleft e⟩
  | case3 w bytes hleft n after hoffer hzero =>
    have hplain : writeAll w bytes = (.error .nothingTaken, after) := by
      rw [writeAll, if_neg hleft, hoffer]
      exact if_pos hzero
    have hnoted : Writer.offer (⟨w, offers, flushes⟩ : Noted ω) bytes =
        (.ok n, ⟨after, offers ++ [⟨bytes, .ok 0⟩], flushes⟩) := by
      rw [Noted.offer_eq, hoffer, ← hzero]
      rfl
    rw [hplain, writeAll, if_neg hleft, hnoted]
    exact ⟨_, if_pos hzero, .stuck hleft⟩
  | case4 w bytes hleft n after hoffer hsome ih =>
    have hplain : writeAll w bytes = writeAll after (bytes.drop n) := by
      rw [writeAll, if_neg hleft, hoffer]
      exact if_neg hsome
    have hnoted : Writer.offer (⟨w, offers, flushes⟩ : Noted ω) bytes =
        (.ok n, ⟨after, offers ++ [⟨bytes, .ok n⟩], flushes⟩) := by
      rw [Noted.offer_eq, hoffer]
      rfl
    obtain ⟨more, heq, hmore⟩ := ih (offers ++ [⟨bytes, .ok n⟩])
    refine ⟨⟨bytes, .ok n⟩ :: more, ?_, ?_⟩
    · rw [hplain, writeAll, if_neg hleft, hnoted]
      refine (if_neg hsome).trans (heq.trans ?_)
      rw [List.append_assoc, List.singleton_append]
    · rw [hplain]
      exact .taken (Nat.pos_of_ne_zero hsome) hmore

/-- **Delivering with notes.** Either an offer is refused, and the writer is not flushed; or all
bytes are received, and being flushed decides. -/
theorem deliver_noted (w : ω) (bytes : List UInt8) :
    ∃ offers flushes, deliver (Noted.start w) bytes =
        ((deliver w bytes).1, ⟨(deliver w bytes).2, offers, flushes⟩) ∧
      ((∃ e, (deliver w bytes).1 = .error e ∧ Offered bytes offers (.error e) ∧ flushes = []) ∨
        Offered bytes offers (.ok ()) ∧ flushes = [(deliver w bytes).1]) := by
  -- The writer is flushed after the last offer, so the notes of the offers are those of writing.
  obtain ⟨offers, heq, hoffers⟩ := writeAll_noted w bytes [] []
  rw [List.nil_append] at heq
  rw [deliver, Noted.start, heq, deliver]
  match hplain : writeAll w bytes with
  | (.error e, after) =>
    rw [hplain] at hoffers
    exact ⟨offers, [], rfl, .inl ⟨e, rfl, hoffers, rfl⟩⟩
  | (.ok (), after) =>
    rw [hplain] at hoffers
    exact ⟨offers, [(Writer.flush after).1], rfl, .inr ⟨hoffers, rfl⟩⟩

end Writing

/-! ### Calls of a presenter -/

/-- A call of a presenter: a pixmap, and a writer of any kind, in whatever state it is by then.
Different calls may have writers of different kinds. -/
structure Presentation where
  pixmap : Pixmap
  Kind : Type
  [writes : Writer Kind]
  writer : Kind

attribute [instance] Presentation.writes

namespace Presentation

/-- What the call answers, the presenter after it, and the writer. -/
def carryOut (call : Presentation) (presenter : Presenter) :
    Except WriteError Unit × Presenter × call.Kind :=
  presenter.present call.pixmap call.writer

/-- The same with notes of the writer, which are empty at first. -/
def noted (call : Presentation) : Presentation :=
  ⟨call.pixmap, Noted call.Kind, Noted.start call.writer⟩

end Presentation

namespace Presenter

/-- The bytes of a frame on a grid, as a new presenter composes it. -/
def freshBytes (grid : Grid) (pixmap : Pixmap) : List UInt8 :=
  ((Presenter.new grid).compose pixmap).output.bytes

/-- What calls answer, one after another. -/
def answers : Presenter → List Presentation → List (Except WriteError Unit)
  | _, [] => []
  | presenter, call :: rest =>
    (call.carryOut presenter).1 :: answers (call.carryOut presenter).2.1 rest

/-- The presenter after calls. -/
def after (presenter : Presenter) (calls : List Presentation) : Presenter :=
  calls.foldl (fun presenter call => (call.carryOut presenter).2.1) presenter

@[simp] theorem after_nil (presenter : Presenter) : presenter.after [] = presenter := rfl

@[simp] theorem after_cons (presenter : Presenter) (call : Presentation)
    (rest : List Presentation) :
    presenter.after (call :: rest) = (call.carryOut presenter).2.1.after rest := rfl

/-- **All that a call does.** The bytes of the frame are delivered, and they depend on the grid and
the pixmap alone: composing starts from a cleared output, whatever was left in it. -/
theorem carryOut_eq (presenter : Presenter) (call : Presentation) :
    call.carryOut presenter =
      let delivered := deliver call.writer (freshBytes presenter.grid call.pixmap)
      let composed := (Presenter.new presenter.grid).compose call.pixmap
      (delivered.1,
        ⟨presenter.grid, composed.output, presenter.frames + if delivered.1.isOk then 1 else 0⟩,
        delivered.2) := by
  -- All that is left of the calls before is the count.
  have hcompose : presenter.compose call.pixmap =
      { (Presenter.new presenter.grid).compose call.pixmap with frames := presenter.frames } := rfl
  rw [Presentation.carryOut, present, hcompose]
  dsimp only [freshBytes]
  match deliver call.writer ((Presenter.new presenter.grid).compose call.pixmap).output.bytes with
  | (.ok (), w) => rfl
  | (.error e, w) => rfl

/-- A call does not change the grid. -/
theorem carryOut_grid (presenter : Presenter) (call : Presentation) :
    (call.carryOut presenter).2.1.grid = presenter.grid := by
  rw [carryOut_eq]

/-- A call counts if it succeeds. -/
theorem carryOut_frames (presenter : Presenter) (call : Presentation) :
    (call.carryOut presenter).2.1.frames =
      presenter.frames + if (call.carryOut presenter).1.isOk then 1 else 0 := by
  rw [carryOut_eq]

/-- **A call answers, and does to its writer, what a new presenter would.** All that earlier calls
have left is the count, and it has no part in what is delivered. -/
theorem carryOut_new (presenter : Presenter) (call : Presentation) :
    (call.carryOut presenter).1 = (call.carryOut (.new presenter.grid)).1 ∧
      (call.carryOut presenter).2.2 = (call.carryOut (.new presenter.grid)).2.2 := by
  rw [carryOut_eq, carryOut_eq]
  exact ⟨rfl, rfl⟩

/-- Calls do not change the grid. -/
@[simp] theorem grid_after (presenter : Presenter) (calls : List Presentation) :
    (presenter.after calls).grid = presenter.grid := by
  induction calls generalizing presenter with
  | nil => rfl
  | cons call rest ih => rw [after_cons, ih, carryOut_grid]

/-- Of all calls, those count that succeed. -/
theorem frames_after (presenter : Presenter) (calls : List Presentation) :
    (presenter.after calls).frames =
      presenter.frames + (presenter.answers calls).countP (·.isOk) := by
  induction calls generalizing presenter with
  | nil => rfl
  | cons call rest ih =>
    rw [after_cons, ih, carryOut_frames, answers, List.countP_cons]
    omega

/-- Every call is answered. -/
@[simp] theorem length_answers (presenter : Presenter) (calls : List Presentation) :
    (presenter.answers calls).length = calls.length := by
  induction calls generalizing presenter with
  | nil => rfl
  | cons call rest ih => exact congrArg (· + 1) (ih _)

/-- Later calls are answered by the presenter that earlier ones have left. -/
theorem answers_append (presenter : Presenter) (earlier later : List Presentation) :
    presenter.answers (earlier ++ later) =
      presenter.answers earlier ++ (presenter.after earlier).answers later := by
  induction earlier generalizing presenter with
  | nil => rfl
  | cons call rest ih => exact congrArg (_ :: ·) (ih _)

/-- **Calls with notes.** The presenter and the writer do the same as without. What is noted are the
offers that the bytes of this frame take, and whether the writer was flushed. -/
theorem carryOut_noted (presenter : Presenter) (call : Presentation) :
    ∃ offers flushes, call.noted.carryOut presenter =
        ((call.carryOut presenter).1, (call.carryOut presenter).2.1,
          ⟨(call.carryOut presenter).2.2, offers, flushes⟩) ∧
      let bytes := freshBytes presenter.grid call.pixmap
      ((∃ e, (call.carryOut presenter).1 = .error e ∧ Offered bytes offers (.error e) ∧
          flushes = []) ∨
        Offered bytes offers (.ok ()) ∧ flushes = [(call.carryOut presenter).1]) := by
  obtain ⟨offers, flushes, heq, hoffers⟩ :=
    deliver_noted call.writer (freshBytes presenter.grid call.pixmap)
  have hnoted : deliver call.noted.writer (freshBytes presenter.grid call.noted.pixmap) = _ := heq
  refine ⟨offers, flushes, ?_, ?_⟩
  · rw [carryOut_eq, carryOut_eq, hnoted]
    rfl
  · rw [carryOut_eq]
    exact hoffers

/-! ### The main result -/

/-- **Frames that fail leave no trace.**

Calls are made of a presenter, each with a pixmap and with a writer that may take any part of what
it is offered, or fail, or take nothing. The presenter counts the calls that succeed.

Where a call succeeds, the writer has received the bytes that a new presenter composes for the
pixmap on the same grid, and was flushed. Where it fails, the writer has received a prefix of them:
up to the first offer that it refused, or all of them, if it failed when it was flushed. And all
that a call offers to its writer, and what comes of it, is as with a new presenter: it does not
depend on the calls before, on their pixmaps, or on whether they failed. -/
theorem failures_leave_no_trace (presenter : Presenter) (calls : List Presentation) :
    -- the count
    (presenter.answers calls).length = calls.length ∧
    (presenter.after calls).frames =
      presenter.frames + (presenter.answers calls).countP (·.isOk) ∧
    ∀ (earlier : List Presentation) (call : Presentation) later, calls = earlier ++ call :: later →
      let before := presenter.after earlier
      let fresh := Presenter.new presenter.grid
      let bytes := (fresh.compose call.pixmap).output.bytes
      let result := (call.carryOut before).1
      let notes : Noted call.Kind := (call.noted.carryOut before).2.2
      (presenter.answers calls)[earlier.length]? = some result ∧
      -- to take notes changes nothing
      ((call.noted.carryOut before).1 = result ∧
        (call.noted.carryOut before).2.1 = (call.carryOut before).2.1 ∧
        notes.writer = (call.carryOut before).2.2) ∧
      -- success
      (result = .ok () →
        received notes.offers = bytes ∧ (∀ o ∈ notes.offers, 0 < o.count) ∧
        notes.flushes = [.ok ()]) ∧
      -- failure
      (∀ e, result = .error e →
        received notes.offers <+: bytes ∧
        ((∃ accepted last, notes.offers = accepted ++ [last] ∧ (∀ o ∈ accepted, 0 < o.count) ∧
            (last.answer = .error e ∨ last.answer = .ok 0 ∧ e = .nothingTaken) ∧
            received notes.offers ++ last.bytes = bytes ∧ last.bytes ≠ [] ∧ notes.flushes = []) ∨
          (received notes.offers = bytes ∧ (∀ o ∈ notes.offers, 0 < o.count) ∧
            notes.flushes = [.error e]))) ∧
      -- earlier calls
      result = (call.carryOut fresh).1 ∧ notes = (call.noted.carryOut fresh).2.2 := by
  refine ⟨presenter.length_answers calls, presenter.frames_after calls, ?_⟩
  rintro earlier call later rfl before fresh bytes result notes
  have hgrid : before.grid = presenter.grid := presenter.grid_after earlier
  obtain ⟨offers, flushes, hnoted, hoffers⟩ := before.carryOut_noted call
  have hnotes : notes = ⟨(call.carryOut before).2.2, offers, flushes⟩ := congrArg (·.2.2) hnoted
  rw [hgrid] at hoffers
  refine ⟨?answer, ?unchanged, ?success, ?failure, ?result, ?notes⟩
  case answer =>
    rw [answers_append, List.getElem?_append_right (Nat.le_of_eq (length_answers _ _)),
      length_answers, Nat.sub_self]
    rfl
  case unchanged =>
    -- The writer inside the notes is the one that would have been given alone.
    exact ⟨congrArg (·.1) hnoted, congrArg (·.2.1) hnoted, congrArg Noted.writer hnotes⟩
  case success =>
    intro hok
    rw [hnotes]
    rcases hoffers with ⟨e, herror, -⟩ | ⟨hall, hflushes⟩
    · exact nomatch hok.symm.trans herror
    · obtain ⟨hreceived, htaken⟩ := hall.received_eq rfl
      exact ⟨hreceived, htaken, hflushes.trans (congrArg (fun answer => [answer]) hok)⟩
  case failure =>
    intro e herror
    rw [hnotes]
    rcases hoffers with ⟨reason, hreason, hrefused, hflushes⟩ | ⟨hall, hflushes⟩
    · -- An offer was refused: the bytes received end where it begins.
      cases hreason.symm.trans herror
      obtain ⟨accepted, last, heq, haccepted, hanswer, hbytes, hleft⟩ := hrefused.refused rfl
      exact ⟨⟨last.bytes, hbytes⟩,
        .inl ⟨accepted, last, heq, haccepted, hanswer, hbytes, hleft, hflushes⟩⟩
    · obtain ⟨hreceived, htaken⟩ := hall.received_eq rfl
      exact ⟨⟨[], (List.append_nil _).trans hreceived⟩,
        .inr ⟨hreceived, htaken, hflushes.trans (congrArg (fun answer => [answer]) herror)⟩⟩
  case result =>
    have hnew := (before.carryOut_new call).1
    rwa [hgrid] at hnew
  case notes =>
    have hnew := (before.carryOut_new call.noted).2
    rwa [hgrid] at hnew

end Presenter

end Easel.Terminal
