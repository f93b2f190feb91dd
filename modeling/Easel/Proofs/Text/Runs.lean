import Easel.Text.Token
import Mathlib.Data.List.Sort

/-!
# Tokens are the longest runs

A run is a stretch of a line without a blank that cannot be made longer at either end. The tokens of
a text are its runs, all of them, from left to right.

* `IsRun` — a run by where it starts and stops; `RunsOf` — the words of all the runs;
* `hasRuns_tokensFrom` — what is found from a place on; `runsOf_iff` — the runs are the tokens.
-/

namespace Easel.Text

/-- The characters from `start` on are not blank up to `stop`, and there is a blank or an end of the
line on either side. -/
structure IsRun (chars : List Char) (start stop : Nat) : Prop where
  lt : start < stop
  le : stop ≤ chars.length
  inside : ∀ i c, start ≤ i → i < stop → chars[i]? = some c → isBlank c = false
  before : ∀ i c, i + 1 = start → chars[i]? = some c → isBlank c = true
  after : ∀ c, chars[stop]? = some c → isBlank c = true

/-- The words are what the runs that start at certain places consist of, with no such run left out
or out of order. Runs do not overlap, so their order is that of where they start. -/
def HasRuns (chars : List Char) (starts : Nat → Prop) (words : List (List Char)) : Prop :=
  ∃ spans : List (Nat × Nat), spans.Pairwise (fun earlier later => earlier.1 < later.1) ∧
    (∀ start stop, (start, stop) ∈ spans ↔ starts start ∧ IsRun chars start stop) ∧
    words = spans.map fun span => chars.extract span.1 span.2

/-- The words are all the runs of the text, from left to right. This says nothing about how they are
found. -/
def RunsOf (text : String) (words : List String) : Prop :=
  HasRuns text.toList (fun _ => True) (words.map String.toList)

/-- From `first` up to `last` there is no blank, nor anything but a blank right before it: this is
the stretch that has been passed, last character first. -/
structure IsPassed (chars passed : List Char) (first last : Nat) : Prop where
  reverse_eq : passed.reverse = chars.extract first last
  first_le : first ≤ last
  last_le : last ≤ chars.length
  inside : ∀ i c, first ≤ i → i < last → chars[i]? = some c → isBlank c = false
  before : ∀ i c, i + 1 = first → chars[i]? = some c → isBlank c = true

section Runs

variable {chars passed : List Char} {starts starts' : Nat → Prop} {words words' : List (List Char)}
  {start stop first last : Nat}

/-! ### Lists of runs -/

/-- Runs that start earlier and runs that start later are the runs that start in either part. -/
theorem HasRuns.append (h : HasRuns chars starts words) (h' : HasRuns chars starts' words')
    (horder : ∀ a b, starts a → starts' b → a < b) :
    HasRuns chars (fun start => starts start ∨ starts' start) (words ++ words') := by
  obtain ⟨spans, hsorted, hmem, rfl⟩ := h
  obtain ⟨spans', hsorted', hmem', rfl⟩ := h'
  refine ⟨spans ++ spans', List.pairwise_append.mpr ⟨hsorted, hsorted',
    fun span hspan span' hspan' => ?_⟩, fun start stop => ?_, List.map_append.symm⟩
  · exact horder _ _ ((hmem _ _).mp hspan).1 ((hmem' _ _).mp hspan').1
  · rw [List.mem_append, hmem, hmem', ← or_and_right]

/-- No run starts behind the end, so only the places before it need to be looked at. -/
theorem HasRuns.congr (h : HasRuns chars starts words)
    (hstarts : ∀ start < chars.length, starts start ↔ starts' start) :
    HasRuns chars starts' words := by
  obtain ⟨spans, hsorted, hmem, rfl⟩ := h
  refine ⟨spans, hsorted, fun start stop => (hmem start stop).trans ?_, rfl⟩
  exact and_congr_left fun hrun => hstarts start (hrun.lt.trans_le hrun.le)

/-- Runs in order are the same runs. Which runs there are is settled by the line, and so is their
order. -/
theorem HasRuns.unique (h : HasRuns chars starts words) (h' : HasRuns chars starts words') :
    words = words' := by
  obtain ⟨spans, hsorted, hmem, rfl⟩ := h
  obtain ⟨spans', hsorted', hmem', rfl⟩ := h'
  have hnodup : ∀ {spans : List (Nat × Nat)},
      spans.Pairwise (fun earlier later => earlier.1 < later.1) → spans.Nodup := fun h =>
    h.imp fun hlt heq => absurd (heq ▸ hlt) (lt_irrefl _)
  have hperm : spans.Perm spans' := (List.perm_ext_iff_of_nodup (hnodup hsorted)
    (hnodup hsorted')).mpr fun ⟨start, stop⟩ => (hmem start stop).trans (hmem' start stop).symm
  have heq : spans = spans' := hperm.eq_of_pairwise
    (fun _ _ _ _ hlt hgt => absurd hlt hgt.asymm) hsorted hsorted'
  rw [heq]

/-! ### The stretch that has been passed -/

/-- Where a blank or the beginning of the line stands right before, nothing has been passed yet. -/
theorem isPassed_nil (hlast : last ≤ chars.length)
    (hbefore : ∀ i c, i + 1 = last → chars[i]? = some c → isBlank c = true) :
    IsPassed chars [] last last where
  reverse_eq := by
    rw [List.extract_eq_take_drop, Nat.sub_self]
    rfl
  first_le := le_rfl
  last_le := hlast
  inside _ _ hge hlt := absurd hge (Nat.not_le_of_lt hlt)
  before := hbefore

/-- A character that is no blank makes the stretch longer by one. -/
theorem IsPassed.cons {c : Char} (h : IsPassed chars passed first last) (hc : chars[last]? = some c)
    (hword : isBlank c = false) : IsPassed chars (c :: passed) first (last + 1) where
  reverse_eq := by
    have hdrop : (chars.drop first)[last - first]? = some c := by
      rw [List.getElem?_drop, Nat.add_sub_cancel' h.first_le, hc]
    rw [List.reverse_cons, h.reverse_eq, List.extract_eq_take_drop, List.extract_eq_take_drop,
      Nat.succ_sub h.first_le, List.take_add_one, hdrop]
    rfl
  first_le := h.first_le.trans (Nat.le_succ last)
  last_le := (List.getElem?_eq_some_iff.mp hc).1
  inside i d hge hlt hd := by
    rcases Nat.lt_succ_iff_lt_or_eq.mp hlt with hi | rfl
    · exact h.inside i d hge hi hd
    · rw [← Option.some.inj (hc.symm.trans hd), hword]
  before := h.before

/-- If a blank or the end follows the stretch, there is no run in it but the whole of it. A shorter
one could be made longer, and a longer one would have a blank in it. -/
theorem IsPassed.isRun_iff (h : IsPassed chars passed first last)
    (hafter : ∀ c, chars[last]? = some c → isBlank c = true) (hfirst : first ≤ start)
    (hstart : start ≤ last) :
    IsRun chars start stop ↔ first < last ∧ start = first ∧ stop = last := by
  constructor
  · intro hrun
    have hlt := hrun.lt
    have hle := hrun.le
    have hlast := h.last_le
    -- No place holds a character that is blank and is not.
    have hnot : ∀ i, i < chars.length → (∀ c, chars[i]? = some c → isBlank c = true) →
        ¬ ∀ c, chars[i]? = some c → isBlank c = false := fun i hi hblank hword =>
      Bool.false_ne_true ((hword _ (List.getElem?_eq_getElem hi)).symm.trans
        (hblank _ (List.getElem?_eq_getElem hi)))
    -- Each of the four would put a place on the wrong side of a blank.
    have hnotAtEnd : start ≠ last := fun heq =>
      hnot last (by omega) hafter fun c => hrun.inside last c (by omega) (by omega)
    have hnotLater : ¬ first < start := fun hgt =>
      hnot (start - 1) (by omega) (fun c => hrun.before (start - 1) c (by omega))
        fun c => h.inside (start - 1) c (by omega) (by omega)
    have hnotShorter : ¬ stop < last := fun hlt' =>
      hnot stop (by omega) hrun.after fun c => h.inside stop c (by omega) hlt'
    have hnotLonger : ¬ last < stop := fun hgt =>
      hnot last (by omega) hafter fun c => hrun.inside last c hstart hgt
    omega
  · rintro ⟨hlt, rfl, rfl⟩
    exact ⟨hlt, h.last_le, h.inside, h.before, hafter⟩

/-- If a blank or the end follows the stretch, its only run is the token that is closed there, and
there is none if nothing has been passed. -/
theorem IsPassed.hasRuns_closeToken (h : IsPassed chars passed first last)
    (hafter : ∀ c, chars[last]? = some c → isBlank c = true) :
    HasRuns chars (fun start => first ≤ start ∧ start ≤ last) (closeToken passed) := by
  have hle := h.first_le
  have hcount : passed.length = last - first := by
    have hlast := h.last_le
    rw [← List.length_reverse, h.reverse_eq, List.extract_eq_take_drop, List.length_take,
      List.length_drop]
    omega
  cases passed with
  | nil =>
    rw [List.length_nil] at hcount
    -- Nothing has been passed, so there is no run.
    refine ⟨[], .nil, fun start stop => ⟨nofun, fun ⟨hin, hrun⟩ => ?_⟩, rfl⟩
    have := ((h.isRun_iff hafter hin.1 hin.2).mp hrun).1
    omega
  | cons c rest =>
    rw [List.length_cons] at hcount
    refine ⟨[(first, last)], List.pairwise_singleton _ _, fun start stop => ?_, ?_⟩
    · rw [List.mem_singleton, Prod.mk.injEq]
      constructor
      · rintro ⟨rfl, rfl⟩
        exact ⟨⟨le_rfl, hle⟩, (h.isRun_iff hafter le_rfl hle).mpr ⟨by omega, rfl, rfl⟩⟩
      · exact fun ⟨hin, hrun⟩ => ((h.isRun_iff hafter hin.1 hin.2).mp hrun).2
    · rw [closeToken_cons, h.reverse_eq]
      rfl

/-! ### Tokens -/

/-- **From the start of the stretch that has been passed, the runs are the tokens that are still
found.** The induction is on what is left of the line. A blank closes the stretch and begins an
empty one, and any other character makes it longer. -/
theorem hasRuns_tokensFrom (line : List Char) : ∀ {passed : List Char} {first last : Nat},
    IsPassed chars passed first last → chars.drop last = line →
    HasRuns chars (fun start => first ≤ start) (tokensFrom passed line) := by
  induction line with
  | nil =>
    intro passed first last h hline
    have hlast : chars.length ≤ last := List.drop_eq_nil_iff.mp hline
    have hend : ∀ c, chars[last]? = some c → isBlank c = true := fun c hc => by
      rw [List.getElem?_eq_none hlast] at hc
      exact absurd hc nofun
    exact (h.hasRuns_closeToken hend).congr fun start hstart =>
      and_iff_left (hstart.le.trans hlast)
  | cons c rest ih =>
    intro passed first last h hline
    have hc : chars[last]? = some c := by
      rw [← List.head?_drop, hline, List.head?_cons]
    have hrest : chars.drop (last + 1) = rest := by
      rw [← List.tail_drop, hline, List.tail_cons]
    cases hblank : isBlank c with
    | true =>
      have hatLast : ∀ d, chars[last]? = some d → isBlank d = true := fun d hd => by
        rw [← Option.some.inj (hc.symm.trans hd), hblank]
      -- Behind the blank nothing has been passed yet.
      have hnext : IsPassed chars [] (last + 1) (last + 1) :=
        isPassed_nil (List.getElem?_eq_some_iff.mp hc).1 fun i d hi =>
          Nat.succ_inj.mp hi ▸ hatLast d
      rw [tokensFrom, if_pos hblank]
      -- The runs up to the blank come first, and none of them starts behind it.
      refine ((h.hasRuns_closeToken hatLast).append (ih hnext hrest) fun a b ha hb => ?_).congr
        fun start _ => ?_
      · exact Nat.lt_of_le_of_lt ha.2 hb
      · have := h.first_le
        omega
    | false =>
      rw [tokensFrom, if_neg (Bool.eq_false_iff.mp hblank)]
      exact ih (h.cons hc hblank) hrest

end Runs

/-- **The runs of a text are its tokens**, and so the tokens can be told without saying how they are
found. -/
theorem runsOf_iff {text : String} {words : List String} :
    RunsOf text words ↔ words = tokens text := by
  have htokens : RunsOf text (tokens text) := by
    have h := hasRuns_tokensFrom text.toList (isPassed_nil (Nat.zero_le _) fun _ _ h =>
      absurd h (Nat.succ_ne_zero _)) rfl
    have hlists : (tokens text).map String.toList = tokensFrom [] text.toList := by
      rw [tokens, List.map_map]
      exact (List.map_congr_left fun _ _ => String.toList_ofList).trans (List.map_id _)
    unfold RunsOf
    rw [hlists]
    exact h.congr fun _ _ => iff_of_true (Nat.zero_le _) trivial
  constructor
  · intro h
    exact List.map_injective_iff.mpr (fun _ _ => String.toList_inj.mp) (h.unique htokens)
  · rintro rfl
    exact htokens

example : RunsOf "  figure\t0.5 \u2003-1 " ["figure", "0.5", "-1"] :=
  runsOf_iff.mpr (by decide)

end Easel.Text
