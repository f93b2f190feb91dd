import Easel.Proofs.Numeric.Numeral
import Easel.Script.Command

/-!
# Arguments

An argument of a command is a numeral, and what it is read as is the double nearest to the number
that the numeral denotes. Numbers that no finite double is near to are refused, and so are the names
of infinities and NaNs.

* `Decimal.finite?_eq_some_iff_isNearest` — what a text is read as;
* `Script.Command.number_reads_nearest` — when an argument is read at all, as what, and that doubles
  which are written out come back.
-/

namespace Easel

open Decimal (Denotes Sign)

namespace Binary64

/-- A word is the bits of the double that it makes up, so nothing of it is lost. -/
@[simp] theorem toBits_ofBits (word : UInt64) : (ofBits word).toBits = word := by
  have hlt := word.toNat_lt
  refine UInt64.toNat_inj.mp ?_
  rw [toBits_toNat]
  unfold ofBits
  dsimp only
  split
  · next h => rw [decide_eq_true_eq] at h; omega
  · next h => rw [decide_eq_true_eq] at h; omega

end Binary64

/-! ### Numerals as doubles -/

namespace Decimal

variable {token : String} {negative : Bool} {v : ℚ} {x : Binary64}

/-- A text is read if it is a numeral whose value is below the halfway point behind the last double,
and then as what its value is rounded to. -/
theorem finite?_eq_some_iff : finite? token = some x ↔
    ∃ d, parse? token.toList = some d ∧ |d.value| < 2 ^ 1024 - 2 ^ 970 ∧ d.toBinary64 = x := by
  unfold finite?
  split
  · next hnone =>
    rw [hnone]
    exact ⟨nofun, fun ⟨_, h, _⟩ => absurd h nofun⟩
  · next d hsome =>
    rw [hsome]
    split
    · next hfinite =>
      rw [d.isRounded_toBinary64.isFinite_iff] at hfinite
      constructor
      · rintro ⟨⟩
        exact ⟨d, rfl, hfinite, rfl⟩
      · rintro ⟨_, ⟨⟩, -, rfl⟩
        rfl
    · next hinfinite =>
      rw [d.isRounded_toBinary64.isFinite_iff] at hinfinite
      refine ⟨nofun, ?_⟩
      rintro ⟨_, ⟨⟩, hlt, -⟩
      exact absurd hlt hinfinite

/-- **A text is read as the double nearest to the number that it denotes**, with its sign. The
statement speaks of the grammar and of distances only, not of how digits are collected. -/
theorem finite?_eq_some_iff_isNearest : finite? token = some x ↔
    ∃ negative v, Denotes token.toList negative v ∧ |v| < 2 ^ 1024 - 2 ^ 970 ∧
      x.negative = negative ∧ x.IsNearest v := by
  rw [finite?_eq_some_iff]
  constructor
  · rintro ⟨d, hd, hlt, rfl⟩
    exact ⟨d.negative, d.value, denotes_of_parse? hd, hlt, negative_toBinary64 d,
      d.isRounded_toBinary64.isNearest hlt⟩
  -- The nearest double with the right sign is unique, so it is the one that the numeral is rounded
  -- to.
  · rintro ⟨negative, v, hdenotes, hlt, hsign, hnear⟩
    obtain ⟨d, hd, rfl, rfl⟩ := denotes_iff.mp hdenotes
    have hrounded : x.IsRounded d.value := hnear.isRounded (hsign ▸ d.signFits_value) hlt
    refine ⟨d, hd, hlt, d.isRounded_toBinary64.eq hrounded ?_⟩
    rw [negative_toBinary64, hsign]

/-- A text is read at all exactly if it denotes a number below the halfway point. -/
theorem exists_finite?_iff : (∃ x, finite? token = some x) ↔
    ∃ negative v, Denotes token.toList negative v ∧ |v| < 2 ^ 1024 - 2 ^ 970 := by
  constructor
  · rintro ⟨x, hx⟩
    obtain ⟨negative, v, hdenotes, hlt, -⟩ := finite?_eq_some_iff_isNearest.mp hx
    exact ⟨negative, v, hdenotes, hlt⟩
  · rintro ⟨negative, v, hdenotes, hlt⟩
    obtain ⟨d, hd, -, rfl⟩ := denotes_iff.mp hdenotes
    exact ⟨d.toBinary64, finite?_eq_some_iff.mpr ⟨d, hd, hlt, rfl⟩⟩

/-- A text that denotes just the value of a double is read as that double, its sign included, which
tells the two zeros apart. -/
theorem finite?_of_denotes_value (hx : x.IsFinite) (h : Denotes token.toList x.negative x.value) :
    finite? token = some x := by
  have hlt := hx.isRounded_value.isFinite_iff.mp hx
  exact finite?_eq_some_iff_isNearest.mpr ⟨_, _, h, hlt, rfl, hx.isRounded_value.isNearest hlt⟩

/-! ### Names -/

/-- Digits have no other case. -/
theorem toLower_of_isDigit {c : Char} (h : c.isDigit = true) : c.toLower = c := by
  unfold Char.toLower
  refine dif_neg fun hupper => ?_
  simp only [Char.isDigit, Bool.and_eq_true, decide_eq_true_eq, ge_iff_le,
    UInt32.le_iff_toNat_le] at h hupper
  have hlast : '9'.val.toNat < 'A'.val.toNat := by decide
  omega

/-- A text that goes on with a letter, behind its sign, is no numeral: neither a digit nor a point
is to be found where the number should begin. -/
theorem parse?_name {sign rest : List Char} {c : Char} (hsign : Sign sign negative)
    (hc : c.toLower = 'i' ∨ c.toLower = 'n') : parse? (sign ++ c :: rest) = none := by
  have hdigit : c.isDigit = false := by
    by_contra hdigit
    rw [Bool.not_eq_false] at hdigit
    rw [toLower_of_isDigit hdigit] at hc
    rcases hc with rfl | rfl <;> exact absurd hdigit (by decide)
  have hmarks : c ≠ '.' ∧ c ≠ '+' ∧ c ≠ '-' := by
    refine ⟨?_, ?_, ?_⟩ <;> rintro rfl <;> exact absurd hc (by decide)
  have hsplit : splitSign (sign ++ c :: rest) = (negative, c :: rest) := by
    refine splitSign_append hsign ?_
    rintro _ ⟨⟩
    exact hmarks.2
  have hfraction : splitFraction (c :: rest) = ([], c :: rest) := by
    unfold splitFraction
    split
    · next h => exact absurd (List.cons.inj h).1 hmarks.1
    · rfl
  have hstart : ¬ c.isDigit = true := Bool.eq_false_iff.mp hdigit
  unfold parse?
  rw [hsplit]
  dsimp only
  rw [List.takeWhile_cons_of_neg hstart, List.dropWhile_cons_of_neg hstart, hfraction]
  exact if_pos rfl

/-- The names of infinities and NaNs are not read, in whatever case they are written. -/
theorem finite?_name {sign word : List Char} (hsign : Sign sign negative)
    (hword : String.ofList (word.map Char.toLower) ∈ ["inf", "infinity", "nan"])
    (htoken : token.toList = sign ++ word) : finite? token = none := by
  obtain ⟨c, rest, rfl, hc⟩ : ∃ c rest, word = c :: rest ∧ (c.toLower = 'i' ∨ c.toLower = 'n') := by
    -- Each of the names begins with one of two letters, and that is enough to tell it from a
    -- numeral.
    cases word with
    | nil => exact absurd hword (by decide)
    | cons c rest =>
      refine ⟨c, rest, rfl, ?_⟩
      have hfirst : ∀ name : String, String.ofList ((c :: rest).map Char.toLower) = name →
          name.toList.head? = some c.toLower := fun name h => by
        rw [← h, String.toList_ofList, List.map_cons, List.head?_cons]
      rcases List.mem_cons.mp hword with h | h
      · exact .inl (Option.some.inj (hfirst _ h)).symm
      rcases List.mem_cons.mp h with h | h
      · exact .inl (Option.some.inj (hfirst _ h)).symm
      · exact .inr (Option.some.inj (hfirst _ (List.mem_singleton.mp h))).symm
  unfold finite?
  rw [htoken, parse?_name hsign hc]

end Decimal

/-! ### Arguments -/

namespace Script.Command

variable {line : Nat} {keyword : Keyword} {token : String} {x : Binary64}

/-- An argument is a number exactly if its text is read as one. -/
theorem number_eq_ok_iff : number line keyword token = .ok x ↔ Decimal.finite? token = some x := by
  unfold number
  split
  · next h =>
    rw [h]
    exact ⟨fun h => congrArg some (Except.ok.inj h), fun h => congrArg _ (Option.some.inj h)⟩
  · next h =>
    rw [h]
    exact ⟨nofun, nofun⟩

/-- An argument that is not read is an error, which names the line, the keyword and the text. -/
theorem number_eq_error_iff {e : ParseError} : number line keyword token = .error e ↔
    Decimal.finite? token = none ∧
      e = .malformedArguments line keyword keyword.arity (some token) := by
  unfold number
  split
  · next h =>
    rw [h]
    exact ⟨nofun, fun h => absurd h.1 nofun⟩
  · next h =>
    rw [h]
    exact ⟨fun h => ⟨rfl, (Except.error.inj h).symm⟩, fun h => congrArg _ h.2.symm⟩

/-- **An argument is read as the double nearest to the number that it denotes, if it denotes one and
that double is finite.** -/
theorem number_reads_nearest (line : Nat) (keyword : Keyword) (token : String) :
    -- It is read if it denotes a number below the halfway point between the last double and
    -- infinity.
    ((∃ x, number line keyword token = .ok x) ↔
      ∃ negative v, Denotes token.toList negative v ∧ |v| < 2 ^ 1024 - 2 ^ 970) ∧
    -- What it is read as has the sign that is written, and no finite double is nearer to the
    -- number;
    (∀ x, number line keyword token = .ok x ↔
      ∃ negative v, Denotes token.toList negative v ∧ |v| < 2 ^ 1024 - 2 ^ 970 ∧
        x.negative = negative ∧ x.IsNearest v) ∧
    -- anything else is an error that names it,
    ((∀ negative v, Denotes token.toList negative v → 2 ^ 1024 - 2 ^ 970 ≤ |v|) →
      number line keyword token =
        .error (.malformedArguments line keyword keyword.arity (some token))) ∧
    -- as are the names of what is not finite, in letters of either case.
    (∀ sign word negative, Sign sign negative → token.toList = sign ++ word →
      String.ofList (word.map Char.toLower) ∈ ["inf", "infinity", "nan"] →
      number line keyword token =
        .error (.malformedArguments line keyword keyword.arity (some token))) ∧
    -- A numeral for just the value of a double is read as this double,
    (∀ x : Binary64, x.IsFinite → Denotes token.toList x.negative x.value →
      number line keyword token = .ok x) ∧
    -- so a word whose double is written out is read back.
    (∀ word : UInt64, (Binary64.ofBits word).IsFinite →
      token = String.ofList (Binary64.ofBits word).expansion →
      ∃ x, number line keyword token = .ok x ∧ x.toBits = word) := by
  have hexact : ∀ x : Binary64, x.IsFinite → Denotes token.toList x.negative x.value →
      number line keyword token = .ok x := fun x hx h =>
    number_eq_ok_iff.mpr (Decimal.finite?_of_denotes_value hx h)
  refine ⟨?_, fun x => ?_, fun hbeyond => ?_, fun sign word negative hsign htoken hword => ?_,
    hexact, fun word hfinite htoken => ?_⟩
  · rw [← Decimal.exists_finite?_iff]
    exact exists_congr fun x => number_eq_ok_iff
  · rw [number_eq_ok_iff, Decimal.finite?_eq_some_iff_isNearest]
  · refine number_eq_error_iff.mpr ⟨?_, rfl⟩
    -- If it were read, the number that it denotes would be below the halfway point.
    rw [Option.eq_none_iff_forall_ne_some]
    intro x hx
    obtain ⟨negative, v, hdenotes, hlt⟩ := Decimal.exists_finite?_iff.mp ⟨x, hx⟩
    exact absurd hlt (not_lt.mpr (hbeyond negative v hdenotes))
  · exact number_eq_error_iff.mpr ⟨Decimal.finite?_name hsign hword htoken, rfl⟩
  · refine ⟨Binary64.ofBits word, hexact _ hfinite ?_, Binary64.toBits_ofBits word⟩
    rw [htoken, String.toList_ofList]
    exact (Binary64.ofBits word).denotes_expansion

end Script.Command

end Easel
