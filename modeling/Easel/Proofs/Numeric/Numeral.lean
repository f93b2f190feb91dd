import Easel.Proofs.Numeric.Nearest
import Mathlib.Data.List.TakeWhile
import Mathlib.Data.Nat.Digits.Lemmas

/-!
# Numerals

The grammar of numerals, and the exact number that each numeral denotes: a sign, digits with a point
among them, and an exponent. The reader of numerals accepts what the grammar has and nothing else.

* `numberOf` — the number that a row of digits is, by their places;
* `Denotes` — a text is a numeral for a number; `denotes_iff` — the reader finds just this
  number;
* `Binary64.expansion` — a double written out, with a numeral for exactly its value.
-/

namespace Easel

namespace Decimal

/-! ### The grammar -/

/-- The number that digits are, by their places. The library counts places from the lowest one, so
the digits are turned around. -/
def numberOf (digits : List Char) : Nat := Nat.ofDigits 10 (digits.reverse.map digitValue)

/-- Nothing, a plus or a minus; `true` stands for the minus. -/
inductive Sign : List Char → Bool → Prop where
  | none : Sign [] false
  | plus : Sign ['+'] false
  | minus : Sign ['-'] true

/-- Digits that may have a point among them, with those before it and those behind it. Either part
may be without digits here. -/
inductive Pointed : List Char → List Char → List Char → Prop where
  | without (whole : List Char) : Pointed whole whole []
  | point (whole fraction : List Char) : Pointed (whole ++ '.' :: fraction) whole fraction

/-- Nothing, or a mark, a sign and at least one digit, with the exponent that they write. -/
inductive Exponent : List Char → Int → Prop where
  | none : Exponent [] 0
  | marked {mark : Char} {sign digits : List Char} {negative : Bool}
      (hmark : mark = 'e' ∨ mark = 'E') (hsign : Sign sign negative) (hne : digits ≠ [])
      (hdigits : ∀ c ∈ digits, c.isDigit = true) :
      Exponent (mark :: (sign ++ digits)) (if negative then -numberOf digits else numberOf digits)

/-- The text is a numeral, with its sign and the number that it denotes. The sign is told apart,
since zero can have either. -/
inductive Denotes : List Char → Bool → ℚ → Prop where
  | numeral {sign text whole fraction tail : List Char} {negative : Bool} {exponent : Int}
      {absolute : ℚ}
      (hsign : Sign sign negative) (htext : Pointed text whole fraction)
      (hne : whole ++ fraction ≠ []) (hdigits : ∀ c ∈ whole ++ fraction, c.isDigit = true)
      (htail : Exponent tail exponent)
      (habsolute :
        absolute = (numberOf whole + numberOf fraction / 10 ^ fraction.length) * 10 ^ exponent) :
      Denotes (sign ++ (text ++ tail)) negative (if negative then -absolute else absolute)

/-! ### Digits -/

/-- Digits in front count for more places. -/
theorem numberOf_append (front back : List Char) :
    numberOf (front ++ back) = numberOf front * 10 ^ back.length + numberOf back := by
  unfold numberOf
  rw [List.reverse_append, List.map_append, Nat.ofDigits_append, List.length_map,
    List.length_reverse, Nat.add_comm, Nat.mul_comm]

/-- The reader adds digits up from the left, and comes to the number by their places. The induction
takes off the last digit, as the reader adds it last. -/
theorem ofDigits_eq (digits : List Char) : ofDigits digits = numberOf digits := by
  induction digits using List.reverseRecOn with
  | nil => rfl
  | append_singleton front c ih =>
    unfold ofDigits at ih ⊢
    rw [List.foldl_append, ih, numberOf_append, List.length_singleton, Nat.pow_one, Nat.mul_comm]
    rfl

/-- The digits behind the point count as digits, and lower the exponent. So the reader keeps whole
numbers only. -/
theorem value_of_parts (whole fraction : List Char) (exponent : Int) :
    (numberOf (whole ++ fraction) : ℚ) * 10 ^ (exponent - fraction.length) =
      (numberOf whole + numberOf fraction / 10 ^ fraction.length) * 10 ^ exponent := by
  rw [numberOf_append, zpow_sub₀ (by norm_num), zpow_natCast]
  push_cast
  field_simp

/-! ### The reader -/

/-- The text does not begin with a digit. A row of digits is read up to here. -/
def StopsDigits (rest : List Char) : Prop := ∀ c ∈ rest.head?, c.isDigit = false

/-- Reading digits up to such a text takes all of them. -/
theorem takeWhile_digits {digits rest : List Char} (h : ∀ c ∈ digits, c.isDigit = true)
    (hrest : StopsDigits rest) : (digits ++ rest).takeWhile Char.isDigit = digits := by
  rw [List.takeWhile_append_of_pos h]
  cases rest with
  | nil => rw [List.takeWhile_nil, List.append_nil]
  | cons c rest =>
    rw [List.takeWhile_cons_of_neg (by simpa using hrest c rfl), List.append_nil]

/-- Reading digits up to such a text leaves this text. -/
theorem dropWhile_digits {digits rest : List Char} (h : ∀ c ∈ digits, c.isDigit = true)
    (hrest : StopsDigits rest) : (digits ++ rest).dropWhile Char.isDigit = rest := by
  rw [List.dropWhile_append_of_pos h]
  cases rest with
  | nil => rfl
  | cons c rest => exact List.dropWhile_cons_of_neg (by simpa using hrest c rfl)

/-- Every text begins with a sign, if only with the empty one. -/
theorem exists_sign (chars : List Char) : ∃ sign, Sign sign (splitSign chars).1 ∧
    chars = sign ++ (splitSign chars).2 := by
  unfold splitSign
  split
  · exact ⟨_, .minus, rfl⟩
  · exact ⟨_, .plus, rfl⟩
  · exact ⟨_, .none, rfl⟩

/-- A sign is split off whole, if what follows it is not a sign itself. -/
theorem splitSign_append {sign rest : List Char} {negative : Bool} (h : Sign sign negative)
    (hrest : ∀ c ∈ rest.head?, c ≠ '+' ∧ c ≠ '-') :
    splitSign (sign ++ rest) = (negative, rest) := by
  cases h with
  | plus => rfl
  | minus => rfl
  | none =>
    rw [List.nil_append]
    unfold splitSign
    split
    · exact absurd rfl (hrest '-' rfl).2
    · exact absurd rfl (hrest '+' rfl).1
    · rfl

/-- A digit is no sign. -/
theorem ne_sign_of_isDigit {c : Char} (h : c.isDigit = true) : c ≠ '+' ∧ c ≠ '-' := by
  constructor <;> rintro rfl <;> exact absurd h (by decide)

/-- The reader of exponents reads what the grammar has, both ways. -/
theorem exponent?_eq_some_iff {chars : List Char} {e : Int} :
    exponent? chars = some e ↔ Exponent chars e := by
  constructor
  · intro h
    unfold exponent? at h
    split at h
    · cases h
      exact .none
    · next mark rest =>
      obtain ⟨sign, hsign, hrest⟩ := exists_sign rest
      dsimp only at h
      generalize (splitSign rest).1 = negative at h hsign
      generalize (splitSign rest).2 = digits at h hrest
      split at h
      · next hmarked =>
        obtain ⟨hmark, hne, hdigits⟩ := hmarked
        cases h
        rw [hrest, ofDigits_eq]
        exact .marked hmark hsign hne (List.all_eq_true.mp hdigits)
      · exact absurd h nofun
  -- The digits begin with no sign, so the sign that is split off is the one that was written.
  · intro h
    cases h with
    | none => rfl
    | @marked mark sign digits negative hmark hsign hne hdigits =>
      have hsplit : splitSign (sign ++ digits) = (negative, digits) :=
        splitSign_append hsign fun c hc => ne_sign_of_isDigit (hdigits c (List.mem_of_mem_head? hc))
      unfold exponent?
      dsimp only
      rw [hsplit, if_pos ⟨hmark, hne, List.all_eq_true.mpr hdigits⟩, ofDigits_eq]

/-- An exponent does not begin with a digit, so it stops the digits before it. -/
theorem Exponent.stopsDigits {tail : List Char} {e : Int} (h : Exponent tail e) :
    StopsDigits tail := by
  cases h with
  | none => exact nofun
  | marked hmark =>
    rintro c ⟨⟩
    rcases hmark with rfl | rfl <;> decide

/-- An exponent does not begin with a point, so it is not taken for digits behind one. -/
theorem Exponent.ne_point {tail : List Char} {e : Int} (h : Exponent tail e) :
    '.' ∉ tail.head? := by
  cases h with
  | none => exact nofun
  | marked hmark =>
    rintro ⟨⟩
    exact absurd hmark (by decide)

/-- **What the reader accepts is a numeral of the grammar.** -/
theorem denotes_of_parse? {chars : List Char} {d : Decimal} (h : parse? chars = some d) :
    Denotes chars d.negative d.value := by
  obtain ⟨sign, hsign, hchars⟩ := exists_sign chars
  unfold parse? at h
  dsimp only at h
  generalize (splitSign chars).1 = negative at h hsign
  generalize (splitSign chars).2 = unsigned at h hchars
  -- The unsigned text is its first digits and what follows them.
  have hunsigned := List.takeWhile_append_dropWhile (p := Char.isDigit) (l := unsigned)
  have hwhole : ∀ c ∈ unsigned.takeWhile Char.isDigit, c.isDigit = true := fun c hc =>
    List.mem_takeWhile_imp hc
  generalize unsigned.takeWhile Char.isDigit = whole at h hunsigned hwhole
  generalize unsigned.dropWhile Char.isDigit = after at h hunsigned
  -- What follows the digits begins with a point or not; in either case the text is put together
  -- again from its parts.
  obtain ⟨text, hpointed, htext, hfraction⟩ : ∃ text,
      Pointed text whole (splitFraction after).1 ∧ unsigned = text ++ (splitFraction after).2 ∧
        ∀ c ∈ (splitFraction after).1, c.isDigit = true := by
    unfold splitFraction
    split
    · next rest =>
      refine ⟨_, .point whole _, ?_, fun c hc => List.mem_takeWhile_imp hc⟩
      rw [List.append_assoc, List.cons_append, List.takeWhile_append_dropWhile, hunsigned]
    · exact ⟨_, .without whole, hunsigned.symm, nofun⟩
  generalize (splitFraction after).1 = fraction at h hpointed hfraction
  generalize (splitFraction after).2 = tail at h htext
  -- Without any digit the reader gives up.
  split at h
  · exact absurd h nofun
  · next hne =>
    obtain ⟨exponent, hexponent, rfl⟩ := Option.map_eq_some_iff.mp h
    rw [hchars, htext]
    unfold value
    rw [ofDigits_eq, value_of_parts]
    refine .numeral hsign hpointed hne (fun c hc => ?_) (exponent?_eq_some_iff.mp hexponent) rfl
    exact (List.mem_append.mp hc).elim (hwhole c) (hfraction c)

/-- **What the grammar has the reader accepts**, as the number that it denotes. -/
theorem exists_parse?_of_denotes {chars : List Char} {negative : Bool} {v : ℚ}
    (h : Denotes chars negative v) :
    ∃ d, parse? chars = some d ∧ d.negative = negative ∧ d.value = v := by
  obtain @⟨sign, text, whole, fraction, tail, negative, exponent, absolute, hsign, htext, hne,
    hdigits, htail, rfl⟩ := h
  have hwhole : ∀ c ∈ whole, c.isDigit = true := fun c hc =>
    hdigits c (List.mem_append_left _ hc)
  have hfraction : ∀ c ∈ fraction, c.isDigit = true := fun c hc =>
    hdigits c (List.mem_append_right _ hc)
  refine ⟨⟨negative, ofDigits (whole ++ fraction), exponent - fraction.length⟩, ?_, rfl, ?_⟩
  -- The text has digits first, and what follows them does not begin with one.
  · obtain ⟨after, hafter, hstops, hsplit⟩ : ∃ after, text ++ tail = whole ++ after ∧
        StopsDigits after ∧ splitFraction after = (fraction, tail) := by
      cases htext with
      | without =>
        refine ⟨tail, rfl, htail.stopsDigits, ?_⟩
        unfold splitFraction
        split
        · exact absurd rfl htail.ne_point
        · rfl
      | point =>
        -- The point itself stops the digits before it, and the exponent those behind it.
        refine ⟨'.' :: (fraction ++ tail), ?_, ?_, ?_⟩
        · rw [List.append_assoc, List.cons_append]
        · rintro c ⟨⟩
          decide
        · rw [splitFraction, takeWhile_digits hfraction htail.stopsDigits,
            dropWhile_digits hfraction htail.stopsDigits]
    have hunsigned : ∀ c ∈ (whole ++ after).head?, c ≠ '+' ∧ c ≠ '-' := by
      intro c hc
      cases whole with
      | cons first rest =>
        obtain rfl : first = c := Option.some.inj hc
        exact ne_sign_of_isDigit (hwhole _ List.mem_cons_self)
      | nil =>
        -- Without a digit before it, there is a point.
        cases htext with
        | without => exact absurd rfl hne
        | point =>
          obtain rfl : '.' :: (fraction ++ tail) = after := hafter
          obtain rfl : '.' = c := Option.some.inj hc
          decide
    unfold parse?
    rw [hafter, splitSign_append hsign hunsigned]
    dsimp only
    rw [takeWhile_digits hwhole hstops, dropWhile_digits hwhole hstops, hsplit]
    dsimp only
    rw [if_neg hne, exponent?_eq_some_iff.mpr htail]
    rfl
  · unfold value
    rw [ofDigits_eq, value_of_parts]

/-- **The reader and the grammar agree**, on what is a numeral and on its number. -/
theorem denotes_iff {chars : List Char} {negative : Bool} {v : ℚ} :
    Denotes chars negative v ↔
      ∃ d, parse? chars = some d ∧ d.negative = negative ∧ d.value = v := by
  refine ⟨exists_parse?_of_denotes, ?_⟩
  rintro ⟨d, hd, rfl, rfl⟩
  exact denotes_of_parse? hd

/-! ### Writing numbers out -/

/-- The digits of a number, with zeros before them if there are fewer than `width`. Behind a point
the zeros count. -/
def writtenDigits (width n : Nat) : List Char :=
  ((Nat.digitsAppend 10 width n).map Nat.digitChar).reverse

/-- The character of a digit is a digit and has its value. -/
theorem digitChar_spec {n : Nat} (h : n < 10) :
    n.digitChar.isDigit = true ∧ digitValue n.digitChar = n := by
  revert h
  revert n
  decide

/-- What is written are digits. -/
theorem isDigit_of_mem_writtenDigits {width n : Nat} {c : Char} (h : c ∈ writtenDigits width n) :
    c.isDigit = true := by
  obtain ⟨digit, hdigit, rfl⟩ := List.mem_map.mp (List.mem_reverse.mp h)
  exact (digitChar_spec (Nat.lt_of_mem_digitsAppend (by decide) width digit hdigit)).1

/-- What is written is the number; the zeros before it change nothing. -/
theorem numberOf_writtenDigits (width n : Nat) : numberOf (writtenDigits width n) = n := by
  have hdigits : ((Nat.digitsAppend 10 width n).map Nat.digitChar).map digitValue =
      Nat.digitsAppend 10 width n := by
    rw [List.map_map]
    refine (List.map_congr_left fun digit hdigit => ?_).trans (List.map_id _)
    exact (digitChar_spec (Nat.lt_of_mem_digitsAppend (by decide) width digit hdigit)).2
  unfold numberOf writtenDigits
  rw [List.reverse_reverse, hdigits, Nat.digitsAppend, Nat.ofDigits_append_replicate_zero,
    Nat.ofDigits_digits]

/-- A number with room to spare is written with exactly `width` digits. -/
theorem length_writtenDigits {width n : Nat} (h : n < 10 ^ width) :
    (writtenDigits width n).length = width := by
  unfold writtenDigits
  rw [List.length_reverse, List.length_map, Nat.length_digitsAppend (by decide) width h]

/-- The number `units / 2 ^ places` written out, with just as many places behind the point. -/
def written (negative : Bool) (units places : Nat) : List Char :=
  (if negative then ['-'] else []) ++
    (writtenDigits 1 (units / 2 ^ places) ++
      '.' :: writtenDigits places (units % 2 ^ places * 5 ^ places))

/-- A number that is halved again and again has as many decimal places as binary ones: each half is
five tenths. -/
theorem value_of_places (units places : Nat) :
    ((units / 2 ^ places : Nat) + (units % 2 ^ places * 5 ^ places : Nat) / 10 ^ places : ℚ) =
      units / 2 ^ places := by
  have hten : (10 : ℚ) ^ places = 2 ^ places * 5 ^ places := by
    rw [← mul_pow]
    norm_num
  have hsplit : (units : ℚ) =
      2 ^ places * (units / 2 ^ places : Nat) + (units % 2 ^ places : Nat) := by
    exact_mod_cast (Nat.div_add_mod units (2 ^ places)).symm
  rw [hten]
  push_cast at hsplit ⊢
  field_simp
  linarith

/-- What is written is a numeral for the number. -/
theorem denotes_written (negative : Bool) (units : Nat) {places : Nat} (hpos : 0 < places) :
    Denotes (written negative units places) negative
      (if negative then -(units / 2 ^ places) else units / 2 ^ places) := by
  have hsign : Sign (if negative then ['-'] else []) negative := by
    cases negative with
    | false => exact .none
    | true => exact .minus
  -- What is behind the point is less than one, so it fits into its places.
  have hplaces : (writtenDigits places (units % 2 ^ places * 5 ^ places)).length = places := by
    refine length_writtenDigits ?_
    calc units % 2 ^ places * 5 ^ places < 2 ^ places * 5 ^ places :=
          Nat.mul_lt_mul_of_pos_right (Nat.mod_lt _ (Nat.two_pow_pos _)) (Nat.pow_pos (by decide))
      _ = 10 ^ places := (Nat.mul_pow 2 5 places).symm
  have hne : writtenDigits places (units % 2 ^ places * 5 ^ places) ≠ [] :=
    List.ne_nil_of_length_pos (by rwa [hplaces])
  have hdigits : ∀ c ∈ writtenDigits 1 (units / 2 ^ places) ++
      writtenDigits places (units % 2 ^ places * 5 ^ places), c.isDigit = true := fun c hc =>
    (List.mem_append.mp hc).elim isDigit_of_mem_writtenDigits isDigit_of_mem_writtenDigits
  have h := Denotes.numeral hsign (.point _ _) (List.append_ne_nil_of_right_ne_nil _ hne) hdigits
    .none rfl
  rwa [List.append_nil, hplaces, numberOf_writtenDigits, numberOf_writtenDigits, zpow_zero, mul_one,
    value_of_places] at h

end Decimal

namespace Binary64

/-- A finite double written out in full. It is a whole number of units, each of which is one halved
1074 times. -/
def expansion (x : Binary64) : List Char := Decimal.written x.negative x.units 1074

/-- **A double is written out as a numeral for exactly its value.** So every finite double has a
numeral, and reading it rounds nothing. -/
theorem denotes_expansion (x : Binary64) : Decimal.Denotes x.expansion x.negative x.value := by
  have h := Decimal.denotes_written x.negative x.units (Nat.succ_pos 1073)
  rwa [← cast_unitsPerOne] at h

end Binary64

end Easel
