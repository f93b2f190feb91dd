import Easel.Proofs.Terminal.Display
import Easel.Proofs.Text.Encoding

/-!
# Printing text

A terminal prints a text without control characters one character after another, each by its code
point, however many bytes it takes. Nothing else comes of it: the colors stay in force, and the
terminal is left in the middle of nothing.

* `IsControl` — the characters that are not printed;
* `PlainText` — text without them;
* `Display.feedAll_char` — a character is printed;
* `Display.read_plainText` — so is a text.
-/

namespace Easel.Terminal

/-- A control character: one below the blank, the last of ASCII, or one of the thirty-two that
follow it. -/
def IsControl (c : Char) : Prop := c.toNat < 0x20 ∨ (0x7F ≤ c.toNat ∧ c.toNat < 0xA0)

instance (c : Char) : Decidable (IsControl c) := inferInstanceAs (Decidable (_ ∨ _))

/-- Text without control characters. Only such a text is printed as it is, whatever the terminal. -/
structure PlainText where
  text : String
  not_isControl : ∀ c ∈ text.toList, ¬ IsControl c

namespace Display

variable {columns rows : Nat} (device : Device columns rows)

/-- The terminal after some characters have been printed. -/
def printAll (d : Display) (chars : List Char) : Display :=
  chars.foldl (fun d c => d.print device c.toNat) d

section Printing

variable (d : Display)

/-- Bytes are fed one by one. -/
theorem feedAll_cons (byte : UInt8) (bytes : List UInt8) :
    d.feedAll device (byte :: bytes) = (d.feed device byte.toNat).feedAll device bytes := rfl

/-- What is fed later is fed to the terminal as the earlier bytes have left it. -/
theorem feedAll_append (bytes later : List UInt8) :
    d.feedAll device (bytes ++ later) = (d.feedAll device bytes).feedAll device later :=
  List.foldl_append

/-- The first byte of a character of several bytes brings its highest bits. -/
theorem feed_lead (hmode : d.mode = .ground) (high : Nat) :
    (high < 32 → d.feed device (high + 192) = { d with mode := .character 1 high }) ∧
      (high < 16 → d.feed device (high + 224) = { d with mode := .character 2 high }) ∧
      (high < 8 → d.feed device (high + 240) = { d with mode := .character 3 high }) := by
  -- A byte from `0xC0` on is no escape, no control character and no part of ASCII.
  have hbegin : ∀ byte, 0xC0 ≤ byte → d.feed device byte =
      if byte < 0xE0 then { d with mode := .character 1 (byte % 32) }
      else if byte < 0xF0 then { d with mode := .character 2 (byte % 16) }
      else { d with mode := .character 3 (byte % 8) } := by
    intro byte hbyte
    have hescape : byte ≠ 0x1B := by omega
    have hcontrol : ¬ (byte < 0x20 ∨ byte = 0x7F) := by omega
    have hascii : ¬ byte < 0x80 := by omega
    rw [feed, if_neg hescape, hmode]
    dsimp only
    rw [begin, if_neg hcontrol, if_neg hascii]
  refine ⟨fun hhigh => ?_, fun hhigh => ?_, fun hhigh => ?_⟩
  · have hbits : (high + 192) % 32 = high := by omega
    rw [hbegin _ (by omega), if_pos (by omega), hbits]
  · have hbits : (high + 224) % 16 = high := by omega
    rw [hbegin _ (by omega), if_neg (by omega), if_pos (by omega), hbits]
  · have hbits : (high + 240) % 8 = high := by omega
    rw [hbegin _ (by omega), if_neg (by omega), if_neg (by omega), hbits]

/-- A byte that continues a character brings six more bits, and the last one has the character
printed. -/
theorem feed_continuation {low : Nat} (hlow : low < 64) (missing bits : Nat) :
    { d with mode := .character missing bits }.feed device (low + 128) =
      if missing ≤ 1 then d.print device (64 * bits + low)
      else { d with mode := .character (missing - 1) (64 * bits + low) } := by
  have hescape : low + 128 ≠ 0x1B := by omega
  have hbits : (low + 128) % 64 = low := by omega
  rw [feed, if_neg hescape]
  dsimp only
  rw [hbits]
  rfl

/-- **A character is printed**, whether it takes one byte or four. The cases are those of the
encoding, and in each of them the bits of the bytes add up to the code point. -/
theorem feedAll_char (hmode : d.mode = .ground) {c : Char} (hc : ¬ IsControl c) :
    d.feedAll device (String.utf8EncodeChar c) = d.print device c.toNat := by
  have htoNat : c.val.toNat = c.toNat := rfl
  -- There are four bytes at most, since no code point is as large as `0x110000`.
  have hmax : c.toNat < 0x110000 := by
    rcases c.valid with hlow | ⟨-, hhigh⟩
    · exact Nat.lt_trans hlow (by decide)
    · exact hhigh
  have hbyte : ∀ n < 256, (UInt8.ofNat n).toNat = n := by
    intro n hn
    rw [UInt8.toNat_ofNat']
    exact Nat.mod_eq_of_lt hn
  unfold String.utf8EncodeChar
  dsimp only
  rw [htoNat]
  generalize hn : c.toNat = n at hmax
  unfold IsControl at hc
  rw [hn] at hc
  split
  · next hone =>
    -- Below 128, only control characters are not printed.
    rw [feedAll_cons, hbyte n (by omega), feed, if_neg (by omega), hmode]
    dsimp only
    rw [begin, if_neg (by omega), if_pos (by omega)]
    rfl
  · split
    · next htwo =>
      have hcode : 64 * (n / 64 % 32) + n % 64 = n := by omega
      rw [feedAll_cons, feedAll_cons, hbyte _ (by omega), hbyte _ (by omega),
        (feed_lead device d hmode _).1 (by omega), feed_continuation device d (by omega),
        if_pos (by omega), hcode]
      rfl
    · split
      · next hthree =>
        have hcode : 64 * (64 * (n / 4096 % 16) + n / 64 % 64) + n % 64 = n := by omega
        rw [feedAll_cons, feedAll_cons, feedAll_cons, hbyte _ (by omega), hbyte _ (by omega),
          hbyte _ (by omega), (feed_lead device d hmode _).2.1 (by omega),
          feed_continuation device d (by omega), if_neg (by omega),
          feed_continuation device d (by omega), if_pos (by omega), hcode]
        rfl
      · next hfour =>
        have hcode :
            64 * (64 * (64 * (n / 262144 % 8) + n / 4096 % 64) + n / 64 % 64) + n % 64 = n := by
          omega
        rw [feedAll_cons, feedAll_cons, feedAll_cons, feedAll_cons, hbyte _ (by omega),
          hbyte _ (by omega), hbyte _ (by omega), hbyte _ (by omega),
          (feed_lead device d hmode _).2.2 (by omega),
          feed_continuation device d (by omega), if_neg (by omega),
          feed_continuation device d (by omega), if_neg (by omega),
          feed_continuation device d (by omega), if_pos (by omega), hcode]
        rfl

/-- Characters are printed one after another. -/
theorem feedAll_chars (hmode : d.mode = .ground) {chars : List Char}
    (hchars : ∀ c ∈ chars, ¬ IsControl c) :
    d.feedAll device (Text.encode chars) = d.printAll device chars := by
  induction chars generalizing d with
  | nil => rfl
  | cons c rest ih =>
    obtain ⟨hc, hrest⟩ := List.forall_mem_cons.mp hchars
    rw [Text.encode_cons, feedAll_append, feedAll_char device d hmode hc]
    -- A terminal that has printed a character is in the middle of nothing again.
    exact ih (d.print device c.toNat) rfl hrest

/-- **A text without control characters is printed.** -/
theorem read_plainText (hmode : d.mode = .ground) (plain : PlainText) :
    d.read device plain.text = d.printAll device plain.text.toList := by
  have hbytes : plain.text.toUTF8.data.toList = Text.encode plain.text.toList :=
    Text.utf8_eq_encode plain.text
  rw [read, hbytes]
  exact feedAll_chars device d hmode plain.not_isControl

/-- Printing changes neither of the colors, and leaves a terminal in the middle of nothing. -/
theorem printAll_keeps (chars : List Char) :
    (d.mode = .ground → (d.printAll device chars).mode = .ground) ∧
      (d.printAll device chars).foreground? = d.foreground? ∧
      (d.printAll device chars).background? = d.background? := by
  induction chars generalizing d with
  | nil => exact ⟨id, rfl, rfl⟩
  | cons c rest ih =>
    obtain ⟨hmode, hforeground, hbackground⟩ := ih (d.print device c.toNat)
    exact ⟨fun _ => hmode rfl, hforeground, hbackground⟩

end Printing

end Display

end Easel.Terminal
