import Easel.Terminal.StyledText
import Mathlib.Data.List.Basic

/-!
# What a terminal makes of bytes

A terminal takes one byte after another. A byte stands for a character, or is a part of one in
UTF-8, and characters are printed at the cursor in the colors in force; or it belongs to a control
sequence. Of these a terminal knows the ones that put the cursor somewhere, `CSI row ; column H`,
and those that select attributes, `CSI ... m`: 0 for none at all, 38 and 48 for a foreground and a
background in red, green and blue. It passes over the rest.

* `Device` — how a terminal moves its cursor;
* `Display` — what it shows and is in the middle of, and `Display.feed` for one more byte;
* `Display.read_moveCursor`, `Display.read_foreground`, `Display.read_background`,
  `Display.read_reset` — what the control sequences of `Escape` do.
-/

namespace Easel.Terminal

/-- A place on the screen, counted from zero. -/
structure Position where
  row : Nat
  column : Nat
deriving DecidableEq

/-- A character that has been printed, by its code point. A color that is missing is the terminal's
own one. -/
structure Print where
  position : Position
  code : Nat
  foreground? : Option Color
  background? : Option Color
deriving DecidableEq

/-- How a terminal moves its cursor, where its screen has so many columns and rows at least. What
happens at the right edge, and off the screen, is up to the terminal: nothing is assumed about
it. -/
structure Device (columns rows : Nat) where
  /-- Where the cursor goes when it is put somewhere. -/
  place : Position → Position
  /-- Where the cursor goes when a character has been printed. -/
  advance : Position → Position
  place_of_lt : ∀ position : Position, position.row < rows → position.column < columns →
    place position = position
  advance_of_lt : ∀ position : Position, position.row < rows → position.column + 1 < columns →
    advance position = ⟨position.row, position.column + 1⟩

/-- A terminal whose screen has no end. -/
instance (columns rows : Nat) : Inhabited (Device columns rows) :=
  ⟨⟨id, fun position => ⟨position.row, position.column + 1⟩, fun _ _ _ => rfl, fun _ _ _ => rfl⟩⟩

/-- What a terminal is in the middle of. A frame that has been cut off leaves it in any of these. -/
inductive Mode where
  | ground
  /-- An escape byte. -/
  | escape
  /-- A control sequence: the parameters before the last semicolon, and the one after it. -/
  | control (earlier : List Nat) (parameter : Nat)
  /-- A control sequence that means nothing to the terminal. -/
  | skipped
  /-- A character that takes some more bytes, and the bits of those that have come. -/
  | character (missing bits : Nat)
deriving DecidableEq

/-- What a terminal shows, and how it goes on. -/
structure Display where
  mode : Mode
  cursor : Position
  foreground? : Option Color
  background? : Option Color
  /-- All that has been printed, in order. -/
  printed : List Print
deriving DecidableEq

namespace Display

variable {columns rows : Nat} (device : Device columns rows)

/-- A character is printed at the cursor in the colors in force, and the cursor moves on. -/
def print (d : Display) (code : Nat) : Display :=
  { d with
    mode := .ground
    cursor := device.advance d.cursor
    printed := d.printed ++ [⟨d.cursor, code, d.foreground?, d.background?⟩] }

/-- Selects attributes by their numbers. A number that the terminal does not know is passed over by
itself, and the next one is looked at. -/
def select (d : Display) : List Nat → Display
  | [] => d
  | 0 :: rest => select { d with foreground? := none, background? := none } rest
  | 38 :: 2 :: red :: green :: blue :: rest =>
    select { d with foreground? := some ⟨.ofNat red, .ofNat green, .ofNat blue⟩ } rest
  | 48 :: 2 :: red :: green :: blue :: rest =>
    select { d with background? := some ⟨.ofNat red, .ofNat green, .ofNat blue⟩ } rest
  | _ :: rest => select d rest

/-- The last byte of a control sequence says what the parameters are for. A parameter that is left
out is zero, and rows and columns are counted from one. -/
def finish (d : Display) (parameters : List Nat) (byte : Nat) : Display :=
  if byte = 'H'.toNat then
    let row := parameters.getD 0 0 - 1
    let column := parameters.getD 1 0 - 1
    { d with mode := .ground, cursor := device.place ⟨row, column⟩ }
  else if byte = 'm'.toNat then { d.select parameters with mode := .ground }
  else { d with mode := .ground }

/-- A byte between characters. Those below the blank, and the last of ASCII, are not printed. -/
def begin (d : Display) (byte : Nat) : Display :=
  if byte < 0x20 ∨ byte = 0x7F then d
  else if byte < 0x80 then d.print device byte
  else if byte < 0xE0 then { d with mode := .character 1 (byte % 32) }
  else if byte < 0xF0 then { d with mode := .character 2 (byte % 16) }
  else { d with mode := .character 3 (byte % 8) }

/-- One more byte. An escape byte puts an end to whatever the terminal is in the middle of, so what
comes before a control sequence cannot spoil it. -/
def feed (d : Display) (byte : Nat) : Display :=
  if byte = 0x1B then { d with mode := .escape }
  else
    match d.mode with
    | .ground => d.begin device byte
    | .escape => { d with mode := if byte = '['.toNat then .control [] 0 else .ground }
    | .control earlier parameter =>
      if '0'.toNat ≤ byte ∧ byte ≤ '9'.toNat then
        { d with mode := .control earlier (10 * parameter + (byte - '0'.toNat)) }
      else if byte = ';'.toNat then { d with mode := .control (earlier ++ [parameter]) 0 }
      else if byte < 0x40 then { d with mode := .skipped }
      else d.finish device (earlier ++ [parameter]) byte
    | .skipped => { d with mode := if byte < 0x40 then .skipped else .ground }
    | .character missing bits =>
      if missing ≤ 1 then d.print device (64 * bits + byte % 64)
      else { d with mode := .character (missing - 1) (64 * bits + byte % 64) }

/-- What comes of some bytes, one after another. -/
def feedAll (d : Display) (bytes : List UInt8) : Display :=
  bytes.foldl (fun d byte => d.feed device byte.toNat) d

/-- What comes of a text. -/
def read (d : Display) (text : String) : Display := d.feedAll device text.toUTF8.data.toList

/-! ### Texts -/

section Read

variable (d : Display)

/-- Texts are read on from where the text before has left the terminal. -/
theorem read_append (text later : String) :
    d.read device (text ++ later) = (d.read device text).read device later := by
  rw [read, String.toUTF8_eq_toByteArray, String.toByteArray_append, ByteArray.data_append,
    Array.toList_append, feedAll, List.foldl_append]
  rfl

/-- A text is read character by character, each of them by its bytes. -/
theorem read_ofList (text : List Char) :
    d.read device (String.ofList text) = d.feedAll device (text.flatMap String.utf8EncodeChar) := by
  rw [read, String.toUTF8_eq_toByteArray, String.toByteArray_ofList, List.utf8Encode,
    List.toList_data_toByteArray]

/-- A digit is one byte, and goes to the end of the parameter. -/
theorem feedAll_digit {c : Char} (hc : c.isDigit = true) (earlier : List Nat) (parameter : Nat) :
    { d with mode := .control earlier parameter }.feedAll device (String.utf8EncodeChar c) =
      { d with mode := .control earlier (10 * parameter + (c.toNat - '0'.toNat)) } := by
  obtain ⟨hlow, hhigh⟩ := Char.isDigit_iff_toNat.mp hc
  have hbound : c.toNat < 128 := Nat.lt_of_le_of_lt hhigh (by decide)
  have hbyte : String.utf8EncodeChar c = [.ofNat c.toNat] := by
    rw [String.utf8EncodeChar]
    exact if_pos (Nat.le_of_lt_succ hbound)
  have htoNat : (UInt8.ofNat c.toNat).toNat = c.toNat := by
    rw [UInt8.toNat_ofNat']
    exact Nat.mod_eq_of_lt (Nat.lt_trans hbound (by decide))
  -- An escape byte would put an end to the sequence.
  have hescape : c.toNat ≠ 0x1B := fun hc => by
    rw [hc] at hlow
    exact absurd hlow (by decide)
  -- What is left is the case of a digit in a control sequence.
  rw [hbyte, feedAll, List.foldl_cons, List.foldl_nil, htoNat, feed, if_neg hescape]
  exact if_pos ⟨hlow, hhigh⟩

/-- **A number is read as a parameter.** Its digits come from the highest one on, and each of them
multiplies by ten what has come before. -/
theorem read_number (n : Nat) (earlier : List Nat) :
    { d with mode := .control earlier 0 }.read device (toString n) =
      { d with mode := .control earlier n } := by
  have hdigits : ∀ (digits : List Char) (parameter : Nat), (∀ c ∈ digits, c.isDigit = true) →
      { d with mode := .control earlier parameter }.feedAll device
          (digits.flatMap String.utf8EncodeChar) =
        { d with mode := .control earlier (Nat.ofDigitChars 10 digits parameter) } := by
    -- The parameter so far is the value of the digits so far.
    intro digits
    induction digits with
    | nil => exact fun _ _ => rfl
    | cons c rest ih =>
      intro parameter hall
      rw [List.flatMap_cons, feedAll, List.foldl_append, Nat.ofDigitChars_cons]
      have hfirst := feedAll_digit device d (hall c List.mem_cons_self) earlier parameter
      rw [feedAll] at hfirst
      rw [hfirst]
      exact ih _ fun later hlater => hall later (List.mem_cons_of_mem _ hlater)
  rw [Nat.toString_eq_ofList_toDigits, read_ofList,
    hdigits _ 0 fun c hc => Nat.isDigit_of_mem_toDigits (by decide) (by decide) hc,
    Nat.ofDigitChars_toDigits (by decide) (by decide)]

/-- A semicolon ends a parameter and begins the next one. -/
theorem read_semicolon (earlier : List Nat) (parameter : Nat) :
    { d with mode := .control earlier parameter }.read device ";" =
      { d with mode := .control (earlier ++ [parameter]) 0 } := rfl

/-! ### Control sequences -/

/-- **The cursor is put on a column and a row**, whatever the terminal was in the middle of. The
rows and columns that the text counts from one are those that are counted from zero here. -/
theorem read_moveCursor (column row : Nat) : d.read device (Escape.moveCursor column row) =
    { d with mode := .ground, cursor := device.place ⟨row, column⟩ } := by
  have hbegin : d.read device "\x1b[" = { d with mode := .control [] 0 } := rfl
  -- The text is taken apart into the parts that have been dealt with above.
  show d.read device ("\x1b[" ++ toString (row + 1) ++ ";" ++ toString (column + 1) ++ "H") = _
  rw [read_append, read_append, read_append, read_append, hbegin, read_number, read_semicolon,
    read_number]
  rfl

/-- A control sequence that selects a color, where `first` is its text up to the channels. -/
theorem read_selection {first : String} {parameters : List Nat}
    (hfirst : d.read device first = { d with mode := .control parameters 0 }) (c : Color) :
    d.read device
        (first ++ toString c.red ++ ";" ++ toString c.green ++ ";" ++ toString c.blue ++ "m") =
      { d with mode := .control (parameters ++ [c.red.toNat] ++ [c.green.toNat]) c.blue.toNat }.feed
        device 'm'.toNat := by
  -- The channels are printed as the numbers that they are.
  show d.read device (first ++ toString c.red.toNat ++ ";" ++ toString c.green.toNat ++ ";" ++
    toString c.blue.toNat ++ "m") = _
  rw [read_append, read_append, read_append, read_append, read_append, read_append, hfirst,
    read_number, read_semicolon, read_number, read_semicolon, read_number]
  rfl

/-- The channels of a color are read as the bytes that they were written for. -/
theorem ofNat_channels (c : Color) :
    (⟨.ofNat c.red.toNat, .ofNat c.green.toNat, .ofNat c.blue.toNat⟩ : Color) = c := by
  simp only [UInt8.ofNat_toNat]

/-- **A foreground is selected**, whatever the terminal was in the middle of. -/
theorem read_foreground (c : Color) : d.read device (Escape.foreground c) =
    { d with mode := .ground, foreground? := some c } := by
  have hfirst : d.read device "\x1b[38;2;" = { d with mode := .control [38, 2] 0 } := rfl
  conv_rhs => rw [← ofNat_channels c]
  exact read_selection device d hfirst c

/-- **A background is selected**, whatever the terminal was in the middle of. -/
theorem read_background (c : Color) : d.read device (Escape.background c) =
    { d with mode := .ground, background? := some c } := by
  have hfirst : d.read device "\x1b[48;2;" = { d with mode := .control [48, 2] 0 } := rfl
  conv_rhs => rw [← ofNat_channels c]
  exact read_selection device d hfirst c

/-- A reset takes back both colors. -/
theorem read_reset : d.read device Escape.reset =
    { d with mode := .ground, foreground? := none, background? := none } := rfl

/-- The half block is one character of three bytes. It is printed if the terminal is in the middle
of nothing when they come. -/
theorem read_halfBlock (hmode : d.mode = .ground) : d.read device "\u2580" =
    d.print device 0x2580 := by
  obtain ⟨mode, cursor, foreground?, background?, printed⟩ := d
  obtain rfl : mode = .ground := hmode
  rfl

end Read

end Display

end Easel.Terminal
