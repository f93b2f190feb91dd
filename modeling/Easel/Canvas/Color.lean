/-!
# Colors

Opaque colors with eight bits per channel, and the four that the library names. `Color.describe` is
the usual hexadecimal form.
-/

namespace Easel

/-- An opaque color, by its three channels. Two colors are equal exactly if all channels agree. -/
structure Color where
  red : UInt8
  green : UInt8
  blue : UInt8
deriving DecidableEq

namespace Color

/-- No light in any channel, the color of a new surface and of overlays. -/
def black : Color := ⟨0, 0, 0⟩

/-- Full light in every channel; the color that the command `white` fills with. -/
def white : Color := ⟨255, 255, 255⟩

/-- Green alone, the color that the command `green` fills with. -/
def pureGreen : Color := ⟨0, 255, 0⟩

/-- Red alone, the color of figures unless the settings say otherwise. -/
def pureRed : Color := ⟨255, 0, 0⟩

/-- Black stands in where a color is asked for and there is none. -/
instance : Inhabited Color := ⟨black⟩

/-- The lower-case hexadecimal digit of a number below sixteen. -/
def hexDigit (n : Nat) : Char :=
  if n < 10 then Char.ofNat ('0'.toNat + n) else Char.ofNat ('a'.toNat + (n - 10))

/-- The two digits of a channel, the higher one first. -/
def describeChannel (channel : UInt8) : List Char :=
  [hexDigit (channel.toNat / 16), hexDigit (channel.toNat % 16)]

/-- The form `#rrggbb`, always of seven characters. -/
def describe (c : Color) : String :=
  String.ofList
    ('#' :: (describeChannel c.red ++ describeChannel c.green ++ describeChannel c.blue))

end Color

end Easel
