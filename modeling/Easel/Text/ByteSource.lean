import Easel.Text.Line

/-!
# Byte sources

A `ByteSource` is what a reader of bytes will yield: some bytes, and then either the end or a
failure. Its lines are read as UTF-8 one at a time. A line whose bytes are no UTF-8 is an error in
its place; so is the failure, in the place of the line that was under way when it struck, whose
bytes are lost.
-/

namespace Easel.Text

/-- Why a line could not be read. -/
inductive ReadError where
  /-- The bytes of the line are not UTF-8. -/
  | invalidText
  /-- The reader itself failed. -/
  | failed (message : String)
deriving DecidableEq, Repr

/-- The wording of a failed read. A reader that fails brings its own words. -/
def ReadError.message : ReadError → String
  | .invalidText => "stream did not contain valid UTF-8"
  | .failed message => message

/-- The bytes that a reader yields, and the message of the failure that follows them, if one
does. -/
structure ByteSource where
  bytes : List UInt8
  failure? : Option String
deriving DecidableEq, Repr

/-- Reads bytes as UTF-8, without any replacement. One bad byte makes the whole an error. -/
def decode (bytes : List UInt8) : Except ReadError String :=
  match String.fromUTF8? (ByteArray.mk bytes.toArray) with
  | some text => .ok text
  | none => .error .invalidText

namespace ByteSource

/-- The lines of the bytes, each decoded on its own. If the reader fails, the error stands where the
first line without a line feed would have been. -/
def lines (source : ByteSource) : List (Except ReadError String) :=
  let cut := splitLines 10 13 source.bytes
  match source.failure? with
  | none => cut.map fun line => decode line.content
  | some message =>
    -- A line that the failure cut off is dropped with its bytes.
    (cut.filter Line.terminated).map (fun line => decode line.content) ++ [.error (.failed message)]

end ByteSource

end Easel.Text
