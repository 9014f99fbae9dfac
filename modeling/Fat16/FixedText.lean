import Fat16.Bytes
import Fat16.Numeral

/-!
# Text fields of fixed width

Volume labels and file names are stored as a fixed number of bytes and are often padded with
bytes that are no text at all, so the bytes are kept as they are. `FixedText.text` is what a
reader sees: printable ASCII stands for itself and every other byte is written as an escape, so
nothing stored in an image can end a line of a report. The backslash is printable and stands for
itself too.
-/

namespace Fat16

/-- A text field of `n` bytes, kept exactly as stored. -/
structure FixedText (n : Nat) where
  /-- The stored bytes. -/
  bytes : Vector UInt8 n
  deriving DecidableEq

namespace FixedText

variable {n : Nat}

/-- The text field at position `i`. -/
def read (bytes : Bytes) (i : Nat) : FixedText n := ⟨bytes.field n i⟩

/-- Whether a byte stands for itself: the space and the visible ASCII characters. -/
def isPrintable (b : UInt8) : Bool := 0x20 ≤ b && b < 0x7F

/-- How one byte is written: itself, or an escape with two hexadecimal digits. -/
def escape (b : UInt8) : List Char :=
  if isPrintable b then [Char.ofNat b.toNat] else '\\' :: 'x' :: Numeral.padded 16 2 b.toNat

/-- The written form of a field. -/
def text (t : FixedText n) : String := .ofList (t.bytes.toList.flatMap escape)

/-- The written form between quotation marks; nothing further is escaped. -/
def quoted (t : FixedText n) : String := "\"" ++ t.text ++ "\""

/-- The stored bytes without the spaces that pad them at the end. -/
def trimmed (t : FixedText n) : Bytes := t.bytes.toArray.popWhile (· == 0x20)

end FixedText

end Fat16
