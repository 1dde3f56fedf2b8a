import ImageReader.ByteOrder
import ImageReader.Text

/-!
# UTF-8

Bytes are decoded from left to right.  A sequence which is cut short or has a
wrong byte is invalid as far as it goes; the bytes behind it are decoded on
their own.
-/

namespace ImageReader
namespace Utf8

/-- The bytes of a sequence, by its first byte; 0 where none starts so. -/
def width (first : UInt8) : ℕ :=
  if first < 0x80 then 1
  else if 0xC2 ≤ first ∧ first ≤ 0xDF then 2
  else if 0xE0 ≤ first ∧ first ≤ 0xEF then 3
  else if 0xF0 ≤ first ∧ first ≤ 0xF4 then 4
  else 0

def isContinuation (b : UInt8) : Bool := 0x80 ≤ b ∧ b ≤ 0xBF

/-- The second bytes which rule out overlong sequences, surrogates and numbers
above the last character. -/
def secondOk (first second : UInt8) : Bool :=
  if first = 0xE0 then 0xA0 ≤ second ∧ second ≤ 0xBF
  else if first = 0xED then 0x80 ≤ second ∧ second ≤ 0x9F
  else if first = 0xF0 then 0x90 ≤ second ∧ second ≤ 0xBF
  else if first = 0xF4 then 0x80 ≤ second ∧ second ≤ 0x8F
  else isContinuation second

/-- The bytes behind `first` which belong to its sequence. -/
def following (first : UInt8) : Bytes → Bytes
  | [] => []
  | second :: rest =>
      if 2 ≤ width first ∧ secondOk first second then
        second :: (rest.take (width first - 2)).takeWhile isContinuation
      else []

/-- The bits of the first byte which are not its length mark. -/
def firstBits (first : UInt8) : ℕ :=
  match width first with
  | 1 => first.toNat
  | 2 => first.toNat % 32
  | 3 => first.toNat % 16
  | _ => first.toNat % 8

/-- The character of the sequence at `first`, if it is complete. -/
def charAt (first : UInt8) (rest : Bytes) : Option Char :=
  let more := following first rest
  if more.length + 1 = width first then
    some (Char.ofNat (more.foldl (fun acc b => acc * 64 + b.toNat % 64)
      (firstBits first)))
  else none

/-- The characters behind the next `skip` bytes; `none` stands for an invalid
sequence. -/
def decode : ℕ → Bytes → List (Option Char)
  | _, [] => []
  | skip + 1, _ :: rest => decode skip rest
  | 0, first :: rest =>
      charAt first rest :: decode (following first rest).length rest

end Utf8

/-- `String::from_utf8(bytes)` -/
def fromUtf8 (bytes : Bytes) : Option Text := (Utf8.decode 0 bytes).mapM id

/-- `String::from_utf8_lossy(bytes)` -/
def fromUtf8Lossy (bytes : Bytes) : Text :=
  (Utf8.decode 0 bytes).map (·.getD (Char.ofNat 0xFFFD))

-- "é" and the Euro sign, a byte which starts nothing, and a cut sequence
example : fromUtf8Lossy [0xC3, 0xA9, 0xE2, 0x82, 0xAC, 0xFF, 0xE2, 0x82] =
    [Char.ofNat 0xE9, Char.ofNat 0x20AC, Char.ofNat 0xFFFD,
      Char.ofNat 0xFFFD] := by decide

end ImageReader
