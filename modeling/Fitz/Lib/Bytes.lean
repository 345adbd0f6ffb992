import Fitz.Lib.Text

/-!
# Bounded numbers, and numbers and text as bytes

Machine integers are natural numbers with an explicit bound: saturating operations stop at it, checked ones fail
past it. Big-endian numbers, length prefixes and UTF-8 text are appended by an encoder and sliced by a decoder.
-/

namespace Fitz.Lib

/-- The largest unsigned 64-bit value. -/
def u64Max : ℕ := 2 ^ 64 - 1

/-- The largest unsigned 32-bit value. -/
def u32Max : ℕ := 2 ^ 32 - 1

/-- Addition that stops at the bound. -/
def saturatingAdd (bound a b : ℕ) : ℕ := min (a + b) bound

theorem saturatingAdd_assoc (bound a b c : ℕ) :
    saturatingAdd bound (saturatingAdd bound a b) c = saturatingAdd bound a (saturatingAdd bound b c) := by
  unfold saturatingAdd
  omega

/-- Multiplication that stops at the bound. -/
def saturatingMul (bound a b : ℕ) : ℕ := min (a * b) bound

/-- Addition that fails past the bound. -/
def checkedAdd (bound a b : ℕ) : Option ℕ := if a + b ≤ bound then some (a + b) else none

/-- Multiplication that fails past the bound. -/
def checkedMul (bound a b : ℕ) : Option ℕ := if a * b ≤ bound then some (a * b) else none

theorem saturatingAdd_eq {bound a b : ℕ} (h : a + b ≤ bound) : saturatingAdd bound a b = a + b :=
  Nat.min_eq_left h

theorem add_le_of_saturatingAdd_le {bound a b c : ℕ} (h : saturatingAdd bound a b ≤ c)
    (hc : c < bound) : a + b ≤ c := by
  unfold saturatingAdd at h
  omega

/-- A number in so many bytes, most significant byte first. -/
def putUint (width n : ℕ) : List UInt8 :=
  (List.range width).map fun i => UInt8.ofNat (n / 256 ^ (width - 1 - i))

/-- A length in four bytes, stopping at the largest. -/
def putLength (n : ℕ) : List UInt8 := putUint 4 (min n u32Max)

/-- The bytes of a text. -/
def textBytes (text : Text) : List UInt8 := text.flatMap String.utf8EncodeChar

theorem length_putUint (width n : ℕ) : (putUint width n).length = width := by
  simp [putUint]

theorem length_textBytes (text : Text) : (textBytes text).length = byteLength text := by
  simp [textBytes, byteLength, List.length_flatMap]

theorem length_putLength (n : ℕ) : (putLength n).length = 4 := length_putUint 4 _

/-- The number a byte string stands for, most significant byte first. -/
def bigEndian (bytes : List UInt8) : ℕ :=
  bytes.foldl (fun value byte => value * 256 + byte.toNat) 0

/-- The `count` bytes from `offset` on, or nothing when they run past the end. -/
def slice (bytes : List UInt8) (offset count : ℕ) : Option (List UInt8) :=
  if offset + count ≤ bytes.length then some ((bytes.drop offset).take count) else none

theorem slice_append (front field rest : List UInt8) :
    slice (front ++ field ++ rest) front.length field.length = some field := by
  simp [slice]

/-- The text a UTF-8 byte string stands for, or nothing when it is not valid UTF-8. -/
def decodeUtf8 (bytes : List UInt8) : Option Text :=
  (ByteArray.utf8Decode? ⟨bytes.toArray⟩).map Array.toList

end Fitz.Lib
