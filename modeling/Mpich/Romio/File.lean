import Mathlib.Data.List.Basic

/-!
# A file and its contiguous accesses

A file is its size and its bytes. `ADIO_WriteContig` replaces a range of bytes
and makes the file longer when the range ends behind its end; the bytes of the
gap this may leave are zero. `ADIO_ReadContig` fills a buffer up to the end of
the file and leaves the rest of the buffer as it is.
-/

namespace Mpich.Romio

abbrev Byte := UInt8

/-- A file of `size` bytes. -/
structure File where
  size : Nat
  contents : Nat → Byte

namespace File

/-- A write of `length` bytes at `offset`. -/
def writeContig
    (file : File)
    (offset length : Nat)
    (bytes : Nat → Byte) : File where
  size := if length = 0 then file.size else max file.size (offset + length)
  contents := fun place =>
    if offset ≤ place ∧ place < offset + length then bytes (place - offset)
    else if place < file.size then file.contents place
    else 0

/-- A read of `length` bytes at `offset` into a buffer. -/
def readContig
    (file : File)
    (offset length : Nat)
    (buffer : Nat → Byte) : Nat → Byte :=
  fun index =>
    if index < length ∧ offset + index < file.size then
      file.contents (offset + index)
    else buffer index

theorem size_le_writeContig
    (file : File)
    (offset length : Nat)
    (bytes : Nat → Byte) :
    file.size ≤ (file.writeContig offset length bytes).size := by
  simp only [writeContig]
  split
  case isTrue empty => exact Nat.le_refl _
  case isFalse some => exact Nat.le_max_left _ _

section

variable
    {offset length place : Nat}
    (file : File)

include file

/-- A byte in the range of a write is in the file afterwards. -/
theorem lt_size_writeContig
    (bytes : Nat → Byte)
    (above : offset ≤ place)
    (below : place < offset + length) :
    place < (file.writeContig offset length bytes).size := by
  simp only [writeContig]
  rw [if_neg (by omega)]
  exact Nat.lt_of_lt_of_le below (Nat.le_max_right _ _)

theorem contents_writeContig_inside
    (bytes : Nat → Byte)
    (above : offset ≤ place)
    (below : place < offset + length) :
    (file.writeContig offset length bytes).contents place = bytes (place - offset) :=
  if_pos ⟨above, below⟩

/-- A write leaves the other bytes of the file alone. -/
theorem contents_writeContig_outside
    (bytes : Nat → Byte)
    (outside : ¬ (offset ≤ place ∧ place < offset + length))
    (inFile : place < file.size) :
    (file.writeContig offset length bytes).contents place = file.contents place := by
  simp only [writeContig]
  rw [if_neg outside, if_pos inFile]

theorem readContig_inside
    (buffer : Nat → Byte)
    (above : offset ≤ place)
    (below : place < offset + length)
    (inFile : place < file.size) :
    file.readContig offset length buffer (place - offset) = file.contents place := by
  have position : offset + (place - offset) = place := by omega
  simp only [readContig]
  rw [position, if_pos ⟨by omega, inFile⟩]

end

end Mpich.Romio.File
