/-! # CRC-32

The cyclic redundancy check with the generator polynomial 0x04C11DB7, coefficients reflected.
`shift` divides by the polynomial one bit at a time; the running checksum takes eight shifts at once
from a table.
-/
namespace PackedIndex.Crc32

/-- One bit of polynomial division, least significant coefficient last. -/
def shift (state : UInt32) : UInt32 :=
  if state &&& 1 = 1 then (state >>> 1) ^^^ 0xEDB88320 else state >>> 1

def shiftByte (state : UInt32) : UInt32 :=
  shift (shift (shift (shift (shift (shift (shift (shift state)))))))

def table : Vector UInt32 256 :=
  Vector.ofFn fun i => shiftByte i.val.toUInt32

def absorb (state : UInt32) (byte : UInt8) : UInt32 :=
  let low := state.toUInt8 ^^^ byte
  (state >>> 8) ^^^ table.get ⟨low.toNat, UInt8.toNat_lt low⟩

/-- The state after the input from position `i` on. -/
def absorbFrom (state : UInt32) (data : ByteArray) (i : Nat) : UInt32 :=
  if h : i < data.size then absorbFrom (absorb state data[i]) data (i + 1) else state
termination_by data.size - i

def checksum (data : ByteArray) : UInt32 :=
  absorbFrom 0xFFFFFFFF data 0 ^^^ 0xFFFFFFFF

end PackedIndex.Crc32
