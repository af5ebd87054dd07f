/-! # Big-endian integers

Every integer of an index file is written most significant byte first. `digits` and `value` are the
two directions on lists of bytes, `encode` and `decode` the same on byte strings.
-/
namespace PackedIndex.BigEndian

/-- The last `width` digits of `n` in base 256, most significant first. -/
def digits : (width : Nat) → (n : Nat) → List UInt8
  | 0, _ => []
  | width + 1, n => digits width (n / 256) ++ [n.toUInt8]

/-- The number whose digits in base 256 are given, most significant first. -/
def value (digits : List UInt8) : Nat :=
  digits.foldl (fun sum digit => 256 * sum + digit.toNat) 0

def encode (width n : Nat) : ByteArray :=
  (digits width n).toByteArray

def decode (data : ByteArray) : Nat :=
  value data.data.toList

def read (data : ByteArray) (offset width : Nat) : Nat :=
  decode (data.extract offset (offset + width))

@[simp] theorem length_digits (width n : Nat) : (digits width n).length = width := by
  induction width generalizing n with
  | zero => rfl
  | succ width ih => simp [digits, ih]

@[simp] theorem size_encode (width n : Nat) : (encode width n).size = width := by
  simp [encode]

end PackedIndex.BigEndian
