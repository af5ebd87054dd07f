import PackedIndex.Attributes
import PackedIndex.Bytes.BigEndian
/-! # Attributes as bytes

Attributes are stored in 26 bytes: the key size, the value size and the record count in eight bytes
each, the format byte, and a zero byte kept in reserve. Every other byte string is damage.
-/
namespace PackedIndex.Attributes

def encodedSize : Nat := 26

def encode (attributes : Attributes) : ByteArray :=
  BigEndian.encode 8 attributes.keySize ++ BigEndian.encode 8 attributes.valueSize ++
    BigEndian.encode 8 attributes.recordCount ++ [attributes.format.toByte, 0].toByteArray

/-- The attributes stored in the first bytes of `data`. -/
def decode (data : ByteArray) : Except Damage Attributes :=
  if h : data.size < encodedSize then .error (.attributesTooShort encodedSize data.size)
  else
    have : 26 ≤ data.size := Nat.not_lt.mp h
    match Format.ofByte? data[24] with
    | none => .error (.unknownFormat data[24])
    | some format =>
      if data[25] ≠ 0 then .error .reservedByte
      else .ok
        { keySize := BigEndian.read data 0 8
          valueSize := BigEndian.read data 8 8
          recordCount := BigEndian.read data 16 8
          format }

end PackedIndex.Attributes
