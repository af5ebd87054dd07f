import PackedIndex.Bytes.BigEndian
import PackedIndex.Content
import PackedIndex.Record
/-! # Records as bytes

Each encoding gives a record a leaf record of fixed size and, where values are out of line, an entry
in the value region that the leaf record points to:

* atom: the key;
* pair and inline block: the key, the value;
* out-of-line block: the key, a pointer to the value;
* blob: the key, a pointer to the length of the value in four bytes and the value.
-/
namespace PackedIndex

def extent (file : Content) (offset count : Nat) : Except Damage ByteArray :=
  if offset + count ≤ file.size then .ok (file.read offset count)
  else .error (.extentOutside offset count file.size)

def readPointer (file : Content) (offset : Nat) : Except Damage Nat :=
  (extent file offset Size.pointer).map BigEndian.decode

def padKey (key : ByteArray) (keySize : Nat) : Except ArgumentFault ByteArray :=
  if keySize < key.size then .error (.keyTooLong key.size keySize)
  else .ok (Bytes.resize key keySize)

namespace Encoding

/-- The leaf record of `record`, whose value entry is at `pointer`. -/
def leaf (encoding : Encoding) (keySize : Nat) (record : Record) (pointer : Nat) : ByteArray :=
  let key := Bytes.resize record.key keySize
  match encoding with
  | atom => key
  | pair | inlineBlock => key ++ record.value?.getD ByteArray.empty
  | outOfLineBlock | blob => key ++ BigEndian.encode Size.pointer pointer

def valueEntry (encoding : Encoding) (record : Record) : ByteArray :=
  let value := record.value?.getD ByteArray.empty
  match encoding with
  | atom | pair | inlineBlock => ByteArray.empty
  | outOfLineBlock => value
  | blob => BigEndian.encode Size.blobLength value.size ++ value

/-- The record whose leaf record is at `offset` of a file. Every extent is checked against the file. -/
def decodeLeaf (encoding : Encoding) (file : Content) (offset keySize valueSize : Nat) :
    Except Damage Record := do
  let key ← extent file offset keySize
  let behind := offset + keySize
  match encoding with
  | atom => return .atom key
  | pair => return .pair key (← extent file behind keySize)
  | inlineBlock => return .block key (← extent file behind valueSize)
  | outOfLineBlock => return .block key (← extent file (← readPointer file behind) valueSize)
  | blob =>
    let pointer ← readPointer file behind
    let length ← extent file pointer Size.blobLength
    return .blob key (← extent file (pointer + Size.blobLength) (BigEndian.decode length))

end PackedIndex.Encoding
