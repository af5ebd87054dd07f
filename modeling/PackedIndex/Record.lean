import PackedIndex.Attributes
import PackedIndex.Size
/-! # Records and how they are stored

A record is a key with the value that its format gives it. The encoding of an index says where the
parts of a record go: beside the key in a leaf record, or in the value region with a pointer beside
the key.
-/
namespace PackedIndex

inductive Record where
  /-- A key without a value. -/
  | atom (key : ByteArray)
  /-- A key with a value of the same width. -/
  | pair (key value : ByteArray)
  /-- A key with a value of fixed size. -/
  | block (key value : ByteArray)
  /-- A key with a value of any size. -/
  | blob (key value : ByteArray)
deriving DecidableEq

namespace Record

/-- The record of a format; a value given for an atom is dropped. -/
def ofFormat : Format → (key value : ByteArray) → Record
  | .atom, key, _ => .atom key
  | .pair, key, value => .pair key value
  | .block, key, value => .block key value
  | .blob, key, value => .blob key value

def key : Record → ByteArray
  | atom key | pair key _ | block key _ | blob key _ => key

def value? : Record → Option ByteArray
  | atom _ => none
  | pair _ value | block _ value | blob _ value => some value

def format : Record → Format
  | atom _ => .atom
  | pair .. => .pair
  | block .. => .block
  | blob .. => .blob

def withKey (record : Record) (key : ByteArray) : Record :=
  ofFormat record.format key (record.value?.getD ByteArray.empty)

end Record

/-- Where the parts of a record are stored. -/
inductive Encoding where
  /-- The key. -/
  | atom
  /-- The key and a value of key width. -/
  | pair
  /-- The key and a value of fixed size. -/
  | inlineBlock
  /-- The key and a pointer to a value of fixed size. -/
  | outOfLineBlock
  /-- The key and a pointer to a value behind its length. -/
  | blob
deriving DecidableEq, Repr, Inhabited

namespace Encoding

/-- The encoding of an index on pages of a given size. Blocks stay beside their keys only when the
two together fill a page without rest. -/
def select (attributes : Attributes) (pageSize : Nat) : Encoding :=
  match attributes.format with
  | .atom => atom
  | .pair => pair
  | .block =>
    match Size.checked (attributes.keySize + attributes.valueSize) with
    | some size => if size ≤ pageSize ∧ pageSize % size = 0 then inlineBlock else outOfLineBlock
    | none => outOfLineBlock
  | .blob => blob

def format : Encoding → Format
  | atom => .atom
  | pair => .pair
  | inlineBlock | outOfLineBlock => .block
  | blob => .blob

def usesValueRegion : Encoding → Bool
  | outOfLineBlock | blob => true
  | _ => false

/-- The bytes of a leaf record, when 64 bits hold their number. -/
def leafRecordSize (encoding : Encoding) (keySize valueSize : Nat) : Option Nat :=
  match encoding with
  | atom => some keySize
  | pair => Size.checked (keySize * 2)
  | inlineBlock => Size.checked (keySize + valueSize)
  | outOfLineBlock | blob => Size.checked (keySize + Size.pointer)

def validate (encoding : Encoding) (keySize valueSize : Nat) (record : Record) :
    Except ArgumentFault Unit := do
  if record.format ≠ encoding.format then
    throw (.formatMismatch record.format encoding.format)
  if keySize < record.key.size then throw (.keyTooLong record.key.size keySize)
  match record with
  | .atom _ => pure ()
  | .pair _ value => if value.size ≠ keySize then throw (.pairValueSize keySize value.size)
  | .block _ value => if value.size ≠ valueSize then throw (.blockValueSize valueSize value.size)
  | .blob _ value => if Size.blobLimit ≤ value.size then throw (.blobTooLarge value.size)

end PackedIndex.Encoding
