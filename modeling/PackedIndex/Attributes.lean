import PackedIndex.Error
/-! # Attributes of an index

The shape of the records that an index holds: the width of its keys, how values belong to them, the
width of the values where it is fixed, and the number of records.
-/
namespace PackedIndex

/-- The shape of the records of an index. -/
structure Attributes where
  keySize : Nat
  valueSize : Nat
  recordCount : Nat
  format : Format
deriving DecidableEq, Repr

namespace Attributes

def atom (keySize recordCount : Nat) : Attributes :=
  ⟨keySize, 0, recordCount, .atom⟩

def pair (keySize recordCount : Nat) : Attributes :=
  ⟨keySize, keySize, recordCount, .pair⟩

def block (keySize valueSize recordCount : Nat) : Attributes :=
  ⟨keySize, valueSize, recordCount, .block⟩

def blob (keySize recordCount : Nat) : Attributes :=
  ⟨keySize, 0, recordCount, .blob⟩

def withKeySize (attributes : Attributes) (keySize : Nat) : Attributes :=
  { attributes with
    keySize
    valueSize := if attributes.format = .pair then keySize else attributes.valueSize }

def withValueSize (attributes : Attributes) (valueSize : Nat) : Attributes :=
  { attributes with valueSize }

def withRecordCount (attributes : Attributes) (recordCount : Nat) : Attributes :=
  { attributes with recordCount }

/-- Refuses attributes that no index can have. -/
def validate (attributes : Attributes) : Except ArgumentFault Unit := do
  if attributes.keySize = 0 then throw .noKeySize
  if attributes.recordCount = 0 then throw .noRecordCount
  match attributes.format with
  | .atom | .blob =>
    if attributes.valueSize ≠ 0 then
      throw (.valueSizeNotFixed attributes.format attributes.valueSize)
  | .pair =>
    if attributes.valueSize ≠ attributes.keySize then
      throw (.pairSizesDiffer attributes.valueSize attributes.keySize)
  | .block => if attributes.valueSize = 0 then throw .noBlockValueSize

end PackedIndex.Attributes
