/-! # Record formats

How the values of an index belong to its keys. The format is stored as one byte.
-/
namespace PackedIndex

/-- How values are associated with keys. -/
inductive Format where
  /-- Keys alone. -/
  | atom
  /-- Values exactly as wide as the keys. -/
  | pair
  /-- Values of one fixed size. -/
  | block
  /-- Values of any size. -/
  | blob
deriving DecidableEq, Repr, Inhabited

namespace Format

def toByte : Format → UInt8
  | atom => 0
  | pair => 1
  | block => 2
  | blob => 3

def ofByte? (byte : UInt8) : Option Format :=
  if byte = 0 then some atom
  else if byte = 1 then some pair
  else if byte = 2 then some block
  else if byte = 3 then some blob
  else none

def name : Format → String
  | atom => "atom"
  | pair => "pair"
  | block => "block"
  | blob => "blob"

def ofName? (name : String) : Option Format :=
  [atom, pair, block, blob].find? (·.name = name)

@[simp] theorem ofByte?_toByte (format : Format) : ofByte? format.toByte = some format := by
  cases format <;> rfl

end PackedIndex.Format
