/-! # Sizes and offsets

Sizes, counts and offsets are natural numbers. The file stores them in 64 bits, so a computed one is
refused when it does not fit.
-/
namespace PackedIndex.Size

/-- The first number that 64 bits cannot hold. -/
def limit : Nat := 0x10000000000000000

/-- `n`, when 64 bits hold it. -/
def checked (n : Nat) : Option Nat :=
  if n < limit then some n else none

def pointer : Nat := 8

def blobLength : Nat := 4

/-- The first size of a blob value that its length cannot tell. -/
def blobLimit : Nat := 0x100000000

/-- The bytes of an encoded header, and so the least page size. -/
def header : Nat := 636

def mostPage : Nat := 0x40000000

def mostLevels : Nat := 32

/-- How often `part` goes into `whole`, rounded up. -/
def ceilDiv (whole part : Nat) : Nat :=
  (whole + part - 1) / part

end PackedIndex.Size
