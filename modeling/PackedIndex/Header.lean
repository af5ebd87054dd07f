import PackedIndex.Layout
/-! # The header of an index file

The header names the format version, the attributes and the geometry of a file, and two flags. A
file is provisional from its creation until it is finished, and must not be read in between.
-/
namespace PackedIndex

/-- The flags of a header. -/
structure Flags where
  /-- The file is still being built. -/
  provisional : Bool
  /-- Block values are beside their keys. -/
  inlineBlock : Bool
deriving DecidableEq, Repr

namespace Flags

def bits (flags : Flags) : UInt32 :=
  (if flags.provisional then 1 else 0) ||| (if flags.inlineBlock then 2 else 0)

/-- The flags of stored bits; no other bit has a meaning. -/
def ofBits? (bits : UInt32) : Option Flags :=
  if bits &&& ~~~3 = 0 then some ⟨bits &&& 1 = 1, bits &&& 2 = 2⟩ else none

def contains (flags other : Flags) : Bool :=
  (!other.provisional || flags.provisional) && (!other.inlineBlock || flags.inlineBlock)

def insert (flags other : Flags) : Flags :=
  ⟨flags.provisional || other.provisional, flags.inlineBlock || other.inlineBlock⟩

def erase (flags other : Flags) : Flags :=
  ⟨flags.provisional && !other.provisional, flags.inlineBlock && !other.inlineBlock⟩

end Flags

/-- The decoded first page of an index file. -/
structure Header where
  version : UInt32
  flags : Flags
  attributes : Attributes
  layout : Layout
deriving DecidableEq, Repr

namespace Header

def currentVersion : UInt32 := 1

/-- The header of a file that is about to be built. -/
def provisional (attributes : Attributes) (layout : Layout) : Header :=
  { version := currentVersion
    flags := ⟨true, layout.inlineBlock⟩
    attributes
    layout }

def finalize (header : Header) : Header :=
  { header with flags := { header.flags with provisional := false } }

def isFinalized (header : Header) : Bool :=
  !header.flags.provisional

end PackedIndex.Header
