import PackedIndex.Attributes.Codec
import PackedIndex.Bytes
import PackedIndex.Bytes.Crc32
import PackedIndex.Header
import PackedIndex.Layout.Plan
/-! # The header as bytes

A header takes 636 bytes: the magic number, version, flags, page size, attributes, the geometry, a
table of 32 levels and a checksum over all of it. Reading plans the geometry anew from the stored
attributes and page size; a header that stores any other geometry is refused, so that a reader can
trust the layout it gets.
-/
namespace PackedIndex.Header

def magic : Nat := 0x5041474554524545

/-- The place of the checksum, which covers all bytes before it. -/
def checksumPosition : Nat := Size.header - 4

def levelsPosition : Nat := 120

def encodeRegion (region : Region) : ByteArray :=
  BigEndian.encode 8 region.offset ++ BigEndian.encode 8 region.pages

def encodeBody (header : Header) : ByteArray :=
  let layout := header.layout
  BigEndian.encode 8 magic ++ BigEndian.encode 4 header.version.toNat ++
    BigEndian.encode 4 header.flags.bits.toNat ++ BigEndian.encode 8 layout.pageSize ++
    header.attributes.encode ++ Bytes.zeros 6 ++
    BigEndian.encode 8 layout.leafRecordSize ++ BigEndian.encode 8 layout.recordsPerLeafPage ++
    BigEndian.encode 8 layout.leafPages ++ BigEndian.encode 8 layout.leafOffset ++
    BigEndian.encode 8 layout.valueOffset ++ BigEndian.encode 8 layout.branchingFactor ++
    BigEndian.encode 8 Size.pointer ++ BigEndian.encode 4 layout.numLevels ++ Bytes.zeros 4 ++
    (layout.levels.map encodeRegion).foldl (· ++ ·) ByteArray.empty ++
    Bytes.zeros ((Size.mostLevels - layout.numLevels) * 16)

def encode (header : Header) : ByteArray :=
  let body := header.encodeBody
  body ++ BigEndian.encode 4 (Crc32.checksum body).toNat

def encodePage (header : Header) : ByteArray :=
  Bytes.resize header.encode header.layout.pageSize

/-- The geometry fields of a stored header, before they are believed. -/
structure Geometry where
  leafRecordSize : Nat
  recordsPerLeafPage : Nat
  leafPages : Nat
  leafOffset : Nat
  valueOffset : Nat
  branchingFactor : Nat
  levels : List Region
deriving DecidableEq, Repr

def Geometry.ofLayout (layout : Layout) : Geometry :=
  { layout with }

def readLevels (data : ByteArray) (count : Nat) : List Region :=
  (List.range count).map fun level =>
    let position := levelsPosition + 16 * level
    ⟨BigEndian.read data position 8, BigEndian.read data (position + 8) 8⟩

def readGeometry (data : ByteArray) (levels : Nat) : Geometry :=
  { leafRecordSize := BigEndian.read data 56 8
    recordsPerLeafPage := BigEndian.read data 64 8
    leafPages := BigEndian.read data 72 8
    leafOffset := BigEndian.read data 80 8
    valueOffset := BigEndian.read data 88 8
    branchingFactor := BigEndian.read data 96 8
    levels := readLevels data levels }

def decode (data : ByteArray) : Except Error Header := do
  if data.size < Size.header then
    throw (.corruption (.headerTooShort Size.header data.size))
  let found := BigEndian.read data 0 8
  if found ≠ magic then
    throw (.corruption (.wrongMagic magic found))
  let stored := (BigEndian.read data checksumPosition 4).toUInt32
  let computed := Crc32.checksum (data.extract 0 checksumPosition)
  if stored ≠ computed then
    throw (.checksumMismatch stored computed)
  let version := BigEndian.read data 8 4
  if version ≠ currentVersion.toNat then
    throw (.corruption (.unsupportedVersion version currentVersion.toNat))
  let bits := BigEndian.read data 12 4
  match Flags.ofBits? bits.toUInt32 with
  | none => throw (.corruption (.unknownFlags bits))
  | some flags =>
    let pageSize := BigEndian.read data 16 8
    if pageSize < Size.header ∨ Size.mostPage < pageSize then
      throw (.corruption (.unsupportedPageSize pageSize))
    let attributes ← (Attributes.decode (data.extract 24 50)).mapError .corruption
    let pointerSize := BigEndian.read data 104 8
    if pointerSize ≠ Size.pointer then
      throw (.corruption (.unsupportedPointerSize pointerSize))
    let levels := BigEndian.read data 112 4
    if Size.mostLevels < levels then
      throw (.tooManyLevels levels Size.mostLevels)
    let layout ← (Layout.plan attributes pageSize).mapError (.corruption ∘ .unusableAttributes)
    if readGeometry data levels = Geometry.ofLayout layout ∧
        layout.inlineBlock = flags.inlineBlock then
      return { version := version.toUInt32, flags, attributes, layout }
    else
      throw (.corruption .geometryMismatch)

end PackedIndex.Header
