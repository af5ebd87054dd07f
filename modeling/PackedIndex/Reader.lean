import PackedIndex.Header.Codec
import PackedIndex.Record.Codec
import PackedIndex.Search
import PackedIndex.Volume
/-! # Reading an index file

A reader holds the content of a finished file. A look-up goes down from the root page to a leaf page;
every child pointer is compared with the place that the geometry gives the child, so that a damaged
pointer is noticed rather than followed. The records can also be read in file order, without the
index levels.
-/
namespace PackedIndex

/-- An open index file. -/
structure Reader where
  path : String
  file : Content
  header : Header
  order : KeyOrder

namespace Reader

def layout (reader : Reader) : Layout :=
  reader.header.layout

/-- A reader of a content that is a finished index. -/
def ofContent (path : String) (file : Content) (order : KeyOrder) : Except Error Reader := do
  if file.size < Size.header then
    throw (.corruption .fileTooSmall)
  let header ← Header.decode (file.read 0 Size.header)
  if !header.isFinalized then
    throw (.invalidState (.neverFinalized path))
  if file.size < header.layout.leafEnd then
    throw (.corruption (.fileTruncated file.size header.layout.leafEnd))
  return { path, file, header, order }

def openPath (volume : Volume) (path : String) (order : KeyOrder) : Except Error Reader :=
  match volume.existing path with
  | .error cause => .error (.io cause)
  | .ok .directory => .error (.io .noDevice)
  | .ok (.file file) => ofContent path (volume.content file) order

/-- The page number of the child at a slot, when `pointer` leads to that child. -/
def childPage (layout : Layout) (level page slot pointer : Nat) : Except Damage Nat :=
  let child := page * layout.branchingFactor + slot
  let expected := layout.childOffset level child
  if (layout.childRegion level).pages ≤ child ∨ pointer ≠ expected then
    .error (.childPointer pointer level page slot expected)
  else .ok child

/-- Goes down from a page over the last `remaining` index levels, to the number of a leaf page. -/
def descend (reader : Reader) (query : ByteArray) : (remaining page : Nat) → Except Damage Nat
  | 0, page => .ok page
  | remaining + 1, page => do
    let layout := reader.layout
    let level := layout.numLevels - (remaining + 1)
    let bytes ← extent reader.file (layout.pageOffset level page) layout.pageSize
    let slot := Search.findChild reader.order query bytes layout.keySize
      (layout.separatorsIn level page)
    let pointer := BigEndian.read bytes (layout.pointerPosition slot) Size.pointer
    reader.descend query remaining (← childPage layout level page slot pointer)

def lookup (reader : Reader) (query : ByteArray) : Except Damage (Option Record) := do
  let layout := reader.layout
  let page ← reader.descend query layout.numLevels 0
  let offset := layout.leafPageOffset page
  let bytes ← extent reader.file offset layout.pageSize
  match Search.findInLeaf reader.order query bytes layout.leafRecordSize layout.keySize
      (layout.recordsInLeaf page) with
  | none => return none
  | some slot =>
    return some (← layout.encoding.decodeLeaf reader.file (offset + slot * layout.leafRecordSize)
      layout.keySize reader.header.attributes.valueSize)

/-- The record stored under a key; a short key stands for itself with zeros behind it. -/
def get (reader : Reader) (key : ByteArray) : Except Error Record := do
  let query ← (padKey key reader.layout.keySize).mapError .invalidArgument
  match ← (reader.lookup query).mapError .corruption with
  | some record => return record
  | none => throw (.notFound (.key key))

/-- The records stored under several keys, nothing for a key that is missing. Any other failure is
the answer to all. -/
def getMany (reader : Reader) : List ByteArray → Except Error (List (Option Record))
  | [] => .ok []
  | key :: keys =>
    match reader.get key with
    | .ok record => (reader.getMany keys).map (some record :: ·)
    | .error error =>
      if error.isNotFound then (reader.getMany keys).map (none :: ·) else .error error

def recordAt (reader : Reader) (index : Nat) : Except Damage Record :=
  let layout := reader.layout
  let page := index / layout.recordsPerLeafPage
  let slot := index % layout.recordsPerLeafPage
  layout.encoding.decodeLeaf reader.file
    (layout.leafPageOffset page + slot * layout.leafRecordSize)
    layout.keySize reader.header.attributes.valueSize

/-- A pass over the records of a file in order. -/
structure Pass where
  reader : Reader
  /-- The position of the next record. -/
  next : Nat

def pass (reader : Reader) : Pass :=
  ⟨reader, 0⟩

/-- The next record, or the damage in its place, and the pass behind it. -/
def Pass.next? (pass : Pass) : Option (Except Damage Record × Pass) :=
  if pass.next < pass.reader.layout.recordCount then
    some (pass.reader.recordAt pass.next, { pass with next := pass.next + 1 })
  else none

def Pass.remaining (pass : Pass) : Nat :=
  pass.reader.layout.recordCount - pass.next

def Pass.toList (pass : Pass) : List (Except Damage Record) :=
  (List.range' pass.next pass.remaining).map pass.reader.recordAt

def records (reader : Reader) : List (Except Damage Record) :=
  reader.pass.toList

end PackedIndex.Reader
