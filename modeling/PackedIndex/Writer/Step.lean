import PackedIndex.Cursor
import PackedIndex.Header.Codec
import PackedIndex.KeyOrder
import PackedIndex.Options
import PackedIndex.Record.Codec
import PackedIndex.Volume
/-! # The steps of a writer

A writer gathers records in memory and hands finished pages and values to its file. This module holds
its memory and the steps that change it. A step is a pure function: it answers with the requests it
needs, in order, and with the writer as it is when they are issued, so that one definition describes
both a run whose requests all succeed and a run that is cut short.
-/
namespace PackedIndex

/-- An index page being filled: its number in its level, and its bytes so far. -/
structure IndexPage where
  page : Nat
  data : ByteArray

namespace IndexPage

def start (layout : Layout) (level page : Nat) : IndexPage :=
  { page
    data := Bytes.overlay (Bytes.zeros layout.pageSize) (layout.pointerPosition 0)
      (BigEndian.encode Size.pointer (layout.childOffset level (page * layout.branchingFactor))) }

def place (indexPage : IndexPage) (layout : Layout) (placement : Placement) (key : ByteArray) :
    IndexPage :=
  let child := placement.page * layout.branchingFactor + placement.slot + 1
  let separated :=
    Bytes.overlay indexPage.data (layout.separatorPosition placement.slot) key
  { indexPage with
    data := Bytes.overlay separated (layout.pointerPosition (placement.slot + 1))
      (BigEndian.encode Size.pointer (layout.childOffset placement.level child)) }

end IndexPage

/-- Whether a writer takes records, and if not, why. -/
inductive WriterState where
  | accepting
  | failed
  | finished
  | discarded
deriving DecidableEq, Repr

/-- A file being built and what is not yet in it. -/
structure Writer where
  path : String
  file : FileId
  header : Header
  options : Options
  order : KeyOrder
  cursors : Cursors
  /-- The page being filled on each index level, root first. -/
  indexPages : List IndexPage
  /-- The leaf page being filled. -/
  leafPage : ByteArray
  /-- The value entries that are not yet in the file. -/
  valueBuffer : ByteArray
  /-- The file offset at which the value buffer goes. -/
  valueFlushed : Nat
  /-- The file offset at which the next value entry goes. -/
  valueCursor : Nat
  /-- The padded key of the last record. -/
  lastKey : ByteArray
  /-- The number of records taken. -/
  written : Nat
  state : WriterState

namespace Writer

/-- A writer together with the requests that it issues. -/
structure Step where
  requests : List Request
  writer : Writer

def layout (writer : Writer) : Layout :=
  writer.header.layout

/-- A writer for an opened, empty file. It reserves the header and all pages. -/
def start (path : String) (file : FileId) (attributes : Attributes) (layout : Layout)
    (options : Options) : Step :=
  let header := Header.provisional attributes layout
  { requests := [.write 0 header.encodePage, .setLength layout.leafEnd]
    writer :=
      { path
        file
        header
        options
        order := KeyOrder.bytewise
        cursors := Cursors.start layout
        indexPages := (List.range layout.numLevels).map fun level => IndexPage.start layout level 0
        leafPage := Bytes.zeros layout.pageSize
        valueBuffer := ByteArray.empty
        valueFlushed := layout.valueOffset
        valueCursor := layout.valueOffset
        lastKey := ByteArray.empty
        written := 0
        state := .accepting } }

def ensureAccepting (writer : Writer) : Except Error Unit :=
  match writer.state with
  | .accepting => .ok ()
  | .failed => .error (.invalidState .writerFailed)
  | .finished | .discarded => .error (.invalidState .writerClosed)

/-- The padded key of a record that may come next. A full writer refuses every record alike. -/
def approve (writer : Writer) (record : Record) : Except Error ByteArray := do
  let attributes := writer.header.attributes
  if writer.written = writer.layout.recordCount then
    throw (.tooManyRecords writer.layout.recordCount)
  (writer.layout.encoding.validate attributes.keySize attributes.valueSize record).mapError
    .invalidArgument
  let key ← (padKey record.key attributes.keySize).mapError .invalidArgument
  if writer.options.verifyOrder ∧ 0 < writer.written ∧ writer.order key writer.lastKey ≠ .gt then
    throw (.invalidArgument .keyOrder)
  return key

/-- Makes `key` the separator in front of a new leaf page. Index pages that are full on the way go to
the file. Nothing when the geometry has no place for it. -/
def placeSeparator (writer : Writer) (key : ByteArray) : Option Step :=
  let layout := writer.layout
  match writer.cursors.propagate with
  | (none, _) => none
  | (some placement, cursors) => some
    { requests := (writer.indexPages.zipIdx.drop (placement.level + 1)).map
        fun (indexPage, level) => .write (layout.pageOffset level indexPage.page) indexPage.data
      writer :=
        { writer with
          cursors
          indexPages := writer.indexPages.mapIdx fun level indexPage =>
            if level < placement.level then indexPage
            else if level = placement.level then indexPage.place layout placement key
            else IndexPage.start layout level (cursors.page level) } }

def flushValues (writer : Writer) : Step :=
  if writer.valueBuffer.size = 0 then { requests := [], writer }
  else
    { requests := [.write writer.valueFlushed writer.valueBuffer]
      writer :=
        { writer with
          valueFlushed := writer.valueFlushed + writer.valueBuffer.size
          valueBuffer := ByteArray.empty } }

/-- Gathers the value entry of a record, and sends the gathered ones when they are many. -/
def storeValue (writer : Writer) (record : Record) : Step :=
  let encoding := writer.layout.encoding
  if encoding.usesValueRegion then
    let entry := encoding.valueEntry record
    let gathered :=
      { writer with
        valueBuffer := writer.valueBuffer ++ entry
        valueCursor := writer.valueCursor + entry.size }
    if writer.options.valueBufferSize ≤ gathered.valueBuffer.size then gathered.flushValues
    else { requests := [], writer := gathered }
  else { requests := [], writer }

/-- Puts the leaf record of a record whose value entry is at `pointer` into the leaf page. A leaf page
with its last record goes to the file. -/
def storeLeaf (writer : Writer) (key : ByteArray) (record : Record) (pointer : Nat) : Step :=
  let layout := writer.layout
  let index := writer.written
  let slot := index % layout.recordsPerLeafPage
  let leafPage := Bytes.overlay writer.leafPage (slot * layout.leafRecordSize)
    (layout.encoding.leaf layout.keySize record pointer)
  let stored := { writer with leafPage, written := index + 1, lastKey := key }
  if slot + 1 = layout.recordsPerLeafPage ∨ index + 1 = layout.recordCount then
    { requests := [.write (layout.leafPageOffset (index / layout.recordsPerLeafPage)) leafPage]
      writer := { stored with leafPage := Bytes.zeros layout.pageSize } }
  else { requests := [], writer := stored }

/-- The steps that take an admitted record: a separator where the record starts a further leaf page,
then its value entry, then its leaf record. -/
def append (writer : Writer) (key : ByteArray) (record : Record) : Option (List Step) := do
  let separated ←
    if 0 < writer.written ∧ writer.written % writer.layout.recordsPerLeafPage = 0 then
      writer.placeSeparator key
    else some { requests := [], writer }
  let valued := separated.writer.storeValue record
  let pointer := if writer.layout.encoding.usesValueRegion then writer.valueCursor else 0
  return [separated, valued, valued.writer.storeLeaf key record pointer]

/-- What completes the file: the rest of the values, the index pages still open, and at last the
header without its provisional mark. -/
def commit (writer : Writer) : Step :=
  let flushed := writer.flushValues
  let layout := writer.layout
  let header := writer.header.finalize
  { requests := flushed.requests ++
      writer.indexPages.mapIdx (fun level indexPage =>
        .write (layout.pageOffset level indexPage.page) indexPage.data) ++
      [.write 0 header.encodePage] ++ (if writer.options.syncOnFinish then [.sync] else []) ++
      [.status]
    writer := { flushed.writer with header } }

end PackedIndex.Writer
