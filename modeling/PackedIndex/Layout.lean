import PackedIndex.Record
/-! # Page geometry

An index file is the header page, the index levels from the root down, the leaf pages and the value
region. Each region starts on a page boundary. An index page holds its separator keys from its start
and its child pointers behind the room for all separators; what is live in a page follows from the
geometry and is not stored.
-/
namespace PackedIndex

/-- A run of pages: the file offset of the first one, and their number. -/
structure Region where
  offset : Nat
  pages : Nat
deriving DecidableEq, Repr

/-- The page geometry of an index file. -/
structure Layout where
  pageSize : Nat
  keySize : Nat
  recordCount : Nat
  encoding : Encoding
  /-- The bytes of a leaf record. -/
  leafRecordSize : Nat
  /-- The leaf records that a leaf page has room for. -/
  recordsPerLeafPage : Nat
  leafPages : Nat
  leafOffset : Nat
  /-- The file offset of the value region, zero when values are beside their keys. -/
  valueOffset : Nat
  /-- The children that an index page has room for. -/
  branchingFactor : Nat
  /-- The index levels, root first. -/
  levels : List Region
deriving DecidableEq, Repr

namespace Layout

def numLevels (layout : Layout) : Nat :=
  layout.levels.length

/-- Whether block values are beside their keys. -/
def inlineBlock (layout : Layout) : Bool :=
  layout.encoding = .inlineBlock

def leafRegion (layout : Layout) : Region :=
  ⟨layout.leafOffset, layout.leafPages⟩

def leafEnd (layout : Layout) : Nat :=
  layout.leafOffset + layout.leafPages * layout.pageSize

/-- The pages of an index level; below the last one come the leaf pages. -/
def region (layout : Layout) (level : Nat) : Region :=
  (layout.levels[level]?).getD layout.leafRegion

/-- The region whose pages are the children of an index level. -/
def childRegion (layout : Layout) (level : Nat) : Region :=
  layout.region (level + 1)

def pageOffset (layout : Layout) (level page : Nat) : Nat :=
  (layout.region level).offset + page * layout.pageSize

def leafPageOffset (layout : Layout) (page : Nat) : Nat :=
  layout.leafOffset + page * layout.pageSize

def childOffset (layout : Layout) (level child : Nat) : Nat :=
  (layout.childRegion level).offset + child * layout.pageSize

/-- The live separators of an index page: one less than its children. -/
def separatorsIn (layout : Layout) (level page : Nat) : Nat :=
  min ((layout.childRegion level).pages - page * layout.branchingFactor)
    layout.branchingFactor - 1

def recordsInLeaf (layout : Layout) (page : Nat) : Nat :=
  min (layout.recordCount - page * layout.recordsPerLeafPage) layout.recordsPerLeafPage

def separatorPosition (layout : Layout) (slot : Nat) : Nat :=
  slot * layout.keySize

def pointerPosition (layout : Layout) (slot : Nat) : Nat :=
  (layout.branchingFactor - 1) * layout.keySize + slot * Size.pointer

/-- Whether every region starts on a page boundary. -/
def isAligned (layout : Layout) : Bool :=
  layout.levels.all (·.offset % layout.pageSize = 0) && layout.leafOffset % layout.pageSize = 0 &&
    layout.valueOffset % layout.pageSize = 0

end PackedIndex.Layout
