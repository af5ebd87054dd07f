import PackedIndex.Reader
import PackedIndex.Proofs.Lookup
/-! # Reading with every operation guarded

The operations of a reader once more, each of them with the conditions under which it may be carried
out: numbers have 64 bits, differences are not negative, nothing is divided by zero, indices are in
range, and the pages and leaf records that are read are inside the file. A guarded operation answers
nothing when such a condition is broken. In a planned geometry none is.
-/
namespace PackedIndex

/-! ## Numbers of 64 bits -/

namespace Machine

def add (a b : ℕ) : Option ℕ := Size.checked (a + b)

def mul (a b : ℕ) : Option ℕ := Size.checked (a * b)

def sub (a b : ℕ) : Option ℕ := if b ≤ a then some (a - b) else none

def div (a b : ℕ) : Option ℕ := if b ≠ 0 then some (a / b) else none

def mod (a b : ℕ) : Option ℕ := if b ≠ 0 then some (a % b) else none

variable {a b : ℕ}

theorem add_eq (h : a + b < Size.limit) : add a b = some (a + b) :=
  Size.checked_eq_some.mpr ⟨h, rfl⟩

theorem mul_eq (h : a * b < Size.limit) : mul a b = some (a * b) :=
  Size.checked_eq_some.mpr ⟨h, rfl⟩

theorem sub_eq (h : b ≤ a) : sub a b = some (a - b) :=
  if_pos h

theorem div_eq (h : 0 < b) : div a b = some (a / b) :=
  if_pos h.ne'

theorem mod_eq (h : 0 < b) : mod a b = some (a % b) :=
  if_pos h.ne'

end Machine

/-! ## The geometry -/

namespace Layout

def pageOffset? (layout : Layout) (level page : ℕ) : Option ℕ := do
  let region ← layout.levels[level]?
  let distance ← Machine.mul page layout.pageSize
  Machine.add region.offset distance

def leafPageOffset? (layout : Layout) (page : ℕ) : Option ℕ := do
  let distance ← Machine.mul page layout.pageSize
  Machine.add layout.leafOffset distance

def childRegion? (layout : Layout) (level : ℕ) : Option Region := do
  let below ← Machine.add level 1
  return layout.region below

def separatorsIn? (layout : Layout) (level page : ℕ) : Option ℕ := do
  let region ← layout.childRegion? level
  let before ← Machine.mul page layout.branchingFactor
  let children ← Machine.sub region.pages before
  Machine.sub (min children layout.branchingFactor) 1

def recordsInLeaf? (layout : Layout) (page : ℕ) : Option ℕ := do
  let before ← Machine.mul page layout.recordsPerLeafPage
  let behind ← Machine.sub layout.recordCount before
  return min behind layout.recordsPerLeafPage

def pointerPosition? (layout : Layout) (slot : ℕ) : Option ℕ := do
  let separators ← Machine.sub layout.branchingFactor 1
  let room ← Machine.mul separators layout.keySize
  let distance ← Machine.mul slot Size.pointer
  Machine.add room distance

def slotOffset? (layout : Layout) (offset slot : ℕ) : Option ℕ := do
  let distance ← Machine.mul slot layout.leafRecordSize
  Machine.add offset distance

variable {attributes : Attributes} {layout : Layout}

theorem levels_getElem? {level : ℕ} (h : level < layout.numLevels) :
    layout.levels[level]? = some (layout.region level) := by
  have hlevel : level < layout.levels.length := h
  simp [region, hlevel]

namespace Planned

variable (hl : layout.Planned attributes) {level page slot : ℕ}
include hl

theorem level_lt (hlevel : level ≤ layout.numLevels) : level < Size.limit := by
  have hmost := hl.numLevels_le
  have hlimit : Size.mostLevels < Size.limit := by decide
  omega

theorem pageOffset?_eq (hlevel : level < layout.numLevels)
    (hpage : page < (layout.region level).pages) :
    layout.pageOffset? level page = some (layout.pageOffset level page) := by
  have hend := hl.page_end_le_leafEnd hlevel.le hpage
  have hlimit := hl.leafEnd_lt
  unfold Layout.pageOffset at hend
  simp only [pageOffset?, levels_getElem? hlevel, Option.bind_eq_bind, Option.bind_some]
  rw [Machine.mul_eq (by omega), Option.bind_some, Machine.add_eq (by omega), Layout.pageOffset]

theorem leafPageOffset?_eq (hpage : page < layout.leafPages) :
    layout.leafPageOffset? page = some (layout.leafPageOffset page) := by
  have hend := hl.leafPage_end_le_leafEnd hpage
  have hlimit := hl.leafEnd_lt
  unfold Layout.leafPageOffset at hend
  simp only [leafPageOffset?, Option.bind_eq_bind]
  rw [Machine.mul_eq (by omega), Option.bind_some, Machine.add_eq (by omega),
    Layout.leafPageOffset]

theorem childRegion?_eq (hlevel : level < layout.numLevels) :
    layout.childRegion? level = some (layout.childRegion level) := by
  simp only [childRegion?, Option.bind_eq_bind]
  rw [Machine.add_eq (hl.level_lt hlevel), Option.bind_some]
  rfl

theorem mul_branchingFactor_lt (hlevel : level < layout.numLevels)
    (hpage : page < (layout.region level).pages) :
    page * layout.branchingFactor < (layout.childRegion level).pages ∧
      page * layout.branchingFactor < Size.limit := by
  have hfirst := (hl.lt_pages_succ_iff hlevel page).mp hpage
  have hpages := hl.pages_le_leafEnd (Nat.add_one_le_of_lt hlevel)
  have hlimit := hl.leafEnd_lt
  exact ⟨hfirst, by omega⟩

theorem separatorsIn?_eq (hlevel : level < layout.numLevels)
    (hpage : page < (layout.region level).pages) :
    layout.separatorsIn? level page = some (layout.separatorsIn level page) := by
  obtain ⟨hfirst, hlimit⟩ := hl.mul_branchingFactor_lt hlevel hpage
  have htwo := hl.two_le_branchingFactor
  simp only [separatorsIn?, hl.childRegion?_eq hlevel, Option.bind_eq_bind, Option.bind_some]
  rw [Machine.mul_eq hlimit, Option.bind_some, Machine.sub_eq hfirst.le, Option.bind_some,
    Machine.sub_eq (by omega), Layout.separatorsIn]

theorem mul_recordsPerLeafPage_lt (hpage : page < layout.leafPages) :
    page * layout.recordsPerLeafPage < layout.recordCount := by
  rwa [hl.leafPages_eq, Size.lt_ceilDiv_iff hl.recordsPerLeafPage_pos] at hpage

theorem recordsInLeaf?_eq (hpage : page < layout.leafPages) :
    layout.recordsInLeaf? page = some (layout.recordsInLeaf page) := by
  have hfirst := hl.mul_recordsPerLeafPage_lt hpage
  have hcount := hl.recordCount_le_leafEnd
  have hlimit := hl.leafEnd_lt
  simp only [recordsInLeaf?, Option.bind_eq_bind]
  rw [Machine.mul_eq (by omega), Option.bind_some, Machine.sub_eq hfirst.le, Option.bind_some]
  rfl

theorem pointer_room (hslot : slot < layout.branchingFactor) :
    layout.pointerPosition slot + Size.pointer ≤ layout.pageSize := by
  have hroom := hl.index_room
  have hnext := Nat.mul_le_mul_right Size.pointer hslot
  rw [Nat.succ_mul] at hnext
  unfold Layout.pointerPosition at hroom ⊢
  omega

theorem pointerPosition?_eq (hslot : slot < layout.branchingFactor) :
    layout.pointerPosition? slot = some (layout.pointerPosition slot) := by
  have hroom := hl.pointer_room hslot
  have hpage := hl.pageSize_le_leafEnd
  have hlimit := hl.leafEnd_lt
  have hpos : 1 ≤ layout.branchingFactor := hl.branchingFactor_pos
  unfold Layout.pointerPosition at hroom
  simp only [pointerPosition?, Option.bind_eq_bind]
  rw [Machine.sub_eq hpos, Option.bind_some, Machine.mul_eq (by omega), Option.bind_some,
    Machine.mul_eq (by omega), Option.bind_some, Machine.add_eq (by omega),
    Layout.pointerPosition]

theorem slot_end_le_leafEnd (hpage : page < layout.leafPages)
    (hslot : slot < layout.recordsPerLeafPage) :
    layout.leafPageOffset page + slot * layout.leafRecordSize + layout.leafRecordSize ≤
      layout.leafEnd := by
  have hend := hl.leafPage_end_le_leafEnd hpage
  have hroom := hl.slot_room hslot
  omega

theorem slotOffset?_eq (hpage : page < layout.leafPages)
    (hslot : slot < layout.recordsPerLeafPage) :
    layout.slotOffset? (layout.leafPageOffset page) slot =
      some (layout.leafPageOffset page + slot * layout.leafRecordSize) := by
  have hend := hl.slot_end_le_leafEnd hpage hslot
  have hlimit := hl.leafEnd_lt
  simp only [slotOffset?, Option.bind_eq_bind]
  rw [Machine.mul_eq (by omega), Option.bind_some, Machine.add_eq (by omega)]

end Planned

end Layout

/-! ## Pages and records -/

namespace Search

/-- The child slot of an index page to go down to; keys have to have a width. -/
def findChild? (order : KeyOrder) (query page : ByteArray) (keySize separators : ℕ) : Option ℕ :=
  if keySize ≠ 0 then some (findChild order query page keySize separators) else none

/-- The place of the record with the queried key; every record has to have a key. -/
def findInLeaf? (order : KeyOrder) (query page : ByteArray) (recordSize keySize records : ℕ) :
    Option (Option ℕ) :=
  if recordSize ≠ 0 ∧ keySize ≤ recordSize then
    some (findInLeaf order query page recordSize keySize records)
  else none

end Search

/-- The bytes of a file that a reader counts on. -/
def extent? (file : Content) (offset count : ℕ) : Option ByteArray :=
  if offset + count ≤ file.size then some (file.read offset count) else none

theorem extent?_eq {file : Content} {offset count : ℕ} (h : offset + count ≤ file.size) :
    extent? file offset count = some (file.read offset count) :=
  if_pos h

theorem extent_eq_read {file : Content} {offset count : ℕ} (h : offset + count ≤ file.size) :
    extent file offset count = .ok (file.read offset count) :=
  if_pos h

/-- The record whose leaf record is at an offset. Only its value entry may be outside the file. -/
def Encoding.decodeLeaf? (encoding : Encoding) (file : Content) (offset keySize valueSize : ℕ) :
    Option (Except Damage Record) := do
  let key ← extent? file offset keySize
  let behind ← Machine.add offset keySize
  match encoding with
  | atom => return .ok (.atom key)
  | pair => return .ok (.pair key (← extent? file behind keySize))
  | inlineBlock => return .ok (.block key (← extent? file behind valueSize))
  | outOfLineBlock =>
    let pointer := BigEndian.decode (← extent? file behind Size.pointer)
    return (extent file pointer valueSize).map (.block key)
  | blob =>
    let pointer := BigEndian.decode (← extent? file behind Size.pointer)
    match extent file pointer Size.blobLength with
    | .error damage => return .error damage
    | .ok length =>
      let value ← Machine.add pointer Size.blobLength
      return (extent file value (BigEndian.decode length)).map (.blob key)

/-- The record whose leaf record is at an offset of a file, which has all of it. -/
def Encoding.decodeInside (encoding : Encoding) (file : Content) (offset keySize valueSize : ℕ) :
    Except Damage Record :=
  let key := file.read offset keySize
  let behind := offset + keySize
  let pointer := BigEndian.decode (file.read behind Size.pointer)
  match encoding with
  | atom => .ok (.atom key)
  | pair => .ok (.pair key (file.read behind keySize))
  | inlineBlock => .ok (.block key (file.read behind valueSize))
  | outOfLineBlock => (extent file pointer valueSize).map (.block key)
  | blob =>
    match extent file pointer Size.blobLength with
    | .error damage => .error damage
    | .ok length =>
      (extent file (pointer + Size.blobLength) (BigEndian.decode length)).map (.blob key)

section

variable {encoding : Encoding} {file : Content} {offset keySize valueSize size : ℕ}

theorem Encoding.decodeLeaf_of_room
    (hsize : encoding.leafRecordSize keySize valueSize = some size)
    (hin : offset + size ≤ file.size) :
    encoding.decodeLeaf file offset keySize valueSize =
      encoding.decodeInside file offset keySize valueSize := by
  have hkey := keySize_le_leafRecordSize hsize
  unfold decodeLeaf decodeInside readPointer
  rw [extent_eq_read (by omega), Outcome.ok_bind]
  cases encoding with
  | atom => rfl
  | pair =>
    rw [leafRecordSize, Size.checked_eq_some] at hsize
    dsimp only
    rw [extent_eq_read (by omega)]
    rfl
  | inlineBlock =>
    rw [leafRecordSize, Size.checked_eq_some] at hsize
    dsimp only
    rw [extent_eq_read (by omega)]
    rfl
  | outOfLineBlock =>
    rw [leafRecordSize, Size.checked_eq_some] at hsize
    dsimp only
    rw [extent_eq_read (by omega), Except.map, Outcome.ok_bind]
    rfl
  | blob =>
    rw [leafRecordSize, Size.checked_eq_some] at hsize
    dsimp only
    rw [extent_eq_read (by omega), Except.map, Outcome.ok_bind]
    cases extent file (BigEndian.decode (file.read (offset + keySize) Size.pointer))
      Size.blobLength with
    | error damage => rfl
    | ok length => rfl

theorem Encoding.decodeLeaf?_eq
    (hsize : encoding.leafRecordSize keySize valueSize = some size)
    (hin : offset + size ≤ file.size) (hfile : file.size < Size.limit) :
    encoding.decodeLeaf? file offset keySize valueSize =
      some (encoding.decodeLeaf file offset keySize valueSize) := by
  have hkey := keySize_le_leafRecordSize hsize
  rw [decodeLeaf_of_room hsize hin]
  unfold decodeLeaf? decodeInside
  rw [extent?_eq (by omega), Machine.add_eq (by omega)]
  simp only [Option.bind_eq_bind, Option.bind_some]
  cases encoding with
  | atom => rfl
  | pair =>
    rw [leafRecordSize, Size.checked_eq_some] at hsize
    dsimp only
    rw [extent?_eq (by omega)]
    rfl
  | inlineBlock =>
    rw [leafRecordSize, Size.checked_eq_some] at hsize
    dsimp only
    rw [extent?_eq (by omega)]
    rfl
  | outOfLineBlock =>
    rw [leafRecordSize, Size.checked_eq_some] at hsize
    dsimp only
    rw [extent?_eq (by omega)]
    rfl
  | blob =>
    rw [leafRecordSize, Size.checked_eq_some] at hsize
    dsimp only
    rw [extent?_eq (by omega), Option.bind_some]
    -- the place behind the length is only computed once the length is known to be inside
    by_cases hlength : BigEndian.decode (file.read (offset + keySize) Size.pointer) +
        Size.blobLength ≤ file.size
    · rw [extent_eq_read hlength, Machine.add_eq (by omega)]
      rfl
    · unfold extent
      rw [if_neg hlength]
      rfl

end

namespace Reader

def childPage? (layout : Layout) (level page slot pointer : ℕ) : Option (Except Damage ℕ) := do
  let first ← Machine.mul page layout.branchingFactor
  let child ← Machine.add first slot
  let region ← layout.childRegion? level
  let distance ← Machine.mul child layout.pageSize
  let expected ← Machine.add region.offset distance
  if region.pages ≤ child ∨ pointer ≠ expected then
    return .error (.childPointer pointer level page slot expected)
  else return .ok child

/-- Goes down from a page over the last index levels. Every page on the way is inside the file, and
so is the pointer in its page. -/
def descend? (reader : Reader) (query : ByteArray) :
    (remaining page : ℕ) → Option (Except Damage ℕ)
  | 0, page => some (.ok page)
  | remaining + 1, page => do
    let level ← Machine.sub reader.layout.numLevels (remaining + 1)
    let offset ← reader.layout.pageOffset? level page
    let bytes ← extent? reader.file offset reader.layout.pageSize
    let separators ← reader.layout.separatorsIn? level page
    let slot ← Search.findChild? reader.order query bytes reader.layout.keySize separators
    let position ← reader.layout.pointerPosition? slot
    let pointer ←
      if position + Size.pointer ≤ bytes.size then
        some (BigEndian.read bytes position Size.pointer)
      else none
    match ← childPage? reader.layout level page slot pointer with
    | .error damage => return .error damage
    | .ok child => reader.descend? query remaining child

def lookup? (reader : Reader) (query : ByteArray) : Option (Except Damage (Option Record)) := do
  match ← reader.descend? query reader.layout.numLevels 0 with
  | .error damage => return .error damage
  | .ok page =>
    let offset ← reader.layout.leafPageOffset? page
    let bytes ← extent? reader.file offset reader.layout.pageSize
    let records ← reader.layout.recordsInLeaf? page
    match ← Search.findInLeaf? reader.order query bytes reader.layout.leafRecordSize
        reader.layout.keySize records with
    | none => return .ok none
    | some slot =>
      let place ← reader.layout.slotOffset? offset slot
      let record ← reader.layout.encoding.decodeLeaf? reader.file place reader.layout.keySize
        reader.header.attributes.valueSize
      return record.map some

def get? (reader : Reader) (key : ByteArray) : Option (Except Error Record) :=
  match padKey key reader.layout.keySize with
  | .error fault => some (.error (.invalidArgument fault))
  | .ok query => do
    match ← reader.lookup? query with
    | .error damage => return .error (.corruption damage)
    | .ok none => return .error (.notFound (.key key))
    | .ok (some record) => return .ok record

def recordAt? (reader : Reader) (index : ℕ) : Option (Except Damage Record) := do
  let page ← Machine.div index reader.layout.recordsPerLeafPage
  let slot ← Machine.mod index reader.layout.recordsPerLeafPage
  let offset ← reader.layout.leafPageOffset? page
  let place ← reader.layout.slotOffset? offset slot
  reader.layout.encoding.decodeLeaf? reader.file place reader.layout.keySize
    reader.header.attributes.valueSize

/-- The next record of a pass, or the damage in its place, and the pass behind it. -/
def Pass.step? (pass : Pass) : Option (Option (Except Damage Record × Pass)) :=
  if pass.next < pass.reader.layout.recordCount then do
    let item ← pass.reader.recordAt? pass.next
    let next ← Machine.add pass.next 1
    return some (item, { pass with next })
  else some none

def Pass.remaining? (pass : Pass) : Option ℕ :=
  Machine.sub pass.reader.layout.recordCount pass.next

theorem Pass.remaining?_eq {pass : Pass} (h : pass.next ≤ pass.reader.layout.recordCount) :
    pass.remaining? = some pass.remaining :=
  Machine.sub_eq h

end Reader

end PackedIndex
