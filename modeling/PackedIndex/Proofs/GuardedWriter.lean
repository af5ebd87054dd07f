import PackedIndex.Proofs.Guarded
import PackedIndex.Proofs.Progress
/-! # Writing with every operation guarded

The operations of a writer that move bytes about once more, each of them with the conditions under
which it may be carried out: numbers have 64 bits, slices of pages are inside the page, separators
are in front of the child pointers and these behind them, a pointer leads to a child that there is,
and a separator goes to the page that its cursor stands on. A guarded operation answers nothing when
such a condition is broken. A writer that takes records breaks none.
-/
namespace PackedIndex

theorem Machine.mapM_eq_map {α β : Type} {f : α → Option β} {g : α → β} {items : List α}
    (h : ∀ item ∈ items, f item = some (g item)) : items.mapM f = some (items.map g) := by
  induction items with
  | nil => rfl
  | cons item items ih =>
    rw [List.mapM_cons, h item List.mem_cons_self,
      ih fun other hother => h other (List.mem_cons_of_mem _ hother)]
    rfl

theorem Machine.guard_eq {p : Prop} [Decidable p] (h : p) : (guard p : Option Unit) = some () :=
  if_pos h

/-- `data` with `patch` written from `offset` on, which has to be inside. -/
def Bytes.patch? (data : ByteArray) (offset : ℕ) (patch : ByteArray) : Option ByteArray :=
  if offset + patch.size ≤ data.size then some (overlay data offset patch) else none

theorem Bytes.patch?_eq {data patch : ByteArray} {offset : ℕ} (h : offset + patch.size ≤ data.size) :
    patch? data offset patch = some (overlay data offset patch) :=
  if_pos h

/-! ## Index pages -/

namespace Layout

def childOffset? (layout : Layout) (level child : ℕ) : Option ℕ := do
  let region ← layout.childRegion? level
  guard (child < region.pages)
  let distance ← Machine.mul child layout.pageSize
  Machine.add region.offset distance

def separatorPosition? (layout : Layout) (slot : ℕ) : Option ℕ :=
  Machine.mul slot layout.keySize

theorem separatorPosition_add_le {layout : Layout} {slot : ℕ}
    (hslot : slot + 1 < layout.branchingFactor) :
    layout.separatorPosition slot + layout.keySize ≤ layout.pointerPosition 0 := by
  rw [separatorPosition, pointerPosition, Nat.zero_mul, Nat.add_zero, ← Nat.succ_mul]
  exact Nat.mul_le_mul_right _ (by omega)

theorem pointerPosition_zero_le (layout : Layout) (slot : ℕ) :
    layout.pointerPosition 0 ≤ layout.pointerPosition slot := by
  simp [pointerPosition]

namespace Planned

variable {attributes : Attributes} {layout : Layout} (hl : layout.Planned attributes)
include hl

theorem childOffset?_eq {level child : ℕ} (hlevel : level < layout.numLevels)
    (hchild : child < (layout.region (level + 1)).pages) :
    layout.childOffset? level child = some (layout.childOffset level child) := by
  have hend := hl.page_end_le_leafEnd (Nat.add_one_le_of_lt hlevel) hchild
  have hlimit := hl.leafEnd_lt
  unfold pageOffset at hend
  simp only [childOffset?, hl.childRegion?_eq hlevel, Option.bind_eq_bind, Option.bind_some,
    childRegion]
  rw [Machine.guard_eq hchild, Option.bind_some, Machine.mul_eq (by omega), Option.bind_some,
    Machine.add_eq (by omega), childOffset, childRegion]

theorem separatorPosition?_eq {slot : ℕ} (hslot : slot + 1 < layout.branchingFactor) :
    layout.separatorPosition? slot = some (layout.separatorPosition slot) := by
  have hplace := separatorPosition_add_le hslot
  have hroom := hl.pointer_room hl.branchingFactor_pos
  have hpage := hl.pageSize_le_leafEnd
  have hlimit := hl.leafEnd_lt
  unfold separatorPosition at hplace
  exact Machine.mul_eq (by omega)

end Planned

end Layout

namespace IndexPage

def start? (layout : Layout) (level page : ℕ) : Option IndexPage := do
  let child ← Machine.mul page layout.branchingFactor
  let offset ← layout.childOffset? level child
  let position ← layout.pointerPosition? 0
  let data ← Bytes.patch? (Bytes.zeros layout.pageSize) position
    (BigEndian.encode Size.pointer offset)
  return { page, data }

/-- The page with a separator at a slot and the child pointer to the right of it. The page has to be
the one of the placement. -/
def place? (indexPage : IndexPage) (layout : Layout) (placement : Placement) (key : ByteArray) :
    Option IndexPage := do
  guard (indexPage.page = placement.page)
  let pointers ← layout.pointerPosition? 0
  let position ← layout.separatorPosition? placement.slot
  guard (position + key.size ≤ pointers)
  let separated ← Bytes.patch? indexPage.data position key
  let first ← Machine.mul placement.page layout.branchingFactor
  let child ← Machine.add first (placement.slot + 1)
  let offset ← layout.childOffset? placement.level child
  let pointer ← layout.pointerPosition? (placement.slot + 1)
  guard (pointers ≤ pointer)
  let data ← Bytes.patch? separated pointer (BigEndian.encode Size.pointer offset)
  return { indexPage with data }

variable {attributes : Attributes} {layout : Layout} {level page : ℕ}

theorem start?_eq (hl : layout.Planned attributes) (hlevel : level < layout.numLevels)
    (hpage : page < (layout.region level).pages) :
    start? layout level page = some (start layout level page) := by
  obtain ⟨hchild, hlimit⟩ := hl.mul_branchingFactor_lt hlevel hpage
  have hroom := hl.pointer_room hl.branchingFactor_pos
  have hfit : layout.pointerPosition 0 + (BigEndian.encode Size.pointer
      (layout.childOffset level (page * layout.branchingFactor))).size ≤
        (Bytes.zeros layout.pageSize).size := by
    rwa [BigEndian.size_encode, Bytes.size_zeros]
  simp only [start?, Option.bind_eq_bind]
  rw [Machine.mul_eq hlimit, Option.bind_some, hl.childOffset?_eq hlevel hchild, Option.bind_some,
    hl.pointerPosition?_eq hl.branchingFactor_pos, Option.bind_some, Bytes.patch?_eq hfit]
  rfl

theorem place?_eq (hl : layout.Planned attributes) (hlevel : level < layout.numLevels)
    {slot : ℕ} (hslot : slot + 1 < layout.branchingFactor)
    (hchild : page * layout.branchingFactor + (slot + 1) < (layout.region (level + 1)).pages)
    {data key : ByteArray} (hdata : data.size = layout.pageSize) (hkey : key.size = layout.keySize) :
    place? ⟨page, data⟩ layout ⟨level, page, slot⟩ key =
      some (place ⟨page, data⟩ layout ⟨level, page, slot⟩ key) := by
  have hseparator := Layout.separatorPosition_add_le hslot
  have hfront := hl.pointer_room hl.branchingFactor_pos
  have hpointer := hl.pointer_room hslot
  have hpages := hl.pages_le_leafEnd (Nat.add_one_le_of_lt hlevel)
  have hlimit := hl.leafEnd_lt
  have hfirst : layout.separatorPosition slot + key.size ≤ data.size := by omega
  have hsecond : layout.pointerPosition (slot + 1) + (BigEndian.encode Size.pointer
      (layout.childOffset level (page * layout.branchingFactor + (slot + 1)))).size ≤
        (Bytes.overlay data (layout.separatorPosition slot) key).size := by
    rw [BigEndian.size_encode, Bytes.size_overlay]
    omega
  simp only [place?, Option.bind_eq_bind]
  rw [Machine.guard_eq trivial, Option.bind_some, hl.pointerPosition?_eq hl.branchingFactor_pos,
    Option.bind_some, hl.separatorPosition?_eq hslot, Option.bind_some,
    Machine.guard_eq (hkey ▸ hseparator), Option.bind_some, Bytes.patch?_eq hfirst, Option.bind_some,
    Machine.mul_eq (by omega), Option.bind_some, Machine.add_eq (by omega), Option.bind_some,
    hl.childOffset?_eq hlevel hchild, Option.bind_some, hl.pointerPosition?_eq hslot,
    Option.bind_some, Machine.guard_eq (layout.pointerPosition_zero_le _), Option.bind_some,
    Bytes.patch?_eq hsecond]
  rfl

end IndexPage

/-! ## Leaf records -/

/-- The leaf record of a record, cut out of a leaf page as a slice of a given size. The key and the
value have to be inside. -/
def Encoding.leaf? (encoding : Encoding) (keySize recordSize : ℕ) (record : Record) (pointer : ℕ) :
    Option ByteArray := do
  guard (record.key.size ≤ keySize ∧ keySize ≤ recordSize)
  guard ((encoding.leaf keySize record pointer).size ≤ recordSize)
  return encoding.leaf keySize record pointer

theorem Encoding.leaf?_eq {encoding : Encoding} {keySize valueSize size : ℕ} {record : Record}
    (hvalid : encoding.validate keySize valueSize record = .ok ())
    (hsize : encoding.leafRecordSize keySize valueSize = some size) (pointer : ℕ) :
    encoding.leaf? keySize size record pointer = some (encoding.leaf keySize record pointer) := by
  have hkey := (validate_eq_ok.mp hvalid).2.1
  have hleaf := size_leaf hvalid hsize pointer
  simp only [leaf?, Option.bind_eq_bind]
  rw [Machine.guard_eq ⟨hkey, keySize_le_leafRecordSize hsize⟩, Option.bind_some,
    Machine.guard_eq hleaf.le]
  rfl

namespace Writer

open Layout

/-! ## The steps of a record -/

/-- Makes `key` the separator in front of a new leaf page. There has to be a place for it. -/
def placeSeparator? (writer : Writer) (key : ByteArray) : Option Step := do
  let placement ← writer.cursors.propagate.1
  let cursors := writer.cursors.propagate.2
  guard (writer.indexPages.length = writer.cursors.levels.length)
  let requests ← (writer.indexPages.zipIdx.drop (placement.level + 1)).mapM
    fun (indexPage, level) => do
      let offset ← writer.layout.pageOffset? level indexPage.page
      return .write offset indexPage.data
  let indexPages ← writer.indexPages.zipIdx.mapM fun (indexPage, level) =>
    if level < placement.level then some indexPage
    else if level = placement.level then indexPage.place? writer.layout placement key
    else do
      let cursor ← cursors.levels[level]?
      IndexPage.start? writer.layout level cursor.page
  return { requests, writer := { writer with cursors, indexPages } }

def flushValues? (writer : Writer) : Option Step :=
  if writer.valueBuffer.size = 0 then some { requests := [], writer }
  else do
    let valueFlushed ← Machine.add writer.valueFlushed writer.valueBuffer.size
    return {
      requests := [.write writer.valueFlushed writer.valueBuffer]
      writer := { writer with valueFlushed, valueBuffer := ByteArray.empty } }

def storeValue? (writer : Writer) (record : Record) : Option Step :=
  if writer.layout.encoding.usesValueRegion then do
    let entry := writer.layout.encoding.valueEntry record
    let valueCursor ← Machine.add writer.valueCursor entry.size
    let gathered := { writer with valueBuffer := writer.valueBuffer ++ entry, valueCursor }
    if writer.options.valueBufferSize ≤ gathered.valueBuffer.size then gathered.flushValues?
    else return { requests := [], writer := gathered }
  else some { requests := [], writer }

def storeLeaf? (writer : Writer) (key : ByteArray) (record : Record) (pointer : ℕ) :
    Option Step := do
  let layout := writer.layout
  let page ← Machine.div writer.written layout.recordsPerLeafPage
  let slot ← Machine.mod writer.written layout.recordsPerLeafPage
  let start ← Machine.mul slot layout.leafRecordSize
  guard (start + layout.leafRecordSize ≤ writer.leafPage.size)
  let entry ← layout.encoding.leaf? layout.keySize layout.leafRecordSize record pointer
  let leafPage ← Bytes.patch? writer.leafPage start entry
  let written ← Machine.add writer.written 1
  let stored := { writer with leafPage, written, lastKey := key }
  if slot + 1 = layout.recordsPerLeafPage ∨ written = layout.recordCount then do
    let offset ← layout.leafPageOffset? page
    return {
      requests := [.write offset leafPage]
      writer := { stored with leafPage := Bytes.zeros layout.pageSize } }
  else return { requests := [], writer := stored }

/-- Makes `key` a separator where its record starts a further leaf page. -/
def separate? (writer : Writer) (key : ByteArray) : Option Step := do
  let slot ← Machine.mod writer.written writer.layout.recordsPerLeafPage
  if 0 < writer.written ∧ slot = 0 then writer.placeSeparator? key
  else some { requests := [], writer }

def append? (writer : Writer) (key : ByteArray) (record : Record) : Option (List Step) := do
  let separated ← writer.separate? key
  let valued ← separated.writer.storeValue? record
  let pointer := if writer.layout.encoding.usesValueRegion then writer.valueCursor else 0
  let stored ← valued.writer.storeLeaf? key record pointer
  return [separated, valued, stored]

variable {attributes : Attributes} {layout : Layout} {records : List Record} {header : ByteArray}
  {leaf entries count : ℕ} {writer : Writer} {file : Content}

theorem indexPages_start (hl : layout.Planned attributes) (path : String) (file : FileId)
    (options : Options) :
    (List.range layout.numLevels).mapM (fun level => IndexPage.start? layout level 0) =
      some (Writer.start path file attributes layout options).writer.indexPages := by
  apply Machine.mapM_eq_map
  intro level hlevel
  have hlevel := List.mem_range.mp hlevel
  exact IndexPage.start?_eq hl hlevel (hl.pages_pos hlevel.le)

section

variable {level : ℕ}

variable (records) in
theorem pageOffsets_openPages (hl : layout.Planned attributes) (hleaf : leaf < layout.leafPages)
    (start : ℕ) :
    ((Image.openPages layout records leaf).zipIdx.drop start).mapM
        (fun (indexPage, level) => (layout.pageOffset? level indexPage.page).bind fun offset =>
          some (Request.write offset indexPage.data)) =
      some (((Image.openPages layout records leaf).zipIdx.drop start).map
        fun (indexPage, level) =>
          .write (layout.pageOffset level indexPage.page) indexPage.data) := by
  apply Machine.mapM_eq_map
  rw [Image.openPages, zipIdx_drop_map_range]
  intro item hitem
  obtain ⟨level, hlevel, rfl⟩ := List.mem_map.mp hitem
  have hlt : level < layout.numLevels := by
    have := List.mem_range'_1.mp hlevel
    omega
  simp [hl.pageOffset?_eq hlt (hl.openPage_lt hlt.le hleaf)]

theorem child_lt_of_staysOn (hl : layout.Planned attributes)
    (hstays : Cursors.StaysOn layout leaf layout.numLevels level)
    (hleaf : leaf + 1 < layout.leafPages) :
    layout.openPage level leaf * layout.branchingFactor + (layout.openSlots level leaf + 1) <
      (layout.region (level + 1)).pages := by
  have hsplit := layout.openPage_mul_add hstays.lt_top leaf
  have hstarted := hstays.below (level + 1) (Nat.lt_succ_self _) hstays.lt_top
  have hpage := hl.openPage_lt (Nat.add_one_le_of_lt hstays.lt_top) hleaf
  omega

variable (records) in
/-- The pages being filled move on with every condition met. -/
theorem place?_openPages (hl : layout.Planned attributes)
    (hstays : Cursors.StaysOn layout leaf layout.numLevels level)
    (hleaf : leaf + 1 < layout.leafPages) {key : ByteArray} (hkey : key.size = layout.keySize) :
    (Image.openPages layout records leaf).zipIdx.mapM (fun (indexPage, other) =>
        if other < level then some indexPage
        else if other = level then indexPage.place? layout
          ⟨level, layout.openPage level leaf, layout.openSlots level leaf⟩ key
        else ((Cursors.after layout (leaf + 1)).levels[other]?).bind fun cursor =>
          IndexPage.start? layout other cursor.page) =
      some ((Image.openPages layout records leaf).mapIdx fun other indexPage =>
        if other < level then indexPage
        else if other = level then indexPage.place layout
          ⟨level, layout.openPage level leaf, layout.openSlots level leaf⟩ key
        else IndexPage.start layout other ((Cursors.after layout (leaf + 1)).page other)) := by
  rw [List.mapIdx_eq_zipIdx_map]
  apply Machine.mapM_eq_map
  rw [Image.openPages, ← List.drop_zero (l := List.zipIdx _), zipIdx_drop_map_range]
  intro item hitem
  obtain ⟨other, hother, rfl⟩ := List.mem_map.mp hitem
  have hlt : other < layout.numLevels := by
    have := List.mem_range'_1.mp hother
    omega
  dsimp only
  rcases Nat.lt_trichotomy other level with habove | rfl | hbelow
  · rw [if_pos habove, if_pos habove]
  · rw [if_neg (lt_irrefl _), if_pos rfl, if_neg (lt_irrefl _), if_pos rfl]
    exact IndexPage.place?_eq hl hlt hstays.has_room (child_lt_of_staysOn hl hstays hleaf)
      (Image.size_indexPage _ _ _) hkey
  · rw [if_neg hbelow.not_gt, if_neg hbelow.ne', if_neg hbelow.not_gt, if_neg hbelow.ne',
      Cursors.levels_after hlt, Option.bind_some, Cursors.page_after hlt]
    exact IndexPage.start?_eq hl hlt (hl.openPage_lt hlt.le hleaf)

end

theorem Filled.placeSeparator?_eq (hl : layout.Planned attributes)
    (h : Filled layout records header leaf entries count writer file)
    (hleaf : leaf + 1 < layout.leafPages) {key : ByteArray} (hkey : key.size = layout.keySize) :
    writer.placeSeparator? key = writer.placeSeparator key := by
  obtain ⟨level, hstays, hpropagate⟩ :=
    Cursors.propagate_after hl (hleaf.trans_le hl.leafPages_le_room)
  have hlength : (Image.openPages layout records leaf).length =
      (Cursors.after layout leaf).levels.length := by simp [Image.openPages, Cursors.after]
  have hrequests := pageOffsets_openPages records hl (Nat.lt_of_succ_lt hleaf)
    (level + 1)
  have hpages := place?_openPages records hl hstays hleaf hkey
  simp only [placeSeparator?, Writer.placeSeparator, h.layout_eq, h.cursors_eq, h.indexPages_eq,
    hpropagate, Option.bind_eq_bind, Option.bind_some, Option.pure_def, Machine.guard_eq hlength]
  rw [hrequests, Option.bind_some, hpages, Option.bind_some]

theorem Filled.valueFlushed_add (h : Filled layout records header leaf entries count writer file) :
    writer.valueFlushed + writer.valueBuffer.size = writer.valueCursor := by
  obtain ⟨flushed, hvalues, hflushed, -⟩ := h.stored
  rw [h.valueCursor_eq, hvalues, ByteArray.size_append, hflushed, Nat.add_assoc]

theorem flushValues?_eq (h : writer.valueFlushed + writer.valueBuffer.size < Size.limit) :
    writer.flushValues? = some writer.flushValues := by
  unfold flushValues? flushValues
  split_ifs
  · rfl
  · rw [Machine.add_eq h]
    rfl

theorem Filled.storeValue?_eq (h : Filled layout records header leaf entries count writer file)
    {record : Record}
    (hsize : writer.valueCursor + (layout.encoding.valueEntry record).size < Size.limit) :
    writer.storeValue? record = some (writer.storeValue record) := by
  have hflushed := h.valueFlushed_add
  unfold storeValue? Writer.storeValue
  rw [h.layout_eq]
  dsimp only
  split_ifs with hregion hfull
  · rw [Machine.add_eq hsize]
    simp only [Option.bind_eq_bind, Option.bind_some]
    apply flushValues?_eq
    dsimp only
    rw [ByteArray.size_append]
    omega
  · rw [Machine.add_eq hsize]
    rfl
  · rfl

theorem Filled.size_leafPage (h : Filled layout records header leaf entries count writer file) :
    writer.leafPage.size = layout.pageSize := by
  rw [h.leafPage_eq, Image.openLeaf]
  split_ifs
  · simp
  · simp

theorem Filled.storeLeaf?_eq (hl : layout.Planned attributes)
    (h : Filled layout records header leaf entries count writer file)
    (hcount : count < layout.recordCount) {record : Record}
    (hvalid : layout.encoding.validate layout.keySize attributes.valueSize record = .ok ())
    (key : ByteArray) (pointer : ℕ) :
    writer.storeLeaf? key record pointer = some (writer.storeLeaf key record pointer) := by
  have hroom := hl.recordsPerLeafPage_pos
  have hslot := hl.slot_room (Nat.mod_lt count hroom)
  have hpage := hl.pageSize_le_leafEnd
  have hrecords := hl.recordCount_le_leafEnd
  have hlimit := hl.leafEnd_lt
  have hleafPage := h.size_leafPage
  have hleaf := Encoding.size_leaf hvalid hl.leafRecordSize_eq pointer
  have hfit : count % layout.recordsPerLeafPage * layout.leafRecordSize +
      (layout.encoding.leaf layout.keySize record pointer).size ≤ writer.leafPage.size := by
    rw [hleaf, hleafPage]
    exact hslot
  simp only [storeLeaf?, Writer.storeLeaf, h.layout_eq, h.written_eq, Option.bind_eq_bind]
  rw [Machine.div_eq hroom, Option.bind_some, Machine.mod_eq hroom, Option.bind_some,
    Machine.mul_eq (by omega), Option.bind_some, Machine.guard_eq (hleafPage ▸ hslot),
    Option.bind_some, Encoding.leaf?_eq hvalid hl.leafRecordSize_eq, Option.bind_some,
    Bytes.patch?_eq hfit, Option.bind_some, Machine.add_eq (by omega), Option.bind_some]
  split_ifs
  · rw [hl.leafPageOffset?_eq (hl.leafPage_lt hcount)]
    rfl
  · rfl

/-- A record that is approved is taken with every condition met, when its value entry ends at a
place of 64 bits. -/
theorem Progress.append?_eq {options : Options} (hl : layout.Planned attributes)
    (h : Progress attributes options layout records writer file) {record : Record}
    {key : ByteArray} (happrove : writer.approve record = .ok key)
    (hsize : writer.valueCursor + (layout.encoding.valueEntry record).size < Size.limit) :
    writer.append? key record = writer.append key record := by
  obtain ⟨separated, hsteps, hbetween⟩ := h.exists_between hl happrove
  -- the guarded separator step is the one that was taken
  have hguarded : writer.separate? key = some separated := by
    rw [← hbetween.separated_eq, separate?, h.layout_eq, h.written_eq,
      Machine.mod_eq hl.recordsPerLeafPage_pos]
    simp only [Option.bind_eq_bind, Option.bind_some]
    split_ifs with hstart
    · obtain ⟨hnext, -⟩ := lastLeaf_succ_of_start hstart.1 hstart.2
      have hpage : layout.lastLeaf records.length + 1 < layout.leafPages :=
        hnext ▸ hl.leafPage_lt hbetween.length_lt
      exact hbetween.before.placeSeparator?_eq hl hpage hbetween.size_key
    · rfl
  have hcursor : separated.writer.valueCursor = writer.valueCursor := by
    rw [hbetween.placed.valueCursor_eq, hbetween.before.valueCursor_eq]
  have hvalued := hbetween.placed.storeValue?_eq (hcursor ▸ hsize)
  have hstored := hbetween.valued.storeLeaf?_eq hl hbetween.length_lt hbetween.valid key
    (if writer.layout.encoding.usesValueRegion then writer.valueCursor else 0)
  simp [append?, hsteps, hguarded, hvalued, hstored]

end Writer

end PackedIndex
