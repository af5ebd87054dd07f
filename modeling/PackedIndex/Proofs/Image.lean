import PackedIndex.Writer.Step
import PackedIndex.Proofs.Bytes
import PackedIndex.Proofs.Cursor
/-! # The bytes of a finished file

What an index file of given records holds, part by part and without a writer: `indexPage` and
`leafPage` are the pages with their first few items, `values` is the value region, and `bytes` is
the whole file. A page with one item more is the page with that item written behind the others.
-/
namespace PackedIndex.Image

variable (layout : Layout) (records : List Record)

def key (index : ℕ) : ByteArray :=
  Bytes.resize ((records[index]?).elim ByteArray.empty Record.key) layout.keySize

def keys : List ByteArray :=
  records.map fun record => Bytes.resize record.key layout.keySize

/-- The value entries of the first `count` records. -/
def values (count : ℕ) : ByteArray :=
  Bytes.join ((records.take count).map layout.encoding.valueEntry)

/-- The place of the value entry of a record, zero where there are none. -/
def pointer (index : ℕ) : ℕ :=
  if layout.encoding.usesValueRegion then layout.valueOffset + (values layout records index).size
  else 0

def leaf (index : ℕ) : ByteArray :=
  (records[index]?).elim ByteArray.empty fun record =>
    layout.encoding.leaf layout.keySize record (pointer layout records index)

/-- A leaf page with its first `count` records. -/
def leafPage (page count : ℕ) : ByteArray :=
  Bytes.resize
    (Bytes.tile count fun slot => leaf layout records (page * layout.recordsPerLeafPage + slot))
    layout.pageSize

/-- The first key under a child of an index level. -/
def separator (level child : ℕ) : ByteArray :=
  key layout records
    (child * layout.branchingFactor ^ (layout.numLevels - (level + 1)) * layout.recordsPerLeafPage)

/-- The separators of an index page, in the room for all of them. -/
def separators (level page count : ℕ) : ByteArray :=
  Bytes.resize
    (Bytes.tile count fun slot =>
      separator layout records level (page * layout.branchingFactor + slot + 1))
    (layout.pointerPosition 0)

/-- The first child pointers of an index page: the children of a level stand page by page in the
region below. -/
def pointers (level page count : ℕ) : ByteArray :=
  Bytes.tile count fun slot =>
    BigEndian.encode Size.pointer ((layout.childRegion level).offset +
      (page * layout.branchingFactor + slot) * layout.pageSize)

/-- An index page with its first `count` separators and the children around them. -/
def indexPage (level page count : ℕ) : ByteArray :=
  Bytes.resize
    (separators layout records level page count ++ pointers layout level page (count + 1))
    layout.pageSize

def indexLevel (level : ℕ) : ByteArray :=
  Bytes.tile (layout.region level).pages fun page =>
    indexPage layout records level page (layout.separatorsIn level page)

def leaves : ByteArray :=
  Bytes.tile layout.leafPages fun page => leafPage layout records page (layout.recordsInLeaf page)

def header (attributes : Attributes) : Header where
  version := Header.currentVersion
  flags := { provisional := false, inlineBlock := layout.inlineBlock }
  attributes
  layout

/-- The bytes of the finished file of some records. -/
def bytes (attributes : Attributes) : ByteArray :=
  (header layout attributes).encodePage ++
    Bytes.tile layout.numLevels (indexLevel layout records) ++ leaves layout records ++
    values layout records records.length

def openPages (count : ℕ) : List IndexPage :=
  (List.range layout.numLevels).map fun level =>
    ⟨layout.openPage level count,
      indexPage layout records level (layout.openPage level count) (layout.openSlots level count)⟩

variable {layout records}

theorem finalize_provisional (attributes : Attributes) :
    (Header.provisional attributes layout).finalize = header layout attributes := rfl

@[simp] theorem size_key (index : ℕ) : (key layout records index).size = layout.keySize :=
  Bytes.size_resize _ _

@[simp] theorem size_separator (level child : ℕ) :
    (separator layout records level child).size = layout.keySize :=
  size_key _

@[simp] theorem size_leafPage (page count : ℕ) :
    (leafPage layout records page count).size = layout.pageSize :=
  Bytes.size_resize _ _

@[simp] theorem size_separators (level page count : ℕ) :
    (separators layout records level page count).size = layout.pointerPosition 0 :=
  Bytes.size_resize _ _

@[simp] theorem size_pointers (level page count : ℕ) :
    (pointers layout level page count).size = count * Size.pointer :=
  Bytes.size_tile fun _ _ => BigEndian.size_encode _ _

@[simp] theorem size_indexPage (level page count : ℕ) :
    (indexPage layout records level page count).size = layout.pageSize :=
  Bytes.size_resize _ _

variable (layout) in
theorem values_succ {index : ℕ} (h : index < records.length) :
    values layout records (index + 1) =
      values layout records index ++ layout.encoding.valueEntry records[index] := by
  rw [values, List.take_add_one, List.getElem?_eq_getElem h, Option.toList_some, List.map_append,
    Bytes.join_append, values]
  simp

variable (layout) in
theorem values_split {index : ℕ} (h : index < records.length) :
    ∃ behind, values layout records records.length =
      values layout records index ++ (layout.encoding.valueEntry records[index] ++ behind) := by
  refine ⟨Bytes.join ((records.drop (index + 1)).map layout.encoding.valueEntry), ?_⟩
  rw [← Bytes.join_cons, ← List.map_cons, ← List.drop_eq_getElem_cons h, values, values,
    ← Bytes.join_append, ← List.map_append, List.take_append_drop, List.take_length]

variable (records) in
theorem values_eq_empty (h : layout.encoding.usesValueRegion = false) (count : ℕ) :
    values layout records count = ByteArray.empty := by
  unfold values
  induction records.take count with
  | nil => rfl
  | cons record records ih =>
    rw [List.map_cons, Bytes.join_cons, ih, Encoding.valueEntry_of_inline h,
      ByteArray.append_empty]

theorem key_eq {index : ℕ} (h : index < records.length) :
    key layout records index = Bytes.resize records[index].key layout.keySize := by
  rw [key, List.getElem?_eq_getElem h, Option.elim_some]

theorem length_keys : (keys layout records).length = records.length := List.length_map _

theorem getElem_keys {index : ℕ} (h : index < (keys layout records).length) :
    (keys layout records)[index] = key layout records index := by
  rw [key_eq (by simpa [keys] using h)]
  exact List.getElem_map _

theorem size_of_mem_keys {padded : ByteArray} (h : padded ∈ keys layout records) :
    padded.size = layout.keySize := by
  obtain ⟨record, -, rfl⟩ := List.mem_map.mp h
  exact Bytes.size_resize _ _

theorem leaf_eq {index : ℕ} (h : index < records.length) :
    leaf layout records index =
      layout.encoding.leaf layout.keySize records[index] (pointer layout records index) := by
  rw [leaf, List.getElem?_eq_getElem h, Option.elim_some]

theorem leafPage_zero (page : ℕ) :
    leafPage layout records page 0 = Bytes.zeros layout.pageSize := by
  rw [leafPage, Bytes.tile_zero, Bytes.resize_empty]

theorem extract_leafPage {page count slot : ℕ} (hslot : slot < count)
    (hleaf : ∀ slot < count,
      (leaf layout records (page * layout.recordsPerLeafPage + slot)).size = layout.leafRecordSize)
    (hroom : count * layout.leafRecordSize ≤ layout.pageSize) :
    (leafPage layout records page count).extract (slot * layout.leafRecordSize)
        (slot * layout.leafRecordSize + layout.leafRecordSize) =
      leaf layout records (page * layout.recordsPerLeafPage + slot) := by
  have hfit :
      slot * layout.leafRecordSize + layout.leafRecordSize ≤ count * layout.leafRecordSize := by
    rw [← Nat.succ_mul]
    exact Nat.mul_le_mul_right _ hslot
  rw [leafPage, Bytes.extract_resize (by rw [Bytes.size_tile hleaf]; exact hfit) (hfit.trans hroom)]
  exact Bytes.extract_tile hleaf hslot

theorem leafPage_succ {page count : ℕ}
    (hleaf : ∀ slot ≤ count,
      (leaf layout records (page * layout.recordsPerLeafPage + slot)).size = layout.leafRecordSize)
    (hroom : (count + 1) * layout.leafRecordSize ≤ layout.pageSize) :
    Bytes.overlay (leafPage layout records page count) (count * layout.leafRecordSize)
        (leaf layout records (page * layout.recordsPerLeafPage + count)) =
      leafPage layout records page (count + 1) := by
  have hsize : (Bytes.tile count fun slot =>
      leaf layout records (page * layout.recordsPerLeafPage + slot)).size =
        count * layout.leafRecordSize :=
    Bytes.size_tile fun slot hslot => hleaf slot hslot.le
  rw [leafPage, ← hsize, Bytes.overlay_resize, leafPage, Bytes.tile_succ]
  rw [hsize, hleaf count le_rfl, ← Nat.succ_mul]
  exact hroom

theorem separators_zero (level page : ℕ) :
    separators layout records level page 0 = Bytes.zeros (layout.pointerPosition 0) := by
  rw [separators, Bytes.tile_zero, Bytes.resize_empty]

theorem separators_succ {level page count : ℕ} (hcount : count + 1 < layout.branchingFactor) :
    Bytes.overlay (separators layout records level page count) (layout.separatorPosition count)
        (separator layout records level (page * layout.branchingFactor + count + 1)) =
      separators layout records level page (count + 1) := by
  have hsize : (Bytes.tile count fun slot =>
      separator layout records level (page * layout.branchingFactor + slot + 1)).size =
        layout.separatorPosition count :=
    Bytes.size_tile fun _ _ => size_separator _ _
  rw [separators, ← hsize, Bytes.overlay_resize, separators, Bytes.tile_succ]
  rw [hsize, size_separator, Layout.separatorPosition, Layout.pointerPosition, Nat.zero_mul,
    Nat.add_zero, ← Nat.succ_mul]
  exact Nat.mul_le_mul_right _ (by omega)

theorem pointers_succ (level page count : ℕ) :
    pointers layout level page (count + 1) = pointers layout level page count ++
      BigEndian.encode Size.pointer
        (layout.childOffset level (page * layout.branchingFactor + count)) :=
  Bytes.tile_succ _ _

theorem place_indexPage {level page count : ℕ} (hcount : count + 1 < layout.branchingFactor)
    (hroom : layout.pointerPosition layout.branchingFactor ≤ layout.pageSize) :
    IndexPage.place ⟨page, indexPage layout records level page count⟩ layout ⟨level, page, count⟩
        (separator layout records level (page * layout.branchingFactor + count + 1)) =
      ⟨page, indexPage layout records level page (count + 1)⟩ := by
  have hsep : layout.separatorPosition count + layout.keySize ≤ layout.pointerPosition 0 := by
    rw [Layout.separatorPosition, Layout.pointerPosition, Nat.zero_mul, Nat.add_zero,
      ← Nat.succ_mul]
    exact Nat.mul_le_mul_right _ (by omega)
  have hend : layout.pointerPosition 0 + (count + 1) * Size.pointer + Size.pointer ≤
      layout.pageSize := by
    refine le_trans ?_ hroom
    simp only [Layout.pointerPosition, Size.pointer]
    omega
  have hfilled : layout.pointerPosition (count + 1) =
      (separators layout records level page (count + 1) ++
        pointers layout level page (count + 1)).size := by
    rw [ByteArray.size_append, size_separators, size_pointers, Layout.pointerPosition,
      Layout.pointerPosition]
    omega
  simp only [IndexPage.place, IndexPage.mk.injEq, true_and]
  rw [indexPage, Bytes.overlay_resize_inside (by rw [size_separator]; omega),
    Bytes.overlay_append (by rw [size_separator, size_separators]; exact hsep),
    separators_succ hcount, hfilled, Bytes.overlay_resize, ByteArray.append_assoc, indexPage,
    pointers_succ _ _ (count + 1), Nat.add_assoc]
  · rw [ByteArray.size_append, size_separators, size_pointers, BigEndian.size_encode]
    exact hend

theorem start_eq_indexPage (level page : ℕ)
    (hroom : layout.pointerPosition 1 ≤ layout.pageSize) :
    IndexPage.start layout level page = ⟨page, indexPage layout records level page 0⟩ := by
  have hzeros : Bytes.zeros layout.pageSize =
      Bytes.resize (Bytes.zeros (layout.pointerPosition 0)) layout.pageSize := by
    apply Bytes.ext_byteAt (by simp)
    intro i _
    simp [Bytes.byteAt_resize]
  have hsize : (Bytes.zeros (layout.pointerPosition 0)).size = layout.pointerPosition 0 :=
    Bytes.size_zeros _
  have hfit : (Bytes.zeros (layout.pointerPosition 0)).size + (BigEndian.encode Size.pointer
      (layout.childOffset level (page * layout.branchingFactor))).size ≤ layout.pageSize := by
    rw [hsize, BigEndian.size_encode]
    exact hroom
  have hoverlay := Bytes.overlay_resize hfit
  rw [hsize] at hoverlay
  rw [IndexPage.start, hzeros, hoverlay, indexPage, separators_zero, pointers_succ, pointers,
    Bytes.tile_zero, ByteArray.empty_append, Nat.add_zero]

theorem extract_separator {level page count slot : ℕ} (hslot : slot < count)
    (hcount : count < layout.branchingFactor)
    (hroom : layout.pointerPosition layout.branchingFactor ≤ layout.pageSize) :
    (indexPage layout records level page count).extract (slot * layout.keySize)
        (slot * layout.keySize + layout.keySize) =
      separator layout records level (page * layout.branchingFactor + slot + 1) := by
  have hsizes : ∀ slot < count, (separator layout records level
      (page * layout.branchingFactor + slot + 1)).size = layout.keySize :=
    fun _ _ => size_separator _ _
  have htile : (Bytes.tile count fun slot => separator layout records level
      (page * layout.branchingFactor + slot + 1)).size = count * layout.keySize :=
    Bytes.size_tile hsizes
  have hfit : slot * layout.keySize + layout.keySize ≤ count * layout.keySize := by
    rw [← Nat.succ_mul]
    exact Nat.mul_le_mul_right _ hslot
  have hbelow : count * layout.keySize ≤ layout.pointerPosition 0 := by
    rw [Layout.pointerPosition, Nat.zero_mul, Nat.add_zero]
    exact Nat.mul_le_mul_right _ (by omega)
  have hpage : layout.pointerPosition 0 ≤ layout.pageSize :=
    (Nat.add_le_add_left (Nat.mul_le_mul_right _ (Nat.zero_le _)) _).trans hroom
  rw [indexPage, Bytes.extract_resize (by
      rw [ByteArray.size_append, size_separators]
      omega) (hfit.trans (hbelow.trans hpage)),
    Bytes.extract_append_left (by rw [size_separators]; omega), separators,
    Bytes.extract_resize (by rw [htile]; exact hfit) (hfit.trans hbelow)]
  exact Bytes.extract_tile hsizes hslot

theorem extract_pointer {level page count slot : ℕ} (hslot : slot ≤ count)
    (hcount : count < layout.branchingFactor)
    (hroom : layout.pointerPosition layout.branchingFactor ≤ layout.pageSize) :
    (indexPage layout records level page count).extract (layout.pointerPosition slot)
        (layout.pointerPosition slot + Size.pointer) =
      BigEndian.encode Size.pointer
        (layout.childOffset level (page * layout.branchingFactor + slot)) := by
  have hplace : layout.pointerPosition slot =
      (separators layout records level page count).size + slot * Size.pointer := by
    rw [size_separators, Layout.pointerPosition, Layout.pointerPosition, Nat.zero_mul, Nat.add_zero]
  have hfit : slot * Size.pointer + Size.pointer ≤ (count + 1) * Size.pointer := by
    rw [← Nat.succ_mul]
    exact Nat.mul_le_mul_right _ (by omega)
  have hend : (separators layout records level page count).size + (count + 1) * Size.pointer ≤
      layout.pageSize := by
    refine le_trans ?_ hroom
    rw [size_separators, Layout.pointerPosition, Layout.pointerPosition, Nat.zero_mul, Nat.add_zero]
    exact Nat.add_le_add_left (Nat.mul_le_mul_right _ hcount) _
  rw [indexPage, hplace, Nat.add_assoc, Bytes.extract_resize (by
      rw [ByteArray.size_append, size_pointers]
      omega) (by omega),
    Bytes.extract_append_right, pointers]
  exact Bytes.extract_tile (fun _ _ => BigEndian.size_encode _ _) (Nat.lt_succ_of_le hslot)

/-! ## More records -/

section Append

variable {more : List Record}

theorem key_append {index : ℕ} (h : index < records.length) :
    key layout (records ++ more) index = key layout records index := by
  rw [key, List.getElem?_append_left h, key]

theorem values_append {count : ℕ} (h : count ≤ records.length) :
    values layout (records ++ more) count = values layout records count := by
  rw [values, List.take_append_of_le_length h, values]

theorem leaf_append {index : ℕ} (h : index < records.length) :
    leaf layout (records ++ more) index = leaf layout records index := by
  rw [leaf, List.getElem?_append_left h, pointer, values_append h.le, leaf, pointer]

theorem leafPage_append {page count : ℕ}
    (h : page * layout.recordsPerLeafPage + count ≤ records.length) :
    leafPage layout (records ++ more) page count = leafPage layout records page count := by
  rw [leafPage, leafPage]
  congr 1
  exact Bytes.tile_congr fun slot hslot => leaf_append (by omega)

/-- The separators up to the one over leaf page `leaf` only depend on the records up to there. -/
theorem indexPage_append {level page count leaf : ℕ}
    (hchild : page * layout.branchingFactor + count ≤ layout.openPage (level + 1) leaf)
    (hleaf : 0 < leaf → leaf * layout.recordsPerLeafPage < records.length) :
    indexPage layout (records ++ more) level page count =
      indexPage layout records level page count := by
  have hseparators : separators layout (records ++ more) level page count =
      separators layout records level page count := by
    rw [separators, separators]
    congr 1
    refine Bytes.tile_congr fun slot hslot => key_append ?_
    have hbelow : page * layout.branchingFactor + slot + 1 ≤ layout.openPage (level + 1) leaf := by
      omega
    have hle : (page * layout.branchingFactor + slot + 1) *
        layout.branchingFactor ^ (layout.numLevels - (level + 1)) ≤ leaf :=
      (Nat.mul_le_mul_right _ hbelow).trans (Nat.div_mul_le_self leaf _)
    have hpos : 0 < leaf := by
      apply Nat.pos_of_ne_zero
      intro hzero
      rw [hzero, Layout.openPage_zero_count] at hchild
      omega
    exact (Nat.mul_le_mul_right _ hle).trans_lt (hleaf hpos)
  rw [indexPage, indexPage, hseparators]

theorem openPages_append {leaf : ℕ}
    (hleaf : 0 < leaf → leaf * layout.recordsPerLeafPage < records.length) :
    openPages layout (records ++ more) leaf = openPages layout records leaf := by
  apply List.map_congr_left
  intro level hlevel
  rw [indexPage_append _ hleaf]
  rw [layout.openPage_mul_add (List.mem_range.mp hlevel)]

end Append

end PackedIndex.Image
