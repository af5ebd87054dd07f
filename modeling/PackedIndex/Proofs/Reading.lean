import PackedIndex.Reader
import PackedIndex.Proofs.Finished
import PackedIndex.Proofs.Header
/-! # Reading a finished file

The header of a finished file leads to the geometry that the file was written with, and each
record is read back from its place, with its key in full width.
-/
namespace PackedIndex

/-- A content with the header of a finished index opens when its leaf pages are all there. -/
theorem Reader.ofContent_of_decode {path : String} {file : Content} {order : KeyOrder}
    {header : Header} (hwide : Size.header ≤ file.size)
    (hdecode : Header.decode (file.read 0 Size.header) = .ok header)
    (hfinal : header.isFinalized = true) :
    Reader.ofContent path file order =
      if file.size < header.layout.leafEnd then
        .error (.corruption (.fileTruncated file.size header.layout.leafEnd))
      else .ok ⟨path, file, header, order⟩ := by
  unfold Reader.ofContent
  rw [if_neg (not_lt.mpr hwide)]
  dsimp only
  rw [hdecode, Outcome.ok_bind, hfinal, if_neg (by decide)]
  split_ifs <;> rfl

namespace Finished

variable {attributes : Attributes} {layout : Layout} {records : List Record} {file : Content}

def header (attributes : Attributes) (layout : Layout) : Header :=
  (Header.provisional attributes layout).finalize

theorem has_values (h : Finished attributes layout records file) :
    file.Has layout.leafEnd (Image.values layout records records.length) :=
  ⟨h.paged.size_eq.ge, h.paged.values_eq⟩

theorem has_page (h : Finished attributes layout records file) {level page : ℕ}
    (hlevel : level ≤ layout.numLevels) (hpage : page < (layout.region level).pages) :
    file.Has (layout.pageOffset level page) (Image.page layout records level page) := by
  have hread := h.paged.page_eq level hlevel page hpage
  have hend := h.planned.page_end_le_leafEnd hlevel hpage
  have hfile := h.paged.leafEnd_le
  have hsize : (Image.page layout records level page).size = layout.pageSize := by
    unfold Image.page
    split_ifs
    · exact Image.size_indexPage _ _ _
    · exact Image.size_leafPage _ _
  rw [← hsize] at hread hend
  exact ⟨hend.trans hfile, hread⟩

theorem has_leafPage (h : Finished attributes layout records file) {page : ℕ}
    (hpage : page < layout.leafPages) :
    file.Has (layout.leafPageOffset page)
      (Image.leafPage layout records page (layout.recordsInLeaf page)) := by
  have hin := h.has_page le_rfl (layout.pages_numLevels ▸ hpage)
  rwa [Image.page, if_neg (lt_irrefl _), ← Layout.leafPageOffset_eq] at hin

/-! ## The header -/

/-- Also the width of out-of-line values has room in the header, as there is a value in the file. -/
theorem valueSize_lt (h : Finished attributes layout records file)
    (hsize : file.size < Size.limit) :
    attributes.valueSize < Size.limit := by
  have hl := h.planned
  have hpos : 0 < records.length := by
    rw [h.length_eq]
    exact hl.recordCount_pos
  obtain ⟨-, -, hpair, -, hfixed⟩ := Attributes.validate_eq_ok hl.valid
  have hfile := h.paged.leafEnd_le
  have hpage := hl.leafRecordSize_le.trans (hl.pageSize_le_leafEnd.trans hfile)
  cases hformat : attributes.format with
  | atom =>
    rw [hfixed (Or.inl hformat)]
    decide
  | blob =>
    rw [hfixed (Or.inr hformat)]
    decide
  | pair =>
    have hkey := hl.keySize_le
    rw [hl.keySize_eq, ← hpair hformat] at hkey
    omega
  | block =>
    rcases Encoding.select_of_block layout.pageSize hformat with hinline | hout
    · have hrecord := hl.leafRecordSize_eq
      rw [hl.encoding_eq, hinline, Encoding.leafRecordSize, Size.checked_eq_some] at hrecord
      omega
    · -- the first value is in the file
      rw [← hl.encoding_eq] at hout
      have hvalid := h.valid _ (List.getElem_mem hpos)
      obtain ⟨behind, hsplit⟩ := Image.values_split layout hpos
      have hvalues := h.paged.size_eq
      rw [hout] at hvalid
      rw [hsplit, ByteArray.size_append, ByteArray.size_append, hout,
        Encoding.size_valueEntry_outOfLineBlock hvalid] at hvalues
      omega

theorem fits (h : Finished attributes layout records file) (hsize : file.size < Size.limit) :
    (header attributes layout).Fits := by
  have hl := h.planned
  have hvalueSize := h.valueSize_lt hsize
  -- every number is bounded by the end of the leaf pages, which has 64 bits
  have hlimit := hl.leafEnd_lt
  have hpage := hl.pageSize_le_leafEnd
  have hleaf := hl.leafRecordSize_le
  have hkey := hl.keySize_le
  have hrecords := hl.recordsPerLeafPage_le
  have hcount := hl.recordCount_le_leafEnd
  have hbranching := hl.branchingFactor_le
  have hleaves := hl.pages_le_leafEnd le_rfl
  have hregion := hl.region_end_le_leafEnd le_rfl
  have hvalue : layout.valueOffset ≤ layout.leafEnd := by
    rw [hl.valueOffset_eq]
    split_ifs
    · exact le_rfl
    · exact Nat.zero_le _
  simp only [Layout.region_numLevels, Layout.leafRegion] at hleaves hregion
  refine ⟨⟨?_, hvalueSize, ?_⟩, hpage.trans_lt hlimit, (hleaf.trans hpage).trans_lt hlimit,
    (hrecords.trans hpage).trans_lt hlimit, hleaves.trans_lt hlimit, ?_, hvalue.trans_lt hlimit,
    (hbranching.trans hpage).trans_lt hlimit, hl.numLevels_le, ?_⟩
  · change attributes.keySize < Size.limit
    rw [← hl.keySize_eq]
    omega
  · change attributes.recordCount < Size.limit
    rw [← hl.recordCount_eq]
    omega
  · change layout.leafOffset < Size.limit
    omega
  · intro region hmem
    obtain ⟨level, hlevel, rfl⟩ := List.getElem_of_mem hmem
    change level < layout.levels.length at hlevel
    have hle : level ≤ layout.numLevels := hlevel.le
    have hend := hl.region_end_le_leafEnd hle
    have hpages := hl.pages_le_leafEnd hle
    simp only [Layout.region, List.getElem?_eq_getElem hlevel, Option.getD_some] at hend hpages
    change layout.levels[level].offset < Size.limit ∧ layout.levels[level].pages < Size.limit
    omega

theorem has_header (h : Finished attributes layout records file) :
    file.Has 0 (header attributes layout).encode := by
  have hl := h.planned
  have hpage : (header attributes layout).encodePage.size = layout.pageSize :=
    Header.size_encodePage _
  have hsize : (header attributes layout).encode.size = Size.header :=
    Header.size_encode hl.numLevels_le
  have hfile := h.paged.leafEnd_le
  have hend := hl.pageSize_le_leafEnd
  have hfirst : file.Has 0 (header attributes layout).encodePage := by
    refine ⟨by omega, ?_⟩
    rw [hpage]
    exact h.paged.header_eq
  have hpart := hfirst.extract (Nat.zero_le Size.header) (hpage ▸ h.header_le)
  have hwide : Size.header ≤ (header attributes layout).layout.pageSize := h.header_le
  rw [Header.encodePage, Bytes.extract_resize hsize.ge hwide, ← hsize,
    ByteArray.extract_zero_size] at hpart
  exact hpart

theorem decode_header (h : Finished attributes layout records file)
    (hsize : file.size < Size.limit) :
    Header.decode (file.read 0 Size.header) = .ok (header attributes layout) := by
  have hl := h.planned
  have hread := h.has_header.read_eq
  have hbounds : ¬(layout.pageSize < Size.header ∨ Size.mostPage < layout.pageSize) :=
    not_or.mpr ⟨not_lt.mpr h.header_le, not_lt.mpr h.pageSize_le⟩
  have hplan : Layout.plan (header attributes layout).attributes
      (header attributes layout).layout.pageSize = .ok layout := h.plan_eq
  have hlevels : (header attributes layout).layout.numLevels ≤ Size.mostLevels := hl.numLevels_le
  have hstores := Header.stores_encode hlevels ByteArray.empty
  rw [ByteArray.append_empty] at hstores
  rw [Header.size_encode hlevels] at hread
  rw [hread, hstores.decode_eq (h.fits hsize) rfl, hplan, Outcome.mapError_ok, Outcome.ok_bind]
  exact (if_neg hbounds).trans (if_pos ⟨rfl, rfl⟩)

/-- A finished file is opened with the geometry that it was written with. -/
theorem ofContent_eq (h : Finished attributes layout records file) (hsize : file.size < Size.limit)
    (path : String) (order : KeyOrder) :
    Reader.ofContent path file order = .ok ⟨path, file, header attributes layout, order⟩ := by
  have hfile := h.paged.leafEnd_le
  have hend := h.planned.pageSize_le_leafEnd
  have hleast := h.header_le
  rw [Reader.ofContent_of_decode (by omega) (h.decode_header hsize) rfl]
  exact if_neg (not_lt.mpr hfile)

/-! ## The records -/

theorem size_leaf (h : Finished attributes layout records file) {index : ℕ}
    (hindex : index < records.length) :
    (Image.leaf layout records index).size = layout.leafRecordSize := by
  rw [Image.leaf_eq hindex]
  exact Encoding.size_leaf (h.valid _ (List.getElem_mem hindex)) h.planned.leafRecordSize_eq _

theorem has_leaf (h : Finished attributes layout records file) {page slot : ℕ}
    (hpage : page < layout.leafPages) (hslot : slot < layout.recordsInLeaf page) :
    file.Has (layout.leafPageOffset page + slot * layout.leafRecordSize)
      (Image.leaf layout records (page * layout.recordsPerLeafPage + slot)) := by
  have hl := h.planned
  have hlength := h.length_eq
  have hcount : layout.recordsInLeaf page ≤ layout.recordsPerLeafPage := Nat.min_le_right _ _
  have hroom := (Nat.mul_le_mul_right layout.leafRecordSize hcount).trans hl.leaf_room
  have hin := h.has_leafPage hpage
  have hfit := hl.slot_room (hslot.trans_le hcount)
  have hwhole : (Image.leafPage layout records page (layout.recordsInLeaf page)).size =
      layout.pageSize := Image.size_leafPage _ _
  have hpart := hin.extract (Nat.le_add_right (slot * layout.leafRecordSize) layout.leafRecordSize)
    (hwhole.symm ▸ hfit)
  rwa [Image.extract_leafPage hslot ?_ hroom] at hpart
  intro other hother
  apply h.size_leaf
  unfold Layout.recordsInLeaf at hother
  omega

theorem has_entry (h : Finished attributes layout records file) {index : ℕ}
    (hindex : index < records.length) (hregion : layout.encoding.usesValueRegion = true) :
    file.Has (Image.pointer layout records index) (layout.encoding.valueEntry records[index]) := by
  obtain ⟨behind, hsplit⟩ := Image.values_split layout hindex
  have hin := h.has_values
  rw [hsplit] at hin
  rw [Image.pointer, if_pos hregion, h.planned.valueOffset_eq, if_pos hregion]
  exact hin.part

theorem decodeLeaf_eq (h : Finished attributes layout records file) (hsize : file.size < Size.limit)
    {page slot : ℕ} (hpage : page < layout.leafPages) (hslot : slot < layout.recordsInLeaf page)
    (hindex : page * layout.recordsPerLeafPage + slot < records.length) :
    layout.encoding.decodeLeaf file (layout.leafPageOffset page + slot * layout.leafRecordSize)
        layout.keySize attributes.valueSize =
      .ok (records[page * layout.recordsPerLeafPage + slot].padded layout.keySize) := by
  have hleaf := h.has_leaf hpage hslot
  rw [Image.leaf_eq hindex] at hleaf
  apply Encoding.decodeLeaf_eq (h.valid _ (List.getElem_mem hindex)) hleaf (h.has_entry hindex)
  intro hregion
  have hend := (h.has_entry hindex hregion).size_le
  omega

end Finished

end PackedIndex
