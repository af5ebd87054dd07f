import PackedIndex.Proofs.Damaged
/-! # What a look-up depends on

A look-up compares the keys on its way, follows child pointers and reads one record. `Keeps` says
that a file has the header, the live keys and the leaf records of a finished file in their places;
it may hold anything else elsewhere. Such a file opens, and a descent takes the same slots in it.
Where its child pointers are kept as well the same record is found, and where a value entry is kept
the record is answered.
-/
namespace PackedIndex

theorem Volume.openPath_of_read {volume : Volume} {path : String} {bytes : ByteArray}
    (h : volume.read path = .ok bytes) :
    ∃ file : Content, file.toBytes = bytes ∧
      ∀ order, Reader.openPath volume path order = Reader.ofContent path file order := by
  unfold read at h
  obtain ⟨entry, hentry, h⟩ := Outcome.bind_eq_ok.mp h
  cases entry with
  | directory => cases h
  | file file =>
    refine ⟨volume.content file, Outcome.pure_eq_ok.mp h, fun order => ?_⟩
    unfold Reader.openPath
    rw [hentry]

def Layout.pointerOffset (layout : Layout) (level page slot : ℕ) : ℕ :=
  layout.pageOffset level page + layout.pointerPosition slot

theorem Layout.Planned.pointerOffset_mem {attributes : Attributes} {layout : Layout}
    (hl : layout.Planned attributes) {level page slot : ℕ}
    (hslot : slot ≤ layout.separatorsIn level page) :
    layout.pageOffset level page + layout.pointerPosition 0 ≤
        layout.pointerOffset level page slot ∧
      layout.pointerOffset level page slot + Size.pointer ≤
        layout.pageOffset level page + layout.pageSize := by
  have hroom := hl.pointer_room (hslot.trans_lt (hl.separatorsIn_lt level page))
  unfold pointerOffset
  refine ⟨Nat.add_le_add_left ?_ _, by omega⟩
  rw [pointerPosition, pointerPosition]
  omega

namespace Reader

variable (reader : Reader)

def leafSlot (query : ByteArray) (leaf : ℕ) : Option ℕ :=
  Search.findInLeaf reader.order query
    (reader.file.read (reader.layout.leafPageOffset leaf) reader.layout.pageSize)
    reader.layout.leafRecordSize reader.layout.keySize (reader.layout.recordsInLeaf leaf)

def locate (query : ByteArray) : Except Damage (Option ℕ) :=
  (reader.descend query reader.layout.numLevels 0).map fun leaf =>
    (reader.leafSlot query leaf).map (leaf * reader.layout.recordsPerLeafPage + ·)

variable {reader} {query key : ByteArray} {leaf index : ℕ}

theorem locate_of_descend (h : reader.descend query reader.layout.numLevels 0 = .ok leaf) :
    reader.locate query =
      .ok ((reader.leafSlot query leaf).map (leaf * reader.layout.recordsPerLeafPage + ·)) := by
  rw [locate, h]
  rfl

variable (reader) in
theorem recordAt_eq_decodeLeaf (index : ℕ) :
    reader.recordAt index = reader.layout.encoding.decodeLeaf reader.file
      (reader.recordPlace index) reader.layout.keySize reader.header.attributes.valueSize := rfl

namespace Accepted

variable (h : reader.Accepted)
include h

theorem lookup_eq_locate (query : ByteArray) :
    reader.lookup query = reader.locate query >>= fun found =>
      match found with
      | none => .ok none
      | some index => (reader.recordAt index).map some := by
  have hl := h.planned
  rcases (h.descend_spec query le_rfl (hl.pages_pos (Nat.sub_le _ _))).2 with
    ⟨leaf, hleaf, hdescend⟩ | ⟨damage, -, hdescend⟩
  · have hin := (hl.leafPage_end_le_leafEnd hleaf).trans h.leafEnd_le
    rw [locate_of_descend hdescend, Outcome.ok_bind]
    unfold lookup
    dsimp only
    rw [hdescend, Outcome.ok_bind, extent_eq_read hin, Outcome.ok_bind, ← leafSlot]
    cases hslot : reader.leafSlot query leaf with
    | none => rfl
    | some slot =>
      have hlt := (h.findInLeaf_spec query hleaf hslot).1
      dsimp only [Option.map_some]
      rw [recordAt_eq_decodeLeaf, reader.recordPlace_add hlt]
      rfl
  · unfold lookup locate
    dsimp only
    rw [hdescend]
    rfl

theorem get_eq_locate (hkey : key.size ≤ reader.layout.keySize) :
    reader.get key =
      match reader.locate (Bytes.resize key reader.layout.keySize) with
      | .error damage => .error (.corruption damage)
      | .ok none => .error (.notFound (.key key))
      | .ok (some index) => (reader.recordAt index).mapError .corruption := by
  rw [reader.get_eq hkey, h.lookup_eq_locate]
  rcases reader.locate (Bytes.resize key reader.layout.keySize) with damage | ⟨⟨⟩ | index⟩
  · rfl
  · rfl
  · rw [Outcome.ok_bind]
    dsimp only
    rcases reader.recordAt index with damage | record
    · rfl
    · rfl

end Accepted

end Reader

namespace Finished

variable {attributes : Attributes} {layout : Layout} {records : List Record}
  {file whole : Content}

/-- A file with the header, the live separators and the leaf records of some records. -/
structure Keeps (attributes : Attributes) (layout : Layout) (records : List Record)
    (file : Content) : Prop where
  leafEnd_le : layout.leafEnd ≤ file.size
  has_header : file.Has 0 (header attributes layout).encode
  has_separator : ∀ level < layout.numLevels, ∀ page < (layout.region level).pages,
    ∀ slot < layout.separatorsIn level page,
      file.Has (layout.pageOffset level page + slot * layout.keySize)
        (Image.separator layout records level (page * layout.branchingFactor + slot + 1))
  has_leaf : ∀ page < layout.leafPages, ∀ slot < layout.recordsInLeaf page,
    file.Has (layout.leafPageOffset page + slot * layout.leafRecordSize)
      (Image.leaf layout records (page * layout.recordsPerLeafPage + slot))

def KeepsPointer (layout : Layout) (file : Content) (level page slot : ℕ) : Prop :=
  file.Has (layout.pointerOffset level page slot) (BigEndian.encode Size.pointer
    (layout.childOffset level (page * layout.branchingFactor + slot)))

def KeepsEntries (layout : Layout) (records : List Record) (file : Content) : Prop :=
  ∀ index (hindex : index < records.length), layout.encoding.usesValueRegion = true →
    file.Has (Image.pointer layout records index) (layout.encoding.valueEntry records[index])

theorem keeps (h : Finished attributes layout records whole) :
    Keeps attributes layout records whole := by
  have hl := h.planned
  refine ⟨h.paged.leafEnd_le, h.has_header, ?_, fun page hpage slot hslot => h.has_leaf hpage hslot⟩
  intro level hlevel page hpage slot hslot
  have hin := h.has_page hlevel.le hpage
  have hend := hl.separator_end_le hslot
  have hroom := hl.pointer_room hl.branchingFactor_pos
  rw [Image.page, if_pos hlevel] at hin
  have hpart := hin.extract (Nat.le_add_right (slot * layout.keySize) layout.keySize)
    (by rw [Image.size_indexPage]; omega)
  rwa [Image.extract_separator hslot (hl.separatorsIn_lt level page) hl.index_room] at hpart

theorem keepsEntries (h : Finished attributes layout records whole) :
    KeepsEntries layout records whole :=
  fun _ hindex hregion => h.has_entry hindex hregion

theorem keepsPointer (h : Finished attributes layout records whole) {level page slot : ℕ}
    (hlevel : level < layout.numLevels) (hpage : page < (layout.region level).pages)
    (hslot : slot ≤ layout.separatorsIn level page) :
    KeepsPointer layout whole level page slot := by
  have hl := h.planned
  have hlt := hl.separatorsIn_lt level page
  have hin := h.has_page hlevel.le hpage
  rw [Image.page, if_pos hlevel] at hin
  have hpart := hin.extract (Nat.le_add_right (layout.pointerPosition slot) Size.pointer)
    (by rw [Image.size_indexPage]; exact hl.pointer_room (hslot.trans_lt hlt))
  rwa [Image.extract_pointer hslot hlt hl.index_room] at hpart

theorem extract_pointer (h : Finished attributes layout records whole) {level page slot : ℕ}
    (hlevel : level < layout.numLevels) (hpage : page < (layout.region level).pages)
    (hslot : slot ≤ layout.separatorsIn level page) :
    whole.toBytes.extract (layout.pointerOffset level page slot)
        (layout.pointerOffset level page slot + Size.pointer) =
      BigEndian.encode Size.pointer
        (layout.childOffset level (page * layout.branchingFactor + slot)) := by
  have hpointer := h.keepsPointer hlevel hpage hslot
  have hend := hpointer.size_le
  have hread := hpointer.read_eq
  rw [BigEndian.size_encode] at hend hread
  rw [Content.extract_toBytes hend, Nat.add_sub_cancel_left, hread]

theorem childPointer_eq (h : Finished attributes layout records whole) {level page slot : ℕ}
    (hlevel : level < layout.numLevels) (hpage : page < (layout.region level).pages)
    (hslot : slot ≤ layout.separatorsIn level page)
    (hpointer : KeepsPointer layout file level page slot) (path : String) (order : KeyOrder) :
    (reader attributes layout path file order).childPointer level page slot =
      layout.childOffset level (page * layout.branchingFactor + slot) :=
  decode_read hpointer (h.planned.childOffset_lt hlevel hpage hslot)

theorem descend_ok (h : Finished attributes layout records whole) (path : String)
    (order : KeyOrder) (query : ByteArray) :
    ∃ leaf < layout.leafPages,
      (reader attributes layout path whole order).descend query layout.numLevels 0 = .ok leaf := by
  have hroot := h.planned.pages_pos (Nat.sub_le layout.numLevels layout.numLevels)
  obtain ⟨leaf, hleaf, hdescend, -⟩ := h.descend_spec path order query (P := fun _ _ => True)
    (fun _ _ _ _ _ => trivial) le_rfl hroot trivial
  exact ⟨leaf, hleaf, hdescend⟩

theorem get_eq_of_size_gt {path origin : String} {order : KeyOrder} {key : ByteArray}
    (hkey : layout.keySize < key.size) :
    (reader attributes layout path file order).get key =
      (reader attributes layout origin whole order).get key := by
  rw [Reader.get_of_size_gt (reader attributes layout path file order) hkey,
    Reader.get_of_size_gt (reader attributes layout origin whole order) hkey]
  rfl

section

variable (h : Finished attributes layout records whole)
  (hkeeps : Keeps attributes layout records file)
include h hkeeps

namespace Keeps

theorem accepted (path : String) (order : KeyOrder) :
    (reader attributes layout path file order).Accepted :=
  ⟨h.planned, hkeeps.leafEnd_le⟩

/-- What is kept of a finished file opens as it does. -/
theorem ofContent_eq (hsize : whole.size < Size.limit) (path : String) (order : KeyOrder) :
    Reader.ofContent path file order = .ok (reader attributes layout path file order) := by
  have hread := hkeeps.has_header.read_eq.trans h.has_header.read_eq.symm
  have hwide := hkeeps.has_header.size_le
  rw [Header.size_encode h.planned.numLevels_le] at hread hwide
  rw [Reader.ofContent_of_decode (by omega) (hread ▸ h.decode_header hsize) rfl]
  exact if_neg (not_lt.mpr hkeeps.leafEnd_le)

variable {level page remaining leaf index : ℕ} {path origin : String} {order : KeyOrder}

theorem childSlot_eq (query : ByteArray) (hlevel : level < layout.numLevels)
    (hpage : page < (layout.region level).pages) :
    (reader attributes layout path file order).childSlot query level page =
      Finished.childSlot layout records order query level page := by
  have hin := (h.planned.page_end_le_leafEnd hlevel.le hpage).trans hkeeps.leafEnd_le
  unfold Reader.childSlot Finished.childSlot
  simp only [layout_reader, file_reader, order_reader]
  apply Search.findChild_congr
  · rw [Content.size_read, Image.size_indexPage]
    omega
  · intro slot hslot
    have hend := h.planned.separator_end_le hslot
    have hroom := h.planned.pointer_room h.planned.branchingFactor_pos
    have hkey := (hkeeps.has_separator level hlevel page hpage slot hslot).read_eq
    rw [Image.size_separator] at hkey
    rw [h.keyAt_indexPage hslot, ← hkey, Search.keyAt, Content.extract_read (by omega) hin,
      Nat.add_sub_cancel_left]

theorem leafSlot_eq (query : ByteArray) (hleaf : leaf < layout.leafPages) :
    (reader attributes layout path file order).leafSlot query leaf =
      Finished.leafSlot layout records order query leaf := by
  have hin := (h.planned.leafPage_end_le_leafEnd hleaf).trans hkeeps.leafEnd_le
  unfold Reader.leafSlot Finished.leafSlot
  simp only [layout_reader, file_reader, order_reader]
  apply Search.findInLeaf_congr
  · rw [Content.size_read, Image.size_leafPage]
    omega
  · intro slot hslot
    have hindex := h.index_lt hslot
    have hroom := h.planned.slot_room (hslot.trans_le (Nat.min_le_right _ _))
    have hwidth := h.planned.keySize_le
    have hrecord := hkeeps.has_leaf leaf hleaf slot hslot
    have hkey := (hrecord.extract (Nat.zero_le layout.keySize)
      ((h.size_leaf hindex).symm ▸ hwidth)).read_eq
    rw [Image.leaf_eq hindex, Encoding.extract_leaf, ← Image.key_eq hindex, Image.size_key,
      Nat.add_zero] at hkey
    rw [h.keyAt_leafPage hslot, ← hkey, Search.keyAt, Content.extract_read (by omega) hin,
      Nat.add_sub_cancel_left]

theorem has_leafRecord (hindex : index < records.length) :
    file.Has ((reader attributes layout path file order).recordPlace index)
      (layout.encoding.leaf layout.keySize records[index]
        (Image.pointer layout records index)) := by
  have hcount : index < layout.recordCount := h.length_eq ▸ hindex
  have hrecord := hkeeps.has_leaf _ (h.planned.leafPage_lt hcount) _ (h.planned.slot_lt hcount)
  rwa [Nat.div_add_mod', Image.leaf_eq hindex] at hrecord

/-- A descent goes on where the child pointer is kept. -/
theorem descend_of_kept (query : ByteArray) (hremaining : remaining < layout.numLevels)
    (hlevel : layout.numLevels - (remaining + 1) = level)
    (hpage : page < (layout.region level).pages)
    (hpointer : (reader attributes layout path file order).childPointer level page
        (Finished.childSlot layout records order query level page) =
      layout.childOffset level (page * layout.branchingFactor +
        Finished.childSlot layout records order query level page)) :
    (reader attributes layout path file order).descend query (remaining + 1) page =
      (reader attributes layout path file order).descend query remaining
        (page * layout.branchingFactor +
          Finished.childSlot layout records order query level page) := by
  have hlt : level < layout.numLevels := by omega
  have hslot := h.childSlot_le order query level page
  rw [(accepted h hkeeps path order).descend_eq query hremaining hlevel hpage,
    childSlot_eq h hkeeps query hlt hpage, layout_reader, h.planned.childPage_eq hlt hpage hslot,
    if_pos hpointer, Outcome.ok_bind]

theorem descend_of_lost (query : ByteArray) (hremaining : remaining < layout.numLevels)
    (hlevel : layout.numLevels - (remaining + 1) = level)
    (hpage : page < (layout.region level).pages) {slot pointer : ℕ}
    (hslot : Finished.childSlot layout records order query level page = slot)
    (hpointer : (reader attributes layout path file order).childPointer level page slot = pointer)
    (hlost : pointer ≠ layout.childOffset level (page * layout.branchingFactor + slot)) :
    (reader attributes layout path file order).descend query (remaining + 1) page =
      .error (.childPointer pointer level page slot
        (layout.childOffset level (page * layout.branchingFactor + slot))) := by
  have hlt : level < layout.numLevels := by omega
  have hle := h.childSlot_le order query level page
  rw [hslot] at hle
  rw [(accepted h hkeeps path order).descend_eq query hremaining hlevel hpage,
    childSlot_eq h hkeeps query hlt hpage, hslot, hpointer, layout_reader,
    h.planned.childPage_eq hlt hpage hle, if_neg hlost]
  rfl

theorem descend_eq (query : ByteArray)
    (hpointers : ∀ level < layout.numLevels, ∀ page < (layout.region level).pages,
      ∀ slot ≤ layout.separatorsIn level page, KeepsPointer layout file level page slot)
    (hremaining : remaining ≤ layout.numLevels)
    (hpage : page < (layout.region (layout.numLevels - remaining)).pages) :
    (reader attributes layout path file order).descend query remaining page =
      (reader attributes layout origin whole order).descend query remaining page := by
  induction remaining generalizing page with
  | zero => rfl
  | succ remaining ih =>
    have hlevel : layout.numLevels - (remaining + 1) < layout.numLevels := by omega
    have hnext : layout.numLevels - (remaining + 1) + 1 = layout.numLevels - remaining := by omega
    have hslot := h.childSlot_le order query (layout.numLevels - (remaining + 1)) page
    have hchild := h.planned.child_lt hlevel hpage hslot
    have hpointer := h.childPointer_eq hlevel hpage hslot (hpointers _ hlevel page hpage _ hslot)
      path order
    rw [hnext] at hchild
    rw [descend_of_kept h hkeeps query hremaining rfl hpage hpointer,
      h.descend_succ hremaining hpage]
    exact ih (Nat.le_of_succ_le hremaining) hchild

theorem locate_eq {query : ByteArray}
    (hdescend : (reader attributes layout path file order).descend query layout.numLevels 0 =
      (reader attributes layout origin whole order).descend query layout.numLevels 0) :
    (reader attributes layout path file order).locate query =
      (reader attributes layout origin whole order).locate query := by
  obtain ⟨leaf, hleaf, hwhole⟩ := h.descend_ok origin order query
  rw [Reader.locate_of_descend (hdescend.trans hwhole), Reader.locate_of_descend hwhole,
    leafSlot_eq h hkeeps query hleaf, leafSlot_eq h h.keeps query hleaf]
  rfl

theorem recordAt_eq (hsize : whole.size < Size.limit) (hindex : index < records.length)
    (hentry : layout.encoding.usesValueRegion = true →
      file.Has (Image.pointer layout records index) (layout.encoding.valueEntry records[index])) :
    (reader attributes layout path file order).recordAt index =
      .ok (records[index].padded layout.keySize) := by
  refine Encoding.decodeLeaf_eq (h.valid _ (List.getElem_mem hindex))
    (has_leafRecord h hkeeps hindex) hentry fun hregion => ?_
  have hend := (h.has_entry hindex hregion).size_le
  omega

/-- A record is damage where a file that is otherwise kept ends within its value entry. -/
theorem recordAt_of_cut (hsize : whole.size < Size.limit) (hindex : index < records.length)
    (hregion : layout.encoding.usesValueRegion = true)
    (hbytes : ∀ i < file.size, file.byteAt i = whole.byteAt i)
    (hcut : file.size < Image.pointer layout records index +
      (layout.encoding.valueEntry records[index]).size) :
    ∃ damage, (reader attributes layout path file order).recordAt index = .error damage := by
  have hwhole := h.has_entry hindex hregion
  have hend := hwhole.size_le
  have hfront : ∀ count ≤ (layout.encoding.valueEntry records[index]).size,
      Image.pointer layout records index + count ≤ file.size →
        file.Has (Image.pointer layout records index)
          ((layout.encoding.valueEntry records[index]).extract 0 count) := by
    intro count hcount hin
    have hpart := hwhole.extract (Nat.zero_le count) hcount
    have hwidth : ((layout.encoding.valueEntry records[index]).extract 0 count).size = count := by
      rw [ByteArray.size_extract]
      omega
    rw [Nat.add_zero] at hpart
    exact hpart.congr (by omega) fun i _ hi => hbytes i (by omega)
  exact Encoding.decodeLeaf_of_cut (h.valid _ (List.getElem_mem hindex))
    (has_leafRecord h hkeeps hindex) hregion (by omega) hfront hcut

end Keeps

end

theorem lt_of_locate (h : Finished attributes layout records whole) {path : String}
    {order : KeyOrder} {query : ByteArray} {index : ℕ}
    (hfound : (reader attributes layout path whole order).locate query = .ok (some index)) :
    index < records.length := by
  obtain ⟨leaf, hleaf, hdescend⟩ := h.descend_ok path order query
  rw [Reader.locate_of_descend hdescend, h.keeps.leafSlot_eq h query hleaf] at hfound
  simp only [Except.ok.injEq, Option.map_eq_some_iff] at hfound
  obtain ⟨slot, hslot, rfl⟩ := hfound
  exact h.index_lt (h.leafSlot_lt hslot)

namespace Keeps

section

variable (h : Finished attributes layout records whole)
  (hkeeps : Keeps attributes layout records file) (hsize : whole.size < Size.limit)
  (hentries : KeepsEntries layout records file)
include h hkeeps hsize hentries

/-- Where all value entries are kept, a look-up that is not led astray answers as in the finished
file. -/
theorem get_eq {path origin : String} {order : KeyOrder} {key : ByteArray}
    (hdescend : (reader attributes layout path file order).descend
        (Bytes.resize key layout.keySize) layout.numLevels 0 =
      (reader attributes layout origin whole order).descend
        (Bytes.resize key layout.keySize) layout.numLevels 0) :
    (reader attributes layout path file order).get key =
      (reader attributes layout origin whole order).get key := by
  rcases Nat.lt_or_ge layout.keySize key.size with hlong | hkey
  · exact get_eq_of_size_gt hlong
  · have hlocate := locate_eq h hkeeps hdescend
    rw [(accepted h hkeeps path order).get_eq_locate hkey,
      (accepted h h.keeps origin order).get_eq_locate hkey, layout_reader, layout_reader, hlocate]
    cases hfound : (reader attributes layout origin whole order).locate
        (Bytes.resize key layout.keySize) with
    | error damage => rfl
    | ok found =>
      cases found with
      | none => rfl
      | some index =>
        have hindex := h.lt_of_locate hfound
        dsimp only
        rw [recordAt_eq h hkeeps hsize hindex (hentries index hindex),
          recordAt_eq h h.keeps hsize hindex (h.keepsEntries index hindex)]

theorem records_eq (path origin : String) (order : KeyOrder) :
    (reader attributes layout path file order).records =
      (reader attributes layout origin whole order).records := by
  have hrecord : ∀ index ∈ List.range' 0 (layout.recordCount - 0),
      (reader attributes layout path file order).recordAt index =
        (reader attributes layout origin whole order).recordAt index := by
    intro index hmem
    have hindex : index < records.length := by
      rw [h.length_eq]
      simpa [List.mem_range'] using hmem
    rw [recordAt_eq h hkeeps hsize hindex (hentries index hindex),
      recordAt_eq h h.keeps hsize hindex (h.keepsEntries index hindex)]
  exact List.map_congr_left hrecord

end

end Keeps

end Finished

end PackedIndex
