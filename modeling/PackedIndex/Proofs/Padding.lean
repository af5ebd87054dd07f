import PackedIndex.Proofs.Kept
/-! # Bytes that nothing reads

The geometry says how many separators, child pointers and leaf records of a page are live. Whatever
else a page has room for is padding. A file whose padding is changed opens as before, and every
look-up and every pass answers as before: all that a reader goes by is in places that are not dead.
-/
namespace PackedIndex

namespace Layout

/-- The places of a page behind its live items. An index page has room for separators, for child
pointers behind them, and for a rest behind all pointers. -/
inductive Unused (layout : Layout) (level page : ℕ) : ℕ → Prop where
  | separator {slot place : ℕ} (hlevel : level < layout.numLevels)
      (hslot : layout.separatorsIn level page ≤ slot) (hroom : slot + 1 < layout.branchingFactor)
      (hstart : layout.separatorPosition slot ≤ place)
      (hend : place < layout.separatorPosition (slot + 1)) : Unused layout level page place
  | pointer {slot place : ℕ} (hlevel : level < layout.numLevels)
      (hslot : layout.separatorsIn level page < slot) (hroom : slot < layout.branchingFactor)
      (hstart : layout.pointerPosition slot ≤ place)
      (hend : place < layout.pointerPosition (slot + 1)) : Unused layout level page place
  | rest {place : ℕ} (hlevel : level < layout.numLevels)
      (hstart : layout.pointerPosition layout.branchingFactor ≤ place) :
      Unused layout level page place
  | leaf {place : ℕ} (hlevel : level = layout.numLevels)
      (hstart : layout.recordsInLeaf page * layout.leafRecordSize ≤ place) :
      Unused layout level page place

/-- The places of a file that hold nothing: the header page behind the header, and the unused places
of the index pages and of the leaf pages, which are the pages below the last index level. -/
inductive Dead (layout : Layout) : ℕ → Prop where
  | header {place : ℕ} (hstart : Size.header ≤ place) (hend : place < layout.pageSize) :
      Dead layout place
  | page {level page place : ℕ} (hlevel : level ≤ layout.numLevels)
      (hpage : page < (layout.region level).pages) (hplace : place < layout.pageSize)
      (hunused : layout.Unused level page place) : Dead layout (layout.pageOffset level page + place)

namespace Planned

variable {attributes : Attributes} {layout : Layout} (hl : layout.Planned attributes)
  {level page place slot : ℕ}
include hl

theorem unused_of_dead (hlevel : level ≤ layout.numLevels)
    (hpage : page < (layout.region level).pages) (hplace : place < layout.pageSize)
    (hdead : layout.Dead (layout.pageOffset level page + place)) :
    layout.Unused level page place := by
  generalize hi : layout.pageOffset level page + place = i at hdead
  cases hdead with
  | header _ hend =>
    have hfront := hl.pageSize_le_pageOffset level page
    omega
  | @page level' page' place' hlevel' hpage' hplace' hunused =>
    by_cases hsame : level = level' ∧ page = page'
    · obtain ⟨rfl, rfl⟩ := hsame
      rwa [Nat.add_left_cancel hi]
    · have hapart := hl.pages_apart hlevel hlevel' hpage hpage' hsame
      omega

theorem lt_leafEnd_of_dead {i : ℕ} (hdead : layout.Dead i) : i < layout.leafEnd := by
  cases hdead with
  | header _ hend => exact hend.trans_le hl.pageSize_le_leafEnd
  | page hlevel hpage hplace _ =>
    have hend := hl.page_end_le_leafEnd hlevel hpage
    omega

theorem header_le_of_dead (hheader : Size.header ≤ layout.pageSize) {i : ℕ}
    (hdead : layout.Dead i) : Size.header ≤ i := by
  cases hdead with
  | header hstart _ => exact hstart
  | @page level page _ _ _ _ _ =>
    have hfront := hl.pageSize_le_pageOffset level page
    omega

/-- An index page is in use up to its last live separator, and from its first to its last live child
pointer. -/
theorem place_of_unused (hlevel : level < layout.numLevels)
    (hunused : layout.Unused level page place) :
    (layout.separatorPosition (layout.separatorsIn level page) ≤ place ∧
        place < layout.pointerPosition 0) ∨
      layout.pointerPosition (layout.separatorsIn level page + 1) ≤ place := by
  have hlive := hl.separatorsIn_lt level page
  cases hunused with
  | @separator slot _ _ hslot hroom hstart hend =>
    have hkeys := Nat.mul_le_mul_right layout.keySize hslot
    have hlast := Nat.mul_le_mul_right layout.keySize (Nat.le_sub_one_of_lt hroom)
    unfold Layout.separatorPosition at hstart hend ⊢
    unfold Layout.pointerPosition
    omega
  | @pointer slot _ _ hslot _ hstart _ =>
    have hpointers : (layout.separatorsIn level page + 1) * Size.pointer ≤ slot * Size.pointer :=
      Nat.mul_le_mul_right _ hslot
    unfold Layout.pointerPosition at hstart ⊢
    omega
  | rest _ hstart =>
    have hpointers : (layout.separatorsIn level page + 1) * Size.pointer ≤
        layout.branchingFactor * Size.pointer := Nat.mul_le_mul_right _ hlive
    unfold Layout.pointerPosition at hstart ⊢
    omega
  | leaf hlast _ => exact absurd hlast hlevel.ne

omit hl in
theorem place_of_unused_leaf (hunused : layout.Unused layout.numLevels page place) :
    layout.recordsInLeaf page * layout.leafRecordSize ≤ place := by
  cases hunused with
  | separator hlevel => exact absurd hlevel (lt_irrefl _)
  | pointer hlevel => exact absurd hlevel (lt_irrefl _)
  | rest hlevel => exact absurd hlevel (lt_irrefl _)
  | leaf _ hstart => exact hstart

theorem separator_used (hlevel : level < layout.numLevels)
    (hslot : slot < layout.separatorsIn level page)
    (hend : place < slot * layout.keySize + layout.keySize) :
    ¬layout.Unused level page place := by
  intro hunused
  have hroom := hl.separator_end_le hslot
  have hkeys := Nat.mul_le_mul_right layout.keySize hslot
  rw [Nat.succ_mul] at hkeys
  have hplace := hl.place_of_unused hlevel hunused
  unfold Layout.separatorPosition Layout.pointerPosition at hplace
  unfold Layout.pointerPosition at hroom
  omega

theorem pointer_used (hlevel : level < layout.numLevels)
    (hslot : slot ≤ layout.separatorsIn level page)
    (hstart : layout.pointerPosition slot ≤ place)
    (hend : place < layout.pointerPosition slot + Size.pointer) :
    ¬layout.Unused level page place := by
  intro hunused
  have hpointers := Nat.mul_le_mul_right Size.pointer hslot
  have hplace := hl.place_of_unused hlevel hunused
  unfold Layout.separatorPosition Layout.pointerPosition at hplace
  unfold Layout.pointerPosition at hstart hend
  rw [Nat.succ_mul] at hplace
  omega

omit hl in
theorem leaf_used (hslot : slot < layout.recordsInLeaf page)
    (hend : place < slot * layout.leafRecordSize + layout.leafRecordSize) :
    ¬layout.Unused layout.numLevels page place := by
  intro hunused
  have hrecords := Nat.mul_le_mul_right layout.leafRecordSize hslot
  have hplace := place_of_unused_leaf hunused
  rw [Nat.succ_mul] at hrecords
  omega

end Planned

end Layout

namespace Finished

variable {attributes : Attributes} {layout : Layout} {records : List Record}
  {file whole : Content}

/-- A file that differs from another one in dead places only. -/
structure Padded (layout : Layout) (whole file : Content) : Prop where
  size_eq : file.size = whole.size
  byteAt_eq : ∀ i < whole.size, ¬layout.Dead i → file.byteAt i = whole.byteAt i

namespace Padded

variable (hpadded : Padded layout whole file)
include hpadded

theorem has_of_live {offset : ℕ} {data : ByteArray} (hin : whole.Has offset data)
    (hlive : ∀ i, offset ≤ i → i < offset + data.size → ¬layout.Dead i) : file.Has offset data :=
  hin.congr (hpadded.size_eq ▸ hin.size_le) fun i hstart hend =>
    hpadded.byteAt_eq i (hend.trans_le hin.size_le) (hlive i hstart hend)

theorem has_of_used (hl : layout.Planned attributes) {level page start : ℕ} {data : ByteArray}
    (hlevel : level ≤ layout.numLevels) (hpage : page < (layout.region level).pages)
    (hin : whole.Has (layout.pageOffset level page + start) data)
    (hroom : start + data.size ≤ layout.pageSize)
    (hused : ∀ place, start ≤ place → place < start + data.size →
      ¬layout.Unused level page place) :
    file.Has (layout.pageOffset level page + start) data := by
  refine has_of_live hpadded hin fun i hstart hend hdead => ?_
  obtain ⟨place, rfl⟩ := Nat.exists_eq_add_of_le
    (Nat.le_of_add_right_le hstart : layout.pageOffset level page ≤ i)
  exact hused place (by omega) (by omega)
    (hl.unused_of_dead hlevel hpage (by omega) hdead)

variable (h : Finished attributes layout records whole)
include h

theorem keeps : Keeps attributes layout records file := by
  have hl := h.planned
  have hkeeps := h.keeps
  refine ⟨hpadded.size_eq ▸ hkeeps.leafEnd_le, ?_, ?_, ?_⟩
  · refine has_of_live hpadded hkeeps.has_header fun i _ hend hdead => ?_
    have hstart := hl.header_le_of_dead h.header_le hdead
    rw [Header.size_encode hl.numLevels_le] at hend
    omega
  · intro level hlevel page hpage slot hslot
    have hend := hl.separator_end_le hslot
    have hroom := hl.pointer_room hl.branchingFactor_pos
    have hwidth : (Image.separator layout records level
        (page * layout.branchingFactor + slot + 1)).size = layout.keySize :=
      Image.size_separator _ _
    exact has_of_used hpadded hl hlevel.le hpage
      (hkeeps.has_separator level hlevel page hpage slot hslot) (by omega)
      fun place _ hplace => hl.separator_used hlevel hslot (by omega)
  · intro leaf hleaf slot hslot
    have hin := hkeeps.has_leaf leaf hleaf slot hslot
    have hwidth := h.size_leaf (h.index_lt hslot)
    have hroom := hl.slot_room (hslot.trans_le (Nat.min_le_right _ _))
    rw [Layout.leafPageOffset_eq] at hin ⊢
    exact has_of_used hpadded hl le_rfl (layout.pages_numLevels ▸ hleaf) hin (by omega)
      fun place _ hplace => Layout.Planned.leaf_used hslot (by omega)

theorem keepsPointer {level page slot : ℕ} (hlevel : level < layout.numLevels)
    (hpage : page < (layout.region level).pages) (hslot : slot ≤ layout.separatorsIn level page) :
    KeepsPointer layout file level page slot := by
  have hl := h.planned
  have hroom := hl.pointer_room (hslot.trans_lt (hl.separatorsIn_lt level page))
  have hin := h.keepsPointer hlevel hpage hslot
  have hwidth := BigEndian.size_encode Size.pointer
    (layout.childOffset level (page * layout.branchingFactor + slot))
  exact has_of_used hpadded hl hlevel.le hpage hin (by omega)
    fun place hstart hend => hl.pointer_used hlevel hslot hstart (by omega)

theorem keepsEntries : KeepsEntries layout records file := by
  intro index hindex hregion
  have hl := h.planned
  have hplace : layout.leafEnd ≤ Image.pointer layout records index := by
    rw [Image.pointer, if_pos hregion, hl.valueOffset_eq, if_pos hregion]
    exact Nat.le_add_right _ _
  refine has_of_live hpadded (h.has_entry hindex hregion) fun i hstart _ hdead => ?_
  exact absurd (hl.lt_leafEnd_of_dead hdead) (by omega)

theorem descend_eq (path origin : String) (order : KeyOrder) (query : ByteArray) :
    (reader attributes layout path file order).descend query layout.numLevels 0 =
      (reader attributes layout origin whole order).descend query layout.numLevels 0 :=
  (keeps hpadded h).descend_eq h query
    (fun _ hlevel _ hpage _ hslot => keepsPointer hpadded h hlevel hpage hslot) le_rfl
    (h.planned.pages_pos (Nat.sub_le _ _))

end Padded

end Finished

namespace Writer

variable {volume after : Volume} {path : String} {attributes : Attributes} {options : Options}
  {calls : List Call} {built : Built}

/-- When the dead bytes in the file of a run are changed, at any number of places and to anything,
the file opens with the same header, and under every order each look-up and each item of a pass is
the same as before. -/
theorem padding_build (h : build volume path attributes options calls = (.ok built, after))
    (hsize : built.size < Size.limit) :
    ∃ bytes, after.read path = .ok bytes ∧ bytes.size = built.size ∧
      ∀ (disk : Volume) (name : String) (other : ByteArray), disk.read name = .ok other →
        other.size = bytes.size →
        (∀ i < bytes.size, ¬built.layout.Dead i → Bytes.byteAt other i = Bytes.byteAt bytes i) →
        ∀ order, ∃ reader padded,
          Reader.openPath after path order = .ok reader ∧
          Reader.openPath disk name order = .ok padded ∧
          padded.header = reader.header ∧
          (∀ key, padded.get key = reader.get key) ∧
          padded.records = reader.records := by
  obtain ⟨file, hleaves⟩ := build_spec h
  have hfinished := hleaves.finished
  have hwhole : (after.content file).size < Size.limit := hleaves.size_eq ▸ hsize
  refine ⟨_, hleaves.read_eq, ?_, ?_⟩
  · rw [← hfinished.toBytes_eq, Content.size_toBytes, hleaves.size_eq]
  rw [← hfinished.toBytes_eq]
  intro disk name other hread hother hbytes order
  obtain ⟨content, rfl, hopen⟩ := Volume.openPath_of_read hread
  simp only [Content.size_toBytes, Content.byteAt_toBytes] at hother hbytes
  have hpadded : Finished.Padded built.layout (after.content file) content := ⟨hother, hbytes⟩
  have hkeeps := hpadded.keeps hfinished
  have hentries := hpadded.keepsEntries hfinished
  exact ⟨_, _, hleaves.openPath_eq hsize order,
    (hopen order).trans (hkeeps.ofContent_eq hfinished hwhole name order), rfl,
    fun key => hkeeps.get_eq hfinished hwhole hentries (hpadded.descend_eq hfinished _ _ _ _),
    hkeeps.records_eq hfinished hwhole hentries _ _ order⟩

theorem padding_build_sample : ∃ built after bytes disk reader padded,
    build Sample.volume "t" Sample.attributes Sample.options Sample.calls = (.ok built, after) ∧
      after.read "t" = .ok bytes ∧
      disk.read "t" = .ok (Bytes.overlay bytes 936 [255].toByteArray) ∧
      Reader.openPath after "t" KeyOrder.bytewise = .ok reader ∧
      Reader.openPath disk "t" KeyOrder.bytewise = .ok padded ∧
      padded.get [3].toByteArray = reader.get [3].toByteArray ∧
      padded.records = reader.records := by
  obtain ⟨built, after, hbuild, -, hlayout, hlimit⟩ := Sample.exists_build
  obtain ⟨bytes, hread, -, hpadding⟩ := padding_build hbuild hlimit
  obtain ⟨file, hleaves⟩ := build_spec hbuild
  have hfinished := hleaves.finished
  have hbytes : bytes = (after.content file).toBytes := by
    rw [hleaves.read_eq, ← hfinished.toBytes_eq] at hread
    exact (Except.ok.inj hread).symm
  have hwide := hfinished.keeps.leafEnd_le
  rw [hlayout] at hpadding hwide
  have hend : 2544 ≤ bytes.size := by
    rw [hbytes, Content.size_toBytes]
    exact hwide
  have hdead : Sample.layout.Dead (Sample.layout.pageOffset 0 0 + 300) :=
    .page (by decide) (by decide) (by decide)
      (.separator (by decide) le_rfl (by decide) (by decide) (by decide))
  have hdisk := Volume.read_modify hleaves.existing_eq
    (Bytes.overlay bytes 936 [255].toByteArray)
  obtain ⟨reader, padded, hopen, hopened, -, hget, hrecords⟩ :=
    hpadding _ "t" _ hdisk
      (by
        rw [Bytes.size_overlay]
        change max bytes.size (936 + 1) = bytes.size
        omega)
      (fun i _ hlive => by
        have hne : i ≠ 936 := by
          rintro rfl
          exact hlive hdead
        rw [Bytes.byteAt_overlay, if_neg]
        change ¬(936 ≤ i ∧ i < 936 + 1)
        omega)
      KeyOrder.bytewise
  exact ⟨built, after, bytes, _, reader, padded, hbuild, hread, hdisk, hopen, hopened, hget _,
    hrecords⟩

end Writer

end PackedIndex
