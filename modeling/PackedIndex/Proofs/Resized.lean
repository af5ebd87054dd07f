import PackedIndex.Proofs.Kept
/-! # Files that were cut or extended

Everything in front of the value region is needed to open a file, and a value entry is only needed
for its own record. So a file that has lost bytes at its end does not open when some of its leaf
pages are gone, and otherwise loses exactly the records whose value entries are not wholly there.
Bytes behind the end of a file are not noticed.
-/
namespace PackedIndex

namespace Image

/-- The place behind the value entry of a record, zero where values are beside their keys. -/
def entryEnd (layout : Layout) (records : List Record) (index : ℕ) : ℕ :=
  pointer layout records index +
    (records[index]?).elim 0 fun record => (layout.encoding.valueEntry record).size

variable {layout : Layout} {records : List Record} {index : ℕ}

theorem entryEnd_eq (h : index < records.length) :
    entryEnd layout records index =
      pointer layout records index + (layout.encoding.valueEntry records[index]).size := by
  rw [entryEnd, List.getElem?_eq_getElem h, Option.elim_some]

theorem entryEnd_of_inline (h : index < records.length)
    (hregion : layout.encoding.usesValueRegion = false) : entryEnd layout records index = 0 := by
  have hnone := Encoding.valueEntry_of_inline hregion records[index]
  rw [entryEnd_eq h, pointer, if_neg (by rw [hregion]; decide), hnone]
  rfl

end Image

namespace Content

variable {file whole : Content}

def Overlaps (file whole : Content) : Prop :=
  ∀ i < file.size, i < whole.size → file.byteAt i = whole.byteAt i

theorem overlaps_of_extract {size : ℕ} (h : file.toBytes = whole.toBytes.extract 0 size)
    (hsize : size ≤ whole.size) : file.size = size ∧ file.Overlaps whole := by
  have hwidth : file.size = size := by
    rw [← size_toBytes, h, ByteArray.size_extract, size_toBytes]
    omega
  refine ⟨hwidth, fun i hi _ => ?_⟩
  rw [← byteAt_toBytes, h, Bytes.byteAt_extract, if_pos (by omega), Nat.zero_add, byteAt_toBytes]

theorem overlaps_of_append {behind : ByteArray} (h : file.toBytes = whole.toBytes ++ behind) :
    whole.size ≤ file.size ∧ file.Overlaps whole := by
  constructor
  · rw [← size_toBytes, ← size_toBytes, h, ByteArray.size_append]
    exact Nat.le_add_right _ _
  · intro i _ hi
    rw [← byteAt_toBytes, h, Bytes.byteAt_append, if_pos (by rwa [size_toBytes]), byteAt_toBytes]

end Content

/-- The value entry of the record that a key is answered with ends behind the first `size` bytes. -/
def Reader.Loses (reader : Reader) (records : List Record) (size : ℕ) (key : ByteArray) : Prop :=
  key.size ≤ reader.layout.keySize ∧ ∃ index,
    reader.locate (Bytes.resize key reader.layout.keySize) = .ok (some index) ∧
      size < Image.entryEnd reader.layout records index

namespace Finished

variable {attributes : Attributes} {layout : Layout} {records : List Record}
  {file whole : Content}

theorem entryEnd_le (h : Finished attributes layout records whole) {index : ℕ}
    (hindex : index < records.length) : Image.entryEnd layout records index ≤ whole.size := by
  rcases hregion : layout.encoding.usesValueRegion with - | -
  · rw [Image.entryEnd_of_inline hindex hregion]
    exact Nat.zero_le _
  · rw [Image.entryEnd_eq hindex]
    exact (h.has_entry hindex hregion).size_le

theorem extract_entry (h : Finished attributes layout records whole) {index : ℕ}
    (hindex : index < records.length) :
    whole.toBytes.extract (Image.pointer layout records index)
        (Image.entryEnd layout records index) =
      layout.encoding.valueEntry records[index] := by
  have hend := h.entryEnd_le hindex
  rw [Content.extract_toBytes hend]
  rcases hregion : layout.encoding.usesValueRegion with - | -
  · rw [Encoding.valueEntry_of_inline hregion, Image.entryEnd_of_inline hindex hregion,
      Nat.zero_sub, ← ByteArray.size_eq_zero_iff, Content.size_read]
    omega
  · rw [Image.entryEnd_eq hindex, Nat.add_sub_cancel_left]
    exact (h.has_entry hindex hregion).read_eq

/-- A file that has lost leaf pages does not open. -/
theorem ofContent_of_cut (h : Finished attributes layout records whole)
    (hsize : whole.size < Size.limit) (hbytes : file.Overlaps whole)
    (hcut : file.size < layout.leafEnd) (path : String) (order : KeyOrder) :
    Reader.ofContent path file order =
      .error (.corruption (if file.size < Size.header then .fileTooSmall
        else .fileTruncated file.size layout.leafEnd)) := by
  have hleaves := h.paged.leafEnd_le
  rcases Nat.lt_or_ge file.size Size.header with hshort | hwide
  · unfold Reader.ofContent
    rw [if_pos hshort, if_pos hshort]
    rfl
  · have hread : file.read 0 Size.header = whole.read 0 Size.header :=
      Content.read_congr (by omega) (by omega) fun i _ hi => hbytes i (by omega) (by omega)
    rw [Reader.ofContent_of_decode hwide (hread ▸ h.decode_header hsize) rfl,
      if_neg (not_lt.mpr hwide)]
    exact if_pos hcut

section

variable (h : Finished attributes layout records whole) (hbytes : file.Overlaps whole)
include h hbytes

theorem has_entry_of_overlaps {index : ℕ} (hindex : index < records.length)
    (hend : Image.entryEnd layout records index ≤ file.size)
    (hregion : layout.encoding.usesValueRegion = true) :
    file.Has (Image.pointer layout records index) (layout.encoding.valueEntry records[index]) := by
  have hentry := h.has_entry hindex hregion
  have hwhole := hentry.size_le
  rw [Image.entryEnd_eq hindex] at hend
  exact hentry.congr hend fun i _ hi => hbytes i (by omega) (by omega)

variable (hleaves : layout.leafEnd ≤ file.size)
include hleaves

theorem has_of_overlaps {offset : ℕ} {data : ByteArray} (hin : whole.Has offset data)
    (hend : offset + data.size ≤ layout.leafEnd) : file.Has offset data := by
  have hwhole := h.paged.leafEnd_le
  exact hin.congr (by omega) fun i _ hi => hbytes i (by omega) (by omega)

theorem keeps_of_overlaps : Keeps attributes layout records file := by
  have hl := h.planned
  have hkeeps := h.keeps
  refine ⟨hleaves, ?_, ?_, ?_⟩
  · refine has_of_overlaps h hbytes hleaves hkeeps.has_header ?_
    rw [Header.size_encode hl.numLevels_le, Nat.zero_add]
    exact h.header_le.trans hl.pageSize_le_leafEnd
  · intro level hlevel page hpage slot hslot
    refine has_of_overlaps h hbytes hleaves
      (hkeeps.has_separator level hlevel page hpage slot hslot) ?_
    have hend := hl.separator_end_le hslot
    have hroom := hl.pointer_room hl.branchingFactor_pos
    have hin := hl.page_end_le_leafEnd hlevel.le hpage
    rw [Image.size_separator]
    omega
  · intro page hpage slot hslot
    refine has_of_overlaps h hbytes hleaves (hkeeps.has_leaf page hpage slot hslot) ?_
    rw [h.size_leaf (h.index_lt hslot)]
    exact hl.slot_end_le_leafEnd hpage (hslot.trans_le (Nat.min_le_right _ _))

theorem locate_of_overlaps (path origin : String) (order : KeyOrder) (query : ByteArray) :
    (reader attributes layout path file order).locate query =
      (reader attributes layout origin whole order).locate query := by
  have hl := h.planned
  have hkeeps := keeps_of_overlaps h hbytes hleaves
  refine hkeeps.locate_eq h (hkeeps.descend_eq h query ?_ le_rfl (hl.pages_pos (Nat.sub_le _ _)))
  intro level hlevel page hpage slot hslot
  refine has_of_overlaps h hbytes hleaves (h.keepsPointer hlevel hpage hslot) ?_
  have hin := hl.page_end_le_leafEnd hlevel.le hpage
  rw [BigEndian.size_encode]
  exact (hl.pointerOffset_mem hslot).2.trans hin

theorem recordAt_of_overlaps (hsize : whole.size < Size.limit) (path : String) (order : KeyOrder)
    {index : ℕ} (hindex : index < records.length) :
    (Image.entryEnd layout records index ≤ file.size →
      (reader attributes layout path file order).recordAt index =
        .ok (records[index].padded layout.keySize)) ∧
    (file.size < Image.entryEnd layout records index →
      ∃ damage, (reader attributes layout path file order).recordAt index = .error damage) := by
  have hkeeps := keeps_of_overlaps h hbytes hleaves
  constructor
  · intro hin
    exact hkeeps.recordAt_eq h hsize hindex (has_entry_of_overlaps h hbytes hindex hin)
  · intro hcut
    have hend := h.entryEnd_le hindex
    have hsame : ∀ i < file.size, file.byteAt i = whole.byteAt i :=
      fun i hi => hbytes i hi (by omega)
    rcases hregion : layout.encoding.usesValueRegion with - | -
    · rw [Image.entryEnd_of_inline hindex hregion] at hcut
      omega
    · rw [Image.entryEnd_eq hindex] at hcut
      exact hkeeps.recordAt_of_cut h hsize hindex hregion hsame hcut

/-- A look-up answers as in the whole file, unless the value entry of its record does not end in the
file. -/
theorem get_of_overlaps (hsize : whole.size < Size.limit) (path origin : String)
    (order : KeyOrder) (key : ByteArray) :
    ((reader attributes layout origin whole order).Loses records file.size key →
      ∃ damage, (reader attributes layout path file order).get key =
        .error (.corruption damage)) ∧
    (¬(reader attributes layout origin whole order).Loses records file.size key →
      (reader attributes layout path file order).get key =
        (reader attributes layout origin whole order).get key) := by
  rcases Nat.lt_or_ge layout.keySize key.size with hlong | hkey
  · constructor
    · intro hloses
      exact absurd hloses.1 (not_le.mpr hlong)
    · intro _
      exact get_eq_of_size_gt hlong
  · have hkeeps := keeps_of_overlaps h hbytes hleaves
    -- with all leaf pages there, both files lead to the same record
    have hlocate := locate_of_overlaps h hbytes hleaves path origin order
      (Bytes.resize key layout.keySize)
    have hfile := (hkeeps.accepted h path order).get_eq_locate hkey
    have hwhole := (h.keeps.accepted h origin order).get_eq_locate hkey
    rw [layout_reader, hlocate] at hfile
    rw [layout_reader] at hwhole
    constructor
    · rintro ⟨-, index, hfound, hbehind⟩
      have hindex := h.lt_of_locate hfound
      obtain ⟨damage, hrecord⟩ :=
        (recordAt_of_overlaps h hbytes hleaves hsize path order hindex).2 hbehind
      refine ⟨damage, ?_⟩
      rw [layout_reader] at hfound
      rw [hfile, hfound]
      dsimp only
      rw [hrecord]
      rfl
    · intro hkept
      rw [hfile, hwhole]
      rcases hfound : (reader attributes layout origin whole order).locate
        (Bytes.resize key layout.keySize) with damage | ⟨⟨⟩ | index⟩
      · rfl
      · rfl
      · have hindex := h.lt_of_locate hfound
        have hin : Image.entryEnd layout records index ≤ file.size :=
          not_lt.mp fun hbehind => hkept ⟨hkey, index, hfound, hbehind⟩
        dsimp only
        rw [(recordAt_of_overlaps h hbytes hleaves hsize path order hindex).1 hin,
          h.recordAt_eq hsize hindex]

/-- A pass answers as over the whole file, with damage in the places of the records whose value
entries do not end in the file. -/
theorem records_of_overlaps (hsize : whole.size < Size.limit) (path origin : String)
    (order : KeyOrder) {index : ℕ} (hindex : index < records.length) :
    (file.size < Image.entryEnd layout records index →
      ∃ damage, (reader attributes layout path file order).records[index]? =
        some (.error damage)) ∧
    (Image.entryEnd layout records index ≤ file.size →
      (reader attributes layout path file order).records[index]? =
        (reader attributes layout origin whole order).records[index]?) := by
  obtain ⟨hkept, hlost⟩ := recordAt_of_overlaps h hbytes hleaves hsize path order hindex
  have hcount : index < layout.recordCount := h.length_eq ▸ hindex
  rw [Reader.getElem?_records _ hcount, Reader.getElem?_records _ hcount,
    h.recordAt_eq hsize hindex]
  constructor
  · intro hbehind
    obtain ⟨damage, hrecord⟩ := hlost hbehind
    exact ⟨damage, congrArg some hrecord⟩
  · intro hin
    exact congrArg some (hkept hin)

end

end Finished

namespace Writer

variable {volume after : Volume} {path : String} {attributes : Attributes} {options : Options}
  {calls : List Call} {built : Built}

/-- The file of a run that was cut does not open when leaf pages are gone. Otherwise it answers as
before, with damage for the records whose value entries are not wholly there. Bytes behind the end
of the file change nothing. -/
theorem resized_build (h : build volume path attributes options calls = (.ok built, after))
    (hsize : built.size < Size.limit) :
    ∃ bytes, after.read path = .ok bytes ∧ bytes.size = built.size ∧
      (∀ index record, built.accepted[index]? = some record →
        bytes.extract (Image.pointer built.layout built.accepted index)
            (Image.entryEnd built.layout built.accepted index) =
          built.layout.encoding.valueEntry record) ∧
      ∀ order, ∃ reader, Reader.openPath after path order = .ok reader ∧
        (∀ (key : ByteArray) (index : ℕ), key.size ≤ attributes.keySize →
          reader.locate (Bytes.resize key attributes.keySize) = .ok (some index) →
          ∃ record, built.accepted[index]? = some record ∧
            reader.get key = .ok (record.padded attributes.keySize)) ∧
        (∀ (disk : Volume) (name : String), ∀ size < bytes.size,
          disk.read name = .ok (bytes.extract 0 size) →
          (size < built.layout.leafEnd → Reader.openPath disk name order =
            .error (.corruption (if size < Size.header then .fileTooSmall
              else .fileTruncated size built.layout.leafEnd))) ∧
          (built.layout.leafEnd ≤ size →
            ∃ cut, Reader.openPath disk name order = .ok cut ∧
              (∀ key,
                (reader.Loses built.accepted size key →
                  ∃ damage, cut.get key = .error (.corruption damage)) ∧
                (¬reader.Loses built.accepted size key → cut.get key = reader.get key)) ∧
              cut.records.length = attributes.recordCount ∧
              ∀ index < attributes.recordCount,
                (size < Image.entryEnd built.layout built.accepted index →
                  ∃ damage, cut.records[index]? = some (.error damage)) ∧
                (Image.entryEnd built.layout built.accepted index ≤ size →
                  cut.records[index]? = reader.records[index]?))) ∧
        ∀ (disk : Volume) (name : String) (behind : ByteArray),
          disk.read name = .ok (bytes ++ behind) →
          ∃ longer, Reader.openPath disk name order = .ok longer ∧
            (∀ key, longer.get key = reader.get key) ∧ longer.records = reader.records := by
  obtain ⟨file, hleaves⟩ := build_spec h
  have hfinished := hleaves.finished
  have hwhole : (after.content file).size < Size.limit := hleaves.size_eq ▸ hsize
  have hlength := hfinished.length_eq.trans hfinished.planned.recordCount_eq
  rw [hleaves.read_eq, ← hfinished.toBytes_eq]
  refine ⟨_, rfl, ?_, ?_, fun order => ⟨_, hleaves.openPath_eq hsize order, ?_, ?_, ?_⟩⟩
  · rw [Content.size_toBytes, hleaves.size_eq]
  · intro index record hrecord
    obtain ⟨hindex, rfl⟩ := List.getElem?_eq_some_iff.mp hrecord
    exact hfinished.extract_entry hindex
  · intro key index hkey hfound
    rw [← hleaves.keySize_eq] at hkey hfound ⊢
    have hindex := hfinished.lt_of_locate hfound
    refine ⟨_, List.getElem?_eq_getElem hindex, ?_⟩
    rw [(hfinished.keeps.accepted hfinished path order).get_eq_locate hkey, Finished.layout_reader,
      hfound]
    dsimp only
    rw [hfinished.recordAt_eq hwhole hindex]
    rfl
  · intro disk name size hcut hread
    obtain ⟨content, hcontent, hopen⟩ := Volume.openPath_of_read hread
    rw [Content.size_toBytes] at hcut
    obtain ⟨rfl, hbytes⟩ := Content.overlaps_of_extract hcontent hcut.le
    rw [hopen]
    refine ⟨fun hgone => hfinished.ofContent_of_cut hwhole hbytes hgone name order,
      fun hthere => ?_⟩
    have hkeeps := hfinished.keeps_of_overlaps hbytes hthere
    refine ⟨_, hkeeps.ofContent_eq hfinished hwhole name order, ?_, ?_, ?_⟩
    · exact hfinished.get_of_overlaps hbytes hthere hwhole name path order
    · rw [Reader.length_records]
      exact hfinished.planned.recordCount_eq
    · intro index hindex
      exact hfinished.records_of_overlaps hbytes hthere hwhole name path order (hlength ▸ hindex)
  · intro disk name behind hread
    obtain ⟨content, hcontent, hopen⟩ := Volume.openPath_of_read hread
    obtain ⟨hlonger, hbytes⟩ := Content.overlaps_of_append hcontent
    have hthere := hfinished.paged.leafEnd_le.trans hlonger
    have hkeeps := hfinished.keeps_of_overlaps hbytes hthere
    rw [hopen]
    refine ⟨_, hkeeps.ofContent_eq hfinished hwhole name order, ?_, ?_⟩
    · intro key
      refine (hfinished.get_of_overlaps hbytes hthere hwhole name path order key).2 ?_
      rintro ⟨-, index, hfound, hbehind⟩
      have hend := hfinished.entryEnd_le (hfinished.lt_of_locate hfound)
      rw [Finished.layout_reader] at hbehind
      omega
    · refine hkeeps.records_eq hfinished hwhole ?_ name path order
      intro index hindex
      exact hfinished.has_entry_of_overlaps hbytes hindex
        ((hfinished.entryEnd_le hindex).trans hlonger)

/-- The file of the sample ends at 2558. It is cut within its second value entry. -/
theorem resized_build_sample : ∃ built after bytes disk reader cut,
    build Sample.volume "t" Sample.attributes Sample.options Sample.calls = (.ok built, after) ∧
      after.read "t" = .ok bytes ∧ disk.read "t" = .ok (bytes.extract 0 2550) ∧
      Reader.openPath after "t" KeyOrder.reverse = .ok reader ∧
      Reader.openPath disk "t" KeyOrder.reverse = .ok cut ∧
      cut.records[0]? = reader.records[0]? ∧
      ∃ damage, cut.records[1]? = some (.error damage) := by
  obtain ⟨built, after, hbuild, haccepted, hlayout, hlimit⟩ := Sample.exists_build
  obtain ⟨bytes, hread, hsize, -, hopened⟩ := resized_build hbuild hlimit
  obtain ⟨reader, hopen, -, hcut, -⟩ := hopened KeyOrder.reverse
  obtain ⟨file, hleaves⟩ := build_spec hbuild
  have hdisk := Volume.read_modify hleaves.existing_eq (bytes.extract 0 2550)
  have hplaces : Sample.layout.leafEnd ≤ 2550 ∧
      Image.entryEnd Sample.layout Sample.records 0 ≤ 2550 ∧
      2550 < Image.entryEnd Sample.layout Sample.records 1 := by decide +kernel
  have hsecond : 1 < built.accepted.length := by
    rw [haccepted]
    decide
  have hend := hleaves.finished.entryEnd_le hsecond
  rw [hlayout, haccepted] at hend hcut
  have hshort : 2550 < bytes.size := by
    rw [hsize, hleaves.size_eq]
    omega
  obtain ⟨cut, hopencut, -, -, hrecords⟩ :=
    (hcut _ "t" 2550 hshort hdisk).2 hplaces.1
  exact ⟨built, after, bytes, _, reader, cut, hbuild, hread, hdisk, hopen, hopencut,
    (hrecords 0 (by decide)).2 hplaces.2.1, (hrecords 1 (by decide)).1 hplaces.2.2⟩

end Writer

end PackedIndex
