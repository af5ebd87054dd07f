import PackedIndex.Header.Codec
import PackedIndex.Proofs.Layout
/-! # Stored headers

A header is a table of fields. `Stores` says that some bytes start with the table of a header; from
there `decode` gives the header back, with the geometry planned anew.
-/
namespace PackedIndex

namespace BigEndian

theorem read_eq {data part : ByteArray} {offset width n : ℕ}
    (h : data.extract offset (offset + width) = part) (hpart : part = encode width n)
    (hn : n < 256 ^ width) : read data offset width = n := by
  rw [read, h, hpart, decode_encode, Nat.mod_eq_of_lt hn]

end BigEndian

namespace Attributes

/-- Attributes whose numbers have room in their fields. -/
structure Fits (attributes : Attributes) : Prop where
  keySize_lt : attributes.keySize < Size.limit
  valueSize_lt : attributes.valueSize < Size.limit
  recordCount_lt : attributes.recordCount < Size.limit

def fields (attributes : Attributes) : List ByteArray :=
  [BigEndian.encode 8 attributes.keySize, BigEndian.encode 8 attributes.valueSize,
    BigEndian.encode 8 attributes.recordCount, [attributes.format.toByte, 0].toByteArray]

theorem encode_eq_join (attributes : Attributes) :
    attributes.encode = Bytes.join attributes.fields := by
  simp [encode, fields, ByteArray.append_assoc]

@[simp] theorem size_encode (attributes : Attributes) : attributes.encode.size = encodedSize := by
  simp [encode, encodedSize]

theorem byteAt_encode_format (attributes : Attributes) :
    Bytes.byteAt attributes.encode 24 = attributes.format.toByte ∧
      Bytes.byteAt attributes.encode 25 = 0 := by
  have hfront : (BigEndian.encode 8 attributes.keySize ++ BigEndian.encode 8 attributes.valueSize ++
      BigEndian.encode 8 attributes.recordCount).size = 24 := by simp
  constructor
  · rw [encode, Bytes.byteAt_append, hfront, if_neg (lt_irrefl _)]
    rfl
  · rw [encode, Bytes.byteAt_append, hfront, if_neg (by omega)]
    rfl

theorem decode_encode_of_fits {attributes : Attributes} (h : attributes.Fits) :
    decode attributes.encode = .ok attributes := by
  have hlimit : Size.limit = 256 ^ 8 := by decide
  obtain ⟨hkey, hvalue, hcount⟩ := h
  rw [hlimit] at hkey hvalue hcount
  obtain ⟨hformat, hreserved⟩ := attributes.byteAt_encode_format
  have hsize : ¬attributes.encode.size < encodedSize := by simp
  rw [Bytes.byteAt_of_lt (by simp [encodedSize])] at hformat hreserved
  have hkey' : BigEndian.read attributes.encode 0 8 = attributes.keySize := by
    refine BigEndian.read_eq ?_ rfl hkey
    rw [encode_eq_join]
    exact Bytes.extract_join (i := 0) rfl rfl (by simp)
  have hvalue' : BigEndian.read attributes.encode 8 8 = attributes.valueSize := by
    refine BigEndian.read_eq ?_ rfl hvalue
    rw [encode_eq_join]
    exact Bytes.extract_join (i := 1) rfl (by simp [fields]) (by simp)
  have hcount' : BigEndian.read attributes.encode 16 8 = attributes.recordCount := by
    refine BigEndian.read_eq ?_ rfl hcount
    rw [encode_eq_join]
    exact Bytes.extract_join (i := 2) rfl (by simp [fields]) (by simp)
  unfold decode
  rw [dif_neg hsize]
  simp only [hformat, hreserved, Format.ofByte?_toByte, hkey', hvalue', hcount']
  rfl

end Attributes

namespace Flags

theorem ofBits?_bits (flags : Flags) : ofBits? flags.bits = some flags := by
  rcases flags with ⟨_ | _, _ | _⟩ <;> rfl

end Flags

namespace Header

/-- The fields of a stored header, from the magic number to the end of the level table. -/
def fields (header : Header) : List ByteArray :=
  let layout := header.layout
  [BigEndian.encode 8 magic, BigEndian.encode 4 header.version.toNat,
    BigEndian.encode 4 header.flags.bits.toNat, BigEndian.encode 8 layout.pageSize,
    header.attributes.encode, Bytes.zeros 6,
    BigEndian.encode 8 layout.leafRecordSize, BigEndian.encode 8 layout.recordsPerLeafPage,
    BigEndian.encode 8 layout.leafPages, BigEndian.encode 8 layout.leafOffset,
    BigEndian.encode 8 layout.valueOffset, BigEndian.encode 8 layout.branchingFactor,
    BigEndian.encode 8 Size.pointer, BigEndian.encode 4 layout.numLevels, Bytes.zeros 4,
    Bytes.join (layout.levels.map encodeRegion),
    Bytes.zeros ((Size.mostLevels - layout.numLevels) * 16)]

theorem encodeBody_eq_join (header : Header) : header.encodeBody = Bytes.join header.fields := by
  simp only [encodeBody, fields, Bytes.join_cons, Bytes.join_nil, ByteArray.append_empty,
    ByteArray.append_assoc]
  rfl

@[simp] theorem size_encodeRegion (region : Region) : (encodeRegion region).size = 16 := by
  simp [encodeRegion]

theorem size_encodeRegions (regions : List Region) :
    (Bytes.join (regions.map encodeRegion)).size = 16 * regions.length := by
  induction regions with
  | nil => rfl
  | cons region regions ih =>
    rw [List.map_cons, Bytes.join_cons, ByteArray.size_append, size_encodeRegion, ih,
      List.length_cons]
    omega

theorem size_encodeBody {header : Header} (h : header.layout.numLevels ≤ Size.mostLevels) :
    header.encodeBody.size = checksumPosition := by
  rw [encodeBody_eq_join]
  simp only [fields, Bytes.join_cons, Bytes.join_nil, ByteArray.append_empty, ByteArray.size_append,
    BigEndian.size_encode, Attributes.size_encode, Bytes.size_zeros, size_encodeRegions]
  simp only [Layout.numLevels, Size.mostLevels, checksumPosition, Size.header,
    Attributes.encodedSize] at h ⊢
  omega

theorem size_encode {header : Header} (h : header.layout.numLevels ≤ Size.mostLevels) :
    header.encode.size = Size.header := by
  rw [encode, ByteArray.size_append, size_encodeBody h, BigEndian.size_encode]
  rfl

@[simp] theorem size_encodePage (header : Header) :
    header.encodePage.size = header.layout.pageSize :=
  Bytes.size_resize _ _

/-- Bytes that start with a stored header. -/
structure Stores (data : ByteArray) (header : Header) : Prop where
  size_le : Size.header ≤ data.size
  body_eq : data.extract 0 checksumPosition = header.encodeBody
  checksum_eq : data.extract checksumPosition (checksumPosition + 4) =
    BigEndian.encode 4 (Crc32.checksum header.encodeBody).toNat

theorem stores_encode {header : Header} (h : header.layout.numLevels ≤ Size.mostLevels)
    (behind : ByteArray) : Stores (header.encode ++ behind) header := by
  have hbody := size_encodeBody h
  have hsize := size_encode h
  refine ⟨?_, ?_, ?_⟩
  · rw [ByteArray.size_append, hsize]
    exact Nat.le_add_right _ _
  · have hfront := Bytes.extract_middle ByteArray.empty header.encodeBody
      (BigEndian.encode 4 (Crc32.checksum header.encodeBody).toNat ++ behind)
    rw [encode, ByteArray.append_assoc, ← hbody]
    simpa using hfront
  · rw [encode, ByteArray.append_assoc, ← hbody]
    have hmiddle := Bytes.extract_middle header.encodeBody
      (BigEndian.encode 4 (Crc32.checksum header.encodeBody).toNat) behind
    rwa [BigEndian.size_encode] at hmiddle

structure Fits (header : Header) : Prop where
  attributes : header.attributes.Fits
  pageSize_lt : header.layout.pageSize < Size.limit
  leafRecordSize_lt : header.layout.leafRecordSize < Size.limit
  recordsPerLeafPage_lt : header.layout.recordsPerLeafPage < Size.limit
  leafPages_lt : header.layout.leafPages < Size.limit
  leafOffset_lt : header.layout.leafOffset < Size.limit
  valueOffset_lt : header.layout.valueOffset < Size.limit
  branchingFactor_lt : header.layout.branchingFactor < Size.limit
  numLevels_le : header.layout.numLevels ≤ Size.mostLevels
  levels_lt : ∀ region ∈ header.layout.levels,
    region.offset < Size.limit ∧ region.pages < Size.limit

theorem read_region {data : ByteArray} {position stop : ℕ} {region : Region}
    (h : data.extract position stop = encodeRegion region) (hoffset : region.offset < Size.limit)
    (hpages : region.pages < Size.limit) :
    BigEndian.read data position 8 = region.offset ∧
      BigEndian.read data (position + 8) 8 = region.pages := by
  have hlimit : Size.limit = 256 ^ 8 := by decide
  rw [hlimit] at hoffset hpages
  have hfirst := Bytes.extract_of_extract ByteArray.empty (BigEndian.encode 8 region.offset)
    (BigEndian.encode 8 region.pages)
    (h.trans ByteArray.empty_append.symm)
  have hsecond := Bytes.extract_of_extract (BigEndian.encode 8 region.offset)
    (BigEndian.encode 8 region.pages) ByteArray.empty
    (by rw [h, ByteArray.append_empty, encodeRegion])
  rw [BigEndian.size_encode] at hfirst
  rw [BigEndian.size_encode, BigEndian.size_encode] at hsecond
  exact ⟨BigEndian.read_eq hfirst rfl hoffset, BigEndian.read_eq hsecond rfl hpages⟩

namespace Stores

variable {data : ByteArray} {header : Header}

theorem extract_field (h : Stores data header) {i start width : ℕ} {part : ByteArray}
    (hpart : header.fields[i]? = some part)
    (hstart : (Bytes.join (header.fields.take i)).size = start) (hwidth : part.size = width)
    (hend : start + width ≤ checksumPosition) : data.extract start (start + width) = part := by
  have hfield := Bytes.extract_join hpart hstart hwidth
  rw [← encodeBody_eq_join, ← h.body_eq, ByteArray.extract_extract, Nat.zero_add, Nat.zero_add,
    Nat.min_eq_left hend] at hfield
  exact hfield

theorem read_field (h : Stores data header) {i start width n : ℕ}
    (hpart : header.fields[i]? = some (BigEndian.encode width n))
    (hstart : (Bytes.join (header.fields.take i)).size = start)
    (hend : start + width ≤ checksumPosition) (hn : n < 256 ^ width) :
    BigEndian.read data start width = n :=
  BigEndian.read_eq (h.extract_field hpart hstart (BigEndian.size_encode _ _) hend) rfl hn

theorem readLevels_eq (h : Stores data header) (hfits : header.Fits) :
    readLevels data header.layout.numLevels = header.layout.levels := by
  have hregions := size_encodeRegions header.layout.levels
  have hcount := hfits.numLevels_le
  simp only [Layout.numLevels, Size.mostLevels] at hcount
  have htable : data.extract levelsPosition (levelsPosition + 16 * header.layout.levels.length) =
      Bytes.join (header.layout.levels.map encodeRegion) := h.extract_field (i := 15) rfl
    (by simp [fields, Attributes.encodedSize, levelsPosition]) hregions
    (by simp only [levelsPosition, checksumPosition, Size.header]; omega)
  apply List.ext_getElem (by simp [readLevels, Layout.numLevels])
  intro level hlevel hlevel'
  have hsplit : header.layout.levels.map encodeRegion =
      (header.layout.levels.take level).map encodeRegion ++
        encodeRegion header.layout.levels[level] ::
          (header.layout.levels.drop (level + 1)).map encodeRegion := by
    rw [← List.map_cons, ← List.drop_eq_getElem_cons hlevel', ← List.map_append,
      List.take_append_drop]
  rw [hsplit, Bytes.join_append, Bytes.join_cons] at htable
  have hregion := Bytes.extract_of_extract _ _ _ htable
  rw [size_encodeRegions, List.length_take, Nat.min_eq_left hlevel'.le, size_encodeRegion]
    at hregion
  obtain ⟨hoffset, hpages⟩ := hfits.levels_lt _ (List.getElem_mem hlevel')
  obtain ⟨hfirst, hsecond⟩ := read_region hregion hoffset hpages
  simp [readLevels, hfirst, hsecond]

theorem readGeometry_eq (h : Stores data header) (hfits : header.Fits) :
    readGeometry data header.layout.numLevels = Geometry.ofLayout header.layout := by
  have hlevels := h.readLevels_eq hfits
  obtain ⟨-, -, hleaf, hrecords, hpages, hoffset, hvalue, hbranching, -, -⟩ := hfits
  have hlimit : Size.limit = 256 ^ 8 := by decide
  rw [hlimit] at hleaf hrecords hpages hoffset hvalue hbranching
  have hfield : ∀ {i start n : ℕ}, header.fields[i]? = some (BigEndian.encode 8 n) →
      (Bytes.join (header.fields.take i)).size = start → start ≤ 104 → n < 256 ^ 8 →
      BigEndian.read data start 8 = n := by
    intro i start n hpart hstart hend hn
    have hend' : start + 8 ≤ checksumPosition := by
      simp only [checksumPosition, Size.header]
      omega
    exact h.read_field hpart hstart hend' hn
  unfold readGeometry Geometry.ofLayout
  rw [hlevels,
    hfield (i := 6) rfl (by simp [fields, Attributes.encodedSize]) (by decide) hleaf,
    hfield (i := 7) rfl (by simp [fields, Attributes.encodedSize]) (by decide) hrecords,
    hfield (i := 8) rfl (by simp [fields, Attributes.encodedSize]) (by decide) hpages,
    hfield (i := 9) rfl (by simp [fields, Attributes.encodedSize]) (by decide) hoffset,
    hfield (i := 10) rfl (by simp [fields, Attributes.encodedSize]) (by decide) hvalue,
    hfield (i := 11) rfl (by simp [fields, Attributes.encodedSize]) (by decide) hbranching]

theorem checksum_stored (h : Stores data header) :
    (BigEndian.read data checksumPosition 4).toUInt32 =
      Crc32.checksum (data.extract 0 checksumPosition) := by
  have hread := BigEndian.read_eq h.checksum_eq rfl (Crc32.checksum header.encodeBody).toNat_lt
  rw [hread, h.body_eq]
  simp

/-- A stored header is read back, but for its geometry, which is planned anew and compared. -/
theorem decode_eq (h : Stores data header) (hfits : header.Fits)
    (hversion : header.version = currentVersion) :
    decode data =
      if header.layout.pageSize < Size.header ∨ Size.mostPage < header.layout.pageSize then
        .error (.corruption (.unsupportedPageSize header.layout.pageSize))
      else
        (Layout.plan header.attributes header.layout.pageSize).mapError
          (.corruption ∘ .unusableAttributes) >>= fun layout =>
        if Geometry.ofLayout header.layout = Geometry.ofLayout layout ∧
            layout.inlineBlock = header.flags.inlineBlock then
          .ok { header with layout }
        else .error (.corruption .geometryMismatch) := by
  have hlimit : Size.limit = 256 ^ 8 := by decide
  have hsize := h.size_le
  have hpage := hfits.pageSize_lt
  have hlevels := hfits.numLevels_le
  rw [hlimit] at hpage
  -- the fields in the order in which they are checked
  have hmagic : BigEndian.read data 0 8 = magic :=
    h.read_field (i := 0) rfl rfl (by decide) (by decide)
  have hcurrent : BigEndian.read data 8 4 = currentVersion.toNat := by
    rw [← hversion]
    exact h.read_field (i := 1) rfl (by simp [fields]) (by decide) header.version.toNat_lt
  have hbits : BigEndian.read data 12 4 = header.flags.bits.toNat :=
    h.read_field (i := 2) rfl (by simp [fields]) (by decide) header.flags.bits.toNat_lt
  have hpageSize : BigEndian.read data 16 8 = header.layout.pageSize :=
    h.read_field (i := 3) rfl (by simp [fields]) (by decide) hpage
  have hattributes : data.extract 24 (24 + 26) = header.attributes.encode :=
    h.extract_field (i := 4) rfl (by simp [fields]) (by simp; rfl) (by decide)
  have hpointer : BigEndian.read data 104 8 = Size.pointer :=
    h.read_field (i := 12) rfl (by simp [fields, Attributes.encodedSize]) (by decide) (by decide)
  have hcount : BigEndian.read data 112 4 = header.layout.numLevels := by
    apply h.read_field (i := 13) rfl (by simp [fields, Attributes.encodedSize]) (by decide)
    simp only [Size.mostLevels] at hlevels
    omega
  have hflags : header.flags.bits.toNat.toUInt32 = header.flags.bits := by simp
  unfold decode
  rw [if_neg (not_lt.mpr hsize)]
  dsimp only
  rw [hmagic, if_neg (not_not.mpr rfl), h.checksum_stored, if_neg (not_not.mpr rfl), hcurrent,
    if_neg (not_not.mpr rfl), hbits, hflags, Flags.ofBits?_bits]
  dsimp only
  rw [hpageSize, hattributes, Attributes.decode_encode_of_fits hfits.attributes, hpointer, hcount,
    h.readGeometry_eq hfits]
  by_cases hbad : header.layout.pageSize < Size.header ∨ Size.mostPage < header.layout.pageSize
  · rw [if_pos hbad, if_pos hbad]
    rfl
  · rw [if_neg hbad, if_neg hbad, Outcome.mapError_ok, Outcome.ok_bind, if_neg (not_not.mpr rfl),
      if_neg (not_lt.mpr hlevels)]
    cases header with
    | mk version flags attributes layout =>
      dsimp only at hversion
      subst hversion
      rfl

end Stores

open Outcome

/-- Bytes that a header is read from: every field is what it has to be, and the geometry is the one
that is planned from the attributes and the page size. -/
structure Decodes (data : ByteArray) (header : Header) : Prop where
  size_le : Size.header ≤ data.size
  magic_eq : BigEndian.read data 0 8 = magic
  checksum_eq : (BigEndian.read data checksumPosition 4).toUInt32 =
    Crc32.checksum (data.extract 0 checksumPosition)
  stored_version : BigEndian.read data 8 4 = currentVersion.toNat
  version_eq : header.version = currentVersion
  flags_eq : Flags.ofBits? (BigEndian.read data 12 4).toUInt32 = some header.flags
  header_le : Size.header ≤ BigEndian.read data 16 8
  pageSize_le : BigEndian.read data 16 8 ≤ Size.mostPage
  attributes_eq : Attributes.decode (data.extract 24 50) = .ok header.attributes
  pointer_eq : BigEndian.read data 104 8 = Size.pointer
  levels_le : BigEndian.read data 112 4 ≤ Size.mostLevels
  plan_eq : Layout.plan header.attributes (BigEndian.read data 16 8) = .ok header.layout
  geometry_eq : readGeometry data (BigEndian.read data 112 4) = Geometry.ofLayout header.layout
  inlineBlock_eq : header.layout.inlineBlock = header.flags.inlineBlock

theorem decode_eq_ok_iff {data : ByteArray} {header : Header} :
    decode data = .ok header ↔ Decodes data header := by
  constructor
  · intro h
    unfold decode at h
    obtain ⟨hsize, h⟩ := guard_eq_ok.mp h
    obtain ⟨hmagic, h⟩ := guard_eq_ok.mp h
    obtain ⟨hchecksum, h⟩ := guard_eq_ok.mp h
    obtain ⟨hversion, h⟩ := guard_eq_ok.mp h
    dsimp only at h
    split at h
    · cases h
    · rename_i flags hflags
      obtain ⟨hpage, h⟩ := guard_eq_ok.mp h
      obtain ⟨attributes, hattributes, h⟩ := bind_eq_ok.mp h
      obtain ⟨hpointer, h⟩ := guard_eq_ok.mp h
      obtain ⟨hlevels, h⟩ := guard_eq_ok.mp h
      obtain ⟨layout, hplan, h⟩ := bind_eq_ok.mp h
      rw [mapError_eq_ok] at hattributes hplan
      split_ifs at h with hgeometry
      cases h
      have hcurrent := not_not.mp hversion
      refine ⟨not_lt.mp hsize, not_not.mp hmagic, not_not.mp hchecksum, hcurrent, ?_, hflags,
        not_lt.mp (not_or.mp hpage).1, not_lt.mp (not_or.mp hpage).2, hattributes,
        not_not.mp hpointer, not_lt.mp hlevels, hplan, hgeometry.1, hgeometry.2⟩
      dsimp only
      rw [hcurrent]
      rfl
  · intro h
    unfold decode
    refine guard_eq_ok.mpr ⟨not_lt.mpr h.size_le, guard_eq_ok.mpr ⟨not_not.mpr h.magic_eq,
      guard_eq_ok.mpr ⟨not_not.mpr h.checksum_eq,
        guard_eq_ok.mpr ⟨not_not.mpr h.stored_version, ?_⟩⟩⟩⟩
    dsimp only
    rw [h.flags_eq]
    refine guard_eq_ok.mpr ⟨not_or.mpr ⟨not_lt.mpr h.header_le, not_lt.mpr h.pageSize_le⟩,
      bind_eq_ok.mpr ⟨_, mapError_eq_ok.mpr h.attributes_eq,
        guard_eq_ok.mpr ⟨not_not.mpr h.pointer_eq, guard_eq_ok.mpr ⟨not_lt.mpr h.levels_le,
          bind_eq_ok.mpr ⟨_, mapError_eq_ok.mpr h.plan_eq, ?_⟩⟩⟩⟩⟩
    rw [if_pos ⟨h.geometry_eq, h.inlineBlock_eq⟩, h.stored_version]
    cases header with
    | mk version flags attributes layout =>
      have hversion : version = currentVersion := h.version_eq
      rw [hversion]
      rfl

/-- What a header that was read has passed. -/
theorem decode_eq_ok {data : ByteArray} {header : Header} (h : decode data = .ok header) :
    Size.header ≤ data.size ∧
      (BigEndian.read data checksumPosition 4).toUInt32 =
        Crc32.checksum (data.extract 0 checksumPosition) ∧
      Flags.ofBits? (BigEndian.read data 12 4).toUInt32 = some header.flags ∧
      Layout.plan header.attributes header.layout.pageSize = .ok header.layout := by
  have hdecodes := decode_eq_ok_iff.mp h
  have hplan := hdecodes.plan_eq
  rw [← (Layout.planned_of_plan hplan).1] at hplan
  exact ⟨hdecodes.size_le, hdecodes.checksum_eq, hdecodes.flags_eq, hplan⟩

theorem encodeBody_flags (header : Header) (flags : Flags) :
    { header with flags }.encodeBody = Bytes.join (header.fields.take 2) ++
      (BigEndian.encode 4 flags.bits.toNat ++ Bytes.join (header.fields.drop 3)) := by
  have hfields : { header with flags }.fields = header.fields.take 2 ++
      BigEndian.encode 4 flags.bits.toNat :: header.fields.drop 3 := rfl
  rw [encodeBody_eq_join, hfields, Bytes.join_append, Bytes.join_cons]

theorem byteAt_bits (flags : Flags) (provisional : Bool) {i : ℕ} (h : i ≠ 3) :
    Bytes.byteAt (BigEndian.encode 4 { flags with provisional }.bits.toNat) i =
      Bytes.byteAt (BigEndian.encode 4 flags.bits.toNat) i := by
  rcases flags with ⟨own, inlineBlock⟩
  rcases i with _ | _ | _ | _ | i
  · revert own inlineBlock provisional
    decide
  · revert own inlineBlock provisional
    decide
  · revert own inlineBlock provisional
    decide
  · exact absurd rfl h
  · rw [Bytes.byteAt_of_size_le (by simp), Bytes.byteAt_of_size_le (by simp)]

/-- Finishing changes one byte in front of the checksum. -/
theorem byteAt_encodeBody_finalize (header : Header) {i : ℕ} (h : i ≠ 15) :
    Bytes.byteAt header.finalize.encodeBody i = Bytes.byteAt header.encodeBody i := by
  have hfront : (Bytes.join (header.fields.take 2)).size = 12 := by simp [fields]
  have hown : header.encodeBody = _ := header.encodeBody_flags header.flags
  have hfinal : header.finalize.encodeBody = _ := header.encodeBody_flags header.finalize.flags
  rw [hown, hfinal]
  simp only [Bytes.byteAt_append, hfront, BigEndian.size_encode]
  split_ifs with hi
  · rfl
  · exact byteAt_bits header.flags false (by omega)
  · rfl

theorem byteAt_encodePage_finalize {header : Header}
    (h : header.layout.numLevels ≤ Size.mostLevels) {i : ℕ} (hi : i ≠ 15)
    (hchecksum : i < checksumPosition ∨ Size.header ≤ i) :
    Bytes.byteAt header.finalize.encodePage i = Bytes.byteAt header.encodePage i := by
  have hsize := size_encode h
  have hsize' : header.finalize.encode.size = Size.header := size_encode h
  unfold encodePage
  rw [Bytes.byteAt_resize, Bytes.byteAt_resize]
  refine if_congr Iff.rfl ?_ rfl
  rcases hchecksum with hlt | hge
  · have hbody := size_encodeBody h
    have hbody' : header.finalize.encodeBody.size = checksumPosition := size_encodeBody h
    rw [encode, encode, Bytes.byteAt_append, Bytes.byteAt_append, hbody, hbody', if_pos hlt,
      if_pos hlt]
    exact header.byteAt_encodeBody_finalize hi
  · rw [Bytes.byteAt_of_size_le (hsize.le.trans hge), Bytes.byteAt_of_size_le (hsize'.le.trans hge)]

end Header

end PackedIndex
