import PackedIndex.Proofs.Header
/-! # Headers and their bytes

The stored form of a header is decoded exactly when the geometry in it is the one that is planned
from its attributes and page size. In the other direction, bytes that are decoded are the stored
form of the header they give, but for the places at which no field is stored.
-/
namespace PackedIndex

namespace BigEndian

theorem encode_read {data : ByteArray} {offset width : ℕ} (h : offset + width ≤ data.size) :
    encode width (read data offset width) = data.extract offset (offset + width) := by
  have hsize : (data.extract offset (offset + width)).size = width := by
    rw [ByteArray.size_extract]
    omega
  have hspell := encode_decode (data.extract offset (offset + width))
  rwa [hsize] at hspell

theorem read_lt (data : ByteArray) (offset width : ℕ) : read data offset width < 256 ^ width := by
  have hlt := decode_lt (data.extract offset (offset + width))
  have hsize : (data.extract offset (offset + width)).size ≤ width := by
    rw [ByteArray.size_extract]
    omega
  exact hlt.trans_le (Nat.pow_le_pow_right (by decide) hsize)

theorem read_extract {data : ByteArray} {offset width size : ℕ} (h : offset + width ≤ size) :
    read (data.extract 0 size) offset width = read data offset width := by
  rw [read, read, ByteArray.extract_extract, Nat.zero_add, Nat.zero_add, Nat.min_eq_left h]

end BigEndian

namespace Bytes

theorem extract_append_of_le {data : ByteArray} {start middle stop : ℕ} (hstart : start ≤ middle)
    (hstop : middle ≤ stop) :
    data.extract start middle ++ data.extract middle stop = data.extract start stop := by
  rw [ByteArray.extract_append_extract, Nat.min_eq_left hstart, Nat.max_eq_right hstop]

theorem extract_eq_zeros {data : ByteArray} {start stop : ℕ} (hstop : stop ≤ data.size)
    (h : ∀ i, start ≤ i → i < stop → byteAt data i = 0) :
    data.extract start stop = zeros (stop - start) := by
  apply ext_byteAt
  · rw [ByteArray.size_extract, size_zeros, Nat.min_eq_left hstop]
  · intro i hi
    rw [ByteArray.size_extract] at hi
    rw [byteAt_extract, if_pos (by omega), byteAt_zeros, h _ (Nat.le_add_right _ _) (by omega)]

end Bytes

namespace Format

theorem toByte_of_ofByte? {byte : UInt8} {format : Format} (h : ofByte? byte = some format) :
    format.toByte = byte := by
  unfold ofByte? at h
  split_ifs at h with hatom hpair hblock hblob <;> cases h
  · exact hatom.symm
  · exact hpair.symm
  · exact hblock.symm
  · exact hblob.symm

end Format

namespace Flags

theorem toNat_lt_of_and_eq_zero {bits : UInt32} (h : bits &&& ~~~3 = 0) : bits.toNat < 4 := by
  have hmask : bits.toNat &&& (2 ^ 32 - 4) = 0 := by simpa using congrArg UInt32.toNat h
  have hlt := bits.toNat_lt
  by_contra hge
  obtain ⟨i, hi, hbit⟩ := Nat.exists_ge_and_testBit_of_ge_two_pow (show 2 ^ 2 ≤ bits.toNat by omega)
  have hwidth : i < 32 := by
    by_contra hbig
    have hpow : 2 ^ 32 ≤ 2 ^ i := Nat.pow_le_pow_right (by decide) (not_lt.mp hbig)
    rw [Nat.testBit_lt_two_pow (hlt.trans_le hpow)] at hbit
    cases hbit
  have hmasked := congrArg (Nat.testBit · i) hmask
  simp only [Nat.testBit_and, hbit, Bool.true_and, Nat.zero_testBit] at hmasked
  revert hmasked
  interval_cases i <;> decide

theorem bits_of_ofBits? {bits : UInt32} {flags : Flags} (h : ofBits? bits = some flags) :
    flags.bits = bits := by
  unfold ofBits? at h
  split_ifs at h with hmask
  cases h
  have hlt := toNat_lt_of_and_eq_zero hmask
  obtain ⟨n, hn, rfl⟩ : ∃ n < 4, bits = UInt32.ofNat n := ⟨bits.toNat, hlt, by simp⟩
  interval_cases n <;> decide

end Flags

namespace Attributes

/-- Attributes that are decoded are stored in the bytes they were decoded from. -/
theorem encode_of_decode {data : ByteArray} {attributes : Attributes}
    (h : decode data = .ok attributes) : attributes.encode = data.extract 0 encodedSize := by
  unfold decode at h
  split_ifs at h with hshort
  have hsize : 26 ≤ data.size := not_lt.mp hshort
  dsimp only at h
  split at h
  · cases h
  · rename_i format hformat
    split_ifs at h with hreserved
    cases h
    have hlast : [format.toByte, 0].toByteArray = data.extract 24 26 := by
      rw [Format.toByte_of_ofByte? hformat, ← not_not.mp hreserved]
      have hlength : [data[24], data[25]].toByteArray.size = 2 := by simp
      apply Bytes.ext_byteAt
      · rw [ByteArray.size_extract, hlength]
        omega
      · intro i hi
        rw [hlength] at hi
        rw [Bytes.byteAt_extract, if_pos (by omega), Bytes.byteAt_of_lt (by omega),
          Bytes.byteAt_of_lt (by omega)]
        interval_cases i <;> rfl
    unfold encode
    dsimp only
    rw [BigEndian.encode_read (by omega), BigEndian.encode_read (by omega),
      BigEndian.encode_read (by omega), hlast]
    simp (disch := decide) only [Nat.zero_add, Nat.reduceAdd, Bytes.extract_append_of_le,
      encodedSize]

end Attributes

namespace Header

/-! ## Decoding what was encoded -/

/-- A header whose stored form is decoded: the geometry in it is that of `layout`, which is planned
from its attributes and page size. -/
structure Replanned (header : Header) (layout : Layout) : Prop where
  version_eq : header.version = currentVersion
  header_le : Size.header ≤ header.layout.pageSize
  pageSize_le : header.layout.pageSize ≤ Size.mostPage
  plan_eq : Layout.plan header.attributes header.layout.pageSize = .ok layout
  leafRecordSize_eq : layout.leafRecordSize = header.layout.leafRecordSize
  recordsPerLeafPage_eq : layout.recordsPerLeafPage = header.layout.recordsPerLeafPage
  leafPages_eq : layout.leafPages = header.layout.leafPages
  leafOffset_eq : layout.leafOffset = header.layout.leafOffset
  valueOffset_eq : layout.valueOffset = header.layout.valueOffset
  branchingFactor_eq : layout.branchingFactor = header.layout.branchingFactor
  levels_eq : layout.levels = header.layout.levels
  inlineBlock_eq : layout.inlineBlock = header.flags.inlineBlock

theorem Geometry.ofLayout_eq_iff {layout other : Layout} :
    ofLayout layout = ofLayout other ↔
      layout.leafRecordSize = other.leafRecordSize ∧
      layout.recordsPerLeafPage = other.recordsPerLeafPage ∧
      layout.leafPages = other.leafPages ∧ layout.leafOffset = other.leafOffset ∧
      layout.valueOffset = other.valueOffset ∧ layout.branchingFactor = other.branchingFactor ∧
      layout.levels = other.levels := by
  simp [ofLayout]

namespace Stores

variable {data : ByteArray} {header : Header}

theorem decode_of_version_ne (h : Stores data header) (hversion : header.version ≠ currentVersion) :
    decode data = .error (.corruption
      (.unsupportedVersion header.version.toNat currentVersion.toNat)) := by
  have hmagic : BigEndian.read data 0 8 = magic :=
    h.read_field (i := 0) rfl rfl (by decide) (by decide)
  have hstored : BigEndian.read data 8 4 = header.version.toNat :=
    h.read_field (i := 1) rfl (by simp [fields]) (by decide) header.version.toNat_lt
  have hne : header.version.toNat ≠ currentVersion.toNat := fun heq =>
    hversion (UInt32.toNat_inj.mp heq)
  unfold decode
  rw [if_neg (not_lt.mpr h.size_le)]
  dsimp only
  rw [hmagic, if_neg (not_not.mpr rfl), h.checksum_stored, if_neg (not_not.mpr rfl), hstored,
    if_pos hne]
  rfl

/-- A stored header is decoded when its geometry is the one planned, and to that geometry. -/
theorem decode_eq_ok_iff_replanned (h : Stores data header) (hfits : header.Fits)
    {found : Header} :
    decode data = .ok found ↔
      ∃ layout, header.Replanned layout ∧ found = { header with layout } := by
  constructor
  · intro hdecode
    have hversion : header.version = currentVersion := by
      by_contra hne
      rw [h.decode_of_version_ne hne] at hdecode
      cases hdecode
    rw [h.decode_eq hfits hversion] at hdecode
    split_ifs at hdecode with hpage
    obtain ⟨hleast, hmost⟩ := not_or.mp hpage
    obtain ⟨layout, hplan, hdecode⟩ := Outcome.bind_eq_ok.mp hdecode
    rw [Outcome.mapError_eq_ok] at hplan
    split_ifs at hdecode with hgeometry
    cases hdecode
    obtain ⟨hleaf, hrecords, hpages, hoffset, hvalue, hbranching, hlevels⟩ :=
      Geometry.ofLayout_eq_iff.mp hgeometry.1.symm
    exact ⟨layout, ⟨hversion, not_lt.mp hleast, not_lt.mp hmost, hplan, hleaf, hrecords, hpages,
      hoffset, hvalue, hbranching, hlevels, hgeometry.2⟩, rfl⟩
  · rintro ⟨layout, hreplanned, rfl⟩
    have hpage : ¬(header.layout.pageSize < Size.header ∨
        Size.mostPage < header.layout.pageSize) :=
      not_or.mpr ⟨not_lt.mpr hreplanned.header_le, not_lt.mpr hreplanned.pageSize_le⟩
    have hgeometry : Geometry.ofLayout header.layout = Geometry.ofLayout layout :=
      (Geometry.ofLayout_eq_iff.mpr ⟨hreplanned.leafRecordSize_eq,
        hreplanned.recordsPerLeafPage_eq, hreplanned.leafPages_eq, hreplanned.leafOffset_eq,
        hreplanned.valueOffset_eq, hreplanned.branchingFactor_eq, hreplanned.levels_eq⟩).symm
    rw [h.decode_eq hfits hreplanned.version_eq, if_neg hpage, hreplanned.plan_eq,
      Outcome.mapError_ok, Outcome.ok_bind, if_pos ⟨hgeometry, hreplanned.inlineBlock_eq⟩]

theorem corruption_of_decode (h : Stores data header) (hfits : header.Fits) {error : Error}
    (hdecode : decode data = .error error) : ∃ damage, error = .corruption damage := by
  by_cases hversion : header.version = currentVersion
  · rw [h.decode_eq hfits hversion] at hdecode
    split_ifs at hdecode with hpage
    · cases hdecode
      exact ⟨_, rfl⟩
    · cases hplan : Layout.plan header.attributes header.layout.pageSize with
      | error reason =>
        rw [hplan] at hdecode
        cases hdecode
        exact ⟨_, rfl⟩
      | ok layout =>
        rw [hplan, Outcome.mapError_ok, Outcome.ok_bind] at hdecode
        split_ifs at hdecode
        cases hdecode
        exact ⟨_, rfl⟩
  · rw [h.decode_of_version_ne hversion] at hdecode
    cases hdecode
    exact ⟨_, rfl⟩

end Stores

/-- The stored form of a header has a fixed size. Whatever stands behind it, it is decoded exactly
when its geometry is the one that is planned, and then to the header itself, with the layout planned
anew; it is refused as damage otherwise. -/
theorem decode_encode_append {header : Header} (h : header.Fits) (behind : ByteArray) :
    header.encode.size = Size.header ∧
    (∀ found, decode (header.encode ++ behind) = .ok found ↔
      ∃ layout, header.Replanned layout ∧ found = { header with layout }) ∧
    (∀ pageSize, Layout.plan header.attributes pageSize = .ok header.layout →
      ∀ found, decode (header.encode ++ behind) = .ok found → found = header) ∧
    ∀ error, decode (header.encode ++ behind) = .error error →
      ∃ damage, error = .corruption damage := by
  have hstores := stores_encode h.numLevels_le behind
  refine ⟨size_encode h.numLevels_le, fun found => hstores.decode_eq_ok_iff_replanned h, ?_,
    fun error => hstores.corruption_of_decode h⟩
  intro pageSize hplan found hfound
  obtain ⟨layout, hreplanned, rfl⟩ := (hstores.decode_eq_ok_iff_replanned h).mp hfound
  have hagain := hreplanned.plan_eq
  rw [(Layout.planned_of_plan hplan).1, hplan] at hagain
  cases hagain
  rfl

namespace Sample

/-- One index page over three leaf pages. -/
def header : Header :=
  { version := currentVersion
    flags := ⟨false, false⟩
    attributes := .pair 300 3
    layout := {
      pageSize := 636
      keySize := 300
      recordCount := 3
      encoding := .pair
      leafRecordSize := 600
      recordsPerLeafPage := 1
      leafPages := 3
      leafOffset := 1272
      valueOffset := 0
      branchingFactor := 3
      levels := [⟨636, 1⟩] } }

/-- The same header with another number of root pages in its level table. -/
def tampered : Header :=
  { header with layout := { header.layout with levels := [⟨636, 2⟩] } }

theorem plan_eq : Layout.plan header.attributes 636 = .ok header.layout := by
  decide +kernel

theorem fits : header.Fits ∧ tampered.Fits := by
  constructor <;> constructor <;> first | decide | (constructor <;> decide)

end Sample

theorem decode_encode_append_sample :
    decode (Sample.header.encode ++ [7].toByteArray) = .ok Sample.header ∧
      ∃ damage, decode (Sample.tampered.encode ++ [7].toByteArray) =
        .error (.corruption damage) := by
  obtain ⟨-, hok, -, -⟩ := decode_encode_append Sample.fits.1 [7].toByteArray
  obtain ⟨-, hfound, -, herror⟩ := decode_encode_append Sample.fits.2 [7].toByteArray
  constructor
  · exact (hok _).mpr ⟨_, ⟨rfl, by decide, by decide, Sample.plan_eq, rfl, rfl, rfl, rfl, rfl, rfl,
      rfl, rfl⟩, rfl⟩
  · cases hdecode : decode (Sample.tampered.encode ++ [7].toByteArray) with
    | error error =>
      obtain ⟨damage, rfl⟩ := herror error hdecode
      exact ⟨damage, rfl⟩
    | ok found =>
      obtain ⟨layout, hreplanned, -⟩ := (hfound found).mp hdecode
      have hplan := hreplanned.plan_eq
      change Layout.plan Sample.header.attributes 636 = .ok layout at hplan
      rw [Sample.plan_eq] at hplan
      cases hplan
      exact absurd hreplanned.levels_eq (by decide)

/-! ## Encoding what was decoded -/

/-- The places in front of the checksum at which no field is stored. -/
def Reserved (header : Header) (i : ℕ) : Prop :=
  50 ≤ i ∧ i < 56 ∨ 116 ≤ i ∧ i < 120 ∨
    levelsPosition + 16 * header.layout.numLevels ≤ i ∧ i < checksumPosition

/-- The fields in front of the checksum, with the bytes between them. -/
def bodyWith (header : Header) (first second third : ByteArray) : ByteArray :=
  Bytes.join (header.fields.take 5) ++ (first ++ (Bytes.join ((header.fields.drop 6).take 8) ++
    (second ++ (Bytes.join (header.layout.levels.map encodeRegion) ++ third))))

theorem encodeBody_eq_bodyWith (header : Header) :
    header.encodeBody = header.bodyWith (Bytes.zeros 6) (Bytes.zeros 4)
      (Bytes.zeros ((Size.mostLevels - header.layout.numLevels) * 16)) := by
  have hfields : header.fields = header.fields.take 5 ++ Bytes.zeros 6 ::
      ((header.fields.drop 6).take 8 ++ [Bytes.zeros 4,
        Bytes.join (header.layout.levels.map encodeRegion),
        Bytes.zeros ((Size.mostLevels - header.layout.numLevels) * 16)]) := rfl
  rw [encodeBody_eq_join, hfields, Bytes.join_append, Bytes.join_cons, Bytes.join_append,
    Bytes.join_cons, Bytes.join_cons, Bytes.join_cons, Bytes.join_nil, ByteArray.append_empty]
  rfl

/-- Between the fields the bytes do not matter to those of the fields. -/
theorem byteAt_bodyWith (header : Header) {first second third first' second' third' : ByteArray}
    (hfirst : first.size = 6) (hfirst' : first'.size = 6) (hsecond : second.size = 4)
    (hsecond' : second'.size = 4) {i : ℕ} (hi : i < checksumPosition)
    (hreserved : ¬header.Reserved i) :
    Bytes.byteAt (header.bodyWith first second third) i =
      Bytes.byteAt (header.bodyWith first' second' third') i := by
  have hfront : (Bytes.join (header.fields.take 5)).size = 50 := by
    simp [fields, Attributes.encodedSize]
  have hmiddle : (Bytes.join ((header.fields.drop 6).take 8)).size = 60 := by simp [fields]
  have hlevels := size_encodeRegions header.layout.levels
  unfold Reserved Layout.numLevels levelsPosition at hreserved
  unfold bodyWith
  simp only [Bytes.byteAt_append, hfront, hmiddle, hfirst, hfirst', hsecond, hsecond', hlevels]
  split_ifs <;> first | rfl | omega

theorem join_readLevels {data : ByteArray} {count : ℕ}
    (h : levelsPosition + 16 * count ≤ data.size) :
    Bytes.join ((readLevels data count).map encodeRegion) =
      data.extract levelsPosition (levelsPosition + 16 * count) := by
  induction count with
  | zero =>
    refine Eq.symm (ByteArray.extract_eq_empty_iff.mpr ?_)
    omega
  | succ count ih =>
    have hregion : encodeRegion ⟨BigEndian.read data (levelsPosition + 16 * count) 8,
        BigEndian.read data (levelsPosition + 16 * count + 8) 8⟩ =
        data.extract (levelsPosition + 16 * count) (levelsPosition + 16 * (count + 1)) := by
      rw [encodeRegion, BigEndian.encode_read (by omega), BigEndian.encode_read (by omega),
        Bytes.extract_append_of_le (by omega) (by omega)]
      rfl
    have hfront := ih (by omega)
    unfold readLevels at hfront ⊢
    rw [List.range_succ, List.map_append, List.map_append, Bytes.join_append, hfront,
      List.map_singleton, List.map_singleton, hregion, Bytes.join_cons, Bytes.join_nil,
      ByteArray.append_empty, Bytes.extract_append_of_le (by omega) (by omega)]

namespace Decodes

variable {data : ByteArray} {header : Header} (h : Decodes data header)
include h

theorem pageSize_eq : header.layout.pageSize = BigEndian.read data 16 8 :=
  (Layout.planned_of_plan h.plan_eq).1

theorem geometry_fields :
    BigEndian.read data 56 8 = header.layout.leafRecordSize ∧
      BigEndian.read data 64 8 = header.layout.recordsPerLeafPage ∧
      BigEndian.read data 72 8 = header.layout.leafPages ∧
      BigEndian.read data 80 8 = header.layout.leafOffset ∧
      BigEndian.read data 88 8 = header.layout.valueOffset ∧
      BigEndian.read data 96 8 = header.layout.branchingFactor ∧
      readLevels data (BigEndian.read data 112 4) = header.layout.levels := by
  have hgeometry := h.geometry_eq
  unfold readGeometry Geometry.ofLayout at hgeometry
  rwa [Geometry.mk.injEq] at hgeometry

theorem numLevels_eq : header.layout.numLevels = BigEndian.read data 112 4 := by
  obtain ⟨-, -, -, -, -, -, hlevels⟩ := h.geometry_fields
  rw [Layout.numLevels, ← hlevels, readLevels, List.length_map, List.length_range]

theorem numLevels_le : header.layout.numLevels ≤ Size.mostLevels :=
  h.numLevels_eq ▸ h.levels_le

theorem join_front : Bytes.join (header.fields.take 5) = data.extract 0 50 := by
  have hsize := h.size_le
  have hwidth : Size.header = 636 := rfl
  have hversion : header.version.toNat = BigEndian.read data 8 4 := by
    rw [h.version_eq, h.stored_version]
  have hflags : header.flags.bits.toNat = BigEndian.read data 12 4 := by
    rw [Flags.bits_of_ofBits? h.flags_eq, Nat.toUInt32_eq, UInt32.toNat_ofNat']
    exact Nat.mod_eq_of_lt (BigEndian.read_lt data 12 4)
  have hattributes : header.attributes.encode = data.extract 24 50 := by
    rw [Attributes.encode_of_decode h.attributes_eq, ByteArray.extract_extract]
    rfl
  calc Bytes.join (header.fields.take 5)
    _ = BigEndian.encode 8 magic ++ (BigEndian.encode 4 header.version.toNat ++
          (BigEndian.encode 4 header.flags.bits.toNat ++
            (BigEndian.encode 8 header.layout.pageSize ++ header.attributes.encode))) := by
      simp [fields]
    _ = data.extract 0 8 ++ (data.extract 8 12 ++ (data.extract 12 16 ++
          (data.extract 16 24 ++ data.extract 24 50))) := by
      rw [← h.magic_eq, hversion, hflags, h.pageSize_eq, hattributes,
        BigEndian.encode_read (by omega), BigEndian.encode_read (by omega),
        BigEndian.encode_read (by omega), BigEndian.encode_read (by omega)]
    _ = data.extract 0 50 := by
      simp (disch := decide) only [Bytes.extract_append_of_le]

theorem join_middle : Bytes.join ((header.fields.drop 6).take 8) = data.extract 56 116 := by
  have hsize := h.size_le
  have hwidth : Size.header = 636 := rfl
  obtain ⟨hleaf, hrecords, hpages, hoffset, hvalue, hbranching, -⟩ := h.geometry_fields
  calc Bytes.join ((header.fields.drop 6).take 8)
    _ = BigEndian.encode 8 header.layout.leafRecordSize ++
          (BigEndian.encode 8 header.layout.recordsPerLeafPage ++
            (BigEndian.encode 8 header.layout.leafPages ++
              (BigEndian.encode 8 header.layout.leafOffset ++
                (BigEndian.encode 8 header.layout.valueOffset ++
                  (BigEndian.encode 8 header.layout.branchingFactor ++
                    (BigEndian.encode 8 Size.pointer ++
                      BigEndian.encode 4 header.layout.numLevels)))))) := by
      simp [fields]
    _ = data.extract 56 64 ++ (data.extract 64 72 ++ (data.extract 72 80 ++
          (data.extract 80 88 ++ (data.extract 88 96 ++ (data.extract 96 104 ++
            (data.extract 104 112 ++ data.extract 112 116)))))) := by
      rw [← hleaf, ← hrecords, ← hpages, ← hoffset, ← hvalue, ← hbranching, ← h.pointer_eq,
        h.numLevels_eq]
      repeat rw [BigEndian.encode_read (by omega)]
    _ = data.extract 56 116 := by
      simp (disch := decide) only [Bytes.extract_append_of_le]

/-- The bytes in front of the checksum are the fields of the header and what is between them. -/
theorem extract_eq_bodyWith :
    data.extract 0 checksumPosition =
      header.bodyWith (data.extract 50 56) (data.extract 116 120)
        (data.extract (levelsPosition + 16 * header.layout.numLevels) checksumPosition) := by
  have hsize := h.size_le
  have hlevels := h.levels_le
  have hcount := h.numLevels_eq
  have hwidth : Size.header = checksumPosition + 4 := rfl
  have hposition : checksumPosition = levelsPosition + 16 * Size.mostLevels := rfl
  have htable : Bytes.join (header.layout.levels.map encodeRegion) =
      data.extract 120 (levelsPosition + 16 * header.layout.numLevels) := by
    obtain ⟨-, -, -, -, -, -, hregions⟩ := h.geometry_fields
    rw [← hregions, join_readLevels (by omega), hcount]
    rfl
  have hmost : levelsPosition + 16 * header.layout.numLevels ≤ checksumPosition := by omega
  have hleast : 120 ≤ levelsPosition + 16 * header.layout.numLevels := Nat.le_add_right _ _
  rw [bodyWith, h.join_front, h.join_middle, htable, Bytes.extract_append_of_le hleast hmost,
    Bytes.extract_append_of_le (by decide) (hleast.trans hmost),
    Bytes.extract_append_of_le (by decide) (by decide),
    Bytes.extract_append_of_le (by decide) (by decide),
    Bytes.extract_append_of_le (by decide) (by decide)]

theorem extract_checksum :
    data.extract checksumPosition Size.header =
      BigEndian.encode 4 (Crc32.checksum (data.extract 0 checksumPosition)).toNat := by
  have hsize : checksumPosition + 4 ≤ data.size := h.size_le
  rw [← h.checksum_eq]
  exact BigEndian.extract_eq_encode hsize

/-- Bytes that are decoded agree with the header's own wherever a field is stored. -/
theorem byteAt_encode {i : ℕ} (hi : i < checksumPosition) (hreserved : ¬header.Reserved i) :
    Bytes.byteAt header.encode i = Bytes.byteAt data i := by
  have hsize := h.size_le
  have hwidth : Size.header = 636 := rfl
  have hfirst : (data.extract 50 56).size = 6 := by
    rw [ByteArray.size_extract]
    omega
  have hsecond : (data.extract 116 120).size = 4 := by
    rw [ByteArray.size_extract]
    omega
  have hdata : Bytes.byteAt (data.extract 0 checksumPosition) i = Bytes.byteAt data i := by
    rw [Bytes.byteAt_extract, Nat.zero_add, if_pos hi]
  rw [encode, Bytes.byteAt_append, size_encodeBody h.numLevels_le, if_pos hi,
    encodeBody_eq_bodyWith, ← hdata, h.extract_eq_bodyWith]
  exact header.byteAt_bodyWith (Bytes.size_zeros 6) hfirst (Bytes.size_zeros 4) hsecond hi
    hreserved

theorem encode_eq (hzero : ∀ i, header.Reserved i → Bytes.byteAt data i = 0) :
    header.encode = data.extract 0 Size.header := by
  have hsize := h.size_le
  have hwidth : Size.header = checksumPosition + 4 := rfl
  have hlevels := h.numLevels_le
  have hposition : checksumPosition = levelsPosition + 16 * Size.mostLevels := rfl
  have hleast : 120 ≤ levelsPosition := le_rfl
  have hfirst : data.extract 50 56 = Bytes.zeros 6 :=
    Bytes.extract_eq_zeros (by omega) fun i hi hi' => hzero i (Or.inl ⟨hi, hi'⟩)
  have hsecond : data.extract 116 120 = Bytes.zeros 4 :=
    Bytes.extract_eq_zeros (by omega) fun i hi hi' => hzero i (Or.inr (Or.inl ⟨hi, hi'⟩))
  have hthird : data.extract (levelsPosition + 16 * header.layout.numLevels) checksumPosition =
      Bytes.zeros (checksumPosition - (levelsPosition + 16 * header.layout.numLevels)) :=
    Bytes.extract_eq_zeros (by omega) fun i hi hi' => hzero i (Or.inr (Or.inr ⟨hi, hi'⟩))
  have hrest : checksumPosition - (levelsPosition + 16 * header.layout.numLevels) =
      (Size.mostLevels - header.layout.numLevels) * 16 := by omega
  have hbody : header.encodeBody = data.extract 0 checksumPosition := by
    rw [h.extract_eq_bodyWith, hfirst, hsecond, hthird, hrest, encodeBody_eq_bodyWith]
  rw [encode, hbody, ← h.extract_checksum, Bytes.extract_append_of_le (Nat.zero_le _) (by omega)]

end Decodes

theorem readGeometry_extract (data : ByteArray) {levels : ℕ} (h : levels ≤ Size.mostLevels) :
    readGeometry (data.extract 0 Size.header) levels = readGeometry data levels := by
  have hread : ∀ {offset : ℕ}, offset + 8 ≤ Size.header →
      BigEndian.read (data.extract 0 Size.header) offset 8 = BigEndian.read data offset 8 :=
    fun hend => BigEndian.read_extract hend
  have hlevels : readLevels (data.extract 0 Size.header) levels = readLevels data levels := by
    refine List.map_congr_left fun level hlevel => ?_
    have hlt := List.mem_range.mp hlevel
    have hend : levelsPosition + 16 * level + 8 + 8 ≤ Size.header := by
      simp only [levelsPosition, Size.header, Size.mostLevels] at h ⊢
      omega
    dsimp only
    rw [hread hend, hread (by omega)]
  unfold readGeometry
  rw [hlevels]
  simp (disch := decide) only [hread]

theorem decode_extract {data : ByteArray} (h : Size.header ≤ data.size) :
    decode (data.extract 0 Size.header) = decode data := by
  have hsize : (data.extract 0 Size.header).size = Size.header := by
    rw [ByteArray.size_extract]
    omega
  have hpart : ∀ {start stop : ℕ}, stop ≤ Size.header →
      (data.extract 0 Size.header).extract start stop = data.extract start stop := by
    intro start stop hstop
    rw [ByteArray.extract_extract, Nat.zero_add, Nat.zero_add, Nat.min_eq_left hstop]
  have hread : ∀ {offset width : ℕ}, offset + width ≤ Size.header →
      BigEndian.read (data.extract 0 Size.header) offset width =
        BigEndian.read data offset width := fun hend => BigEndian.read_extract hend
  unfold decode
  rw [hsize, if_neg (lt_irrefl _), if_neg (not_lt.mpr h)]
  rw [hread (show 0 + 8 ≤ Size.header by decide),
    hread (show checksumPosition + 4 ≤ Size.header by decide),
    hread (show 8 + 4 ≤ Size.header by decide), hread (show 12 + 4 ≤ Size.header by decide),
    hread (show 16 + 8 ≤ Size.header by decide), hread (show 104 + 8 ≤ Size.header by decide),
    hread (show 112 + 4 ≤ Size.header by decide),
    hpart (show checksumPosition ≤ Size.header by decide),
    hpart (show 50 ≤ Size.header by decide)]
  -- the level table is only looked at once the number of levels is known to have room
  by_cases hlevels : Size.mostLevels < BigEndian.read data 112 4
  · simp only [if_pos hlevels, Outcome.throw_bind]
  · simp only [readGeometry_extract data (not_lt.mp hlevels)]

/-- The result of decoding is made of the bytes of the header, and what it says of them is this:
where a field is stored they are those of the decoded header, and all of them are when there are
only zeros between the fields. The geometry is planned, and the checksum is that of the bytes in
front of it. -/
theorem encode_of_decode_eq_ok (data : ByteArray) :
    (∀ other : ByteArray, Size.header ≤ data.size →
      other.extract 0 Size.header = data.extract 0 Size.header → decode other = decode data) ∧
    ∀ header, decode data = .ok header →
      Size.header ≤ data.size ∧ header.encode.size = Size.header ∧
      header.version = currentVersion ∧
      Layout.plan header.attributes (BigEndian.read data 16 8) = .ok header.layout ∧
      header.flags.inlineBlock = header.layout.inlineBlock ∧
      data.extract checksumPosition Size.header =
        BigEndian.encode 4 (Crc32.checksum (data.extract 0 checksumPosition)).toNat ∧
      (∀ i < checksumPosition, ¬header.Reserved i →
        Bytes.byteAt header.encode i = Bytes.byteAt data i) ∧
      ((∀ i, header.Reserved i → Bytes.byteAt data i = 0) →
        header.encode = data.extract 0 Size.header) := by
  constructor
  · intro other hsize hfront
    have hother : Size.header ≤ other.size := by
      have hlength := congrArg ByteArray.size hfront
      simp only [ByteArray.size_extract] at hlength
      omega
    rw [← decode_extract hother, hfront, decode_extract hsize]
  · intro header hdecode
    have h := decode_eq_ok_iff.mp hdecode
    exact ⟨h.size_le, size_encode h.numLevels_le, h.version_eq, h.plan_eq, h.inlineBlock_eq.symm,
      h.extract_checksum, fun i hi hreserved => h.byteAt_encode hi hreserved, h.encode_eq⟩

theorem encode_of_decode_eq_ok_sample :
    decode (Sample.header.encode ++ [7].toByteArray) = .ok Sample.header ∧
      Layout.plan Sample.header.attributes
          (BigEndian.read (Sample.header.encode ++ [7].toByteArray) 16 8) =
        .ok Sample.header.layout ∧
      decode Sample.header.encode = decode (Sample.header.encode ++ [7].toByteArray) := by
  have hstores := stores_encode Sample.fits.1.numLevels_le [7].toByteArray
  have hdecode : decode (Sample.header.encode ++ [7].toByteArray) = .ok Sample.header :=
    (hstores.decode_eq_ok_iff_replanned Sample.fits.1).mpr ⟨_, ⟨rfl, by decide, by decide,
      Sample.plan_eq, rfl, rfl, rfl, rfl, rfl, rfl, rfl, rfl⟩, rfl⟩
  obtain ⟨hcongr, hok⟩ := encode_of_decode_eq_ok (Sample.header.encode ++ [7].toByteArray)
  obtain ⟨hsize, hencode, -, hplan, -⟩ := hok _ hdecode
  refine ⟨hdecode, hplan, hcongr _ hsize ?_⟩
  rw [Bytes.extract_append_left hencode.ge]

end Header

end PackedIndex
