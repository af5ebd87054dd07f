import PackedIndex.Proofs.Checksum
import PackedIndex.Proofs.HeaderBytes
import PackedIndex.Proofs.Kept
import PackedIndex.Proofs.RoundTrip
/-! # Headers that were altered

A header is believed on its magic number and its checksum, which are looked at before any field.
Both tell the bytes apart that were sealed from those in which a few consecutive ones were
replaced.
-/
namespace PackedIndex

theorem Bytes.exists_byteAt_ne {data other : ByteArray} (hsize : other.size = data.size)
    (hne : other ≠ data) : ∃ i < data.size, byteAt other i ≠ byteAt data i := by
  by_contra! h
  exact hne (ext_byteAt hsize fun i hi => h i (hsize ▸ hi))

theorem BigEndian.byteAt_of_read_eq {data other : ByteArray} {offset width i : ℕ}
    (hsize : other.size = data.size) (hend : offset + width ≤ data.size)
    (h : read other offset width = read data offset width) (hi : i < width) :
    Bytes.byteAt other (offset + i) = Bytes.byteAt data (offset + i) := by
  have hother : offset + width ≤ other.size := hsize ▸ hend
  have hspell := encode_read hother
  rw [h, encode_read hend] at hspell
  have hbyte := congrArg (Bytes.byteAt · i) hspell
  simp only [Bytes.byteAt_extract] at hbyte
  rw [if_pos (by omega), if_pos (by omega)] at hbyte
  exact hbyte.symm

namespace Header

/-- Bytes that start with a header under its checksum. -/
structure Sealed (data : ByteArray) : Prop where
  size_le : Size.header ≤ data.size
  magic_eq : BigEndian.read data 0 8 = magic
  checksum_eq : (BigEndian.read data checksumPosition 4).toUInt32 =
    Crc32.checksum (data.extract 0 checksumPosition)

/-- Other bytes of the same length: all that differ are within four consecutive places in front of
the checksum, or all are in the checksum. -/
structure Altered (data other : ByteArray) : Prop where
  size_eq : other.size = data.size
  ne : other ≠ data
  near : (∃ start, start + 4 ≤ checksumPosition ∧
      ∀ i, Bytes.byteAt other i ≠ Bytes.byteAt data i → start ≤ i ∧ i < start + 4) ∨
    ∀ i, Bytes.byteAt other i ≠ Bytes.byteAt data i → checksumPosition ≤ i ∧ i < Size.header

/-- A result that gives an alteration away: a changed magic number is reported as such, any other
change as a checksum that does not agree. -/
structure Exposes {α : Type} (data other : ByteArray) (result : Except Error α) : Prop where
  of_magic : (∃ i < 8, Bytes.byteAt other i ≠ Bytes.byteAt data i) →
    result = .error (.corruption (.wrongMagic magic (BigEndian.read other 0 8)))
  of_fields : (∀ i < 8, Bytes.byteAt other i = Bytes.byteAt data i) →
    result = .error (.checksumMismatch (BigEndian.read other checksumPosition 4).toUInt32
      (Crc32.checksum (other.extract 0 checksumPosition)))

theorem Decodes.isSealed {data : ByteArray} {header : Header} (h : Decodes data header) :
    Sealed data :=
  ⟨h.size_le, h.magic_eq, h.checksum_eq⟩

theorem Stores.isSealed {data : ByteArray} {header : Header} (h : Stores data header) :
    Sealed data :=
  ⟨h.size_le, h.read_field (i := 0) rfl rfl (by decide) (by decide), h.checksum_stored⟩

theorem Sealed.of_extract {data : ByteArray} (h : Sealed (data.extract 0 Size.header)) :
    Sealed data := by
  obtain ⟨hsize, hmagic, hchecksum⟩ := h
  rw [ByteArray.size_extract] at hsize
  rw [BigEndian.read_extract (by decide)] at hmagic hchecksum
  rw [ByteArray.extract_extract, Nat.zero_add, Nat.zero_add, Nat.min_eq_left (by decide)]
    at hchecksum
  exact ⟨by omega, hmagic, hchecksum⟩

theorem altered_overlay {data : ByteArray} {i : ℕ} {byte : UInt8} (hwide : Size.header ≤ data.size)
    (hi : i < Size.header) (hbyte : byte ≠ Bytes.byteAt data i) :
    Altered data (Bytes.overlay data i [byte].toByteArray) := by
  have hone : [byte].toByteArray.size = 1 := rfl
  have hplace : ∀ j, Bytes.byteAt (Bytes.overlay data i [byte].toByteArray) j ≠
      Bytes.byteAt data j → j = i := by
    intro j hj
    rw [Bytes.byteAt_overlay, hone] at hj
    split_ifs at hj with hin
    · omega
    · exact absurd rfl hj
  refine ⟨?_, ?_, ?_⟩
  · rw [Bytes.size_overlay, hone]
    omega
  · intro hsame
    have hstored := Bytes.byteAt_overlay data i [byte].toByteArray i
    rw [hsame, hone, if_pos (by omega), Nat.sub_self] at hstored
    exact hbyte hstored.symm
  · by_cases hfield : i < checksumPosition
    · refine Or.inl ⟨min i (checksumPosition - 4), ?_, ?_⟩
      · have hroom : 4 ≤ checksumPosition := by decide
        omega
      · intro j hj
        rw [hplace j hj]
        omega
    · refine Or.inr fun j hj => ?_
      rw [hplace j hj]
      omega

namespace Sealed

variable {data other : ByteArray} (h : Sealed data) (haltered : Altered data other)
include h haltered

theorem read_magic_ne {i : ℕ} (hi : i < 8) (hne : Bytes.byteAt other i ≠ Bytes.byteAt data i) :
    BigEndian.read other 0 8 ≠ magic := by
  intro hmagic
  have hwide : 0 + 8 ≤ data.size := le_trans (by decide) h.size_le
  have hsame := BigEndian.byteAt_of_read_eq haltered.size_eq hwide (hmagic.trans h.magic_eq.symm) hi
  rw [Nat.zero_add] at hsame
  exact hne hsame

/-- The checksum that is stored and the one that is computed do not both change to the same. -/
theorem checksum_ne :
    (BigEndian.read other checksumPosition 4).toUInt32 ≠
      Crc32.checksum (other.extract 0 checksumPosition) := by
  have hsize := haltered.size_eq
  have hwide : checksumPosition + 4 ≤ data.size := h.size_le
  obtain ⟨place, -, hplace⟩ := Bytes.exists_byteAt_ne hsize haltered.ne
  rcases haltered.near with ⟨start, hstart, hnear⟩ | hnear
  · -- the stored checksum stays, and the bytes under it differ too close together to share it
    have hstored : BigEndian.read other checksumPosition 4 =
        BigEndian.read data checksumPosition 4 := by
      refine congrArg BigEndian.decode (Bytes.extract_congr hsize fun i hi _ => ?_)
      by_contra hne
      have hin := hnear i hne
      omega
    rw [hstored, h.checksum_eq]
    have hbody : (other.extract 0 checksumPosition).size =
        (data.extract 0 checksumPosition).size := by
      rw [ByteArray.size_extract, ByteArray.size_extract, hsize]
    have hnear' : ∀ i, Bytes.byteAt (other.extract 0 checksumPosition) i ≠
        Bytes.byteAt (data.extract 0 checksumPosition) i → start ≤ i ∧ i < start + 4 := by
      intro i hi
      rw [Bytes.byteAt_extract, Bytes.byteAt_extract, Nat.zero_add] at hi
      split_ifs at hi
      · exact hnear i hi
      · exact absurd rfl hi
    refine Ne.symm (Crc32.checksum_ne hbody (fun hsame => ?_) hnear')
    have hbyte := congrArg (Bytes.byteAt · place) hsame
    have hin := hnear place hplace
    simp only [Bytes.byteAt_extract] at hbyte
    rw [if_pos (by omega), if_pos (by omega), Nat.zero_add] at hbyte
    exact hplace hbyte
  · -- the bytes under the checksum stay, and the stored one differs
    have hbody : other.extract 0 checksumPosition = data.extract 0 checksumPosition := by
      refine Bytes.extract_congr hsize fun i _ hi => ?_
      by_contra hne
      exact absurd (hnear i hne).1 (not_le.mpr hi)
    rw [hbody, ← h.checksum_eq]
    intro hsame
    have hfield : other.extract checksumPosition (checksumPosition + 4) =
        data.extract checksumPosition (checksumPosition + 4) := by
      rw [BigEndian.extract_eq_encode (hsize ▸ hwide), hsame, ← BigEndian.extract_eq_encode hwide]
    have hbyte := congrArg (Bytes.byteAt · (place - checksumPosition)) hfield
    obtain ⟨hleast, hmost⟩ := hnear place hplace
    have hheader : Size.header = checksumPosition + 4 := rfl
    simp only [Bytes.byteAt_extract, Nat.add_sub_cancel' hleast] at hbyte
    rw [if_pos (by omega), if_pos (by omega)] at hbyte
    exact hplace hbyte

theorem decode_exposes : Exposes data other (decode other) := by
  have hwide : ¬other.size < Size.header := by
    rw [haltered.size_eq]
    exact not_lt.mpr h.size_le
  constructor
  · rintro ⟨i, hi, hne⟩
    unfold decode
    rw [if_neg hwide]
    exact if_pos (h.read_magic_ne haltered hi hne)
  · intro hfront
    have hmagic : BigEndian.read other 0 8 = magic := by
      rw [← h.magic_eq]
      exact congrArg BigEndian.decode
        (Bytes.extract_congr haltered.size_eq fun i _ hi => hfront i (by omega))
    unfold decode
    rw [if_neg hwide]
    dsimp only
    rw [hmagic, if_neg (not_not.mpr rfl)]
    exact if_pos (h.checksum_ne haltered)

theorem openPath_exposes {volume : Volume} {path : String} (hread : volume.read path = .ok other)
    (order : KeyOrder) : Exposes data other (Reader.openPath volume path order) := by
  obtain ⟨file, rfl, hopen⟩ := Volume.openPath_of_read hread
  have hdecode := h.decode_exposes haltered
  have hwide : Size.header ≤ file.size := by
    rw [← Content.size_toBytes, haltered.size_eq]
    exact h.size_le
  have hbytes : Size.header ≤ file.toBytes.size := by rwa [Content.size_toBytes]
  have hfront : file.read 0 Size.header = file.toBytes.extract 0 Size.header := by
    rw [Content.extract_toBytes hwide]
    rfl
  have hfail : ∀ error, decode file.toBytes = .error error →
      Reader.openPath volume path order = .error error := by
    intro error herror
    rw [hopen, Reader.ofContent, if_neg (not_lt.mpr hwide), hfront, decode_extract hbytes, herror]
    rfl
  exact ⟨fun hmagic => hfail _ (hdecode.of_magic hmagic),
    fun hfields => hfail _ (hdecode.of_fields hfields)⟩

end Sealed

end Header

theorem Reader.isSealed_of_openPath {volume : Volume} {path : String} {order : KeyOrder}
    {reader : Reader} (h : openPath volume path order = .ok reader) :
    ∃ bytes, volume.read path = .ok bytes ∧ Header.Sealed bytes := by
  unfold openPath at h
  unfold Volume.read
  cases hentry : volume.existing path with
  | error =>
    rw [hentry] at h
    cases h
  | ok entry =>
    rw [hentry] at h
    cases entry with
    | directory => cases h
    | file file =>
      refine ⟨(volume.content file).toBytes, rfl, ?_⟩
      unfold ofContent at h
      obtain ⟨hsize, h⟩ := Outcome.guard_eq_ok.mp h
      obtain ⟨header, hdecode, -⟩ := Outcome.bind_eq_ok.mp h
      have hsealed := (Header.decode_eq_ok_iff.mp hdecode).isSealed
      rw [← Nat.sub_zero Size.header, ← Content.extract_toBytes (not_lt.mp hsize)] at hsealed
      exact hsealed.of_extract

theorem Finished.isSealed {attributes : Attributes} {layout : Layout} {records : List Record}
    {file : Content} (h : Finished attributes layout records file) :
    Header.Sealed file.toBytes := by
  have hlevels : (header attributes layout).layout.numLevels ≤ Size.mostLevels :=
    h.planned.numLevels_le
  have hstores := Header.stores_encode hlevels ByteArray.empty
  have hfront := h.has_header.read_eq
  have hwide := h.has_header.size_le
  rw [Header.size_encode hlevels] at hfront hwide
  rw [Nat.zero_add] at hwide
  rw [ByteArray.append_empty, ← hfront, ← Nat.sub_zero Size.header,
    ← Content.extract_toBytes hwide] at hstores
  exact hstores.isSealed.of_extract

namespace Header

/-- Bytes of which none in the header can be replaced by another without that every reader refuses
them. -/
structure Watched (bytes : ByteArray) : Prop where
  size_le : Size.header ≤ bytes.size
  exposes : ∀ i < Size.header, ∀ byte, byte ≠ Bytes.byteAt bytes i → ∀ disk name,
    Volume.read disk name = .ok (Bytes.overlay bytes i [byte].toByteArray) → ∀ order,
      Exposes bytes (Bytes.overlay bytes i [byte].toByteArray) (Reader.openPath disk name order)

theorem Sealed.watched {bytes : ByteArray} (h : Sealed bytes) : Watched bytes :=
  ⟨h.size_le, fun _ hi _ hbyte _ _ hread order =>
    h.openPath_exposes (altered_overlay h.size_le hi hbyte) hread order⟩

/-- Bytes that are decoded are not decoded any more when a few of the header's bytes that stand
together are altered. So a file that is opened, and one that a run has finished, is not opened with
another byte in its header. -/
theorem altered_exposed :
    (∀ data other header, decode data = .ok header → Altered data other →
      Exposes data other (decode other)) ∧
    (∀ volume path order reader, Reader.openPath volume path order = .ok reader →
      ∃ bytes, volume.read path = .ok bytes ∧ Watched bytes) ∧
    ∀ volume path attributes options calls built after,
      Writer.build volume path attributes options calls = (.ok built, after) →
      ∃ bytes, after.read path = .ok bytes ∧ Watched bytes := by
  refine ⟨fun data other header hdecode haltered => ?_, fun volume path order reader hopen => ?_,
    fun volume path attributes options calls built after hbuild => ?_⟩
  · exact (decode_eq_ok_iff.mp hdecode).isSealed.decode_exposes haltered
  · obtain ⟨bytes, hread, hsealed⟩ := Reader.isSealed_of_openPath hopen
    exact ⟨bytes, hread, hsealed.watched⟩
  · obtain ⟨file, hleaves⟩ := Writer.build_spec hbuild
    refine ⟨_, hleaves.read_eq, ?_⟩
    rw [← hleaves.finished.toBytes_eq]
    exact hleaves.finished.isSealed.watched

theorem altered_exposed_sample :
    decode Sample.header.encode = .ok Sample.header ∧
      (∃ found, decode (Bytes.overlay Sample.header.encode 0 [7].toByteArray) =
        .error (.corruption (.wrongMagic magic found))) ∧
      ∃ built after, Writer.build Writer.Sample.volume "t" Writer.Sample.attributes
          Writer.Sample.options Writer.Sample.calls = (.ok built, after) ∧
        ∃ bytes, after.read "t" = .ok bytes ∧ ∀ byte, byte ≠ Bytes.byteAt bytes 635 →
          ∃ disk, disk.read "t" = .ok (Bytes.overlay bytes 635 [byte].toByteArray) ∧
            ∃ stored computed, Reader.openPath disk "t" KeyOrder.bytewise =
              .error (.checksumMismatch stored computed) := by
  obtain ⟨hdecode, -, hbuilt⟩ := altered_exposed
  have hstores := stores_encode Sample.fits.1.numLevels_le ByteArray.empty
  rw [ByteArray.append_empty] at hstores
  have hok : decode Sample.header.encode = .ok Sample.header :=
    (hstores.decode_eq_ok_iff_replanned Sample.fits.1).mpr ⟨_, ⟨rfl, by decide, by decide,
      Sample.plan_eq, rfl, rfl, rfl, rfl, rfl, rfl, rfl, rfl⟩, rfl⟩
  have hfirst : (7 : UInt8) ≠ Bytes.byteAt Sample.header.encode 0 := by decide +kernel
  refine ⟨hok, ⟨_, (hdecode _ _ _ hok (altered_overlay hstores.size_le (by decide) hfirst)).of_magic
    ⟨0, by decide, ?_⟩⟩, ?_⟩
  · rw [Bytes.byteAt_overlay]
    exact hfirst
  · obtain ⟨built, after, hbuild, -⟩ := Writer.Sample.exists_build
    obtain ⟨bytes, hread, hwatched⟩ := hbuilt _ _ _ _ _ _ _ hbuild
    obtain ⟨file, hleaves⟩ := Writer.build_spec hbuild
    refine ⟨built, after, hbuild, bytes, hread, fun byte hbyte => ?_⟩
    have hdisk := Volume.read_modify hleaves.existing_eq
      (Bytes.overlay bytes 635 [byte].toByteArray)
    refine ⟨_, hdisk, _, _,
      (hwatched.exposes 635 (by decide) byte hbyte _ _ hdisk _).of_fields fun i hi => ?_⟩
    rw [Bytes.byteAt_overlay, if_neg (by omega)]

end Header

end PackedIndex
