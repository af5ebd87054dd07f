import PackedIndex.Proofs.HeaderBytes
/-! # Attributes and their bytes

Attributes whose numbers fit their fields have one stored form. It is decoded to them whatever stands
behind it, and no byte string is decoded but those that start with such a form.
-/
namespace PackedIndex

theorem Format.exists_ofByte?_iff {byte : UInt8} :
    (∃ format, ofByte? byte = some format) ↔ ∃ format : Format, byte = format.toByte := by
  constructor
  · rintro ⟨format, hformat⟩
    exact ⟨format, (toByte_of_ofByte? hformat).symm⟩
  · rintro ⟨format, rfl⟩
    exact ⟨format, ofByte?_toByte format⟩

namespace Attributes

/-- Bytes that start with a stored form: they are enough, the format byte belongs to a format, and
the byte in reserve is zero. -/
structure IsStored (data : ByteArray) : Prop where
  size_le : encodedSize ≤ data.size
  format : ∃ format : Format, Bytes.byteAt data 24 = format.toByte
  reserved : Bytes.byteAt data 25 = 0

variable {data : ByteArray} {attributes : Attributes}

theorem decode_of_size_le (h : encodedSize ≤ data.size) :
    decode data =
      match Format.ofByte? (Bytes.byteAt data 24) with
      | none => .error (.unknownFormat (Bytes.byteAt data 24))
      | some format =>
        if Bytes.byteAt data 25 ≠ 0 then .error .reservedByte
        else .ok
          { keySize := BigEndian.read data 0 8
            valueSize := BigEndian.read data 8 8
            recordCount := BigEndian.read data 16 8
            format } := by
  have hsize : 26 ≤ data.size := h
  have hformat := Bytes.byteAt_of_lt (show 24 < data.size by omega)
  have hreserved := Bytes.byteAt_of_lt (show 25 < data.size by omega)
  rw [hformat, hreserved]
  exact dif_neg (not_lt.mpr h)

theorem decode_extract (h : encodedSize ≤ data.size) :
    decode (data.extract 0 encodedSize) = decode data := by
  have hsize : encodedSize ≤ (data.extract 0 encodedSize).size := by
    simp [h]
  rw [decode_of_size_le hsize, decode_of_size_le h]
  simp [Bytes.byteAt_extract, BigEndian.read_extract, encodedSize]

theorem decode_append_of_fits (h : attributes.Fits) (behind : ByteArray) :
    decode (attributes.encode ++ behind) = .ok attributes := by
  have hfront : (attributes.encode ++ behind).extract 0 encodedSize = attributes.encode := by
    rw [Bytes.extract_append_left (by simp), ← attributes.size_encode, ByteArray.extract_zero_size]
  have hsize : encodedSize ≤ (attributes.encode ++ behind).size := by simp
  rw [← decode_extract hsize, hfront, decode_encode_of_fits h]

theorem isStored_iff : IsStored data ↔ ∃ attributes, decode data = .ok attributes := by
  by_cases hsize : encodedSize ≤ data.size
  · rw [decode_of_size_le hsize]
    constructor
    · rintro ⟨-, hbyte, hreserved⟩
      obtain ⟨format, hformat⟩ := Format.exists_ofByte?_iff.mpr hbyte
      simp [hformat, hreserved]
    · rintro ⟨attributes, hdecode⟩
      cases hformat : Format.ofByte? (Bytes.byteAt data 24) with
      | none => simp [hformat] at hdecode
      | some format =>
        refine ⟨hsize, Format.exists_ofByte?_iff.mp ⟨format, hformat⟩, ?_⟩
        by_contra hreserved
        simp [hformat, hreserved] at hdecode
  · constructor
    · intro h
      exact absurd h.size_le hsize
    · rintro ⟨attributes, hdecode⟩
      simp [decode, not_le.mp hsize] at hdecode

theorem fits_of_decode (h : decode data = .ok attributes) : attributes.Fits := by
  have hstored := isStored_iff.mpr ⟨attributes, h⟩
  obtain ⟨format, hformat⟩ := Format.exists_ofByte?_iff.mpr hstored.format
  have hread : ∀ offset, BigEndian.read data offset 8 < Size.limit := by
    intro offset
    exact BigEndian.read_lt data offset 8
  rw [decode_of_size_le hstored.size_le] at h
  simp only [hformat, hstored.reserved, ne_eq, not_true_eq_false, if_false] at h
  cases h
  exact ⟨hread 0, hread 8, hread 16⟩

/-- Attributes that fit and their stored forms are in exact correspondence. A stored form is decoded
to its attributes whatever stands behind it. Bytes are decoded exactly when they start with one, and
then to the attributes that are stored so; all others are damage. -/
theorem decode_exact :
    (∀ attributes : Attributes, attributes.encode.size = encodedSize ∧
      (attributes.Fits → ∀ behind, decode (attributes.encode ++ behind) = .ok attributes)) ∧
    ∀ data : ByteArray, ((∃ attributes, decode data = .ok attributes) ↔ IsStored data) ∧
      (∀ attributes, decode data = .ok attributes →
        attributes.Fits ∧ attributes.encode = data.extract 0 encodedSize) ∧
      (¬IsStored data → ∃ damage,
        (decode data).mapError Error.corruption = .error (.corruption damage)) := by
  constructor
  · intro attributes
    exact ⟨attributes.size_encode, decode_append_of_fits⟩
  · intro data
    refine ⟨isStored_iff.symm, fun attributes h => ⟨fits_of_decode h, encode_of_decode h⟩, ?_⟩
    intro h
    cases hdecode : decode data with
    | ok attributes => exact absurd (isStored_iff.mpr ⟨attributes, hdecode⟩) h
    | error damage => exact ⟨damage, rfl⟩

theorem decode_exact_sample :
    decode (encode ⟨2 ^ 64 - 1, 0, 2 ^ 64 - 1, .blob⟩ ++ [7].toByteArray) =
        .ok ⟨2 ^ 64 - 1, 0, 2 ^ 64 - 1, .blob⟩ ∧
      ∃ damage, (decode (Bytes.zeros 25 ++ [1].toByteArray)).mapError Error.corruption =
        .error (.corruption damage) := by
  obtain ⟨hencode, hdecode⟩ := decode_exact
  constructor
  · exact (hencode _).2 ⟨by decide, by decide, by decide⟩ _
  · refine (hdecode _).2.2 fun hstored => ?_
    have hreserved := hstored.reserved
    rw [Bytes.byteAt_append, Bytes.size_zeros] at hreserved
    revert hreserved
    decide

end Attributes

end PackedIndex
