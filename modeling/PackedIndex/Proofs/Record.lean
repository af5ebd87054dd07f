import PackedIndex.Record.Codec
import PackedIndex.Proofs.Content
import PackedIndex.Proofs.Outcome
/-! # What a check lets through

Attributes and records that pass their checks have the sizes that the encodings count on.
-/
namespace PackedIndex

namespace Size

theorem checked_eq_some {n m : ℕ} : checked n = some m ↔ n < limit ∧ n = m := by
  simp [checked]

end Size

namespace Attributes

open Outcome

theorem validate_eq_ok {attributes : Attributes} (h : attributes.validate = .ok ()) :
    0 < attributes.keySize ∧ 0 < attributes.recordCount ∧
      (attributes.format = .pair → attributes.valueSize = attributes.keySize) ∧
      (attributes.format = .block → 0 < attributes.valueSize) ∧
      (attributes.format = .atom ∨ attributes.format = .blob → attributes.valueSize = 0) := by
  unfold validate at h
  obtain ⟨hkey, h⟩ := guard_eq_ok.mp h
  obtain ⟨hcount, h⟩ := guard_eq_ok.mp h
  refine ⟨Nat.pos_of_ne_zero hkey, Nat.pos_of_ne_zero hcount, ?_⟩
  cases hformat : attributes.format <;> simp only [hformat] at h <;>
    split_ifs at h with hvalue <;>
    simp_all [Nat.pos_iff_ne_zero]

end Attributes

namespace Encoding

open Outcome

/-- Records that pass their check: the format is that of the index, the key fits, and the value has
the size that the encoding gives it. -/
theorem validate_eq_ok {encoding : Encoding} {keySize valueSize : ℕ} {record : Record} :
    encoding.validate keySize valueSize record = .ok () ↔
      record.format = encoding.format ∧ record.key.size ≤ keySize ∧
        match record with
        | .atom _ => True
        | .pair _ value => value.size = keySize
        | .block _ value => value.size = valueSize
        | .blob _ value => value.size < Size.blobLimit := by
  unfold validate
  rw [guard_eq_ok, guard_eq_ok, not_not, not_lt]
  refine and_congr_right fun _ => and_congr_right fun _ => ?_
  cases record <;> simp only [Outcome.pure_eq_ok] <;> split_ifs with h <;> simp_all

theorem keySize_le_leafRecordSize {encoding : Encoding} {keySize valueSize size : ℕ}
    (h : encoding.leafRecordSize keySize valueSize = some size) : keySize ≤ size := by
  cases encoding <;> simp only [leafRecordSize, Option.some.injEq, Size.checked_eq_some] at h <;>
    omega

theorem size_leaf {encoding : Encoding} {keySize valueSize size : ℕ} {record : Record}
    (hvalid : encoding.validate keySize valueSize record = .ok ())
    (hsize : encoding.leafRecordSize keySize valueSize = some size) (pointer : ℕ) :
    (encoding.leaf keySize record pointer).size = size := by
  obtain ⟨hformat, hkey, hvalue⟩ := validate_eq_ok.mp hvalid
  cases encoding <;> cases record <;>
    simp_all [format, Record.format, leafRecordSize, leaf, Size.checked_eq_some, Record.key,
      Record.value?, Size.pointer]
  all_goals omega

theorem select_of_block {attributes : Attributes} (pageSize : ℕ)
    (h : attributes.format = .block) :
    select attributes pageSize = .inlineBlock ∨ select attributes pageSize = .outOfLineBlock := by
  unfold select
  rw [h]
  dsimp only
  split
  · split_ifs
    · exact Or.inl rfl
    · exact Or.inr rfl
  · exact Or.inr rfl

theorem size_valueEntry_outOfLineBlock {keySize valueSize : ℕ} {record : Record}
    (h : outOfLineBlock.validate keySize valueSize record = .ok ()) :
    (outOfLineBlock.valueEntry record).size = valueSize := by
  obtain ⟨hformat, -, hvalue⟩ := validate_eq_ok.mp h
  cases record with
  | block key value => exact hvalue
  | _ => cases hformat

theorem valueEntry_of_inline {encoding : Encoding} (h : encoding.usesValueRegion = false)
    (record : Record) : encoding.valueEntry record = ByteArray.empty := by
  cases encoding with
  | atom => rfl
  | pair => rfl
  | inlineBlock => rfl
  | outOfLineBlock => cases h
  | blob => cases h

theorem valueEntry_blob (key value : ByteArray) :
    blob.valueEntry (.blob key value) = BigEndian.encode Size.blobLength value.size ++ value := rfl

end Encoding

theorem extent_eq {file : Content} {offset count : ℕ} {data : ByteArray} (h : file.Has offset data)
    (hcount : data.size = count) : extent file offset count = .ok data := by
  subst hcount
  rw [extent, if_pos h.size_le, h.read_eq]

theorem decode_read {file : Content} {offset pointer : ℕ}
    (h : file.Has offset (BigEndian.encode Size.pointer pointer))
    (hpointer : pointer < Size.limit) :
    BigEndian.decode (file.read offset Size.pointer) = pointer := by
  have hlimit : Size.limit = 256 ^ Size.pointer := by decide
  have hread := h.read_eq
  rw [BigEndian.size_encode] at hread
  rw [hread, BigEndian.decode_encode, Nat.mod_eq_of_lt (hlimit ▸ hpointer)]

theorem readPointer_eq {file : Content} {offset pointer : ℕ}
    (h : file.Has offset (BigEndian.encode Size.pointer pointer))
    (hpointer : pointer < Size.limit) :
    readPointer file offset = .ok pointer := by
  have hsize := h.size_le
  rw [BigEndian.size_encode] at hsize
  rw [readPointer, extent, if_pos hsize, Except.map, decode_read h hpointer]

namespace Record

/-- A record as it is read back, with its key in full width. -/
def padded (record : Record) (keySize : ℕ) : Record :=
  record.withKey (Bytes.resize record.key keySize)

@[simp] theorem key_padded (record : Record) (keySize : ℕ) :
    (record.padded keySize).key = Bytes.resize record.key keySize := by
  cases record <;> rfl

end Record

namespace Encoding

theorem extract_leaf (encoding : Encoding) (keySize : ℕ) (record : Record) (pointer : ℕ) :
    (encoding.leaf keySize record pointer).extract 0 keySize = Bytes.resize record.key keySize := by
  have hfront : ∀ behind : ByteArray,
      (Bytes.resize record.key keySize ++ behind).extract 0 keySize =
        Bytes.resize record.key keySize := by
    intro behind
    have hkey := Bytes.extract_middle ByteArray.empty (Bytes.resize record.key keySize) behind
    rwa [ByteArray.empty_append, ByteArray.size_empty, Nat.zero_add, Bytes.size_resize] at hkey
  cases encoding with
  | atom =>
    have hwhole := hfront ByteArray.empty
    rwa [ByteArray.append_empty] at hwhole
  | pair => exact hfront _
  | inlineBlock => exact hfront _
  | outOfLineBlock => exact hfront _
  | blob => exact hfront _

theorem has_behind_key {file : Content} {offset keySize : ℕ} {key behind : ByteArray}
    (h : file.Has offset (Bytes.resize key keySize ++ behind)) :
    file.Has (offset + keySize) behind := by
  have hright := h.right
  rwa [Bytes.size_resize] at hright

theorem has_pointer {encoding : Encoding} (hregion : encoding.usesValueRegion = true)
    {file : Content} {offset keySize pointer : ℕ} {record : Record}
    (h : file.Has offset (encoding.leaf keySize record pointer)) :
    file.Has (offset + keySize) (BigEndian.encode Size.pointer pointer) := by
  cases encoding with
  | atom => cases hregion
  | pair => cases hregion
  | inlineBlock => cases hregion
  | outOfLineBlock => exact has_behind_key h
  | blob => exact has_behind_key h

theorem extent_key {encoding : Encoding} {file : Content} {offset keySize pointer : ℕ}
    {record : Record} (h : file.Has offset (encoding.leaf keySize record pointer)) :
    extent file offset keySize = .ok (Bytes.resize record.key keySize) := by
  refine extent_eq ?_ (Bytes.size_resize _ _)
  cases encoding with
  | atom => exact h
  | pair => exact h.left
  | inlineBlock => exact h.left
  | outOfLineBlock => exact h.left
  | blob => exact h.left

/-- A record is read back wherever a file has its leaf record and its value entry. -/
theorem decodeLeaf_eq {encoding : Encoding} {file : Content} {keySize valueSize offset pointer : ℕ}
    {record : Record} (hvalid : encoding.validate keySize valueSize record = .ok ())
    (hleaf : file.Has offset (encoding.leaf keySize record pointer))
    (hentry : encoding.usesValueRegion = true → file.Has pointer (encoding.valueEntry record))
    (hpointer : encoding.usesValueRegion = true → pointer < Size.limit) :
    encoding.decodeLeaf file offset keySize valueSize = .ok (record.padded keySize) := by
  obtain ⟨hformat, -, hvalue⟩ := validate_eq_ok.mp hvalid
  unfold decodeLeaf
  rw [extent_key hleaf, Outcome.ok_bind]
  cases encoding with
  | atom =>
    cases record <;> cases hformat
    rfl
  | pair =>
    cases record <;> cases hformat
    have hbehind := has_behind_key hleaf
    dsimp only
    rw [extent_eq hbehind hvalue, Outcome.ok_bind]
    rfl
  | inlineBlock =>
    cases record <;> cases hformat
    have hbehind := has_behind_key hleaf
    dsimp only
    rw [extent_eq hbehind hvalue, Outcome.ok_bind]
    rfl
  | outOfLineBlock =>
    cases record <;> cases hformat
    have hbehind := has_behind_key hleaf
    dsimp only
    rw [readPointer_eq hbehind (hpointer rfl), Outcome.ok_bind, extent_eq (hentry rfl) hvalue,
      Outcome.ok_bind]
    rfl
  | blob =>
    cases record <;> cases hformat
    rename_i key value
    have hbehind := has_behind_key hleaf
    have hlength : file.Has pointer (BigEndian.encode Size.blobLength value.size) :=
      (hentry rfl).left
    have hdata : file.Has (pointer + (BigEndian.encode Size.blobLength value.size).size) value :=
      (hentry rfl).right
    have hlimit : Size.blobLimit = 256 ^ Size.blobLength := by decide
    have hsize : value.size < 256 ^ Size.blobLength := hlimit ▸ hvalue
    rw [BigEndian.size_encode] at hdata
    dsimp only
    rw [readPointer_eq hbehind (hpointer rfl), Outcome.ok_bind,
      extent_eq hlength (BigEndian.size_encode _ _), Outcome.ok_bind, BigEndian.decode_encode,
      Nat.mod_eq_of_lt hsize, extent_eq hdata rfl, Outcome.ok_bind]
    rfl

/-- A record is damage when a file ends within its value entry. The length of a blob may still be
there, but a value that is not whole is not answered. -/
theorem decodeLeaf_of_cut {encoding : Encoding} {file : Content}
    {keySize valueSize offset pointer : ℕ} {record : Record}
    (hvalid : encoding.validate keySize valueSize record = .ok ())
    (hleaf : file.Has offset (encoding.leaf keySize record pointer))
    (hregion : encoding.usesValueRegion = true) (hpointer : pointer < Size.limit)
    (hfront : ∀ count ≤ (encoding.valueEntry record).size, pointer + count ≤ file.size →
      file.Has pointer ((encoding.valueEntry record).extract 0 count))
    (hcut : file.size < pointer + (encoding.valueEntry record).size) :
    ∃ damage, encoding.decodeLeaf file offset keySize valueSize = .error damage := by
  obtain ⟨hformat, -, hvalue⟩ := validate_eq_ok.mp hvalid
  unfold decodeLeaf
  rw [extent_key hleaf, Outcome.ok_bind]
  cases encoding with
  | atom => cases hregion
  | pair => cases hregion
  | inlineBlock => cases hregion
  | outOfLineBlock =>
    have hbehind := has_behind_key hleaf
    have hentry := size_valueEntry_outOfLineBlock hvalid
    dsimp only
    rw [readPointer_eq hbehind hpointer, Outcome.ok_bind, extent, if_neg (by omega)]
    exact ⟨_, rfl⟩
  | blob =>
    cases record <;> cases hformat
    rename_i key value
    have hbehind := has_behind_key hleaf
    have hwidth := BigEndian.size_encode Size.blobLength value.size
    rw [valueEntry_blob] at hfront hcut
    rw [ByteArray.size_append, hwidth] at hfront hcut
    dsimp only
    rw [readPointer_eq hbehind hpointer, Outcome.ok_bind]
    by_cases hlength : pointer + Size.blobLength ≤ file.size
    · -- the length is still there, and the value that it announces is not
      have hlimit : Size.blobLimit = 256 ^ Size.blobLength := by decide
      have hsize : value.size < 256 ^ Size.blobLength := hlimit ▸ hvalue
      have hstored : file.Has pointer (BigEndian.encode Size.blobLength value.size) := by
        have hpart := hfront Size.blobLength (by omega) hlength
        rw [Bytes.extract_append_left hwidth.ge] at hpart
        nth_rewrite 2 [← hwidth] at hpart
        rwa [ByteArray.extract_zero_size] at hpart
      rw [extent_eq hstored hwidth, Outcome.ok_bind, BigEndian.decode_encode,
        Nat.mod_eq_of_lt hsize, extent, if_neg (by omega)]
      exact ⟨_, rfl⟩
    · rw [extent, if_neg hlength]
      exact ⟨_, rfl⟩

end Encoding

end PackedIndex
