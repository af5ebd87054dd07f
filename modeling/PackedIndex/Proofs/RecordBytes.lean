import PackedIndex.Proofs.GuardedWriter
/-! # Records and their bytes

A leaf record is put over what a buffer held before, and a value entry behind what is there. From
any file that has the two in their places the record is read back. In the other direction, a record
that is read from whatever bytes is one that can be stored, and is stored as those bytes; only an
extent outside the file keeps a record from being read, and no sum on the way to it needs more than
64 bits.
-/
namespace PackedIndex

namespace Bytes

theorem overlay_zeros {buffer key : ByteArray} {size : ℕ} (hkey : key.size ≤ size)
    (hsize : size ≤ buffer.size) :
    overlay (overlay buffer 0 key) key.size (zeros (size - key.size)) =
      resize key size ++ buffer.extract size buffer.size := by
  apply ext_byteAt
  · simp only [size_overlay, size_zeros, ByteArray.size_append, size_resize, ByteArray.size_extract]
    omega
  · intro i hi
    simp only [size_overlay, size_zeros] at hi
    simp only [byteAt_overlay, byteAt_append, byteAt_resize, size_resize, size_zeros, byteAt_zeros,
      byteAt_extract]
    by_cases hfront : i < key.size
    · rw [if_neg (by omega), if_pos (by omega), if_pos (by omega), if_pos (by omega), Nat.sub_zero]
    · rw [if_neg (show ¬(0 ≤ i ∧ i < 0 + key.size) by omega)]
      split_ifs
      · rw [byteAt_of_size_le (by omega)]
      · omega
      · omega
      · omega
      · congr 1
        omega
      · rw [byteAt_of_size_le (by omega)]

theorem overlay_back {front back patch : ByteArray} {offset : ℕ} (hfront : front.size = offset)
    (hback : back.size = patch.size) : overlay (front ++ back) offset patch = front ++ patch := by
  apply ext_byteAt
  · simp only [size_overlay, ByteArray.size_append]
    omega
  · intro i hi
    simp only [size_overlay, ByteArray.size_append] at hi
    simp only [byteAt_overlay, byteAt_append, hfront]
    split_ifs <;> first | rfl | omega

end Bytes

/-- The bytes `offset ..< offset + count` of a file, whose end has to be a number of 64 bits. -/
def extentChecked (file : Content) (offset count : ℕ) : Except Damage ByteArray :=
  match Size.checked (offset + count) with
  | none => .error (.extentOutside offset count file.size)
  | some stop =>
    if stop ≤ file.size then .ok (file.read offset count)
    else .error (.extentOutside offset count file.size)

theorem extentChecked_eq {file : Content} (hfile : file.size < Size.limit) (offset count : ℕ) :
    extentChecked file offset count = extent file offset count := by
  unfold extentChecked extent Size.checked
  by_cases hstop : offset + count < Size.limit
  · rw [if_pos hstop]
  · rw [if_neg hstop, if_neg (by omega)]

namespace Encoding

/-! ## Encoding -/

/-- A buffer with a leaf record put over it: the key, zeros up to the width of keys, and the value
or the pointer. All of it has to be inside the buffer. -/
def putLeaf? (encoding : Encoding) (buffer : ByteArray) (keySize : ℕ) (record : Record)
    (pointer : ℕ) : Option ByteArray := do
  let keyed ← Bytes.patch? buffer 0 record.key
  let width ← Machine.sub keySize record.key.size
  let padded ← Bytes.patch? keyed record.key.size (Bytes.zeros width)
  match encoding with
  | atom => return padded
  | pair | inlineBlock =>
    match record.value? with
    | some value => Bytes.patch? padded keySize value
    | none => return padded
  | outOfLineBlock | blob => Bytes.patch? padded keySize (BigEndian.encode Size.pointer pointer)

/-- A buffer with a value entry behind it, and the length that is answered for the entry. Of the
length of a blob the lowest 32 bits are stored. -/
def putValue? (encoding : Encoding) (buffer : ByteArray) (record : Record) :
    Option (ByteArray × ℕ) :=
  let value := record.value?.getD ByteArray.empty
  match encoding with
  | outOfLineBlock => some (buffer ++ value, value.size)
  | blob => do
    let size ← Machine.add Size.blobLength value.size
    return (buffer ++ BigEndian.encode Size.blobLength value.size.toUInt32.toNat ++ value, size)
  | atom | pair | inlineBlock => some (buffer, 0)

section

variable {encoding : Encoding} {keySize valueSize size : ℕ} {record : Record}

theorem putLeaf?_eq (hvalid : encoding.validate keySize valueSize record = .ok ())
    (hsize : encoding.leafRecordSize keySize valueSize = some size) (pointer : ℕ)
    {buffer : ByteArray} (hbuffer : buffer.size = size) :
    encoding.putLeaf? buffer keySize record pointer =
      some (encoding.leaf keySize record pointer) := by
  obtain ⟨hformat, hkey, hvalue⟩ := validate_eq_ok.mp hvalid
  have hwidth := keySize_le_leafRecordSize hsize
  have hkeyed : (Bytes.overlay buffer 0 record.key).size = size := by
    rw [Bytes.size_overlay]
    omega
  have hzeros : record.key.size + (Bytes.zeros (keySize - record.key.size)).size ≤
      (Bytes.overlay buffer 0 record.key).size := by
    rw [Bytes.size_zeros]
    omega
  -- what stands behind the key in the buffer is written over in full
  have htail : ∀ tail : ByteArray, keySize + tail.size = size →
      Bytes.patch? (Bytes.resize record.key keySize ++ buffer.extract keySize buffer.size) keySize
        tail = some (Bytes.resize record.key keySize ++ tail) := by
    intro tail hfull
    have hback : (buffer.extract keySize buffer.size).size = tail.size := by
      rw [ByteArray.size_extract]
      omega
    rw [Bytes.patch?_eq, Bytes.overlay_back (Bytes.size_resize _ _) hback]
    rw [ByteArray.size_append, Bytes.size_resize, hback]
  simp only [putLeaf?, Option.bind_eq_bind]
  rw [Bytes.patch?_eq (by omega), Option.bind_some, Machine.sub_eq hkey, Option.bind_some,
    Bytes.patch?_eq hzeros, Option.bind_some, Bytes.overlay_zeros hkey (by omega)]
  cases encoding with
  | atom =>
    rw [leafRecordSize, Option.some.injEq] at hsize
    have hnone : buffer.extract keySize buffer.size = ByteArray.empty :=
      ByteArray.extract_eq_empty_iff.mpr (by omega)
    rw [hnone, ByteArray.append_empty]
    rfl
  | pair =>
    cases record <;> cases hformat
    rw [leafRecordSize, Size.checked_eq_some] at hsize
    exact htail _ (by omega)
  | inlineBlock =>
    cases record <;> cases hformat
    rw [leafRecordSize, Size.checked_eq_some] at hsize
    exact htail _ (by omega)
  | outOfLineBlock =>
    rw [leafRecordSize, Size.checked_eq_some] at hsize
    exact htail _ (by rw [BigEndian.size_encode]; exact hsize.2)
  | blob =>
    rw [leafRecordSize, Size.checked_eq_some] at hsize
    exact htail _ (by rw [BigEndian.size_encode]; exact hsize.2)

theorem putValue?_eq (hvalid : encoding.validate keySize valueSize record = .ok ())
    (buffer : ByteArray) :
    encoding.putValue? buffer record =
      some (buffer ++ encoding.valueEntry record, (encoding.valueEntry record).size) := by
  obtain ⟨hformat, -, hvalue⟩ := validate_eq_ok.mp hvalid
  cases encoding with
  | outOfLineBlock => rfl
  | blob =>
    cases record <;> cases hformat
    rename_i key value
    -- a value that passed its check has a length of 32 bits, of which nothing is cut off
    have hlimit : Size.blobLimit = 2 ^ 32 := by decide
    have hroom : Size.blobLength + Size.blobLimit < Size.limit := by decide
    have hstored : value.size.toUInt32.toNat = value.size := by
      rw [Nat.toUInt32_eq, UInt32.toNat_ofNat', Nat.mod_eq_of_lt (hlimit ▸ hvalue)]
    simp only [putValue?, Record.value?, Option.getD_some, Option.bind_eq_bind]
    rw [Machine.add_eq (by omega), Option.bind_some, hstored, valueEntry_blob,
      ByteArray.append_assoc, ByteArray.size_append, BigEndian.size_encode]
    rfl
  | atom =>
    rw [valueEntry_of_inline rfl, ByteArray.append_empty]
    rfl
  | pair =>
    rw [valueEntry_of_inline rfl, ByteArray.append_empty]
    rfl
  | inlineBlock =>
    rw [valueEntry_of_inline rfl, ByteArray.append_empty]
    rfl

end

/-! ## Decoding -/

/-- The record whose leaf record is at an offset. Every extent is checked, and every other sum has
to be a number of 64 bits. -/
def decodeChecked? (encoding : Encoding) (file : Content) (offset keySize valueSize : ℕ) :
    Option (Except Damage Record) :=
  match extentChecked file offset keySize with
  | .error damage => some (.error damage)
  | .ok key => do
    let behind ← Machine.add offset keySize
    match encoding with
    | atom => return .ok (.atom key)
    | pair => return (extentChecked file behind keySize).map (.pair key)
    | inlineBlock => return (extentChecked file behind valueSize).map (.block key)
    | outOfLineBlock =>
      match extentChecked file behind Size.pointer with
      | .error damage => return .error damage
      | .ok bytes =>
        return (extentChecked file (BigEndian.decode bytes) valueSize).map (.block key)
    | blob =>
      match extentChecked file behind Size.pointer with
      | .error damage => return .error damage
      | .ok bytes =>
        match extentChecked file (BigEndian.decode bytes) Size.blobLength with
        | .error damage => return .error damage
        | .ok length =>
          let value ← Machine.add (BigEndian.decode bytes) Size.blobLength
          return (extentChecked file value (BigEndian.decode length)).map (.blob key)

def storedPointer (file : Content) (offset keySize : ℕ) : ℕ :=
  BigEndian.decode (file.read (offset + keySize) Size.pointer)

/-- The bytes of the value entry at a pointer: for a blob, of the length that stands there and of
the value. -/
def entrySize (encoding : Encoding) (file : Content) (valueSize pointer : ℕ) : ℕ :=
  match encoding with
  | outOfLineBlock => valueSize
  | blob => Size.blobLength + BigEndian.decode (file.read pointer Size.blobLength)
  | atom | pair | inlineBlock => 0

/-- The value entry that the leaf record at an offset points to is in the file, if there is one. -/
def EntryInside (encoding : Encoding) (file : Content) (offset keySize valueSize : ℕ) : Prop :=
  encoding.usesValueRegion = true →
    storedPointer file offset keySize +
      encoding.entrySize file valueSize (storedPointer file offset keySize) ≤ file.size

def recordInside (encoding : Encoding) (file : Content) (offset keySize valueSize : ℕ) : Record :=
  let key := file.read offset keySize
  let behind := offset + keySize
  let pointer := storedPointer file offset keySize
  match encoding with
  | atom => .atom key
  | pair => .pair key (file.read behind keySize)
  | inlineBlock => .block key (file.read behind valueSize)
  | outOfLineBlock => .block key (file.read pointer valueSize)
  | blob => .blob key (file.read (pointer + Size.blobLength)
      (BigEndian.decode (file.read pointer Size.blobLength)))

section

variable {encoding : Encoding} {file : Content} {offset keySize valueSize size : ℕ}

/-- In a file whose size is a number of 64 bits no sum needs more of them: each is the end of an
extent that was found inside. -/
theorem decodeChecked?_eq (hfile : file.size < Size.limit) :
    encoding.decodeChecked? file offset keySize valueSize =
      some (encoding.decodeLeaf file offset keySize valueSize) := by
  unfold decodeChecked? decodeLeaf readPointer
  simp only [extentChecked_eq hfile]
  by_cases hkey : offset + keySize ≤ file.size
  · rw [extent_eq_read hkey, Outcome.ok_bind]
    dsimp only
    rw [Machine.add_eq (by omega)]
    simp only [Option.bind_eq_bind, Option.bind_some]
    cases encoding with
    | atom => rfl
    | pair => cases extent file (offset + keySize) keySize <;> rfl
    | inlineBlock => cases extent file (offset + keySize) valueSize <;> rfl
    | outOfLineBlock =>
      rcases extent file (offset + keySize) Size.pointer with damage | bytes
      · rfl
      · cases extent file (BigEndian.decode bytes) valueSize <;> rfl
    | blob =>
      rcases extent file (offset + keySize) Size.pointer with damage | bytes
      · rfl
      by_cases hlength : BigEndian.decode bytes + Size.blobLength ≤ file.size
      · simp only [extent_eq_read hlength, Except.map, Outcome.ok_bind]
        rw [Machine.add_eq (by omega), Option.bind_some]
        cases extent file (BigEndian.decode bytes + Size.blobLength)
          (BigEndian.decode (file.read (BigEndian.decode bytes) Size.blobLength)) <;> rfl
      · simp only [Except.map, Outcome.ok_bind]
        rw [extent, if_neg hlength]
        rfl
  · rw [extent, if_neg hkey]
    rfl

variable (encoding) in
theorem exists_leafRecordSize (hkey : keySize < 2 ^ 63) (hvalue : valueSize < 2 ^ 63) :
    ∃ size, encoding.leafRecordSize keySize valueSize = some size := by
  have hlimit : Size.limit = 2 ^ 64 := by decide
  unfold leafRecordSize Size.checked Size.pointer
  cases encoding with
  | atom => exact ⟨_, rfl⟩
  | pair => exact ⟨_, if_pos (by omega)⟩
  | inlineBlock => exact ⟨_, if_pos (by omega)⟩
  | outOfLineBlock => exact ⟨_, if_pos (by omega)⟩
  | blob => exact ⟨_, if_pos (by omega)⟩

theorem decodeLeaf_of_outside (hsize : encoding.leafRecordSize keySize valueSize = some size)
    (hout : ¬offset + size ≤ file.size) :
    ∃ place count, encoding.decodeLeaf file offset keySize valueSize =
      .error (.extentOutside place count file.size) := by
  unfold decodeLeaf readPointer
  by_cases hkey : offset + keySize ≤ file.size
  · rw [extent_eq_read hkey, Outcome.ok_bind]
    cases encoding
    case atom =>
      rw [leafRecordSize, Option.some.injEq] at hsize
      omega
    all_goals
      rw [leafRecordSize, Size.checked_eq_some] at hsize
      dsimp only
      rw [extent, if_neg (by omega)]
      exact ⟨_, _, rfl⟩
  · rw [extent, if_neg hkey]
    exact ⟨_, _, rfl⟩

theorem decodeInside_of_entry (hentry : encoding.EntryInside file offset keySize valueSize) :
    encoding.decodeInside file offset keySize valueSize =
      .ok (encoding.recordInside file offset keySize valueSize) := by
  have hpointer : BigEndian.decode (file.read (offset + keySize) Size.pointer) =
      storedPointer file offset keySize := rfl
  unfold decodeInside
  dsimp only
  rw [hpointer]
  cases encoding with
  | atom => rfl
  | pair => rfl
  | inlineBlock => rfl
  | outOfLineBlock =>
    have hend : storedPointer file offset keySize + valueSize ≤ file.size := hentry rfl
    dsimp only
    rw [extent_eq_read hend]
    rfl
  | blob =>
    have hend : storedPointer file offset keySize + (Size.blobLength + BigEndian.decode
        (file.read (storedPointer file offset keySize) Size.blobLength)) ≤ file.size := hentry rfl
    dsimp only
    rw [extent_eq_read (by omega)]
    dsimp only
    rw [extent_eq_read (by omega)]
    rfl

theorem decodeInside_of_outside (hentry : ¬encoding.EntryInside file offset keySize valueSize) :
    ∃ place count, encoding.decodeInside file offset keySize valueSize =
      .error (.extentOutside place count file.size) := by
  have hpointer : BigEndian.decode (file.read (offset + keySize) Size.pointer) =
      storedPointer file offset keySize := rfl
  obtain ⟨hregion, hend⟩ := Classical.not_imp.mp hentry
  unfold decodeInside
  dsimp only
  rw [hpointer]
  cases encoding with
  | atom => cases hregion
  | pair => cases hregion
  | inlineBlock => cases hregion
  | outOfLineBlock =>
    dsimp only [entrySize] at hend ⊢
    rw [extent, if_neg hend]
    exact ⟨_, _, rfl⟩
  | blob =>
    dsimp only [entrySize] at hend ⊢
    by_cases hlength : storedPointer file offset keySize + Size.blobLength ≤ file.size
    · rw [extent_eq_read hlength]
      dsimp only
      rw [extent, if_neg (by omega)]
      exact ⟨_, _, rfl⟩
    · rw [extent, if_neg hlength]
      exact ⟨_, _, rfl⟩

/-! ## Encoding what was decoded -/

@[simp] theorem key_recordInside :
    (encoding.recordInside file offset keySize valueSize).key = file.read offset keySize := by
  cases encoding <;> rfl

section

variable (hsize : encoding.leafRecordSize keySize valueSize = some size)
  (hin : offset + size ≤ file.size)
include hsize hin

theorem size_key_recordInside :
    (encoding.recordInside file offset keySize valueSize).key.size = keySize := by
  have hwidth := keySize_le_leafRecordSize hsize
  rw [key_recordInside, Content.size_read]
  omega

/-- A record that was read is stored by the bytes that it was read from. -/
theorem leaf_recordInside :
    encoding.leaf keySize (encoding.recordInside file offset keySize valueSize)
      (storedPointer file offset keySize) = file.read offset size := by
  have hkey := size_key_recordInside hsize hin
  have hpointer : offset + keySize + Size.pointer ≤ file.size →
      BigEndian.encode Size.pointer (storedPointer file offset keySize) =
        file.read (offset + keySize) Size.pointer := by
    intro hroom
    have hwidth : (file.read (offset + keySize) Size.pointer).size = Size.pointer := by
      rw [Content.size_read]
      omega
    have hspell := BigEndian.encode_decode (file.read (offset + keySize) Size.pointer)
    rwa [hwidth] at hspell
  unfold leaf
  rw [Bytes.resize_of_size_eq hkey, key_recordInside]
  cases encoding with
  | atom =>
    rw [leafRecordSize, Option.some.injEq] at hsize
    rw [hsize]
  | pair =>
    rw [leafRecordSize, Size.checked_eq_some] at hsize
    obtain ⟨-, rfl⟩ := hsize
    rw [Nat.mul_two, Content.read_append (by omega)]
    rfl
  | inlineBlock =>
    rw [leafRecordSize, Size.checked_eq_some] at hsize
    obtain ⟨-, rfl⟩ := hsize
    rw [Content.read_append (by omega)]
    rfl
  | outOfLineBlock =>
    rw [leafRecordSize, Size.checked_eq_some] at hsize
    obtain ⟨-, rfl⟩ := hsize
    rw [Content.read_append (by omega), ← hpointer (by omega)]
  | blob =>
    rw [leafRecordSize, Size.checked_eq_some] at hsize
    obtain ⟨-, rfl⟩ := hsize
    rw [Content.read_append (by omega), ← hpointer (by omega)]

theorem validate_recordInside (hentry : encoding.EntryInside file offset keySize valueSize) :
    encoding.validate keySize valueSize (encoding.recordInside file offset keySize valueSize) =
      .ok () := by
  have hkey := size_key_recordInside hsize hin
  rw [validate_eq_ok]
  refine ⟨by cases encoding <;> rfl, hkey.le, ?_⟩
  cases encoding with
  | atom => trivial
  | pair =>
    rw [leafRecordSize, Size.checked_eq_some] at hsize
    dsimp only [recordInside]
    rw [Content.size_read]
    omega
  | inlineBlock =>
    rw [leafRecordSize, Size.checked_eq_some] at hsize
    dsimp only [recordInside]
    rw [Content.size_read]
    omega
  | outOfLineBlock =>
    have hend : storedPointer file offset keySize + valueSize ≤ file.size := hentry rfl
    dsimp only [recordInside]
    rw [Content.size_read]
    omega
  | blob =>
    have hlimit : Size.blobLimit = 256 ^ Size.blobLength := by decide
    have hwidth : (file.read (storedPointer file offset keySize) Size.blobLength).size ≤
        Size.blobLength := by
      rw [Content.size_read]
      omega
    have hlength := (BigEndian.decode_lt
      (file.read (storedPointer file offset keySize) Size.blobLength)).trans_le
      (Nat.pow_le_pow_right (by decide) hwidth)
    dsimp only [recordInside]
    rw [Content.size_read, hlimit]
    omega

end

theorem valueEntry_recordInside (hentry : encoding.EntryInside file offset keySize valueSize) :
    encoding.valueEntry (encoding.recordInside file offset keySize valueSize) =
      file.read (storedPointer file offset keySize)
        (encoding.entrySize file valueSize (storedPointer file offset keySize)) := by
  have hnone : ByteArray.empty = file.read (storedPointer file offset keySize) 0 := by
    refine (Bytes.ext_byteAt ?_ fun i hi => ?_).symm
    · rw [Content.size_read, ByteArray.size_empty]
      omega
    · rw [Content.size_read] at hi
      omega
  cases encoding with
  | atom => exact hnone
  | pair => exact hnone
  | inlineBlock => exact hnone
  | outOfLineBlock => rfl
  | blob =>
    have hend : storedPointer file offset keySize + (Size.blobLength + BigEndian.decode
        (file.read (storedPointer file offset keySize) Size.blobLength)) ≤ file.size := hentry rfl
    have hwidth : (file.read (storedPointer file offset keySize) Size.blobLength).size =
        Size.blobLength := by
      rw [Content.size_read]
      omega
    have hspell := BigEndian.encode_decode
      (file.read (storedPointer file offset keySize) Size.blobLength)
    rw [hwidth] at hspell
    have hvalue : (file.read (storedPointer file offset keySize + Size.blobLength)
        (BigEndian.decode (file.read (storedPointer file offset keySize) Size.blobLength))).size =
        BigEndian.decode (file.read (storedPointer file offset keySize) Size.blobLength) := by
      rw [Content.size_read]
      omega
    dsimp only [recordInside, entrySize]
    rw [valueEntry_blob, hvalue, hspell, Content.read_append (by omega)]

end

/-! ## Both directions -/

/-- Wherever a file holds what a record was encoded to, in whatever is around it and wherever it
ends, the record is read back. What a buffer held before is of no account. -/
theorem decode_of_put {encoding : Encoding} {keySize valueSize : ℕ} {record : Record}
    (hvalid : encoding.validate keySize valueSize record = .ok ()) :
    (∀ size, encoding.leafRecordSize keySize valueSize = some size →
      ∀ buffer pointer, ByteArray.size buffer = size →
        encoding.putLeaf? buffer keySize record pointer =
            some (encoding.leaf keySize record pointer) ∧
          (encoding.leaf keySize record pointer).size = size) ∧
    (∀ buffer, encoding.putValue? buffer record =
      some (buffer ++ encoding.valueEntry record, (encoding.valueEntry record).size)) ∧
    (record.padded keySize).value? = record.value? ∧
    ∀ file offset pointer, Content.size file < Size.limit →
      file.Has offset (encoding.leaf keySize record pointer) →
      (encoding.usesValueRegion = true → file.Has pointer (encoding.valueEntry record)) →
      encoding.decodeLeaf file offset keySize valueSize = .ok (record.padded keySize) ∧
        encoding.decodeChecked? file offset keySize valueSize =
          some (.ok (record.padded keySize)) := by
  refine ⟨fun size hsize buffer pointer hbuffer => ?_, fun buffer => ?_, ?_,
    fun file offset pointer hfile hleaf hentry => ?_⟩
  · exact ⟨putLeaf?_eq hvalid hsize pointer hbuffer, size_leaf hvalid hsize pointer⟩
  · exact putValue?_eq hvalid buffer
  · cases record <;> rfl
  · have hpointer : encoding.usesValueRegion = true → pointer < Size.limit := by
      intro hregion
      have hend := (hentry hregion).size_le
      omega
    have hdecode := decodeLeaf_eq hvalid hleaf hentry hpointer
    exact ⟨hdecode, by rw [decodeChecked?_eq hfile, hdecode]⟩

namespace Sample

def record : Record := .blob [5].toByteArray [7, 8].toByteArray

/-- Its leaf record and, up to the end of the file, its value entry. -/
def file : Content :=
  .ofBytes (blob.leaf 2 record 10 ++ blob.valueEntry record)

/-- A leaf record whose pointer leads as far away as one can. -/
def dangling : Content :=
  .ofBytes (blob.leaf 2 record 0xFFFFFFFFFFFFFFFF)

end Sample

theorem decode_of_put_sample :
    blob.putLeaf? (Bytes.zeros 10) 2 Sample.record 10 = some (blob.leaf 2 Sample.record 10) ∧
      blob.putLeaf? (BigEndian.encode 10 (256 ^ 10 - 1)) 2 Sample.record 10 =
        some (blob.leaf 2 Sample.record 10) ∧
      blob.decodeLeaf Sample.file 0 2 0 =
        .ok (.blob [5, 0].toByteArray [7, 8].toByteArray) := by
  have hvalid : blob.validate 2 0 Sample.record = .ok () := rfl
  obtain ⟨hput, -, -, hdecode⟩ := decode_of_put hvalid
  refine ⟨(hput 10 rfl _ _ (Bytes.size_zeros 10)).1,
    (hput 10 rfl _ _ (BigEndian.size_encode _ _)).1, ?_⟩
  rw [(hdecode Sample.file 0 10 (by decide +kernel) ⟨by decide +kernel, by decide +kernel⟩
    fun _ => ⟨by decide +kernel, by decide +kernel⟩).1]
  decide +kernel

/-- From whatever bytes, a record is read exactly when its leaf record and its value entry are in
the file. It is then a record that can be stored, and stored as those bytes. -/
theorem put_of_decode (encoding : Encoding) (file : Content) (offset keySize valueSize : ℕ)
    (hfile : file.size < 2 ^ 63) (hkey : keySize < 2 ^ 63) (hvalue : valueSize < 2 ^ 63) :
    ∃ size, encoding.leafRecordSize keySize valueSize = some size ∧
      encoding.decodeChecked? file offset keySize valueSize =
        some (encoding.decodeLeaf file offset keySize valueSize) ∧
      ((∃ record, encoding.decodeLeaf file offset keySize valueSize = .ok record) ↔
        offset + size ≤ file.size ∧ encoding.EntryInside file offset keySize valueSize) ∧
      (∀ damage, encoding.decodeLeaf file offset keySize valueSize = .error damage →
        ∃ place count, damage = .extentOutside place count file.size) ∧
      ∀ record, encoding.decodeLeaf file offset keySize valueSize = .ok record →
        encoding.validate keySize valueSize record = .ok () ∧ record.key.size = keySize ∧
          encoding.leaf keySize record (storedPointer file offset keySize) =
            file.read offset size ∧
          encoding.valueEntry record = file.read (storedPointer file offset keySize)
            (encoding.entrySize file valueSize (storedPointer file offset keySize)) := by
  have hlimit : 2 ^ 63 < Size.limit := by decide
  obtain ⟨size, hsize⟩ := encoding.exists_leafRecordSize hkey hvalue
  refine ⟨size, hsize, decodeChecked?_eq (hfile.trans hlimit), ?_⟩
  by_cases hin : offset + size ≤ file.size
  · rw [decodeLeaf_of_room hsize hin]
    by_cases hentry : encoding.EntryInside file offset keySize valueSize
    · rw [decodeInside_of_entry hentry]
      refine ⟨⟨fun _ => ⟨hin, hentry⟩, fun _ => ⟨_, rfl⟩⟩, by rintro _ ⟨⟩, ?_⟩
      rintro _ ⟨⟩
      exact ⟨validate_recordInside hsize hin hentry, size_key_recordInside hsize hin,
        leaf_recordInside hsize hin, valueEntry_recordInside hentry⟩
    · obtain ⟨place, count, houtside⟩ := decodeInside_of_outside hentry
      rw [houtside]
      refine ⟨⟨by rintro ⟨_, ⟨⟩⟩, fun h => absurd h.2 hentry⟩, ?_, by rintro _ ⟨⟩⟩
      rintro _ ⟨⟩
      exact ⟨place, count, rfl⟩
  · obtain ⟨place, count, houtside⟩ := decodeLeaf_of_outside hsize hin
    rw [houtside]
    refine ⟨⟨by rintro ⟨_, ⟨⟩⟩, fun h => absurd h.1 hin⟩, ?_, by rintro _ ⟨⟩⟩
    rintro _ ⟨⟩
    exact ⟨place, count, rfl⟩

theorem put_of_decode_sample :
    (∃ record, blob.decodeLeaf Sample.file 0 2 0 = .ok record ∧
      blob.leaf 2 record 10 = Sample.file.read 0 10 ∧
      blob.valueEntry record = Sample.file.read 10 6) ∧
    ∃ damage, blob.decodeLeaf Sample.dangling 0 2 0 = .error damage ∧
      blob.decodeChecked? Sample.dangling 0 2 0 = some (.error damage) := by
  obtain ⟨size, hsize, -, hread, -, hspec⟩ := put_of_decode blob Sample.file 0 2 0
    (by decide +kernel) (by decide) (by decide)
  obtain ⟨_, hsize', hchecked, hnone, -, -⟩ := put_of_decode blob Sample.dangling 0 2 0
    (by decide +kernel) (by decide) (by decide)
  cases hsize
  cases hsize'
  constructor
  · obtain ⟨record, hrecord⟩ := hread.mpr ⟨by decide +kernel, fun _ => by decide +kernel⟩
    obtain ⟨-, -, hleaf, hentry⟩ := hspec record hrecord
    have hpointer : storedPointer Sample.file 0 2 = 10 := by decide +kernel
    have hlength : blob.entrySize Sample.file 0 10 = 6 := by decide +kernel
    rw [hpointer] at hleaf hentry
    rw [hlength] at hentry
    exact ⟨record, hrecord, hleaf, hentry⟩
  · cases hdecode : blob.decodeLeaf Sample.dangling 0 2 0 with
    | error damage => exact ⟨damage, rfl, by rw [hchecked, hdecode]⟩
    | ok record =>
      have hinside := (hnone.mp ⟨record, hdecode⟩).2 rfl
      exact absurd hinside (by decide +kernel)

end Encoding

end PackedIndex
