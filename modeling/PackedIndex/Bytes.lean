/-! # Byte strings

Keys, values and pages are byte arrays. This module cuts or extends one to a length, and writes one
over another at a position. `byteAt` reads past the end as zero, so that a
byte string is its size together with that reading (`ext_byteAt`), and each operation has one
equation for each of the two.
-/
namespace PackedIndex.Bytes

/-- Byte strings are equal when their bytes are, also where the equality is decided by reduction. -/
instance decidableEq : DecidableEq ByteArray := fun a b =>
  decidable_of_iff (a.data = b.data) ByteArray.ext_iff.symm

def zeros (count : Nat) : ByteArray :=
  if count = 0 then ByteArray.empty
  else
    let half := zeros (count / 2)
    if count % 2 = 0 then half ++ half else (half ++ half).push 0
termination_by count

/-- `data` cut to `size` bytes, or extended with zeros. -/
def resize (data : ByteArray) (size : Nat) : ByteArray :=
  data.extract 0 size ++ zeros (size - data.size)

/-- `data` with `patch` written from `offset` on; zeros fill a gap between the two. -/
def overlay (data : ByteArray) (offset : Nat) (patch : ByteArray) : ByteArray :=
  patch.copySlice 0
    (if offset + patch.size ≤ data.size then data else resize data (offset + patch.size))
    offset patch.size

/-- The byte at `i`, zero past the end. -/
def byteAt (data : ByteArray) (i : Nat) : UInt8 :=
  if h : i < data.size then data[i] else 0

theorem byteAt_of_lt {data : ByteArray} {i : Nat} (h : i < data.size) : byteAt data i = data[i] :=
  dif_pos h

theorem byteAt_of_size_le {data : ByteArray} {i : Nat} (h : data.size ≤ i) : byteAt data i = 0 :=
  dif_neg (Nat.not_lt.mpr h)

theorem ext_byteAt {a b : ByteArray} (hs : a.size = b.size)
    (h : ∀ i < a.size, byteAt a i = byteAt b i) : a = b := by
  refine ByteArray.ext_getElem hs fun i hi hj => ?_
  rw [← byteAt_of_lt hi, ← byteAt_of_lt hj, h i hi]

@[simp] theorem byteAt_empty (i : Nat) : byteAt ByteArray.empty i = 0 :=
  byteAt_of_size_le (Nat.zero_le i)

theorem byteAt_append (a b : ByteArray) (i : Nat) :
    byteAt (a ++ b) i = if i < a.size then byteAt a i else byteAt b (i - a.size) := by
  have hs := ByteArray.size_append (a := a) (b := b)
  split
  · rename_i h
    rw [byteAt_of_lt (by omega), byteAt_of_lt h, ByteArray.getElem_append_left h]
  · rename_i h
    by_cases hb : i - a.size < b.size
    · rw [byteAt_of_lt (by omega), byteAt_of_lt hb, ByteArray.getElem_append_right (by omega)]
    · rw [byteAt_of_size_le (by omega), byteAt_of_size_le (by omega)]

theorem byteAt_extract (data : ByteArray) (start stop i : Nat) :
    byteAt (data.extract start stop) i = if start + i < stop then byteAt data (start + i) else 0 := by
  have hs := ByteArray.size_extract (a := data) (b := start) (e := stop)
  by_cases h : i < (data.extract start stop).size
  · rw [byteAt_of_lt h, ByteArray.getElem_extract, if_pos (by omega), byteAt_of_lt]
  · rw [byteAt_of_size_le (Nat.not_lt.mp h)]
    split
    · rw [byteAt_of_size_le (by omega)]
    · rfl

@[simp] theorem size_zeros (count : Nat) : (zeros count).size = count := by
  induction count using Nat.strongRecOn with
  | ind count ih =>
    rw [zeros]
    split
    · simp_all
    · have := ih (count / 2) (by omega)
      split <;> simp [this] <;> omega

@[simp] theorem byteAt_zeros (count i : Nat) : byteAt (zeros count) i = 0 := by
  induction count using Nat.strongRecOn generalizing i with
  | ind count ih =>
    rw [zeros]
    split
    · simp
    · have hd (j : Nat) : byteAt (zeros (count / 2) ++ zeros (count / 2)) j = 0 := by
        rw [byteAt_append]; split <;> exact ih _ (by omega) _
      split
      · exact hd i
      · have hp (a : ByteArray) : a.push 0 = a ++ [0].toByteArray := by
          apply ByteArray.ext; simp [ByteArray.data_push]
        rw [hp, byteAt_append]
        split
        · exact hd i
        · generalize i - (zeros (count / 2) ++ zeros (count / 2)).size = j
          match j with
          | 0 => rfl
          | j + 1 => exact byteAt_of_size_le (by simp)

@[simp] theorem size_resize (data : ByteArray) (size : Nat) : (resize data size).size = size := by
  simp [resize]; omega

theorem byteAt_resize (data : ByteArray) (size i : Nat) :
    byteAt (resize data size) i = if i < size then byteAt data i else 0 := by
  rw [resize, byteAt_append, byteAt_extract, byteAt_zeros, ByteArray.size_extract]
  split
  · simp
  · split
    · rw [byteAt_of_size_le (by omega)]
    · rfl

@[simp] theorem size_overlay (data : ByteArray) (offset : Nat) (patch : ByteArray) :
    (overlay data offset patch).size = max data.size (offset + patch.size) := by
  rw [overlay, ByteArray.copySlice_eq_append]
  split <;> simp <;> omega

theorem byteAt_overlay (data : ByteArray) (offset : Nat) (patch : ByteArray) (i : Nat) :
    byteAt (overlay data offset patch) i =
      if offset ≤ i ∧ i < offset + patch.size then byteAt patch (i - offset) else byteAt data i := by
  have base : ∀ wide : ByteArray, offset + patch.size ≤ wide.size →
      (∀ j, byteAt wide j = byteAt data j) →
      byteAt (patch.copySlice 0 wide offset patch.size) i =
        if offset ≤ i ∧ i < offset + patch.size then byteAt patch (i - offset)
        else byteAt data i := by
    intro wide hw hj
    have e1 : (wide.extract 0 offset).size = offset := by simp; omega
    have e2 : patch.extract 0 (0 + patch.size) = patch := by simp
    have e3 : min patch.size (patch.data.size - 0) = patch.size := by simp
    rw [ByteArray.copySlice_eq_append, e2, e3]
    simp only [byteAt_append, ByteArray.size_append, e1, byteAt_extract, Nat.zero_add, hj,
      ByteArray.size_data]
    by_cases h1 : i < offset
    · rw [if_pos (by omega), if_pos h1, if_pos h1, if_neg (by omega)]
    · by_cases h2 : i < offset + patch.size
      · rw [if_pos h2, if_neg h1, if_pos (by omega)]
      · have h3 : ¬ (offset ≤ i ∧ i < offset + patch.size) := by omega
        rw [if_neg h2, if_neg h3, Nat.add_sub_cancel' (by omega)]
        split
        · rfl
        · rw [← hj, byteAt_of_size_le (by omega)]
  rw [overlay]
  split
  · exact base data (by assumption) fun _ => rfl
  · rename_i h
    refine base _ (by simp) fun j => ?_
    rw [byteAt_resize]
    split
    · rfl
    · rw [byteAt_of_size_le (by omega)]

end PackedIndex.Bytes
