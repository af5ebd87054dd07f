import PackedIndex.Bytes
import PackedIndex.Bytes.BigEndian
import Mathlib.Tactic
/-! # Byte strings in pieces

Integers read back as they were written, and byte strings put together from pieces: `join` takes a
list of them, `tile` a number of pieces of one width, each of which is found again at its multiple
of the width.
-/
namespace PackedIndex

namespace BigEndian

theorem value_concat (front : List UInt8) (digit : UInt8) :
    value (front ++ [digit]) = 256 * value front + digit.toNat := by
  simp [value, List.foldl_append]

theorem value_digits (width n : ℕ) : value (digits width n) = n % 256 ^ width := by
  induction width generalizing n with
  | zero => simp [digits, value, Nat.mod_one]
  | succ width ih =>
    have hdigit : n.toUInt8.toNat = n % 256 := by simp
    rw [digits, value_concat, ih, hdigit, pow_succ, Nat.mul_comm (256 ^ width), Nat.mod_mul]
    omega

@[simp] theorem decode_encode (width n : ℕ) : decode (encode width n) = n % 256 ^ width := by
  rw [decode, encode, List.data_toByteArray, value_digits]

theorem digits_value (digits : List UInt8) :
    BigEndian.digits digits.length (value digits) = digits := by
  induction digits using List.reverseRecOn with
  | nil => rfl
  | append_singleton front digit ih =>
    have hlt := digit.toNat_lt
    have hhigh : (256 * value front + digit.toNat) / 256 = value front := by omega
    have hlow : (256 * value front + digit.toNat).toUInt8 = digit := by
      simp
    rw [List.length_append, List.length_singleton, BigEndian.digits, value_concat, hhigh, hlow, ih]

theorem encode_decode (data : ByteArray) : encode data.size (decode data) = data := by
  have h := digits_value data.data.toList
  rw [Array.length_toList] at h
  rw [encode, decode]
  change (BigEndian.digits data.data.size _).toByteArray = data
  rw [h]
  exact ByteArray.ext (by simp)

theorem decode_lt (data : ByteArray) : decode data < 256 ^ data.size := by
  have h := decode_encode data.size (decode data)
  rw [encode_decode] at h
  rw [h]
  exact Nat.mod_lt _ (Nat.pow_pos (by decide))

theorem extract_eq_encode {data : ByteArray} {offset : ℕ} (h : offset + 4 ≤ data.size) :
    data.extract offset (offset + 4) = encode 4 (read data offset 4).toUInt32.toNat := by
  have hsize : (data.extract offset (offset + 4)).size = 4 := by
    rw [ByteArray.size_extract]
    omega
  have hlt := decode_lt (data.extract offset (offset + 4))
  have hspell := encode_decode (data.extract offset (offset + 4))
  rw [hsize] at hlt hspell
  have hword : (read data offset 4).toUInt32.toNat = decode (data.extract offset (offset + 4)) := by
    rw [read, Nat.toUInt32_eq, UInt32.toNat_ofNat']
    exact Nat.mod_eq_of_lt hlt
  rw [hword, hspell]

end BigEndian

namespace Bytes

theorem extract_resize {data : ByteArray} {size start stop : ℕ} (hstop : stop ≤ data.size)
    (hsize : stop ≤ size) : (resize data size).extract start stop = data.extract start stop := by
  apply ext_byteAt (by simp only [ByteArray.size_extract, size_resize]; omega)
  intro i hi
  simp only [byteAt_extract, byteAt_resize]
  split_ifs <;> first | rfl | omega

theorem resize_of_size_eq {data : ByteArray} {size : ℕ} (h : data.size = size) :
    resize data size = data := by
  apply ext_byteAt (by rw [size_resize, h])
  intro i hi
  rw [size_resize] at hi
  rw [byteAt_resize, if_pos hi]

theorem resize_of_le {data : ByteArray} {size : ℕ} (h : data.size ≤ size) :
    resize data size = data ++ zeros (size - data.size) := by
  have hwhole := ByteArray.extract_zero_max_size (a := data) (i := size)
  rw [Nat.max_eq_left h] at hwhole
  rw [resize, hwhole]

theorem toList_zeros (count : ℕ) : (zeros count).data.toList = List.replicate count 0 := by
  refine List.eq_replicate_iff.mpr ⟨size_zeros count, fun byte hbyte => ?_⟩
  obtain ⟨i, hi, rfl⟩ := List.mem_iff_getElem.mp hbyte
  have hzero := byteAt_zeros count i
  rwa [byteAt_of_lt hi] at hzero

theorem toList_resize {data : ByteArray} {size : ℕ} (h : data.size ≤ size) :
    (resize data size).data.toList =
      data.data.toList ++ List.replicate (size - data.size) 0 := by
  rw [resize_of_le h, ByteArray.data_append, Array.toList_append, toList_zeros]

theorem resize_empty (size : ℕ) : resize ByteArray.empty size = zeros size :=
  ext_byteAt (by simp) fun i _ => by simp [byteAt_resize]

theorem resize_append_zeros (data : ByteArray) (count size : ℕ) :
    resize (data ++ zeros count) size = resize data size := by
  apply ext_byteAt (by simp)
  intro i _
  simp only [byteAt_resize, byteAt_append, byteAt_zeros]
  split_ifs with hsize hi
  · rfl
  · exact (byteAt_of_size_le (not_lt.mp hi)).symm
  · rfl

theorem overlay_resize {data patch : ByteArray} {size : ℕ} (h : data.size + patch.size ≤ size) :
    overlay (resize data size) data.size patch = resize (data ++ patch) size := by
  apply ext_byteAt (by simp only [size_overlay, size_resize]; omega)
  intro i _
  simp only [byteAt_overlay, byteAt_resize, byteAt_append]
  split_ifs <;> first | omega | rfl | (rw [byteAt_of_size_le, byteAt_of_size_le] <;> omega)

theorem overlay_resize_inside {data patch : ByteArray} {size offset : ℕ}
    (hsize : offset + patch.size ≤ size) :
    overlay (resize data size) offset patch = resize (overlay data offset patch) size := by
  apply ext_byteAt (by simp only [size_overlay, size_resize]; omega)
  intro i hi
  simp only [size_overlay, size_resize] at hi
  simp only [byteAt_overlay, byteAt_resize]
  split_ifs <;> first | omega | rfl

theorem overlay_append {front back patch : ByteArray} {offset : ℕ}
    (h : offset + patch.size ≤ front.size) :
    overlay (front ++ back) offset patch = overlay front offset patch ++ back := by
  apply ext_byteAt (by simp only [size_overlay, ByteArray.size_append]; omega)
  intro i hi
  simp only [size_overlay, ByteArray.size_append] at hi
  simp only [byteAt_overlay, byteAt_append, size_overlay]
  split_ifs <;> first | omega | rfl | (congr 1; omega)

def join (parts : List ByteArray) : ByteArray :=
  parts.foldl (· ++ ·) ByteArray.empty

@[simp] theorem join_nil : join [] = ByteArray.empty := rfl

private theorem foldl_append (parts : List ByteArray) (front : ByteArray) :
    parts.foldl (· ++ ·) front = front ++ join parts := by
  induction parts generalizing front with
  | nil => simp
  | cons part parts ih =>
    simp only [join, List.foldl_cons, ByteArray.empty_append]
    rw [ih (front ++ part), ih part, ByteArray.append_assoc]

@[simp] theorem join_cons (part : ByteArray) (parts : List ByteArray) :
    join (part :: parts) = part ++ join parts := by
  rw [join, List.foldl_cons, ByteArray.empty_append, foldl_append]

@[simp] theorem join_append (front back : List ByteArray) :
    join (front ++ back) = join front ++ join back := by
  rw [join, List.foldl_append, foldl_append]
  rfl

theorem extract_append_left {front back : ByteArray} {start stop : ℕ} (h : stop ≤ front.size) :
    (front ++ back).extract start stop = front.extract start stop := by
  have hback : back.extract (start - front.size) (stop - front.size) = ByteArray.empty := by
    rw [ByteArray.extract_eq_empty_iff]
    omega
  rw [ByteArray.extract_append, hback, ByteArray.append_empty]

theorem extract_append_right (front back : ByteArray) (start stop : ℕ) :
    (front ++ back).extract (front.size + start) (front.size + stop) = back.extract start stop := by
  have hfront : front.extract (front.size + start) (front.size + stop) = ByteArray.empty := by
    rw [ByteArray.extract_eq_empty_iff]
    omega
  rw [ByteArray.extract_append, hfront, ByteArray.empty_append, Nat.add_sub_cancel_left,
    Nat.add_sub_cancel_left]

theorem extract_middle (front middle back : ByteArray) :
    (front ++ (middle ++ back)).extract front.size (front.size + middle.size) = middle := by
  apply ext_byteAt
  · simp only [ByteArray.size_extract, ByteArray.size_append]
    omega
  · intro i hi
    simp only [ByteArray.size_extract, ByteArray.size_append] at hi
    simp only [byteAt_extract, byteAt_append]
    rw [if_pos (by omega), if_neg (by omega), Nat.add_sub_cancel_left, if_pos (by omega)]

theorem extract_of_extract {data : ByteArray} (front middle back : ByteArray) {start stop : ℕ}
    (h : data.extract start stop = front ++ (middle ++ back)) :
    data.extract (start + front.size) (start + front.size + middle.size) = middle := by
  have hsize := congrArg ByteArray.size h
  simp only [ByteArray.size_extract, ByteArray.size_append] at hsize
  apply ext_byteAt
  · rw [ByteArray.size_extract]
    omega
  · intro i hi
    rw [ByteArray.size_extract] at hi
    have hbyte := congrArg (fun bytes => byteAt bytes (front.size + i)) h
    simp only [byteAt_extract, byteAt_append] at hbyte
    rw [if_pos (by omega), if_neg (by omega), Nat.add_sub_cancel_left, if_pos (by omega),
      ← Nat.add_assoc] at hbyte
    rw [byteAt_extract, if_pos (by omega), hbyte]

/-- A part of a joined list is found behind the parts in front of it. -/
theorem extract_join {parts : List ByteArray} {i start width : ℕ} {part : ByteArray}
    (hpart : parts[i]? = some part) (hstart : (join (parts.take i)).size = start)
    (hwidth : part.size = width) : (join parts).extract start (start + width) = part := by
  obtain ⟨hi, rfl⟩ := List.getElem?_eq_some_iff.mp hpart
  have hjoin : join parts = join (parts.take i) ++ (parts[i] ++ join (parts.drop (i + 1))) := by
    rw [← join_cons, ← List.drop_eq_getElem_cons hi, ← join_append, List.take_append_drop]
  rw [hjoin, ← hstart, ← hwidth]
  exact extract_middle _ _ _

/-- The first `count` pieces one behind the other. -/
def tile (count : ℕ) (piece : ℕ → ByteArray) : ByteArray :=
  join ((List.range count).map piece)

@[simp] theorem tile_zero (piece : ℕ → ByteArray) : tile 0 piece = ByteArray.empty := rfl

theorem tile_succ (count : ℕ) (piece : ℕ → ByteArray) :
    tile (count + 1) piece = tile count piece ++ piece count := by
  simp [tile, List.range_succ]

theorem tile_congr {count : ℕ} {piece other : ℕ → ByteArray}
    (h : ∀ i < count, piece i = other i) : tile count piece = tile count other := by
  unfold tile
  congr 1
  exact List.map_congr_left fun i hi => h i (List.mem_range.mp hi)

theorem size_tile {count width : ℕ} {piece : ℕ → ByteArray}
    (h : ∀ i < count, (piece i).size = width) : (tile count piece).size = count * width := by
  induction count with
  | zero => simp
  | succ count ih =>
    rw [tile_succ, ByteArray.size_append, ih fun i hi => h i (by omega), h count (by omega),
      Nat.succ_mul]

theorem extract_tile {count width : ℕ} {piece : ℕ → ByteArray}
    (h : ∀ i < count, (piece i).size = width) {i : ℕ} (hi : i < count) :
    (tile count piece).extract (i * width) (i * width + width) = piece i := by
  induction count with
  | zero => omega
  | succ count ih =>
    have hsize := size_tile fun i hi => h i (Nat.lt_succ_of_lt hi)
    rw [tile_succ, ByteArray.extract_append, hsize]
    rcases Nat.lt_succ_iff_lt_or_eq.mp hi with hlt | rfl
    · have hfit : i * width + width ≤ count * width := by
        rw [← Nat.succ_mul]
        exact Nat.mul_le_mul_right width hlt
      have hrest : (piece count).extract (i * width - count * width)
          (i * width + width - count * width) = ByteArray.empty := by
        rw [ByteArray.extract_eq_empty_iff]
        omega
      rw [hrest, ByteArray.append_empty, ih (fun i hi => h i (by omega)) hlt]
    · have hfront : (tile i piece).extract (i * width) (i * width + width) = ByteArray.empty := by
        rw [ByteArray.extract_eq_empty_iff]
        omega
      have hwhole : i * width + width - i * width = (piece i).size := by
        rw [h i (Nat.lt_succ_self i)]
        omega
      rw [hfront, ByteArray.empty_append, Nat.sub_self, hwhole, ByteArray.extract_zero_size]

end Bytes

end PackedIndex
