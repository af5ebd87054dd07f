import Mathlib.Tactic
import PackedIndex.Bytes.Crc32
import PackedIndex.Proofs.Bytes
/-! # What a checksum tells apart

A step of the division is linear in exclusive or and loses nothing, so that two different states
never come to the same again under the same input. Four bytes of input are no more than a state
holds: other bytes in their place lead to another state, and so to another checksum.
-/
namespace PackedIndex

namespace Bytes

theorem extract_congr {data other : ByteArray} {start stop : ℕ} (hsize : other.size = data.size)
    (h : ∀ i, start ≤ i → i < stop → byteAt other i = byteAt data i) :
    other.extract start stop = data.extract start stop := by
  apply ext_byteAt (by rw [ByteArray.size_extract, ByteArray.size_extract, hsize])
  intro i _
  rw [byteAt_extract, byteAt_extract]
  split_ifs with hi
  · exact h _ (Nat.le_add_right _ _) hi
  · rfl

theorem eq_three_parts (data : ByteArray) (start stop : ℕ) (h : start ≤ stop) :
    data = data.extract 0 start ++ (data.extract start stop ++ data.extract stop data.size) := by
  rw [ByteArray.extract_append_extract, Nat.min_eq_left h, ByteArray.extract_append_extract,
    Nat.min_eq_left (Nat.zero_le start), Nat.max_eq_right (h.trans (Nat.le_max_left _ _)),
    ByteArray.extract_zero_max_size]

end Bytes

namespace Crc32

/-! ## One step -/

/-- A step moves all bits down by one, and adds the polynomial where a bit falls out. -/
theorem toNat_shift (state : UInt32) :
    (shift state).toNat = state.toNat / 2 ^^^ if state.toNat % 2 = 1 then 0xEDB88320 else 0 := by
  have hlow : state &&& 1 = 1 ↔ state.toNat % 2 = 1 := by
    rw [← UInt32.toNat_inj, UInt32.toNat_and, ← Nat.and_one_is_mod]
    rfl
  unfold shift
  simp only [hlow]
  split_ifs <;> simp [Nat.shiftRight_eq_div_pow]

theorem shift_xor (a b : UInt32) : shift (a ^^^ b) = shift a ^^^ shift b := by
  have hlow : (a ^^^ b).toNat % 2 = a.toNat % 2 ^^^ b.toNat % 2 := by
    rw [UInt32.toNat_xor]
    exact Nat.xor_mod_two_pow (n := 1)
  have hhigh : (a ^^^ b).toNat / 2 = a.toNat / 2 ^^^ b.toNat / 2 := by
    rw [UInt32.toNat_xor]
    exact Nat.xor_div_two_pow (n := 1)
  have hswap : ∀ x y p q : ℕ, (x ^^^ p) ^^^ (y ^^^ q) = (x ^^^ y) ^^^ (p ^^^ q) := by
    intro x y p q
    ac_rfl
  rw [← UInt32.toNat_inj, UInt32.toNat_xor, toNat_shift, toNat_shift, toNat_shift, hlow, hhigh,
    hswap]
  congr 1
  rcases Nat.mod_two_eq_zero_or_one a.toNat with ha | ha <;>
    rcases Nat.mod_two_eq_zero_or_one b.toNat with hb | hb <;> simp [ha, hb]

/-- The highest bit of the polynomial tells that it was added. -/
theorem eq_zero_of_shift {state : UInt32} (h : shift state = 0) : state = 0 := by
  have hlt := state.toNat_lt
  have hlow : (state &&& 1).toNat = state.toNat % 2 := by
    rw [UInt32.toNat_and, ← Nat.and_one_is_mod]
    rfl
  have hhigh : (state >>> 1).toNat = state.toNat / 2 := by
    simp [Nat.shiftRight_eq_div_pow]
  rw [← UInt32.toNat_inj, UInt32.toNat_zero]
  unfold shift at h
  split_ifs at h with hbit
  · have hpolynomial : (0xEDB88320 : UInt32).toNat = 0xEDB88320 := rfl
    have hsame := congrArg UInt32.toNat (UInt32.xor_eq_zero_iff.mp h)
    rw [hhigh, hpolynomial] at hsame
    omega
  · have hzero := congrArg UInt32.toNat h
    rw [hhigh, UInt32.toNat_zero] at hzero
    rw [← UInt32.toNat_inj, hlow, UInt32.toNat_one] at hbit
    omega

theorem shift_double {n : ℕ} (h : 2 * n < 2 ^ 32) : shift (2 * n).toUInt32 = n.toUInt32 := by
  have hwhole : (2 * n).toUInt32.toNat = 2 * n := by
    simpa using h
  have hhalf : n.toUInt32.toNat = n := by
    rw [Nat.toUInt32_eq, UInt32.toNat_ofNat', Nat.mod_eq_of_lt (by omega)]
  rw [← UInt32.toNat_inj, toNat_shift, hwhole, hhalf]
  simp

/-! ## One byte -/

theorem shiftByte_xor (a b : UInt32) : shiftByte (a ^^^ b) = shiftByte a ^^^ shiftByte b := by
  simp only [shiftByte, shift_xor]

theorem shiftByte_inj {a b : UInt32} : shiftByte a = shiftByte b ↔ a = b := by
  refine ⟨fun h => ?_, congrArg shiftByte⟩
  rw [← UInt32.xor_eq_zero_iff, ← shiftByte_xor] at h
  rw [← UInt32.xor_eq_zero_iff]
  unfold shiftByte at h
  iterate 8 replace h := eq_zero_of_shift h
  exact h

theorem shiftByte_mul {n : ℕ} (h : n < 2 ^ 24) : shiftByte (256 * n).toUInt32 = n.toUInt32 := by
  have hsplit : 256 * n = 2 * (2 * (2 * (2 * (2 * (2 * (2 * (2 * n))))))) := by omega
  rw [hsplit, shiftByte]
  iterate 8 rw [shift_double (by omega)]

theorem get_table (byte : UInt8) :
    table.get ⟨byte.toNat, UInt8.toNat_lt byte⟩ = shiftByte byte.toUInt32 := by
  have hlt : byte.toNat < 256 := byte.toNat_lt
  have hentry : table[byte.toNat] = shiftByte byte.toNat.toUInt32 := Vector.getElem_ofFn hlt
  have hword : byte.toNat.toUInt32 = byte.toUInt32 := by
    rw [← UInt32.toNat_inj]
    simp
  rw [← hword]
  exact hentry

theorem eq_high_xor_low (state : UInt32) :
    state = (256 * (state.toNat / 256)).toUInt32 ^^^ state.toUInt8.toUInt32 := by
  have hlt := state.toNat_lt
  have hlow : state.toNat % 2 ^ 8 < 2 ^ 8 := Nat.mod_lt _ (by decide)
  have hclear : 256 * (state.toNat / 256) % 2 ^ 8 = 0 := Nat.mul_mod_right _ _
  have hdiv : (256 * (state.toNat / 256) ^^^ state.toNat % 2 ^ 8) / 2 ^ 8 =
      256 * (state.toNat / 256) / 2 ^ 8 := by
    rw [Nat.xor_div_two_pow, Nat.div_eq_of_lt hlow, Nat.xor_zero]
  have hmod : (256 * (state.toNat / 256) ^^^ state.toNat % 2 ^ 8) % 2 ^ 8 =
      state.toNat % 2 ^ 8 := by
    rw [Nat.xor_mod_two_pow, hclear, Nat.zero_xor, Nat.mod_mod]
  rw [← UInt32.toNat_inj, UInt32.toNat_xor, UInt8.toNat_toUInt32, UInt32.toNat_toUInt8,
    Nat.toUInt32_eq, UInt32.toNat_ofNat', Nat.mod_eq_of_lt (by omega)]
  omega

/-- A byte taken from the table is a byte of the division. -/
theorem absorb_eq (state : UInt32) (byte : UInt8) :
    absorb state byte = shiftByte (state ^^^ byte.toUInt32) := by
  have hlt := state.toNat_lt
  have hhigh : state >>> 8 = (state.toNat / 256).toUInt32 := by
    rw [← UInt32.toNat_inj]
    simp [Nat.shiftRight_eq_div_pow]
    omega
  calc absorb state byte
    _ = (state.toNat / 256).toUInt32 ^^^ shiftByte (state.toUInt8 ^^^ byte).toUInt32 := by
      rw [← hhigh, ← get_table]
      rfl
    _ = shiftByte ((256 * (state.toNat / 256)).toUInt32 ^^^
          (state.toUInt8.toUInt32 ^^^ byte.toUInt32)) := by
      rw [shiftByte_xor, shiftByte_mul (by omega), UInt8.toUInt32_xor]
    _ = shiftByte (state ^^^ byte.toUInt32) := by
      rw [← UInt32.xor_assoc, ← eq_high_xor_low]

theorem absorb_inj {a b : UInt32} {byte : UInt8} : absorb a byte = absorb b byte ↔ a = b := by
  rw [absorb_eq, absorb_eq, shiftByte_inj, UInt32.xor_left_inj]

/-- States that are less than three bytes apart behind a byte were less than four apart in front of
it: the division only moved their difference down. -/
theorem xor_eq_of_absorb {a b : UInt32} {x y : UInt8}
    (h : (absorb a x ^^^ absorb b y).toNat < 2 ^ 24) :
    (a ^^^ b) ^^^ (x ^^^ y).toUInt32 = (256 * (absorb a x ^^^ absorb b y).toNat).toUInt32 := by
  have hapart : absorb a x ^^^ absorb b y = shiftByte ((a ^^^ b) ^^^ (x ^^^ y).toUInt32) := by
    rw [absorb_eq, absorb_eq, ← shiftByte_xor, UInt8.toUInt32_xor]
    congr 1
    ac_rfl
  rw [← shiftByte_inj, shiftByte_mul h, ← hapart]
  exact UInt32.ofNat_toNat.symm

/-! ## Many bytes -/

theorem foldl_absorb_inj {a b : UInt32} (bytes : List UInt8) :
    bytes.foldl absorb a = bytes.foldl absorb b ↔ a = b := by
  induction bytes generalizing a b with
  | nil => rfl
  | cons byte bytes ih => rw [List.foldl_cons, List.foldl_cons, ih, absorb_inj]

/-- States that come to the same over a few bytes differ in as many bytes at most. -/
theorem xor_lt_of_foldl_eq {a b : UInt32} {first second : List UInt8}
    (hlength : first.length = second.length) (hfew : first.length ≤ 4)
    (h : first.foldl absorb a = second.foldl absorb b) :
    (a ^^^ b).toNat < 2 ^ (8 * first.length) := by
  induction first generalizing a b second with
  | nil =>
    rw [List.eq_nil_of_length_eq_zero hlength.symm] at h
    have hsame : a = b := h
    rw [hsame, UInt32.xor_self]
    decide
  | cons x first ih =>
    obtain ⟨y, second, rfl⟩ := List.exists_cons_of_length_eq_add_one hlength.symm
    rw [List.length_cons] at hfew
    have hnext := ih (Nat.succ.inj hlength) (by omega) h
    -- behind the first byte the states are at most three bytes apart, by induction
    have hnear : (absorb a x ^^^ absorb b y).toNat < 2 ^ 24 :=
      hnext.trans_le (Nat.pow_le_pow_right (by decide) (by omega))
    have hpower : 2 ^ (8 * (first.length + 1)) = 256 * 2 ^ (8 * first.length) := by
      rw [Nat.mul_add, pow_add, Nat.mul_comm]
      rfl
    have hbyte : (x ^^^ y).toNat < 256 := (x ^^^ y).toNat_lt
    have hdiffer : a ^^^ b =
        (256 * (absorb a x ^^^ absorb b y).toNat).toUInt32 ^^^ (x ^^^ y).toUInt32 := by
      rw [← xor_eq_of_absorb hnear, UInt32.xor_assoc, UInt32.xor_self, UInt32.xor_zero]
    rw [hdiffer, UInt32.toNat_xor, UInt8.toNat_toUInt32, Nat.toUInt32_eq, UInt32.toNat_ofNat',
      Nat.mod_eq_of_lt (by omega), List.length_cons]
    refine Nat.xor_lt_two_pow ?_ ?_
    · rw [hpower]
      omega
    · have hpos := Nat.two_pow_pos (8 * first.length)
      rw [hpower]
      omega

theorem eq_of_foldl_eq {state : UInt32} {first second : List UInt8}
    (hlength : first.length = second.length) (hfew : first.length ≤ 4)
    (h : first.foldl absorb state = second.foldl absorb state) : first = second := by
  induction first generalizing state second with
  | nil => exact (List.eq_nil_of_length_eq_zero hlength.symm).symm
  | cons x first ih =>
    obtain ⟨y, second, rfl⟩ := List.exists_cons_of_length_eq_add_one hlength.symm
    rw [List.length_cons] at hfew
    have hrest : first.length = second.length := Nat.succ.inj hlength
    have hnear := (xor_lt_of_foldl_eq hrest (by omega) h).trans_le
      (Nat.pow_le_pow_right (by decide) (show 8 * first.length ≤ 24 by omega))
    -- one byte cannot make up for a difference in the bytes above it
    have hdiffer := congrArg UInt32.toNat (xor_eq_of_absorb hnear)
    have hbyte : (x ^^^ y).toNat < 256 := (x ^^^ y).toNat_lt
    rw [UInt32.xor_self, UInt32.zero_xor, UInt8.toNat_toUInt32, Nat.toUInt32_eq,
      UInt32.toNat_ofNat', Nat.mod_eq_of_lt (by omega)] at hdiffer
    have hzero : (x ^^^ y).toNat = 0 := by omega
    obtain rfl : x = y := UInt8.xor_eq_zero_iff.mp (UInt8.toNat_inj.mp hzero)
    rw [ih hrest (by omega) h]

/-! ## Checksums -/

theorem absorbFrom_eq (state : UInt32) (data : ByteArray) (i : ℕ) :
    absorbFrom state data i = (data.data.toList.drop i).foldl absorb state := by
  fun_induction absorbFrom state data i with
  | case1 state i h ih =>
    have hdrop : data.data.toList.drop i = data[i] :: data.data.toList.drop (i + 1) :=
      List.drop_eq_getElem_cons h
    rw [ih, hdrop, List.foldl_cons]
  | case2 state i h => rw [List.drop_of_length_le (not_lt.mp h), List.foldl_nil]

theorem checksum_eq (data : ByteArray) :
    checksum data = data.data.toList.foldl absorb 0xFFFFFFFF ^^^ 0xFFFFFFFF := by
  rw [checksum, absorbFrom_eq, List.drop_zero]

example : checksum "123456789".toUTF8 = 0xCBF43926 := by decide +kernel

theorem checksum_inj {data other : ByteArray} :
    checksum data = checksum other ↔
      data.data.toList.foldl absorb 0xFFFFFFFF = other.data.toList.foldl absorb 0xFFFFFFFF := by
  rw [checksum_eq, checksum_eq, UInt32.xor_left_inj]

/-- Byte strings that differ within four consecutive places have different checksums. -/
theorem checksum_ne {data other : ByteArray} {start : ℕ} (hsize : other.size = data.size)
    (hne : other ≠ data)
    (hnear : ∀ i, Bytes.byteAt other i ≠ Bytes.byteAt data i → start ≤ i ∧ i < start + 4) :
    checksum other ≠ checksum data := by
  -- only the four bytes in the middle can differ, and the absorption of the others is injective
  have hfront : other.extract 0 start = data.extract 0 start := by
    refine Bytes.extract_congr hsize fun i _ hi => ?_
    by_contra hdiffer
    exact absurd (hnear i hdiffer).1 (not_le.mpr hi)
  have hback : other.extract (start + 4) data.size = data.extract (start + 4) data.size := by
    refine Bytes.extract_congr hsize fun i hi _ => ?_
    by_contra hdiffer
    exact absurd (hnear i hdiffer).2 (not_lt.mpr hi)
  have hlength : (other.extract start (start + 4)).data.toList.length =
      (data.extract start (start + 4)).data.toList.length := by
    change (other.extract start (start + 4)).size = (data.extract start (start + 4)).size
    rw [ByteArray.size_extract, ByteArray.size_extract, hsize]
  have hfew : (other.extract start (start + 4)).data.toList.length ≤ 4 := by
    change (other.extract start (start + 4)).size ≤ 4
    rw [ByteArray.size_extract]
    omega
  intro h
  refine hne ?_
  rw [checksum_inj, Bytes.eq_three_parts other start (start + 4) (Nat.le_add_right _ _),
    Bytes.eq_three_parts data start (start + 4) (Nat.le_add_right _ _), hsize, hfront, hback] at h
  simp only [ByteArray.data_append, Array.toList_append, List.foldl_append, foldl_absorb_inj] at h
  have hmiddle := eq_of_foldl_eq hlength hfew h
  rw [Array.toList_inj, ← ByteArray.ext_iff] at hmiddle
  rw [Bytes.eq_three_parts other start (start + 4) (Nat.le_add_right _ _),
    Bytes.eq_three_parts data start (start + 4) (Nat.le_add_right _ _), hsize, hfront, hmiddle,
    hback]

end Crc32

end PackedIndex
