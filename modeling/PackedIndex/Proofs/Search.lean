import Mathlib.Tactic
import PackedIndex.Search
/-! # Where a scan stops

A scan stops at the first key that the query is not greater than. Nothing is asked of the order
here: the query may well be greater than a later key, too.
-/
namespace PackedIndex.Search

variable {order : KeyOrder} {query page : ByteArray} {stride keySize : ℕ}

/-- The query is greater than each of the first `count` keys of a page. -/
def Passes (order : KeyOrder) (query page : ByteArray) (stride keySize count : ℕ) : Prop :=
  ∀ slot < count, order query (keyAt page stride keySize slot) = .gt

theorem scan_spec (start count : ℕ) (hstart : Passes order query page stride keySize start) :
    (scan order query page stride keySize start count = none ∧
      Passes order query page stride keySize (start + count)) ∨
    ∃ slot < start + count, Passes order query page stride keySize slot ∧
      (order query (keyAt page stride keySize slot) = .eq ∧
          scan order query page stride keySize start count = some (slot, true) ∨
        order query (keyAt page stride keySize slot) = .lt ∧
          scan order query page stride keySize start count = some (slot, false)) := by
  induction count generalizing start with
  | zero => exact Or.inl ⟨rfl, hstart⟩
  | succ count ih =>
    unfold scan
    cases hcompare : order query (keyAt page stride keySize start) with
    | lt => exact Or.inr ⟨start, by omega, hstart, Or.inr ⟨hcompare, rfl⟩⟩
    | eq => exact Or.inr ⟨start, by omega, hstart, Or.inl ⟨hcompare, rfl⟩⟩
    | gt =>
      have hnext : Passes order query page stride keySize (start + 1) := by
        intro slot hslot
        rcases Nat.lt_succ_iff_lt_or_eq.mp hslot with hlt | rfl
        · exact hstart slot hlt
        · exact hcompare
      rw [← Nat.add_assoc, Nat.add_right_comm]
      exact ih (start + 1) hnext

theorem scan_congr {other : ByteArray} (start count : ℕ)
    (h : ∀ slot, start ≤ slot → slot < start + count →
      keyAt other stride keySize slot = keyAt page stride keySize slot) :
    scan order query other stride keySize start count =
      scan order query page stride keySize start count := by
  induction count generalizing start with
  | zero => rfl
  | succ count ih =>
    have hfirst := h start le_rfl (by omega)
    have hrest := ih (start + 1) fun slot hle hlt => h slot (by omega) (by omega)
    rw [scan, scan, hfirst, hrest]

theorem min_div_eq {count size : ℕ} (hstride : 0 < stride) (hroom : count * stride ≤ size) :
    min count (size / stride) = count :=
  Nat.min_eq_left ((Nat.le_div_iff_mul_le hstride).mpr hroom)

/-- The child to go down to is behind all separators passed, and behind one more that is equal. -/
theorem findChild_spec (order : KeyOrder) (query : ByteArray) {separators : ℕ} (hkey : 0 < keySize)
    (hroom : separators * keySize ≤ page.size) :
    ∃ slot ≤ separators, Passes order query page keySize keySize slot ∧
      (slot = separators ∧ findChild order query page keySize separators = slot ∨
        slot < separators ∧ order query (keyAt page keySize keySize slot) = .eq ∧
          findChild order query page keySize separators = slot + 1 ∨
        slot < separators ∧ order query (keyAt page keySize keySize slot) = .lt ∧
          findChild order query page keySize separators = slot) := by
  have hnone : Passes order query page keySize keySize 0 := fun slot hslot => by omega
  unfold findChild
  rw [min_div_eq hkey hroom]
  rcases scan_spec 0 separators hnone with ⟨hscan, hall⟩ | ⟨slot, hslot, hpasses, hcase⟩
  · rw [hscan]
    rw [Nat.zero_add] at hall
    exact ⟨separators, le_rfl, hall, Or.inl ⟨rfl, rfl⟩⟩
  · rw [Nat.zero_add] at hslot
    refine ⟨slot, hslot.le, hpasses, Or.inr ?_⟩
    rcases hcase with ⟨hcompare, hscan⟩ | ⟨hcompare, hscan⟩
    · rw [hscan]
      exact Or.inl ⟨hslot, hcompare, rfl⟩
    · rw [hscan]
      exact Or.inr ⟨hslot, hcompare, rfl⟩

theorem findChild_le {separators : ℕ} (hkey : 0 < keySize)
    (hroom : separators * keySize ≤ page.size) :
    findChild order query page keySize separators ≤ separators := by
  obtain ⟨slot, hslot, -, hcase⟩ := findChild_spec order query hkey hroom
  rcases hcase with ⟨-, hfound⟩ | ⟨hlt, -, hfound⟩ | ⟨-, -, hfound⟩ <;> omega

theorem findChild_congr {other : ByteArray} {separators : ℕ} (hsize : other.size = page.size)
    (h : ∀ slot < separators,
      keyAt other keySize keySize slot = keyAt page keySize keySize slot) :
    findChild order query other keySize separators =
      findChild order query page keySize separators := by
  unfold findChild
  rw [hsize, scan_congr 0 _ fun slot _ hslot => h slot (by omega)]

theorem findInLeaf_congr {other : ByteArray} {recordSize records : ℕ}
    (hsize : other.size = page.size)
    (h : ∀ slot < records,
      keyAt other recordSize keySize slot = keyAt page recordSize keySize slot) :
    findInLeaf order query other recordSize keySize records =
      findInLeaf order query page recordSize keySize records := by
  unfold findInLeaf
  rw [hsize, scan_congr 0 _ fun slot _ hslot => h slot (by omega)]

/-- The record found is the first one not passed, and equal to the query. -/
theorem findInLeaf_spec (order : KeyOrder) (query : ByteArray) (keySize : ℕ)
    {recordSize records : ℕ} (hrecord : 0 < recordSize)
    (hroom : records * recordSize ≤ page.size) :
    (∃ slot < records, Passes order query page recordSize keySize slot ∧
      order query (keyAt page recordSize keySize slot) = .eq ∧
      findInLeaf order query page recordSize keySize records = some slot) ∨
    (∃ slot ≤ records, Passes order query page recordSize keySize slot ∧
      (slot < records → order query (keyAt page recordSize keySize slot) = .lt) ∧
      findInLeaf order query page recordSize keySize records = none) := by
  have hnone : Passes order query page recordSize keySize 0 := fun slot hslot => by omega
  unfold findInLeaf
  rw [min_div_eq hrecord hroom]
  rcases scan_spec 0 records hnone with ⟨hscan, hall⟩ | ⟨slot, hslot, hpasses, hcase⟩
  · rw [hscan]
    rw [Nat.zero_add] at hall
    exact Or.inr ⟨records, le_rfl, hall, fun h => absurd h (lt_irrefl _), rfl⟩
  · rw [Nat.zero_add] at hslot
    rcases hcase with ⟨hcompare, hscan⟩ | ⟨hcompare, hscan⟩
    · rw [hscan]
      exact Or.inl ⟨slot, hslot, hpasses, hcompare, rfl⟩
    · rw [hscan]
      exact Or.inr ⟨slot, hslot.le, hpasses, fun _ => hcompare, rfl⟩

end PackedIndex.Search
