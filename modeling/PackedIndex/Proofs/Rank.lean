import PackedIndex.Proofs.KeyOrder
import PackedIndex.Proofs.Search
/-! # The place of a query among sorted keys

A scan stops at the first key that the query is not greater than. Among keys that never descend, the
keys in front of that place are all those that the query is greater than, so that the place is their
number. What a scan answers depends on the scanned keys and on nothing else in the page.
-/
namespace PackedIndex

namespace KeyOrder

/-- How many of some keys a query is greater than. -/
def rank (order : KeyOrder) (query : ByteArray) (keys : List ByteArray) : ℕ :=
  keys.countP fun key => order query key = .gt

def Hits (order : KeyOrder) (query : ByteArray) (keys : List ByteArray) : Prop :=
  ∃ key ∈ keys, order query key = .eq

instance (order : KeyOrder) (query : ByteArray) (keys : List ByteArray) :
    Decidable (order.Hits query keys) :=
  inferInstanceAs (Decidable (∃ key ∈ keys, order query key = .eq))

theorem rank_le_length (order : KeyOrder) (query : ByteArray) (keys : List ByteArray) :
    order.rank query keys ≤ keys.length :=
  List.countP_le_length

section

variable {order : KeyOrder} {query key : ByteArray} {keys : List ByteArray}

theorem rank_cons_of_gt (h : order query key = .gt) :
    order.rank query (key :: keys) = order.rank query keys + 1 := by
  simp [rank, h]

theorem hits_cons : order.Hits query (key :: keys) ↔
    order query key = .eq ∨ order.Hits query keys := by
  simp [Hits]

variable {lawful : Set ByteArray} (horder : order.IsPreorderOn lawful) (hquery : query ∈ lawful)
  (hkeys : ∀ other ∈ key :: keys, other ∈ lawful)
include horder hquery hkeys

theorem rank_cons_of_ne_gt (hsorted : (key :: keys).Pairwise fun a b => (order a b).isLE)
    (h : order query key ≠ .gt) : order.rank query (key :: keys) = 0 := by
  have hfirst : key ∈ lawful := hkeys key (by simp)
  apply List.countP_eq_zero.mpr
  intro other hother
  rcases List.mem_cons.mp hother with rfl | hbehind
  · simpa using h
  · have hle := (List.pairwise_cons.mp hsorted).1 other hbehind
    have hne : order query other ≠ .gt := by
      intro hgt
      exact h (horder.gt_of_isLE hquery hfirst (hkeys other hother) hgt hle)
    simpa using hne

theorem lt_of_lt_first (hsorted : (key :: keys).Pairwise fun a b => (order a b).isLE)
    (h : order query key = .lt) {other : ByteArray} (hother : other ∈ key :: keys) :
    order query other = .lt := by
  have hfirst : key ∈ lawful := hkeys key (by simp)
  rcases List.mem_cons.mp hother with rfl | hbehind
  · exact h
  · have hle := (List.pairwise_cons.mp hsorted).1 other hbehind
    exact horder.lt_of_isLE hquery hfirst (hkeys other hother) h hle

theorem not_hits_of_lt_first (hsorted : (key :: keys).Pairwise fun a b => (order a b).isLE)
    (h : order query key = .lt) : ¬order.Hits query (key :: keys) := by
  rintro ⟨other, hother, hequal⟩
  have hlt := lt_of_lt_first horder hquery hkeys hsorted h hother
  simp [hequal] at hlt

end

/-- Of increasing keys, those that are not greater than a query are the ones it is greater than, and
the one it is equal to. -/
theorem countP_isLE_eq {order : KeyOrder} {lawful : Set ByteArray} {query : ByteArray}
    {keys : List ByteArray} (horder : order.IsPreorderOn lawful) (hquery : query ∈ lawful)
    (hkeys : ∀ key ∈ keys, key ∈ lawful)
    (hsorted : keys.Pairwise fun a b => order a b = .lt) :
    keys.countP (fun key => (order key query).isLE) =
      order.rank query keys + if order.Hits query keys then 1 else 0 := by
  induction keys with
  | nil => simp [rank, Hits]
  | cons key keys ih =>
    obtain ⟨hfirst, hrest⟩ := List.pairwise_cons.mp hsorted
    have hkey : key ∈ lawful := hkeys key (by simp)
    have hother : ∀ other ∈ keys, other ∈ lawful := fun other h => hkeys other (by simp [h])
    have hswap : order key query = (order query key).swap := horder.swap query hquery key hkey
    have hle : (key :: keys).Pairwise fun a b => (order a b).isLE :=
      hsorted.imp Ordering.isLE_of_eq_lt
    cases hcompare : order query key with
    | gt =>
      have hhits : order.Hits query (key :: keys) ↔ order.Hits query keys := by
        simp [hits_cons, hcompare]
      simp only [rank_cons_of_gt hcompare, hhits, List.countP_cons, ih hother hrest, hswap, hcompare]
      simp
      omega
    | eq =>
      -- the query is less than all keys behind its equal
      have hless : ∀ other ∈ keys, order query other = .lt := by
        intro other h
        exact horder.lt_of_isLE_of_lt hquery hkey (hother other h)
          (Ordering.isLE_of_eq_eq hcompare) (hfirst other h)
      have hnone : keys.countP (fun key => (order key query).isLE) = 0 := by
        apply List.countP_eq_zero.mpr
        intro other h
        rw [horder.swap query hquery other (hother other h), hless other h]
        simp
      have hrank := rank_cons_of_ne_gt horder hquery hkeys hle (by simp [hcompare])
      simp [hrank, hits_cons, hnone, hswap, hcompare]
    | lt =>
      have hnone : (key :: keys).countP (fun key => (order key query).isLE) = 0 := by
        apply List.countP_eq_zero.mpr
        intro other h
        have hlt := lt_of_lt_first horder hquery hkeys hle hcompare h
        rw [horder.swap query hquery other (hkeys other h), hlt]
        simp
      have hrank := rank_cons_of_ne_gt horder hquery hkeys hle (by simp [hcompare])
      simp [hrank, hnone, not_hits_of_lt_first horder hquery hkeys hle hcompare]

end KeyOrder

namespace Search

variable {order : KeyOrder} {lawful : Set ByteArray} {query page : ByteArray}
  {stride keySize : ℕ}

def keysFrom (page : ByteArray) (stride keySize slot count : ℕ) : List ByteArray :=
  (List.range' slot count).map (keyAt page stride keySize)

def keys (page : ByteArray) (stride keySize count : ℕ) : List ByteArray :=
  keysFrom page stride keySize 0 count

@[simp] theorem length_keysFrom (slot count : ℕ) :
    (keysFrom page stride keySize slot count).length = count := by
  simp [keysFrom]

theorem keysFrom_succ (slot count : ℕ) :
    keysFrom page stride keySize slot (count + 1) =
      keyAt page stride keySize slot :: keysFrom page stride keySize (slot + 1) count := by
  simp [keysFrom, List.range'_succ]

/-- Over sorted keys a scan stops behind those that the query is greater than. -/
theorem scan_eq (horder : order.IsPreorderOn lawful) (hquery : query ∈ lawful) (slot count : ℕ)
    (hkeys : ∀ key ∈ keysFrom page stride keySize slot count, key ∈ lawful)
    (hsorted : (keysFrom page stride keySize slot count).Pairwise fun a b => (order a b).isLE) :
    scan order query page stride keySize slot count =
      if order.Hits query (keysFrom page stride keySize slot count) then
        some (slot + order.rank query (keysFrom page stride keySize slot count), true)
      else if order.rank query (keysFrom page stride keySize slot count) < count then
        some (slot + order.rank query (keysFrom page stride keySize slot count), false)
      else none := by
  induction count generalizing slot with
  | zero => simp [scan, keysFrom, KeyOrder.Hits]
  | succ count ih =>
    rw [keysFrom_succ] at hkeys hsorted ⊢
    cases hcompare : order query (keyAt page stride keySize slot) with
    | gt =>
      have hrest := ih (slot + 1) (fun key hkey => hkeys key (by simp [hkey]))
        (List.pairwise_cons.mp hsorted).2
      simp only [scan, hcompare, hrest, KeyOrder.hits_cons, KeyOrder.rank_cons_of_gt hcompare]
      simp [Nat.add_assoc, Nat.add_comm 1]
    | eq =>
      have hrank := KeyOrder.rank_cons_of_ne_gt horder hquery hkeys hsorted (by simp [hcompare])
      simp [scan, hcompare, hrank, KeyOrder.hits_cons]
    | lt =>
      have hrank := KeyOrder.rank_cons_of_ne_gt horder hquery hkeys hsorted (by simp [hcompare])
      have hmiss := KeyOrder.not_hits_of_lt_first horder hquery hkeys hsorted hcompare
      simp [scan, hcompare, hrank, hmiss]

structure Holds (page : ByteArray) (stride count : ℕ) : Prop where
  stride_pos : 0 < stride
  room : count * stride ≤ page.size

/-- A page of items that start with sorted keys, on which an order is lawful. -/
structure SortedPage (order : KeyOrder) (lawful : Set ByteArray) (page : ByteArray)
    (stride keySize count : ℕ) : Prop extends Holds page stride count where
  keySize_le : keySize ≤ stride
  keys_lawful : ∀ key ∈ keys page stride keySize count, key ∈ lawful
  sorted : order.Ascending (keys page stride keySize count)

/-- A scan over all items of a page depends on their keys alone. -/
theorem scan_of_keys_eq {other : ByteArray} {count : ℕ} (h : Holds page stride count)
    (hother : Holds other stride count)
    (hkeys : keys other stride keySize count = keys page stride keySize count) :
    scan order query other stride keySize 0 (min count (other.size / stride)) =
      scan order query page stride keySize 0 (min count (page.size / stride)) := by
  rw [min_div_eq h.stride_pos h.room, min_div_eq h.stride_pos hother.room]
  apply scan_congr 0 count
  intro slot _ hslot
  exact List.map_inj_left.mp hkeys slot (by simpa using hslot)

namespace SortedPage

variable {count : ℕ}

theorem scan_eq (h : SortedPage order lawful page stride keySize count)
    (horder : order.IsPreorderOn lawful) (hquery : query ∈ lawful) :
    scan order query page stride keySize 0 (min count (page.size / stride)) =
      if order.Hits query (keys page stride keySize count) then
        some (order.rank query (keys page stride keySize count), true)
      else if order.rank query (keys page stride keySize count) < count then
        some (order.rank query (keys page stride keySize count), false)
      else none := by
  have hsorted := h.sorted.pairwise horder h.keys_lawful
  have hscan := Search.scan_eq horder hquery 0 count h.keys_lawful hsorted
  rw [min_div_eq h.stride_pos h.room, hscan, Nat.zero_add]
  rfl

theorem findChild_eq {separators : ℕ}
    (h : SortedPage order lawful page keySize keySize separators)
    (horder : order.IsPreorderOn lawful) (hquery : query ∈ lawful) :
    findChild order query page keySize separators =
      order.rank query (keys page keySize keySize separators) +
        if order.Hits query (keys page keySize keySize separators) then 1 else 0 := by
  have hle : order.rank query (keys page keySize keySize separators) ≤ separators := by
    simpa [keys] using order.rank_le_length query (keys page keySize keySize separators)
  rw [findChild, h.scan_eq horder hquery]
  split_ifs with hhits hlt
  · rfl
  · rfl
  · exact Nat.le_antisymm (not_lt.mp hlt) hle

theorem findInLeaf_eq {records : ℕ} (h : SortedPage order lawful page stride keySize records)
    (horder : order.IsPreorderOn lawful) (hquery : query ∈ lawful) :
    findInLeaf order query page stride keySize records =
      if order.Hits query (keys page stride keySize records) then
        some (order.rank query (keys page stride keySize records))
      else none := by
  rw [findInLeaf, h.scan_eq horder hquery]
  split_ifs <;> rfl

end SortedPage

/-- Over sorted separators the child to go down to is behind those that the query is greater than,
and behind one more that is equal to it; over sorted records, the first that is equal to the query
is found, if there is any. Under no order does either answer depend on the page but for the keys
scanned. -/
theorem answers_of_sorted (horder : order.IsPreorderOn lawful) (hquery : query ∈ lawful) :
    (∀ page keySize separators, SortedPage order lawful page keySize keySize separators →
      findChild order query page keySize separators =
          order.rank query (keys page keySize keySize separators) +
            (if order.Hits query (keys page keySize keySize separators) then 1 else 0) ∧
        (order.Increasing (keys page keySize keySize separators) →
          findChild order query page keySize separators =
            (keys page keySize keySize separators).countP fun key => (order key query).isLE) ∧
        findChild order query page keySize separators ≤ separators) ∧
    (∀ page recordSize keySize records,
      SortedPage order lawful page recordSize keySize records →
      findInLeaf order query page recordSize keySize records =
        if order.Hits query (keys page recordSize keySize records) then
          some (order.rank query (keys page recordSize keySize records))
        else none) ∧
    (∀ (any : KeyOrder) (page other : ByteArray) (keySize separators : ℕ),
      Holds page keySize separators → Holds other keySize separators →
      keys other keySize keySize separators = keys page keySize keySize separators →
      findChild any query other keySize separators = findChild any query page keySize separators) ∧
    ∀ (any : KeyOrder) (page other : ByteArray) (recordSize keySize records : ℕ),
      Holds page recordSize records → Holds other recordSize records →
      keys other recordSize keySize records = keys page recordSize keySize records →
      findInLeaf any query other recordSize keySize records =
        findInLeaf any query page recordSize keySize records := by
  refine ⟨fun page keySize separators h => ⟨h.findChild_eq horder hquery, ?_, ?_⟩,
    fun page recordSize keySize records h => h.findInLeaf_eq horder hquery, ?_, ?_⟩
  · intro hincreasing
    have hpairwise := hincreasing.pairwise horder h.keys_lawful
    rw [KeyOrder.countP_isLE_eq horder hquery h.keys_lawful hpairwise]
    exact h.findChild_eq horder hquery
  · exact findChild_le h.stride_pos h.room
  · intro any page other keySize separators h hother hkeys
    rw [findChild, findChild, scan_of_keys_eq h hother hkeys]
  · intro any page other recordSize keySize records h hother hkeys
    rw [findInLeaf, findInLeaf, scan_of_keys_eq h hother hkeys]

theorem answers_of_sorted_sample :
    findChild KeyOrder.bytewise [4].toByteArray [2, 4, 4, 8, 1].toByteArray 1 4 = 2 ∧
      findInLeaf KeyOrder.bytewise [4].toByteArray [2, 4, 4, 8, 1].toByteArray 1 1 4 = some 1 := by
  obtain ⟨hchild, hleaf, -, -⟩ :=
    answers_of_sorted (KeyOrder.bytewise_isPreorderOn Set.univ) (Set.mem_univ [4].toByteArray)
  have hpage : SortedPage KeyOrder.bytewise Set.univ [2, 4, 4, 8, 1].toByteArray 1 1 4 := by
    refine ⟨⟨by decide, by decide⟩, le_rfl, fun _ _ => trivial, ?_⟩
    simp only [KeyOrder.Ascending]
    decide +kernel
  constructor
  · rw [(hchild _ 1 4 hpage).1]
    decide +kernel
  · rw [hleaf _ 1 1 4 hpage]
    decide +kernel

end Search

end PackedIndex
