import Mathlib.Tactic
import PackedIndex.KeyOrder
/-! # Lawful orders of keys

A search needs an order that compares keys of one width without contradictions. The bytewise order
is the lexicographic order of the bytes, and has these laws at any width.
-/
namespace PackedIndex.KeyOrder

/-- A comparison that is a total preorder on keys of one width. -/
structure IsPreorder (order : KeyOrder) (width : ℕ) : Prop where
  swap : ∀ a b : ByteArray, a.size = width → b.size = width → order b a = (order a b).swap
  trans : ∀ a b c : ByteArray, a.size = width → b.size = width → c.size = width →
    (order a b).isLE → (order b c).isLE → (order a c).isLE

/-- A comparison that is a total preorder on some keys, of whatever width. -/
structure IsPreorderOn (order : KeyOrder) (keys : Set ByteArray) : Prop where
  swap : ∀ a ∈ keys, ∀ b ∈ keys, order b a = (order a b).swap
  trans : ∀ a ∈ keys, ∀ b ∈ keys, ∀ c ∈ keys,
    (order a b).isLE → (order b c).isLE → (order a c).isLE

namespace IsPreorderOn

variable {order : KeyOrder} {keys : Set ByteArray} {a b c : ByteArray}

theorem refl (h : order.IsPreorderOn keys) (ha : a ∈ keys) : order a a = .eq := by
  have hswap := h.swap a ha a ha
  cases hcompare : order a a <;> simp_all

/-- What a key is greater than, it remains greater than further down. -/
theorem gt_of_isLE (h : order.IsPreorderOn keys) (ha : a ∈ keys) (hb : b ∈ keys) (hc : c ∈ keys)
    (hgt : order a c = .gt) (hle : (order b c).isLE) : order a b = .gt := by
  by_contra hne
  have hac := h.trans a ha b hb c hc (Ordering.isLE_iff_ne_gt.mpr hne) hle
  simp [hgt] at hac

theorem lt_of_isLE (h : order.IsPreorderOn keys) (ha : a ∈ keys) (hb : b ∈ keys) (hc : c ∈ keys)
    (hlt : order a b = .lt) (hle : (order b c).isLE) : order a c = .lt := by
  by_contra hne
  have hca : (order c a).isLE := by
    rw [h.swap a ha c hc]
    cases hcompare : order a c <;> simp_all
  have hba := h.trans b hb c hc a ha hle hca
  simp [h.swap a ha b hb, hlt] at hba

theorem lt_of_isLE_of_lt (h : order.IsPreorderOn keys) (ha : a ∈ keys) (hb : b ∈ keys)
    (hc : c ∈ keys) (hle : (order a b).isLE) (hlt : order b c = .lt) : order a c = .lt := by
  have hgt : order c a = .gt := by
    refine h.gt_of_isLE hc ha hb ?_ hle
    simp [h.swap b hb c hc, hlt]
  simp [h.swap c hc a ha, hgt]

end IsPreorderOn

namespace IsPreorder

variable {order : KeyOrder} {width : ℕ} {a b c : ByteArray}

theorem on (h : order.IsPreorder width) : order.IsPreorderOn {key | key.size = width} :=
  ⟨fun a ha b hb => h.swap a b ha hb, fun a ha b hb c hc => h.trans a b c ha hb hc⟩

theorem refl (h : order.IsPreorder width) (ha : a.size = width) : order a a = .eq :=
  h.on.refl ha

theorem gt_of_isLE (h : order.IsPreorder width) (ha : a.size = width) (hb : b.size = width)
    (hc : c.size = width) (hgt : order a c = .gt) (hle : (order b c).isLE) : order a b = .gt :=
  h.on.gt_of_isLE ha hb hc hgt hle

theorem lt_of_isLE (h : order.IsPreorder width) (ha : a.size = width) (hb : b.size = width)
    (hc : c.size = width) (hlt : order a b = .lt) (hle : (order b c).isLE) : order a c = .lt :=
  h.on.lt_of_isLE ha hb hc hlt hle

end IsPreorder

def Ascending (order : KeyOrder) (keys : List ByteArray) : Prop :=
  keys.IsChain fun a b => (order a b).isLE

def Increasing (order : KeyOrder) (keys : List ByteArray) : Prop :=
  keys.IsChain fun a b => order a b = .lt

variable {order : KeyOrder} {width : ℕ} {keys : List ByteArray}

theorem Increasing.ascending (h : order.Increasing keys) : order.Ascending keys :=
  h.imp fun _ _ hlt => Ordering.isLE_of_eq_lt hlt

/-- A relation between neighbours holds further on where it is transitive on the keys. -/
theorem pairwise_of_isChain {related : ByteArray → ByteArray → Prop} {keys : List ByteArray}
    (htrans : ∀ a ∈ keys, ∀ b ∈ keys, ∀ c ∈ keys, related a b → related b c → related a c)
    (h : keys.IsChain related) : keys.Pairwise related := by
  induction keys with
  | nil => exact .nil
  | cons key keys ih =>
    have hrest : keys.Pairwise related := by
      apply ih _ h.tail
      intro a ha b hb c hc
      exact htrans a (by simp [ha]) b (by simp [hb]) c (by simp [hc])
    refine List.pairwise_cons.mpr ⟨fun other hother => ?_, hrest⟩
    cases keys with
    | nil => simp at hother
    | cons next keys =>
      have hnext : related key next := (List.isChain_cons_cons.mp h).1
      rcases List.mem_cons.mp hother with rfl | hbehind
      · exact hnext
      · have hother' := (List.pairwise_cons.mp hrest).1 other hbehind
        exact htrans key (by simp) next (by simp) other (by simp [hbehind]) hnext hother'

theorem Ascending.pairwise {lawful : Set ByteArray} (h : order.Ascending keys)
    (horder : order.IsPreorderOn lawful) (hkeys : ∀ key ∈ keys, key ∈ lawful) :
    keys.Pairwise fun a b => (order a b).isLE := by
  refine pairwise_of_isChain (fun a ha b hb c hc => ?_) h
  exact horder.trans a (hkeys a ha) b (hkeys b hb) c (hkeys c hc)

theorem Increasing.pairwise {lawful : Set ByteArray} (h : order.Increasing keys)
    (horder : order.IsPreorderOn lawful) (hkeys : ∀ key ∈ keys, key ∈ lawful) :
    keys.Pairwise fun a b => order a b = .lt := by
  refine pairwise_of_isChain (fun a ha b hb c hc hab hbc => ?_) h
  exact horder.lt_of_isLE (hkeys a ha) (hkeys b hb) (hkeys c hc) hab (Ordering.isLE_of_eq_lt hbc)

theorem Ascending.isLE (h : order.Ascending keys) (horder : order.IsPreorder width)
    (hkeys : ∀ key ∈ keys, key.size = width) {i j : ℕ} (hle : i ≤ j) (hj : j < keys.length) :
    (order keys[i] keys[j]).isLE := by
  rcases Nat.eq_or_lt_of_le hle with rfl | hlt
  · simp [horder.refl (hkeys _ (List.getElem_mem hj))]
  · exact List.pairwise_iff_getElem.mp (h.pairwise horder.on hkeys) i j _ hj hlt

theorem Increasing.unique (h : order.Increasing keys) (horder : order.IsPreorder width)
    (hkeys : ∀ key ∈ keys, key.size = width) {query : ByteArray} (hquery : query.size = width)
    {i j : ℕ} (hi : i < keys.length) (hj : j < keys.length) (hqi : order query keys[i] = .eq)
    (hqj : order query keys[j] = .eq) : i = j := by
  have hpairwise := List.pairwise_iff_getElem.mp (h.pairwise horder.on hkeys)
  have hwidth : ∀ i (hi : i < keys.length), keys[i].size = width :=
    fun i hi => hkeys _ (List.getElem_mem hi)
  -- the query is less than what is behind a key that it is equal to
  have hapart : ∀ {i j : ℕ} (hi : i < keys.length) (hj : j < keys.length), i < j →
      order query keys[i] = .eq → order query keys[j] ≠ .eq := by
    intro i j hi hj hlt hqi
    have hless : order query keys[j] = .lt := horder.on.lt_of_isLE_of_lt hquery (hwidth i hi)
      (hwidth j hj) (Ordering.isLE_of_eq_eq hqi) (hpairwise i j hi hj hlt)
    simp [hless]
  rcases Nat.lt_trichotomy i j with hlt | heq | hgt
  · exact absurd hqj (hapart hi hj hlt hqi)
  · exact heq
  · exact absurd hqi (hapart hj hi hgt hqj)

theorem bytewiseFrom_eq (a b : ByteArray) (i : ℕ) :
    bytewiseFrom a b i = compare (a.data.toList.drop i) (b.data.toList.drop i) := by
  have hcons : ∀ (data : ByteArray) (i : ℕ) (hi : i < data.size),
      data.data.toList.drop i = data[i] :: data.data.toList.drop (i + 1) :=
    fun data i hi => List.drop_eq_getElem_cons hi
  have hnil : ∀ (data : ByteArray) (i : ℕ), ¬i < data.size → data.data.toList.drop i = [] :=
    fun data i hi => List.drop_eq_nil_of_le (not_lt.mp hi)
  fun_induction bytewiseFrom a b i with
  | case1 i ha hb hcompare ih =>
    rw [hcons a i ha, hcons b i hb, List.compare_cons_cons, hcompare, ih]
    rfl
  | case2 i ha hb hcompare =>
    rw [hcons a i ha, hcons b i hb, List.compare_cons_cons]
    cases hresult : compare a[i] b[i]
    · rfl
    · exact absurd hresult hcompare
    · rfl
  | case3 i ha hb =>
    rw [hcons a i ha, hnil b i hb]
    rfl
  | case4 i ha hb =>
    rw [hnil a i ha, hcons b i hb]
    rfl
  | case5 i ha hb =>
    rw [hnil a i ha, hnil b i hb]
    rfl

theorem bytewise_eq (a b : ByteArray) : bytewise a b = compare a.data.toList b.data.toList :=
  bytewiseFrom_eq a b 0

theorem bytewise_isPreorderOn (keys : Set ByteArray) : bytewise.IsPreorderOn keys := by
  constructor
  · intro a _ b _
    simp only [bytewise_eq]
    exact Std.OrientedOrd.eq_swap
  · intro a _ b _ c _ hab hbc
    simp only [bytewise_eq] at hab hbc ⊢
    exact Std.TransCmp.isLE_trans hab hbc

theorem bytewise_isPreorder (width : ℕ) : bytewise.IsPreorder width := by
  have h := bytewise_isPreorderOn Set.univ
  exact ⟨fun a b _ _ => h.swap a trivial b trivial,
    fun a b c _ _ _ => h.trans a trivial b trivial c trivial⟩

end PackedIndex.KeyOrder
