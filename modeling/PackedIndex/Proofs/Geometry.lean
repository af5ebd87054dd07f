import Mathlib.Algebra.BigOperators.Intervals
import Mathlib.Data.Nat.Log
import PackedIndex.Proofs.Guarded
import PackedIndex.Proofs.Header
/-! # The geometry without a bound on numbers

A plan is computed with numbers of 64 bits and refused when they cannot hold it, at some steps early
and at others late. Here the geometry is defined over all natural numbers. A plan is made exactly
where that geometry exists and ends below the bound, and is then equal to it.
-/
namespace PackedIndex

namespace Geometry

open Outcome

/-! ## The geometry -/

section

variable (attributes : Attributes) (pageSize : ℕ)

/-- Where the parts of a record go. Blocks stay beside their keys when the two tile the page. -/
def encoding : Encoding :=
  match attributes.format with
  | .atom => .atom
  | .pair => .pair
  | .block =>
    if attributes.keySize + attributes.valueSize ≤ pageSize ∧
        attributes.keySize + attributes.valueSize ∣ pageSize then .inlineBlock
    else .outOfLineBlock
  | .blob => .blob

def leafRecordSize : ℕ :=
  match encoding attributes pageSize with
  | .atom => attributes.keySize
  | .pair => 2 * attributes.keySize
  | .inlineBlock => attributes.keySize + attributes.valueSize
  | .outOfLineBlock | .blob => attributes.keySize + Size.pointer

def recordsPerLeafPage : ℕ :=
  pageSize / leafRecordSize attributes pageSize

def leafPages : ℕ :=
  Size.ceilDiv attributes.recordCount (recordsPerLeafPage attributes pageSize)

def branchingFactor : ℕ :=
  (pageSize + attributes.keySize) / (attributes.keySize + Size.pointer)

/-- The least number of index levels between one root page and all leaf pages. -/
def height : ℕ :=
  Nat.clog (branchingFactor attributes pageSize) (leafPages attributes pageSize)

def pages (level : ℕ) : ℕ :=
  Size.ceilDiv (leafPages attributes pageSize)
    (branchingFactor attributes pageSize ^ (height attributes pageSize - level))

/-- The file offset of an index level, behind the header page and the levels above. -/
def offset (level : ℕ) : ℕ :=
  pageSize * (1 + ∑ above ∈ Finset.range level, pages attributes pageSize above)

def leafEnd : ℕ :=
  pageSize * (1 + ∑ level ∈ Finset.range (height attributes pageSize),
    pages attributes pageSize level + leafPages attributes pageSize)

def layout : Layout where
  pageSize
  keySize := attributes.keySize
  recordCount := attributes.recordCount
  encoding := encoding attributes pageSize
  leafRecordSize := leafRecordSize attributes pageSize
  recordsPerLeafPage := recordsPerLeafPage attributes pageSize
  leafPages := leafPages attributes pageSize
  leafOffset := offset attributes pageSize (height attributes pageSize)
  valueOffset :=
    if (encoding attributes pageSize).usesValueRegion then leafEnd attributes pageSize else 0
  branchingFactor := branchingFactor attributes pageSize
  levels := (List.range (height attributes pageSize)).map fun level =>
    ⟨offset attributes pageSize level, pages attributes pageSize level⟩

/-- Pages have room for what they hold. -/
structure Roomy : Prop where
  valid : attributes.validate = .ok ()
  leafRecordSize_le : leafRecordSize attributes pageSize ≤ pageSize
  two_le_branchingFactor : 2 ≤ branchingFactor attributes pageSize

/-- The geometry exists, has no more levels than a header describes, and ends at an offset of 64
bits. -/
structure Feasible : Prop extends Roomy attributes pageSize where
  height_le : height attributes pageSize ≤ Size.mostLevels
  leafEnd_lt : leafEnd attributes pageSize < Size.limit

structure TooTall : Prop extends Roomy attributes pageSize where
  usable_lt : pageSize + attributes.keySize < Size.limit
  lt_height : Size.mostLevels < height attributes pageSize

end

variable {attributes : Attributes} {pageSize : ℕ}

theorem offset_zero : offset attributes pageSize 0 = pageSize := by
  simp [offset]

theorem offset_succ (level : ℕ) : offset attributes pageSize (level + 1) =
    offset attributes pageSize level + pages attributes pageSize level * pageSize := by
  rw [offset, offset, Finset.sum_range_succ]
  ring

theorem offset_mono : Monotone (offset attributes pageSize) :=
  monotone_nat_of_le_succ fun level => (offset_succ level).ge.trans' (Nat.le_add_right _ _)

theorem leafEnd_eq : leafEnd attributes pageSize =
    offset attributes pageSize (height attributes pageSize) +
      leafPages attributes pageSize * pageSize := by
  rw [leafEnd, offset]
  ring

theorem keySize_le : attributes.keySize ≤ leafRecordSize attributes pageSize := by
  unfold leafRecordSize
  split <;> omega

namespace Roomy

variable (h : Roomy attributes pageSize)
include h

/-- The levels reach all leaf pages, and fewer would not. -/
theorem isLeast_height :
    IsLeast {d | leafPages attributes pageSize ≤ branchingFactor attributes pageSize ^ d}
      (height attributes pageSize) := by
  have hb : 1 < branchingFactor attributes pageSize := h.two_le_branchingFactor
  exact ⟨Nat.le_pow_clog hb _, fun d hd => (Nat.clog_le_iff_le_pow hb).mpr hd⟩

theorem keySize_pos : 0 < attributes.keySize :=
  (Attributes.validate_eq_ok h.valid).1

theorem leafPages_pos : 0 < leafPages attributes pageSize := by
  have hkey := h.keySize_pos
  have hsize : attributes.keySize ≤ leafRecordSize attributes pageSize := keySize_le
  exact Size.ceilDiv_pos (Nat.div_pos h.leafRecordSize_le (by omega))
    (Attributes.validate_eq_ok h.valid).2.1

theorem two_mul_le_leafEnd : 2 * pageSize ≤ leafEnd attributes pageSize := by
  have hpages := h.leafPages_pos
  rw [leafEnd, Nat.mul_comm]
  exact Nat.mul_le_mul_left _ (by omega)

end Roomy

/-! ## What the steps of a plan compute -/

/-- Blocks too wide for 64 bits are too wide for a page. -/
theorem select_eq (hpage : pageSize < Size.limit) :
    Encoding.select attributes pageSize = encoding attributes pageSize := by
  unfold Encoding.select encoding
  cases attributes.format with
  | block =>
    by_cases hblock : attributes.keySize + attributes.valueSize < Size.limit
    · simp only [Size.checked, hblock, if_true, Nat.dvd_iff_mod_eq_zero]
    · rw [Size.checked, if_neg hblock, if_neg (by omega)]
  | _ => rfl

theorem leafRecordSize_eq (hattributes : attributes.Fits) :
    (encoding attributes pageSize).leafRecordSize attributes.keySize attributes.valueSize =
      Size.checked (leafRecordSize attributes pageSize) := by
  have hkey := hattributes.keySize_lt
  unfold Encoding.leafRecordSize leafRecordSize
  cases encoding attributes pageSize with
  | atom => exact (if_pos hkey).symm
  | pair => exact congrArg Size.checked (Nat.mul_comm _ _)
  | _ => rfl

theorem branching_eq (hroom : pageSize + attributes.keySize < Size.limit)
    (htwo : 2 ≤ branchingFactor attributes pageSize) :
    Layout.branching pageSize attributes.keySize = some (branchingFactor attributes pageSize) := by
  have hslot : attributes.keySize + Size.pointer < Size.limit := by
    by_contra hwide
    rw [branchingFactor, Nat.div_eq_of_lt (by omega)] at htwo
    omega
  simp [Layout.branching, Size.checked, hroom, hslot, branchingFactor]

theorem branching_eq_none (hroom : ¬pageSize + attributes.keySize < Size.limit) :
    Layout.branching pageSize attributes.keySize = none := by
  simp [Layout.branching, Size.checked, hroom]

/-- Counting goes on to the least height, when so many levels are allowed. -/
theorem levelCounts_eq {b : ℕ} (hb : 2 ≤ b) (most pages : ℕ) :
    Layout.levelCounts b most pages =
      if Nat.clog b pages ≤ most then
        some ((List.range (Nat.clog b pages)).map fun i => Size.ceilDiv pages (b ^ (i + 1)))
      else none := by
  induction most generalizing pages with
  | zero =>
    by_cases hone : pages ≤ 1
    · simp [Layout.levelCounts, hone, Nat.clog_of_right_le_one hone]
    · have hheight := Nat.clog_pos hb (not_le.mp hone)
      simp [Layout.levelCounts, hone, hheight.ne']
  | succ most ih =>
    by_cases hone : pages ≤ 1
    · simp [Layout.levelCounts, hone, Nat.clog_of_right_le_one hone]
    · have hheight : Nat.clog b pages = Nat.clog b (Size.ceilDiv pages b) + 1 :=
        Nat.clog_of_two_le hb (not_le.mp hone)
      have hcount : ∀ i, Size.ceilDiv (Size.ceilDiv pages b) (b ^ (i + 1)) =
          Size.ceilDiv pages (b ^ (i + 1 + 1)) := fun i => by
        rw [Size.ceilDiv_ceilDiv (by omega) (by positivity), ← pow_succ']
      simp only [Layout.levelCounts, hone, if_false, ih, hheight, hcount, Nat.add_le_add_iff_right,
        List.range_succ_eq_map, List.map_cons, List.map_map, zero_add, pow_one]
      split_ifs <;> rfl

/-- The counts come from the lowest level up; the levels are placed from the root down. -/
theorem reverse_counts :
    ((List.range (height attributes pageSize)).map fun i =>
      Size.ceilDiv (leafPages attributes pageSize)
        (branchingFactor attributes pageSize ^ (i + 1))).reverse =
      (List.range (height attributes pageSize)).map (pages attributes pageSize) := by
  apply List.ext_getElem (by simp)
  intro level hlevel _
  simp only [List.length_reverse, List.length_map, List.length_range] at hlevel
  have habove : height attributes pageSize - 1 - level + 1 = height attributes pageSize - level := by
    omega
  simp [habove, pages]

theorem place_eq (first count : ℕ) (hfirst : offset attributes pageSize first < Size.limit) :
    Layout.place pageSize (offset attributes pageSize first)
        ((List.range' first count).map (pages attributes pageSize)) =
      if offset attributes pageSize (first + count) < Size.limit then
        some ((List.range' first count).map fun level =>
            ⟨offset attributes pageSize level, pages attributes pageSize level⟩,
          offset attributes pageSize (first + count))
      else none := by
  induction count generalizing first with
  | zero => simp [Layout.place, hfirst]
  | succ count ih =>
    have hlast : first + 1 + count = first + (count + 1) := by omega
    simp only [List.range'_succ, List.map_cons, Layout.place, ← offset_succ]
    by_cases hnext : offset attributes pageSize (first + 1) < Size.limit
    · rw [Size.checked, if_pos hnext, Option.bind_eq_bind, Option.bind_some, ih _ hnext, hlast]
      split_ifs <;> rfl
    · have hbehind : ¬offset attributes pageSize (first + (count + 1)) < Size.limit := by
        have hmono : Monotone (offset attributes pageSize) := offset_mono
        have hlater := hmono (show first + 1 ≤ first + (count + 1) by omega)
        omega
      rw [Size.checked, if_neg hnext, if_neg hbehind]
      rfl

theorem plan_of_roomy (hattributes : attributes.Fits) (hpage : pageSize < Size.limit)
    (h : Roomy attributes pageSize) (hroom : pageSize + attributes.keySize < Size.limit) :
    Layout.plan attributes pageSize =
      if height attributes pageSize ≤ Size.mostLevels then
        if leafEnd attributes pageSize < Size.limit then .ok (layout attributes pageSize)
        else .error (.unusable .fileTooLarge)
      else .error (.tooManyLevels (Size.mostLevels + 1) Size.mostLevels) := by
  have hsize : Size.checked (leafRecordSize attributes pageSize) =
      some (leafRecordSize attributes pageSize) :=
    if_pos (h.leafRecordSize_le.trans_lt hpage)
  have hleaves : Size.ceilDiv attributes.recordCount
      (pageSize / leafRecordSize attributes pageSize) = leafPages attributes pageSize := rfl
  have hheight : Nat.clog (branchingFactor attributes pageSize) (leafPages attributes pageSize) =
      height attributes pageSize := rfl
  have hplace := @place_eq attributes pageSize 0 (height attributes pageSize)
    (offset_zero.trans_lt hpage)
  rw [offset_zero, ← List.range_eq_range', Nat.zero_add] at hplace
  unfold Layout.plan
  simp only [h.valid, mapError_ok, ok_bind, select_eq hpage, leafRecordSize_eq hattributes, hsize,
    Layout.orRefuse, not_lt.mpr h.leafRecordSize_le, if_false,
    branching_eq hroom h.two_le_branchingFactor, not_lt.mpr h.two_le_branchingFactor, hleaves,
    levelCounts_eq h.two_le_branchingFactor, hheight]
  by_cases hmost : height attributes pageSize ≤ Size.mostLevels
  · simp only [hmost, if_true, reverse_counts, hplace]
    by_cases hleaf : offset attributes pageSize (height attributes pageSize) < Size.limit
    · simp only [hleaf, if_true, ok_bind, ← leafEnd_eq, Size.checked]
      by_cases hend : leafEnd attributes pageSize < Size.limit
      · simp only [hend, if_true]
        rfl
      · simp only [hend, if_false]
        rfl
    · have hend : ¬leafEnd attributes pageSize < Size.limit := by
        rw [leafEnd_eq]
        omega
      simp only [hleaf, hend, if_false]
      rfl
  · simp only [hmost, if_false]
    rfl

/-- A plan without room in its pages, or with too much of it for 64 bits, is refused before any
page is counted. -/
theorem plan_of_not_roomy (hattributes : attributes.Fits) (hpage : pageSize < Size.limit)
    (h : ¬(Roomy attributes pageSize ∧ pageSize + attributes.keySize < Size.limit)) :
    ∃ fault, Layout.plan attributes pageSize = .error (.unusable fault) := by
  unfold Layout.plan
  cases hvalid : attributes.validate with
  | error fault => exact ⟨fault, rfl⟩
  | ok =>
    simp only [mapError_ok, ok_bind, select_eq hpage, leafRecordSize_eq hattributes,
      Layout.orRefuse]
    by_cases hwide : Size.limit ≤ leafRecordSize attributes pageSize
    · rw [Size.checked, if_neg (not_lt.mpr hwide)]
      exact ⟨_, rfl⟩
    rw [Size.checked, if_pos (not_le.mp hwide), ok_bind]
    by_cases hsize : pageSize < leafRecordSize attributes pageSize
    · rw [if_pos hsize]
      exact ⟨_, rfl⟩
    rw [if_neg hsize]
    cases hb : Layout.branching pageSize attributes.keySize with
    | none => exact ⟨_, rfl⟩
    | some b =>
      have hroom : pageSize + attributes.keySize < Size.limit := by
        by_contra hroom
        rw [branching_eq_none hroom] at hb
        cases hb
      have hfew : b < 2 := by
        by_contra htwo
        rw [Layout.branching_eq_some hb] at htwo
        exact h ⟨⟨hvalid, not_lt.mp hsize, not_lt.mp htwo⟩, hroom⟩
      rw [ok_bind, if_pos hfew]
      exact ⟨_, rfl⟩

/-- A geometry that ends below the bound leaves room to compute its branching factor: a key is not
wider than a page, and there are two pages at least. -/
theorem Feasible.usable_lt (h : Feasible attributes pageSize) :
    pageSize + attributes.keySize < Size.limit := by
  have hkey : attributes.keySize ≤ leafRecordSize attributes pageSize := keySize_le
  have hsize := h.leafRecordSize_le
  have hend := h.two_mul_le_leafEnd
  have hlimit := h.leafEnd_lt
  omega

theorem plan_of_feasible (hattributes : attributes.Fits) (hpage : pageSize < Size.limit)
    (h : Feasible attributes pageSize) :
    Layout.plan attributes pageSize = .ok (layout attributes pageSize) := by
  rw [plan_of_roomy hattributes hpage h.toRoomy h.usable_lt, if_pos h.height_le,
    if_pos h.leafEnd_lt]

theorem plan_of_tooTall (hattributes : attributes.Fits) (hpage : pageSize < Size.limit)
    (h : TooTall attributes pageSize) :
    Layout.plan attributes pageSize =
      .error (.tooManyLevels (Size.mostLevels + 1) Size.mostLevels) := by
  rw [plan_of_roomy hattributes hpage h.toRoomy h.usable_lt, if_neg (not_le.mpr h.lt_height)]

theorem plan_of_neither (hattributes : attributes.Fits) (hpage : pageSize < Size.limit)
    (hfeasible : ¬Feasible attributes pageSize) (htall : ¬TooTall attributes pageSize) :
    ∃ fault, Layout.plan attributes pageSize = .error (.unusable fault) := by
  by_cases h : Roomy attributes pageSize ∧ pageSize + attributes.keySize < Size.limit
  · obtain ⟨h, hroom⟩ := h
    have hmost : height attributes pageSize ≤ Size.mostLevels := by
      by_contra hmost
      exact htall ⟨h, hroom, not_le.mp hmost⟩
    have hend : ¬leafEnd attributes pageSize < Size.limit := fun hend =>
      hfeasible ⟨h, hmost, hend⟩
    rw [plan_of_roomy hattributes hpage h hroom, if_pos hmost, if_neg hend]
    exact ⟨_, rfl⟩
  · exact plan_of_not_roomy hattributes hpage h

end Geometry

/-! ## Planning with every operation guarded -/

namespace Machine

def ceilDiv (a b : ℕ) : Option ℕ := do
  let quotient ← div a b
  let rest ← mod a b
  if 0 < rest then add quotient 1 else return quotient

theorem ceilDiv_eq {a b : ℕ} (ha : a < Size.limit) (hb : 0 < b) :
    ceilDiv a b = some (Size.ceilDiv a b) := by
  have hsplit := Nat.div_add_mod a b
  have hmod := Nat.mod_lt a hb
  simp only [ceilDiv, div_eq hb, mod_eq hb, Option.bind_eq_bind, Option.bind_some, Option.pure_def]
  by_cases hrest : 0 < a % b
  · have hup : Size.ceilDiv a b = a / b + 1 := by
      rw [Size.ceilDiv, Nat.div_eq_iff hb, Nat.succ_mul, Nat.mul_comm]
      omega
    -- a remainder is only left by a divisor of at least two, so the quotient can go up
    have hhalf : a / b + 1 ≤ a := by
      have := Nat.div_le_div_left (show 2 ≤ b by omega) (by omega) (a := a)
      omega
    rw [if_pos hrest, add_eq (by omega), hup]
  · have hdown : Size.ceilDiv a b = a / b := by
      rw [Size.ceilDiv, Nat.div_eq_iff hb, Nat.mul_comm]
      omega
    rw [if_neg hrest, hdown]

end Machine

/-- The encoding of an index on pages of a given size; the two parts of a block have to have a
width together. -/
def Encoding.select? (attributes : Attributes) (pageSize : ℕ) : Option Encoding :=
  match attributes.format with
  | .atom => some atom
  | .pair => some pair
  | .block =>
    match Size.checked (attributes.keySize + attributes.valueSize) with
    | some size =>
      if size ≤ pageSize then do
        let rest ← Machine.mod pageSize size
        return if rest = 0 then inlineBlock else outOfLineBlock
      else some outOfLineBlock
    | none => some outOfLineBlock
  | .blob => some blob

theorem Encoding.select?_eq {attributes : Attributes} {pageSize : ℕ}
    (hkey : 0 < attributes.keySize) :
    select? attributes pageSize = some (select attributes pageSize) := by
  unfold select? select
  cases attributes.format with
  | block =>
    by_cases hlimit : attributes.keySize + attributes.valueSize < Size.limit
    · simp only [Size.checked, hlimit, if_true]
      rw [Machine.mod_eq (by omega)]
      by_cases hfit : attributes.keySize + attributes.valueSize ≤ pageSize <;> simp [hfit]
    · simp only [Size.checked, hlimit, if_false]
  | _ => rfl

namespace Layout

/-- The page counts of the index levels. A level more than allowed is counted before it is
refused. -/
def levelCounts? (branchingFactor : ℕ) : (most pages : ℕ) → Option (Option (List ℕ))
  | 0, pages =>
    if pages ≤ 1 then some (some [])
    else do
      let _ ← Machine.ceilDiv pages branchingFactor
      return none
  | most + 1, pages =>
    if pages ≤ 1 then some (some [])
    else do
      let parents ← Machine.ceilDiv pages branchingFactor
      let counts ← levelCounts? branchingFactor most parents
      return counts.map (parents :: ·)

theorem levelCounts?_eq {b : ℕ} (hb : 2 ≤ b) (most pages : ℕ) (hpages : pages < Size.limit) :
    levelCounts? b most pages = some (levelCounts b most pages) := by
  have hceil : ∀ pages < Size.limit, Machine.ceilDiv pages b = some (Size.ceilDiv pages b) :=
    fun _ h => Machine.ceilDiv_eq h (by omega)
  induction most generalizing pages with
  | zero =>
    simp only [levelCounts?, levelCounts, hceil pages hpages]
    split_ifs <;> rfl
  | succ most ih =>
    have hfewer : Size.ceilDiv pages b ≤ pages := by
      rw [Size.ceilDiv_le_iff (by omega)]
      exact Nat.le_mul_of_pos_right _ (by omega)
    simp only [levelCounts?, levelCounts, hceil pages hpages, Option.bind_eq_bind,
      Option.bind_some, ih _ (hfewer.trans_lt hpages)]
    split_ifs <;> rfl

/-- The offset behind a region, its length checked before the sum. -/
def regionEnd (pageSize offset pages : ℕ) : Option ℕ := do
  let length ← Size.checked (pages * pageSize)
  Size.checked (offset + length)

theorem regionEnd_eq (pageSize offset pages : ℕ) :
    regionEnd pageSize offset pages = Size.checked (offset + pages * pageSize) := by
  by_cases hlength : pages * pageSize < Size.limit
  · simp [regionEnd, Size.checked, hlength]
  · have hend : ¬offset + pages * pageSize < Size.limit := by omega
    simp [regionEnd, Size.checked, hlength, hend]

def placeInSteps (pageSize : ℕ) : (offset : ℕ) → (counts : List ℕ) → Option (List Region × ℕ)
  | offset, [] => some ([], offset)
  | offset, pages :: counts => do
    let (regions, stop) ← placeInSteps pageSize (← regionEnd pageSize offset pages) counts
    return (⟨offset, pages⟩ :: regions, stop)

theorem placeInSteps_eq (pageSize offset : ℕ) (counts : List ℕ) :
    placeInSteps pageSize offset counts = place pageSize offset counts := by
  induction counts generalizing offset with
  | nil => rfl
  | cons pages counts ih => simp only [placeInSteps, place, regionEnd_eq, ih]

/-- The geometry of a file of the given attributes on pages of the given size. It is refused where a
checked operation finds its result too large; the other operations are guarded. -/
def plan? (attributes : Attributes) (pageSize : ℕ) : Option (Except PlanError Layout) :=
  match attributes.validate with
  | .error fault => some (.error (.unusable fault))
  | .ok () => do
    let keySize := attributes.keySize
    let encoding ← Encoding.select? attributes pageSize
    match encoding.leafRecordSize keySize attributes.valueSize with
    | none => return .error (.unusable .leafRecordOverflow)
    | some leafRecordSize =>
      if pageSize < leafRecordSize then
        return .error (.unusable (.leafRecordTooLarge leafRecordSize pageSize))
      let recordsPerLeafPage ← Machine.div pageSize leafRecordSize
      let leafPages ← Machine.ceilDiv attributes.recordCount recordsPerLeafPage
      match Size.checked (pageSize + keySize), Size.checked (keySize + Size.pointer) with
      | some usable, some slot =>
        let branchingFactor ← Machine.div usable slot
        if branchingFactor < 2 then
          return .error (.unusable (.pageHoldsOneChild pageSize keySize))
        match ← levelCounts? branchingFactor Size.mostLevels leafPages with
        | none => return .error (.tooManyLevels (Size.mostLevels + 1) Size.mostLevels)
        | some counts =>
          match placeInSteps pageSize pageSize counts.reverse with
          | none => return .error (.unusable .fileTooLarge)
          | some (levels, leafOffset) =>
            match regionEnd pageSize leafOffset leafPages with
            | none => return .error (.unusable .fileTooLarge)
            | some leafEnd =>
              return .ok {
                pageSize
                keySize
                recordCount := attributes.recordCount
                encoding
                leafRecordSize
                recordsPerLeafPage
                leafPages
                leafOffset
                valueOffset := if encoding.usesValueRegion then leafEnd else 0
                branchingFactor
                levels }
      | _, _ => return .error (.unusable .branchingOverflow)

open Outcome

theorem plan?_eq {attributes : Attributes} {pageSize : ℕ} (hattributes : attributes.Fits) :
    plan? attributes pageSize = some (plan attributes pageSize) := by
  unfold plan? plan
  cases hvalid : attributes.validate with
  | error fault => rfl
  | ok =>
    obtain ⟨hkey, -⟩ := Attributes.validate_eq_ok hvalid
    simp only [mapError_ok, ok_bind, Encoding.select?_eq hkey, Option.bind_eq_bind,
      Option.bind_some]
    cases hsize : (Encoding.select attributes pageSize).leafRecordSize attributes.keySize
      attributes.valueSize with
    | none => rfl
    | some size =>
      simp only [orRefuse, ok_bind]
      by_cases hlarge : pageSize < size
      · rw [if_pos hlarge, if_pos hlarge]
        rfl
      -- a leaf record has a key and fits in a page, so neither divisor is zero
      have hkeyed := Encoding.keySize_le_leafRecordSize hsize
      have hroom : 0 < pageSize / size := Nat.div_pos (not_lt.mp hlarge) (by omega)
      rw [if_neg hlarge, if_neg hlarge, Machine.div_eq (by omega), Option.bind_some,
        Machine.ceilDiv_eq hattributes.recordCount_lt hroom, Option.bind_some, branching]
      cases Size.checked (pageSize + attributes.keySize) with
      | none => rfl
      | some usable =>
        cases hslot : Size.checked (attributes.keySize + Size.pointer) with
        | none => rfl
        | some slot =>
          obtain ⟨-, rfl⟩ := Size.checked_eq_some.mp hslot
          simp only [Machine.div_eq (show 0 < attributes.keySize + Size.pointer by omega),
            Option.bind_eq_bind, Option.bind_some, Option.pure_def, ok_bind]
          by_cases hfew : usable / (attributes.keySize + Size.pointer) < 2
          · rw [if_pos hfew, if_pos hfew]
            rfl
          -- there are at most as many leaf pages as records
          have hleaves : Size.ceilDiv attributes.recordCount (pageSize / size) < Size.limit := by
            refine lt_of_le_of_lt ?_ hattributes.recordCount_lt
            rw [Size.ceilDiv_le_iff hroom]
            exact Nat.le_mul_of_pos_right _ hroom
          rw [if_neg hfew, if_neg hfew, levelCounts?_eq (not_lt.mp hfew) _ _ hleaves,
            Option.bind_some]
          cases levelCounts (usable / (attributes.keySize + Size.pointer)) Size.mostLevels
            (Size.ceilDiv attributes.recordCount (pageSize / size)) with
          | none => rfl
          | some counts =>
            simp only [placeInSteps_eq]
            cases place pageSize pageSize counts.reverse with
            | none => rfl
            | some placed =>
              simp only [regionEnd_eq, ok_bind]
              cases Size.checked (placed.2 +
                Size.ceilDiv attributes.recordCount (pageSize / size) * pageSize) <;> rfl

/-- A plan is made exactly where the geometry exists and its end has 64 bits, and is that geometry.
It is refused for its levels exactly where the geometry has too many of them and its branching
factor can be computed, and as an unusable argument otherwise. No operation on the way wraps or
divides by zero. The height of a geometry is the least number of levels that reach all leaf pages. -/
theorem plan_exact {attributes : Attributes} {pageSize : ℕ} (hattributes : attributes.Fits)
    (hpage : pageSize < Size.limit) :
    plan? attributes pageSize = some (plan attributes pageSize) ∧
    (Geometry.Roomy attributes pageSize →
      IsLeast {d | Geometry.leafPages attributes pageSize ≤
        Geometry.branchingFactor attributes pageSize ^ d} (Geometry.height attributes pageSize)) ∧
    (∀ layout, plan attributes pageSize = .ok layout ↔
      Geometry.Feasible attributes pageSize ∧ layout = Geometry.layout attributes pageSize) ∧
    (∀ levels most, plan attributes pageSize = .error (.tooManyLevels levels most) ↔
      Geometry.TooTall attributes pageSize ∧
        levels = Size.mostLevels + 1 ∧ most = Size.mostLevels) ∧
    (¬Geometry.Feasible attributes pageSize → ¬Geometry.TooTall attributes pageSize →
      ∃ fault, (plan attributes pageSize).mapError PlanError.toError =
        .error (.invalidArgument fault)) := by
  refine ⟨plan?_eq hattributes, Geometry.Roomy.isLeast_height, ?_⟩
  by_cases hfeasible : Geometry.Feasible attributes pageSize
  · have hlow : ¬Geometry.TooTall attributes pageSize := fun h =>
      not_le.mpr h.lt_height hfeasible.height_le
    simp [Geometry.plan_of_feasible hattributes hpage hfeasible, hfeasible, hlow, eq_comm]
  by_cases htall : Geometry.TooTall attributes pageSize
  · simp [Geometry.plan_of_tooTall hattributes hpage htall, hfeasible, htall, eq_comm]
  · obtain ⟨fault, hfault⟩ := Geometry.plan_of_neither hattributes hpage hfeasible htall
    simp [hfault, hfeasible, htall, Except.mapError, PlanError.toError]

/-- Five keys on pages of three: a root page over two leaf pages. -/
theorem plan_exact_sample :
    plan? (.atom 8 5) 24 = some (.ok (Geometry.layout (.atom 8 5) 24)) ∧
      Geometry.Feasible (.atom 8 5) 24 := by
  have hplan : plan (.atom 8 5) 24 =
      .ok ⟨24, 8, 5, .atom, 8, 3, 2, 48, 0, 2, [⟨24, 1⟩]⟩ := rfl
  have hfits : (Attributes.atom 8 5).Fits := ⟨by decide, by decide, by decide⟩
  have hpage : 24 < Size.limit := by decide
  obtain ⟨hguarded, -, hok, -⟩ := plan_exact hfits hpage
  obtain ⟨hfeasible, hlayout⟩ := (hok _).mp hplan
  exact ⟨by rw [hguarded, hplan, hlayout], hfeasible⟩

end Layout

end PackedIndex
