import PackedIndex.Layout.Plan
import PackedIndex.Proofs.Record
/-! # What a planned geometry is

`Planned` collects what `plan` guarantees: the regions follow each other without gaps from the first
page on, level `level` of `d` has one page for every `b ^ (d - level)` leaf pages, and the room in a
page is enough for the items counted into it.
-/
namespace PackedIndex

namespace Size

theorem ceilDiv_le_iff {whole part n : ℕ} (hpart : 0 < part) :
    ceilDiv whole part ≤ n ↔ whole ≤ n * part := by
  rw [ceilDiv, Nat.div_le_iff_le_mul_add_pred hpart, Nat.mul_comm part]
  omega

theorem lt_ceilDiv_iff {whole part n : ℕ} (hpart : 0 < part) :
    n < ceilDiv whole part ↔ n * part < whole := by
  rw [← not_le, ceilDiv_le_iff hpart, not_le]

theorem ceilDiv_pos {whole part : ℕ} (hpart : 0 < part) (hwhole : 0 < whole) :
    0 < ceilDiv whole part := by
  rw [lt_ceilDiv_iff hpart]
  omega

@[simp] theorem ceilDiv_one (whole : ℕ) : ceilDiv whole 1 = whole := by
  simp [ceilDiv]

theorem ceilDiv_ceilDiv {whole part other : ℕ} (hpart : 0 < part) (hother : 0 < other) :
    ceilDiv (ceilDiv whole part) other = ceilDiv whole (part * other) := by
  apply eq_of_forall_ge_iff
  intro n
  rw [ceilDiv_le_iff hother, ceilDiv_le_iff hpart, ceilDiv_le_iff (Nat.mul_pos hpart hother),
    Nat.mul_right_comm, Nat.mul_assoc]

theorem div_mod_mul_add (page : ℕ) {slot b : ℕ} (h : slot < b) :
    (page * b + slot) / b = page ∧ (page * b + slot) % b = slot := by
  rw [Nat.div_mod_unique (by omega)]
  exact ⟨by rw [Nat.mul_comm, Nat.add_comm], h⟩

theorem div_mod_succ_of_room {child b : ℕ} (h : child % b + 1 < b) :
    (child + 1) / b = child / b ∧ (child + 1) % b = child % b + 1 := by
  have hsplit := Nat.mod_add_div child b
  rw [Nat.div_mod_unique (by omega)]
  exact ⟨by omega, h⟩

theorem div_mod_succ_of_full {child b : ℕ} (h : child % b + 1 = b) :
    (child + 1) / b = child / b + 1 ∧ (child + 1) % b = 0 := by
  have hsplit := Nat.mod_add_div child b
  rw [Nat.div_mod_unique (by omega), Nat.mul_succ]
  exact ⟨by omega, by omega⟩

end Size

namespace Layout

open Outcome

/-- What is known of a layout that was planned for some attributes. -/
structure Planned (attributes : Attributes) (layout : Layout) : Prop where
  valid : attributes.validate = .ok ()
  keySize_eq : layout.keySize = attributes.keySize
  recordCount_eq : layout.recordCount = attributes.recordCount
  encoding_eq : layout.encoding = Encoding.select attributes layout.pageSize
  leafRecordSize_eq :
    layout.encoding.leafRecordSize layout.keySize attributes.valueSize = some layout.leafRecordSize
  leafRecordSize_le : layout.leafRecordSize ≤ layout.pageSize
  recordsPerLeafPage_eq : layout.recordsPerLeafPage = layout.pageSize / layout.leafRecordSize
  leafPages_eq :
    layout.leafPages = Size.ceilDiv layout.recordCount layout.recordsPerLeafPage
  branchingFactor_eq :
    layout.branchingFactor = (layout.pageSize + layout.keySize) / (layout.keySize + 8)
  two_le_branchingFactor : 2 ≤ layout.branchingFactor
  numLevels_le : layout.numLevels ≤ Size.mostLevels
  /-- The levels are enough for one root page, and no level could be left out. -/
  leafPages_le : layout.leafPages ≤ layout.branchingFactor ^ layout.numLevels
  least : ∀ d < layout.numLevels, layout.branchingFactor ^ d < layout.leafPages
  pages_eq : ∀ level ≤ layout.numLevels, (layout.region level).pages =
    Size.ceilDiv layout.leafPages (layout.branchingFactor ^ (layout.numLevels - level))
  offset_zero : (layout.region 0).offset = layout.pageSize
  offset_succ : ∀ level < layout.numLevels, (layout.region (level + 1)).offset =
    (layout.region level).offset + (layout.region level).pages * layout.pageSize
  leafEnd_lt : layout.leafEnd < Size.limit
  valueOffset_eq :
    layout.valueOffset = if layout.encoding.usesValueRegion then layout.leafEnd else 0

theorem orRefuse_eq_ok {fault : ArgumentFault} {x : Option α} {a : α} :
    orRefuse fault x = .ok a ↔ x = some a := by
  cases x <;> simp [orRefuse]

theorem branching_eq_some {pageSize keySize b : ℕ} (h : branching pageSize keySize = some b) :
    b = (pageSize + keySize) / (keySize + 8) := by
  simp only [branching, Option.bind_eq_bind, Option.bind_eq_some_iff, Size.checked_eq_some,
    Option.pure_def, Option.some.injEq] at h
  obtain ⟨usable, ⟨-, rfl⟩, slot, ⟨-, rfl⟩, rfl⟩ := h
  rfl

/-- The page counts from the lowest level up, each in terms of the leaf pages. -/
theorem levelCounts_spec {b most pages : ℕ} {counts : List ℕ} (hb : 2 ≤ b) (hpages : 0 < pages)
    (h : levelCounts b most pages = some counts) :
    counts.length ≤ most ∧ pages ≤ b ^ counts.length ∧ (∀ d < counts.length, b ^ d < pages) ∧
      ∀ i (hi : i < counts.length), counts[i] = Size.ceilDiv pages (b ^ (i + 1)) := by
  induction most generalizing pages counts with
  | zero =>
    simp only [levelCounts] at h
    split_ifs at h with hone
    obtain rfl := Option.some.inj h
    refine ⟨le_rfl, by simpa using hone, by simp, by simp⟩
  | succ most ih =>
    simp only [levelCounts] at h
    split_ifs at h with hone
    · obtain rfl := Option.some.inj h
      refine ⟨by simp, by simpa using hone, by simp, by simp⟩
    · -- the levels above are those over one page for every `b` pages of this one
      obtain ⟨rest, hrest, rfl⟩ := Option.map_eq_some_iff.mp h
      have hb0 : 0 < b := by omega
      obtain ⟨hlen, hle, hleast, hcount⟩ := ih (Size.ceilDiv_pos hb0 hpages) hrest
      refine ⟨by simpa using hlen, ?_, ?_, ?_⟩
      · rw [List.length_cons, pow_succ]
        exact (Size.ceilDiv_le_iff hb0).mp hle
      · intro d hd
        cases d with
        | zero => simpa using hone
        | succ d =>
          rw [pow_succ]
          exact (Size.lt_ceilDiv_iff hb0).mp (hleast d (by simpa using hd))
      · intro i hi
        cases i with
        | zero => simp
        | succ i =>
          rw [List.getElem_cons_succ, hcount i (by simpa using hi),
            Size.ceilDiv_ceilDiv hb0 (by positivity), ← pow_succ']

theorem place_spec {pageSize offset stop : ℕ} {counts : List ℕ} {regions : List Region}
    (h : place pageSize offset counts = some (regions, stop)) :
    regions.map Region.pages = counts ∧
      ∀ behind : Region, behind.offset = stop →
        ((regions[0]?).getD behind).offset = offset ∧
        ∀ i < regions.length, ((regions[i + 1]?).getD behind).offset =
          ((regions[i]?).getD behind).offset + ((regions[i]?).getD behind).pages * pageSize := by
  induction counts generalizing offset regions with
  | nil =>
    simp only [place, Option.some.injEq, Prod.mk.injEq] at h
    obtain ⟨rfl, rfl⟩ := h
    simp
  | cons pages counts ih =>
    simp only [place, Option.bind_eq_bind, Option.bind_eq_some_iff, Prod.exists, Option.pure_def,
      Option.some.injEq, Prod.mk.injEq] at h
    obtain ⟨next, hnext, rest, end', hrest, rfl, rfl⟩ := h
    obtain ⟨-, rfl⟩ := Size.checked_eq_some.mp hnext
    obtain ⟨hpages, hchain⟩ := ih hrest
    refine ⟨by simp [hpages], fun behind hbehind => ?_⟩
    obtain ⟨hfirst, hnext⟩ := hchain behind hbehind
    refine ⟨by simp, fun i hi => ?_⟩
    cases i with
    | zero => simpa using hfirst
    | succ i => simpa using hnext i (by simpa using hi)

theorem plan_eq_ok {attributes : Attributes} {pageSize : ℕ} {layout : Layout}
    (h : plan attributes pageSize = .ok layout) :
    ∃ size b counts levels leafOffset leafEnd,
      attributes.validate = .ok () ∧
      (Encoding.select attributes pageSize).leafRecordSize attributes.keySize
        attributes.valueSize = some size ∧
      size ≤ pageSize ∧
      branching pageSize attributes.keySize = some b ∧
      2 ≤ b ∧
      levelCounts b Size.mostLevels (Size.ceilDiv attributes.recordCount (pageSize / size)) =
        some counts ∧
      place pageSize pageSize counts.reverse = some (levels, leafOffset) ∧
      Size.checked (leafOffset + Size.ceilDiv attributes.recordCount (pageSize / size) * pageSize) =
        some leafEnd ∧
      layout = {
        pageSize
        keySize := attributes.keySize
        recordCount := attributes.recordCount
        encoding := Encoding.select attributes pageSize
        leafRecordSize := size
        recordsPerLeafPage := pageSize / size
        leafPages := Size.ceilDiv attributes.recordCount (pageSize / size)
        leafOffset
        valueOffset := if (Encoding.select attributes pageSize).usesValueRegion then leafEnd else 0
        branchingFactor := b
        levels } := by
  unfold plan at h
  obtain ⟨⟨⟩, hvalid, h⟩ := bind_eq_ok.mp h
  rw [mapError_eq_ok] at hvalid
  dsimp only at h
  obtain ⟨size, hsize, h⟩ := bind_eq_ok.mp h
  rw [orRefuse_eq_ok] at hsize
  obtain ⟨hfit, h⟩ := guard_eq_ok.mp h
  obtain ⟨b, hb, h⟩ := bind_eq_ok.mp h
  rw [orRefuse_eq_ok] at hb
  obtain ⟨htwo, h⟩ := guard_eq_ok.mp h
  split at h
  · cases h
  · rename_i counts hcounts
    obtain ⟨⟨levels, leafOffset⟩, hplace, h⟩ := bind_eq_ok.mp h
    rw [orRefuse_eq_ok] at hplace
    obtain ⟨leafEnd, hend, h⟩ := bind_eq_ok.mp h
    rw [orRefuse_eq_ok] at hend
    rw [pure_eq_ok] at h
    exact ⟨size, b, counts, levels, leafOffset, leafEnd, hvalid, hsize, not_lt.mp hfit, hb,
      not_lt.mp htwo, hcounts, hplace, hend, h.symm⟩

theorem pages_region {layout : Layout} {b : ℕ} {counts : List ℕ}
    (hregions : layout.levels.map Region.pages = counts.reverse)
    (hcounts : ∀ i (hi : i < counts.length),
      counts[i] = Size.ceilDiv layout.leafPages (b ^ (i + 1)))
    {level : ℕ} (hlevel : level ≤ layout.numLevels) :
    (layout.region level).pages =
      Size.ceilDiv layout.leafPages (b ^ (layout.numLevels - level)) := by
  have hlength : counts.length = layout.numLevels := by
    simpa [numLevels] using (congrArg List.length hregions).symm
  rcases Nat.lt_or_eq_of_le hlevel with hlt | rfl
  · have hlt' : level < layout.levels.length := hlt
    have hget : layout.levels[level].pages = counts[counts.length - 1 - level] := by
      rw [← List.getElem_reverse (by simpa [hlength] using hlt), ← List.getElem_map Region.pages]
      · simp only [hregions]
      · simpa using hlt'
    have hheight : counts.length - 1 - level + 1 = layout.numLevels - level := by omega
    rw [hcounts, hheight] at hget
    rw [region, List.getElem?_eq_getElem hlt', Option.getD_some, hget]
  · simp [region, numLevels, leafRegion]

theorem planned_of_plan {attributes : Attributes} {pageSize : ℕ} {layout : Layout}
    (h : plan attributes pageSize = .ok layout) :
    layout.pageSize = pageSize ∧ layout.Planned attributes := by
  obtain ⟨size, b, counts, levels, leafOffset, leafEnd, hvalid, hsize, hfit, hb, htwo, hcounts,
    hplace, hend, rfl⟩ := plan_eq_ok h
  obtain ⟨hkey, hcount, -⟩ := Attributes.validate_eq_ok hvalid
  obtain ⟨hlimit, rfl⟩ := Size.checked_eq_some.mp hend
  have hroom : 0 < pageSize / size :=
    Nat.div_pos hfit (hkey.trans_le (Encoding.keySize_le_leafRecordSize hsize))
  obtain ⟨hmost, hle, hleast, hpages⟩ :=
    levelCounts_spec htwo (Size.ceilDiv_pos hroom hcount) hcounts
  obtain ⟨hregions, hchain⟩ := place_spec hplace
  have hlength : counts.length = levels.length := by
    simpa using (congrArg List.length hregions).symm
  rw [hlength] at hmost hle hleast
  obtain ⟨hzero, hsucc⟩ :=
    hchain ⟨leafOffset, Size.ceilDiv attributes.recordCount (pageSize / size)⟩ rfl
  exact ⟨rfl, hvalid, rfl, rfl, rfl, hsize, hfit, rfl, rfl, branching_eq_some hb, htwo, hmost, hle,
    hleast, fun _ hlevel => pages_region hregions hpages hlevel, hzero, hsucc, hlimit, rfl⟩

@[simp] theorem region_numLevels (layout : Layout) :
    layout.region layout.numLevels = layout.leafRegion := by
  simp [region, numLevels]

theorem pages_numLevels (layout : Layout) :
    (layout.region layout.numLevels).pages = layout.leafPages := by
  simp [leafRegion]

theorem leafPageOffset_eq (layout : Layout) (page : ℕ) :
    layout.leafPageOffset page = layout.pageOffset layout.numLevels page := by
  rw [pageOffset, region_numLevels]
  rfl

theorem leafEnd_eq (layout : Layout) :
    layout.leafEnd = layout.pageOffset layout.numLevels layout.leafPages := by
  rw [pageOffset, region_numLevels]
  rfl

theorem childOffset_eq (layout : Layout) (level child : ℕ) :
    layout.childOffset level child = layout.pageOffset (level + 1) child := rfl

theorem pageOffset_succ (layout : Layout) (level page : ℕ) :
    layout.pageOffset level (page + 1) = layout.pageOffset level page + layout.pageSize := by
  rw [pageOffset, pageOffset, Nat.succ_mul, Nat.add_assoc]

theorem pageOffset_add_le (layout : Layout) (level : ℕ) {page other : ℕ} (h : page < other) :
    layout.pageOffset level page + layout.pageSize ≤ layout.pageOffset level other := by
  rw [← pageOffset_succ]
  exact Nat.add_le_add_left (Nat.mul_le_mul_right _ h) _

namespace Planned

variable {attributes : Attributes} {layout : Layout} (hl : layout.Planned attributes)
include hl

theorem keySize_pos : 0 < layout.keySize := by
  rw [hl.keySize_eq]
  exact (Attributes.validate_eq_ok hl.valid).1

theorem recordCount_pos : 0 < layout.recordCount := by
  rw [hl.recordCount_eq]
  exact (Attributes.validate_eq_ok hl.valid).2.1

theorem keySize_le : layout.keySize ≤ layout.leafRecordSize :=
  Encoding.keySize_le_leafRecordSize hl.leafRecordSize_eq

theorem leafRecordSize_pos : 0 < layout.leafRecordSize :=
  hl.keySize_pos.trans_le hl.keySize_le

theorem pageSize_pos : 0 < layout.pageSize :=
  hl.leafRecordSize_pos.trans_le hl.leafRecordSize_le

theorem recordsPerLeafPage_pos : 0 < layout.recordsPerLeafPage := by
  rw [hl.recordsPerLeafPage_eq]
  exact Nat.div_pos hl.leafRecordSize_le hl.leafRecordSize_pos

theorem leafPages_pos : 0 < layout.leafPages := by
  rw [hl.leafPages_eq]
  exact Size.ceilDiv_pos hl.recordsPerLeafPage_pos hl.recordCount_pos

theorem branchingFactor_pos : 0 < layout.branchingFactor :=
  Nat.zero_lt_two.trans_le hl.two_le_branchingFactor

theorem power_pos (height : ℕ) : 0 < layout.branchingFactor ^ height :=
  Nat.pow_pos hl.branchingFactor_pos

theorem leaf_room : layout.recordsPerLeafPage * layout.leafRecordSize ≤ layout.pageSize := by
  rw [hl.recordsPerLeafPage_eq]
  exact Nat.div_mul_le_self _ _

theorem slot_room {slot : ℕ} (hslot : slot < layout.recordsPerLeafPage) :
    slot * layout.leafRecordSize + layout.leafRecordSize ≤ layout.pageSize := by
  rw [← Nat.succ_mul]
  exact (Nat.mul_le_mul_right _ hslot).trans hl.leaf_room

/-- The separators and the child pointers behind them have room in an index page. -/
theorem index_room :
    layout.pointerPosition layout.branchingFactor ≤ layout.pageSize := by
  have hb := Nat.div_mul_le_self (layout.pageSize + layout.keySize) (layout.keySize + 8)
  have htwo := hl.two_le_branchingFactor
  rw [← hl.branchingFactor_eq] at hb
  obtain ⟨b, hb'⟩ : ∃ b, layout.branchingFactor = b + 1 := ⟨_, (Nat.succ_pred (by omega)).symm⟩
  rw [hb'] at hb
  simp only [pointerPosition, Size.pointer, hb', Nat.add_sub_cancel]
  nlinarith

theorem leafPage_lt {index : ℕ} (h : index < layout.recordCount) :
    index / layout.recordsPerLeafPage < layout.leafPages := by
  have hroom := hl.recordsPerLeafPage_pos
  rw [hl.leafPages_eq, Size.lt_ceilDiv_iff hroom]
  exact (Nat.div_mul_le_self _ _).trans_lt h

theorem slot_lt {index : ℕ} (h : index < layout.recordCount) :
    index % layout.recordsPerLeafPage <
      layout.recordsInLeaf (index / layout.recordsPerLeafPage) := by
  have hsplit := Nat.div_add_mod' index layout.recordsPerLeafPage
  have hmod := Nat.mod_lt index hl.recordsPerLeafPage_pos
  unfold Layout.recordsInLeaf
  omega

theorem recordCount_le : layout.recordCount ≤ layout.leafPages * layout.recordsPerLeafPage := by
  rw [hl.leafPages_eq, ← Size.ceilDiv_le_iff hl.recordsPerLeafPage_pos]

theorem lt_pages_iff {level : ℕ} (hlevel : level ≤ layout.numLevels) (page : ℕ) :
    page < (layout.region level).pages ↔
      page * layout.branchingFactor ^ (layout.numLevels - level) < layout.leafPages := by
  rw [hl.pages_eq level hlevel, Size.lt_ceilDiv_iff (hl.power_pos _)]

theorem pages_pos {level : ℕ} (hlevel : level ≤ layout.numLevels) :
    0 < (layout.region level).pages := by
  rw [hl.lt_pages_iff hlevel, Nat.zero_mul]
  exact hl.leafPages_pos

theorem pages_zero : (layout.region 0).pages = 1 := by
  refine Nat.le_antisymm ?_ (hl.pages_pos (Nat.zero_le _))
  rw [hl.pages_eq 0 (Nat.zero_le _), Size.ceilDiv_le_iff (hl.power_pos _), Nat.one_mul]
  exact hl.leafPages_le

/-- The parent of a page is a page of the level above. -/
theorem lt_pages_succ_iff {level : ℕ} (hlevel : level < layout.numLevels) (page : ℕ) :
    page < (layout.region level).pages ↔
      page * layout.branchingFactor < (layout.region (level + 1)).pages := by
  have hheight : layout.numLevels - level = layout.numLevels - (level + 1) + 1 := by omega
  rw [hl.lt_pages_iff hlevel.le, hl.lt_pages_iff hlevel, hheight, pow_succ', Nat.mul_assoc]

theorem region_end_le {level other : ℕ} (h : level < other) (hother : other ≤ layout.numLevels) :
    layout.pageOffset level (layout.region level).pages ≤ (layout.region other).offset := by
  induction other with
  | zero => omega
  | succ other ih =>
    have hnext := hl.offset_succ other hother
    rcases Nat.lt_succ_iff_lt_or_eq.mp h with hlt | rfl
    · exact (ih hlt (by omega)).trans (by omega)
    · exact hnext.ge

theorem pageSize_le_offset (level : ℕ) : layout.pageSize ≤ (layout.region level).offset := by
  have hindex : ∀ level ≤ layout.numLevels, layout.pageSize ≤ (layout.region level).offset := by
    intro level h
    rcases Nat.eq_zero_or_pos level with rfl | hpos
    · exact hl.offset_zero.ge
    · have hend := hl.region_end_le hpos h
      rw [pageOffset, hl.offset_zero] at hend
      omega
  rcases Nat.le_total level layout.numLevels with h | h
  · exact hindex level h
  · have hregion : layout.region level = layout.region layout.numLevels := by
      rw [region_numLevels, region, List.getElem?_eq_none h, Option.getD_none]
    rw [hregion]
    exact hindex _ le_rfl

theorem pageSize_le_pageOffset (level page : ℕ) : layout.pageSize ≤ layout.pageOffset level page :=
  (hl.pageSize_le_offset level).trans (Nat.le_add_right _ _)

theorem pageSize_le_leafEnd : layout.pageSize ≤ layout.leafEnd := by
  rw [leafEnd_eq]
  exact hl.pageSize_le_pageOffset _ _

theorem pageOffset_end_le {level page other : ℕ} (hpage : page < (layout.region level).pages)
    (h : level < other) (hother : other ≤ layout.numLevels) :
    layout.pageOffset level page + layout.pageSize ≤ (layout.region other).offset :=
  (layout.pageOffset_add_le level hpage).trans (hl.region_end_le h hother)

theorem pages_apart {level page level' page' : ℕ} (hlevel : level ≤ layout.numLevels)
    (hlevel' : level' ≤ layout.numLevels) (hpage : page < (layout.region level).pages)
    (hpage' : page' < (layout.region level').pages) (hne : ¬(level = level' ∧ page = page')) :
    layout.pageOffset level page + layout.pageSize ≤ layout.pageOffset level' page' ∨
      layout.pageOffset level' page' + layout.pageSize ≤ layout.pageOffset level page := by
  rcases Nat.lt_trichotomy level level' with hlt | rfl | hgt
  · exact Or.inl ((hl.pageOffset_end_le hpage hlt hlevel').trans (Nat.le_add_right _ _))
  · rcases Nat.lt_or_gt_of_ne fun h => hne ⟨rfl, h⟩ with hlt | hgt
    · exact Or.inl (layout.pageOffset_add_le level hlt)
    · exact Or.inr (layout.pageOffset_add_le level hgt)
  · exact Or.inr ((hl.pageOffset_end_le hpage' hgt hlevel).trans (Nat.le_add_right _ _))

theorem page_end_le_leafEnd {level page : ℕ} (hlevel : level ≤ layout.numLevels)
    (hpage : page < (layout.region level).pages) :
    layout.pageOffset level page + layout.pageSize ≤ layout.leafEnd := by
  rcases Nat.lt_or_eq_of_le hlevel with hlt | rfl
  · apply (hl.pageOffset_end_le hpage hlt le_rfl).trans
    rw [region_numLevels]
    exact Nat.le_add_right _ _
  · rw [leafEnd_eq]
    rw [region_numLevels] at hpage
    exact layout.pageOffset_add_le _ hpage

theorem leafPage_end_le_leafEnd {page : ℕ} (hpage : page < layout.leafPages) :
    layout.leafPageOffset page + layout.pageSize ≤ layout.leafEnd := by
  rw [leafPageOffset_eq]
  exact hl.page_end_le_leafEnd le_rfl (layout.pages_numLevels ▸ hpage)

theorem region_end_le_leafEnd {level : ℕ} (hlevel : level ≤ layout.numLevels) :
    (layout.region level).offset + (layout.region level).pages * layout.pageSize ≤
      layout.leafEnd := by
  have hpos := hl.pages_pos hlevel
  have hlast : (layout.region level).pages - 1 < (layout.region level).pages := by omega
  have hend := hl.page_end_le_leafEnd hlevel hlast
  rw [← pageOffset_succ, Nat.sub_add_cancel hpos] at hend
  exact hend

theorem pages_le_leafEnd {level : ℕ} (hlevel : level ≤ layout.numLevels) :
    (layout.region level).pages ≤ layout.leafEnd := by
  have hend := hl.region_end_le_leafEnd hlevel
  have hpages := Nat.le_mul_of_pos_right (layout.region level).pages hl.pageSize_pos
  omega

theorem recordsPerLeafPage_le : layout.recordsPerLeafPage ≤ layout.pageSize := by
  rw [hl.recordsPerLeafPage_eq]
  exact Nat.div_le_self _ _

theorem branchingFactor_le : layout.branchingFactor ≤ layout.pageSize := by
  have hroom := hl.index_room
  simp only [pointerPosition, Size.pointer] at hroom
  omega

theorem recordCount_le_leafEnd : layout.recordCount ≤ layout.leafEnd := by
  have hend := hl.region_end_le_leafEnd le_rfl
  have hcount := hl.recordCount_le.trans
    (Nat.mul_le_mul_left layout.leafPages hl.recordsPerLeafPage_le)
  rw [region_numLevels] at hend
  exact hcount.trans ((Nat.le_add_left _ _).trans hend)

end Planned

end Layout

end PackedIndex
