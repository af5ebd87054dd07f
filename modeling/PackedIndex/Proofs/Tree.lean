import Mathlib
import PackedIndex.Proofs.Tiling
/-! # The tree over the leaf pages

How many children a page has, and how many records, is not stored. It follows from the geometry: on
every level the pages below are counted off from the left, and only the last page of a level may get
less than it has room for. `Size.Parts` says what counting off comes to; it holds of the children of
each level and of the records of the leaf pages alike. Paths from the root are then in one-to-one
correspondence with leaf pages.
-/
namespace PackedIndex

/-! ## Counting off -/

namespace Size

/-- Items are counted off into parts of some width, from the left: part `part` has the items from
`part * width` on, as many as `count` says. -/
structure Parts (whole width parts : ℕ) (count : ℕ → ℕ) : Prop where
  pos : ∀ part < parts, 0 < count part
  le_width : ∀ part < parts, count part ≤ width
  /-- A part stops where the next one starts, and the last part stops behind the last item. -/
  next : ∀ part, part + 1 < parts → part * width + count part = (part + 1) * width
  last : ∀ part, part + 1 = parts → part * width + count part = whole
  /-- No part goes on behind the last item. -/
  le_whole : ∀ part < parts, part * width + count part ≤ whole
  existsUnique : ∀ item < whole,
    ∃! part, part < parts ∧ item ∈ Set.Ico (part * width) (part * width + count part)

/-- The items of a part when as many as possible go into each. -/
def share (whole width part : ℕ) : ℕ :=
  min (whole - part * width) width

theorem parts_share (whole : ℕ) {width : ℕ} (hwidth : 0 < width) :
    Parts whole width (ceilDiv whole width) (share whole width) := by
  have hfirst : ∀ {part}, part < ceilDiv whole width ↔ part * width < whole :=
    lt_ceilDiv_iff hwidth
  constructor
  case pos =>
    intro part hpart
    have hlt := hfirst.mp hpart
    unfold share
    omega
  case le_width => exact fun part _ => min_le_right _ _
  case next =>
    intro part hpart
    have hlt := hfirst.mp hpart
    simp only [share, Nat.succ_mul] at hlt ⊢
    omega
  case last =>
    intro part hpart
    have hle : whole ≤ (part + 1) * width := (ceilDiv_le_iff hwidth).mp hpart.ge
    have hlt := hfirst.mp (Nat.lt_of_succ_le hpart.le)
    simp only [share, Nat.succ_mul] at hle ⊢
    omega
  case le_whole =>
    intro part hpart
    have hlt := hfirst.mp hpart
    unfold share
    omega
  case existsUnique =>
    intro item hitem
    have hsplit := Nat.div_add_mod' item width
    have hrest := Nat.mod_lt item hwidth
    refine ⟨item / width, ⟨hfirst.mpr (by omega), by omega, ?_⟩, ?_⟩
    · unfold share
      omega
    · rintro part ⟨-, hle, hlt⟩
      -- what is behind the start of a part is less than its width
      unfold share at hlt
      obtain ⟨slot, rfl⟩ := Nat.exists_eq_add_of_le hle
      exact (div_mod_mul_add part (by omega)).1.symm

end Size

namespace Layout

/-! ## Paths -/

/-- The pages on a way down, from a page of a level to a leaf page. Each is a child of the one
before it. -/
inductive Path (layout : Layout) : ℕ → ℕ → List ℕ → Prop
  | leaf {page : ℕ} (inside : page < layout.leafPages) : Path layout layout.numLevels page [page]
  | down {level page slot : ℕ} {pages : List ℕ} (above : level < layout.numLevels)
      (live : slot ≤ layout.separatorsIn level page)
      (rest : Path layout (level + 1) (page * layout.branchingFactor + slot) pages) :
      Path layout level page (page :: pages)

def passed (layout : Layout) (level leaf : ℕ) : List ℕ :=
  (List.range' level (layout.numLevels + 1 - level)).map (layout.openPage · leaf)

@[simp] theorem passed_numLevels (layout : Layout) (leaf : ℕ) :
    layout.passed layout.numLevels leaf = [leaf] := by
  simp [passed]

theorem passed_of_lt {layout : Layout} {level : ℕ} (h : level < layout.numLevels) (leaf : ℕ) :
    layout.passed level leaf = layout.openPage level leaf :: layout.passed (level + 1) leaf := by
  have hlength : layout.numLevels + 1 - level = layout.numLevels + 1 - (level + 1) + 1 := by omega
  simp [passed, hlength, List.range'_succ]

theorem getLast?_passed {layout : Layout} {level : ℕ} (h : level ≤ layout.numLevels) (leaf : ℕ) :
    (layout.passed level leaf).getLast? = some leaf := by
  induction h using Nat.decreasingInduction with
  | self => simp
  | of_succ level hlevel ih => simp [passed_of_lt hlevel, List.getLast?_cons, ih]

namespace Planned

variable {attributes : Attributes} {layout : Layout} (hl : layout.Planned attributes)
include hl

theorem path_passed {level leaf : ℕ} (hlevel : level ≤ layout.numLevels)
    (hleaf : leaf < layout.leafPages) :
    Path layout level (layout.openPage level leaf) (layout.passed level leaf) := by
  induction hlevel using Nat.decreasingInduction with
  | self => simpa using Path.leaf hleaf
  | of_succ level hlevel ih =>
    have hchild := layout.openPage_mul_add hlevel leaf
    have hinside := hl.openPage_lt (Nat.add_one_le_of_lt hlevel) hleaf
    have hslot := hl.openSlots_lt level leaf
    rw [← hchild] at ih
    rw [passed_of_lt hlevel]
    apply Path.down hlevel _ ih
    simp only [separatorsIn, childRegion]
    omega

theorem eq_passed_of_path {level page : ℕ} {pages : List ℕ} (h : Path layout level page pages) :
    level ≤ layout.numLevels ∧ ∃ leaf < layout.leafPages,
      layout.openPage level leaf = page ∧ pages = layout.passed level leaf := by
  induction h with
  | leaf inside => exact ⟨le_rfl, _, inside, by simp, by simp⟩
  | @down level page slot pages above live _ ih =>
    obtain ⟨-, leaf, hleaf, hchild, rfl⟩ := ih
    have hroom : slot < layout.branchingFactor := live.trans_lt (hl.separatorsIn_lt level page)
    have hpage : layout.openPage level leaf = page := by
      rw [layout.openPage_eq_div above, hchild, (Size.div_mod_mul_add page hroom).1]
    exact ⟨above.le, leaf, hleaf, hpage, by simp [passed_of_lt above, hpage]⟩

/-- From the root there is one way to each leaf page. -/
theorem path_iff {leaf : ℕ} (hleaf : leaf < layout.leafPages) (pages : List ℕ) :
    Path layout 0 0 pages ∧ pages.getLast? = some leaf ↔ pages = layout.passed 0 leaf := by
  constructor
  · rintro ⟨hpath, hlast⟩
    obtain ⟨-, other, -, -, rfl⟩ := hl.eq_passed_of_path hpath
    rw [getLast?_passed (Nat.zero_le _), Option.some.injEq] at hlast
    rw [hlast]
  · rintro rfl
    have hpath := hl.path_passed (Nat.zero_le _) hleaf
    rw [hl.openPage_zero hleaf] at hpath
    exact ⟨hpath, getLast?_passed (Nat.zero_le _) leaf⟩

/-! ## Live items -/

theorem isLeast_numLevels :
    IsLeast {d | layout.leafPages ≤ layout.branchingFactor ^ d} layout.numLevels := by
  refine ⟨hl.leafPages_le, fun d hd => ?_⟩
  by_contra hlt
  exact absurd hd (hl.least d (not_le.mp hlt)).not_ge

theorem pages_eq_ceilDiv {level : ℕ} (hlevel : level < layout.numLevels) :
    (layout.region level).pages =
      Size.ceilDiv (layout.childRegion level).pages layout.branchingFactor := by
  apply eq_of_forall_lt_iff
  intro page
  rw [hl.lt_pages_succ_iff hlevel, Size.lt_ceilDiv_iff hl.branchingFactor_pos, childRegion]

theorem separatorsIn_add_one {level page : ℕ} (hlevel : level < layout.numLevels)
    (hpage : page < (layout.region level).pages) : layout.separatorsIn level page + 1 =
      Size.share (layout.childRegion level).pages layout.branchingFactor page := by
  have hfirst := (hl.lt_pages_succ_iff hlevel page).mp hpage
  have hpos := hl.branchingFactor_pos
  simp only [separatorsIn, Size.share, childRegion]
  omega

theorem children_parts {level : ℕ} (hlevel : level < layout.numLevels) :
    Size.Parts (layout.childRegion level).pages layout.branchingFactor
      (layout.region level).pages fun page => layout.separatorsIn level page + 1 := by
  have hparts := Size.parts_share (layout.childRegion level).pages hl.branchingFactor_pos
  rw [← hl.pages_eq_ceilDiv hlevel] at hparts
  have hcount {page : ℕ} (hpage : page < (layout.region level).pages) :=
    hl.separatorsIn_add_one hlevel hpage
  exact
    { pos := fun page _ => Nat.succ_pos _
      le_width := fun page hpage => (hcount hpage).trans_le (hparts.le_width page hpage)
      next := fun page hpage => by rw [hcount (by omega), hparts.next page hpage]
      last := fun page hpage => by rw [hcount (by omega), hparts.last page hpage]
      le_whole := fun page hpage => by rw [hcount hpage]; exact hparts.le_whole page hpage
      existsUnique := fun child hchild => by
        obtain ⟨page, ⟨hpage, hin⟩, hunique⟩ := hparts.existsUnique child hchild
        refine ⟨page, ⟨hpage, by simpa only [hcount hpage] using hin⟩, ?_⟩
        rintro other ⟨hother, hotherIn⟩
        exact hunique other ⟨hother, by simpa only [hcount hother] using hotherIn⟩ }

theorem records_parts : Size.Parts layout.recordCount layout.recordsPerLeafPage layout.leafPages
    layout.recordsInLeaf :=
  hl.leafPages_eq ▸ Size.parts_share _ hl.recordsPerLeafPage_pos

/-- Every page below the root is the child at one slot of one page. -/
theorem existsUnique_parent {level child : ℕ} (hlevel : level < layout.numLevels)
    (hchild : child < (layout.childRegion level).pages) :
    ∃! place : ℕ × ℕ, place.1 < (layout.region level).pages ∧
      place.2 ≤ layout.separatorsIn level place.1 ∧
      place.1 * layout.branchingFactor + place.2 = child := by
  obtain ⟨page, ⟨hpage, hfirst, hstop⟩, hunique⟩ :=
    (hl.children_parts hlevel).existsUnique child hchild
  refine ⟨(page, child - page * layout.branchingFactor), ⟨hpage, ?_, ?_⟩, ?_⟩
  · dsimp only at hstop ⊢
    omega
  · exact Nat.add_sub_cancel' hfirst
  · rintro ⟨other, slot⟩ ⟨hother, hslot, rfl⟩
    obtain rfl := hunique other ⟨hother, Nat.le_add_right _ _, by dsimp only at hslot ⊢; omega⟩
    simp

end Planned

/-! ## Complete trees -/

/-- A geometry whose levels are a complete tree over the leaf pages, and its leaf pages over the
records. -/
structure CompleteTree (layout : Layout) : Prop where
  /-- There are as many levels as one root page needs. -/
  height : IsLeast {d | layout.leafPages ≤ layout.branchingFactor ^ d} layout.numLevels
  pages : ∀ level < layout.numLevels, (layout.region level).pages =
    Size.ceilDiv layout.leafPages (layout.branchingFactor ^ (layout.numLevels - level))
  /-- The live separators of a page are computed without a number below zero or above 64 bits. -/
  separators : ∀ level < layout.numLevels, ∀ page < (layout.region level).pages,
    layout.separatorsIn? level page = some (layout.separatorsIn level page) ∧
      layout.separatorsIn level page ≤ layout.branchingFactor - 1
  children : ∀ level < layout.numLevels,
    Size.Parts (layout.childRegion level).pages layout.branchingFactor (layout.region level).pages
      fun page => layout.separatorsIn level page + 1
  parent : ∀ level < layout.numLevels, ∀ child < (layout.childRegion level).pages,
    ∃! place : ℕ × ℕ, place.1 < (layout.region level).pages ∧
      place.2 ≤ layout.separatorsIn level place.1 ∧
      place.1 * layout.branchingFactor + place.2 = child
  /-- The one way from the root to a leaf page passes one page of each level. -/
  path : ∀ leaf < layout.leafPages, ∀ pages : List ℕ,
    Path layout 0 0 pages ∧ pages.getLast? = some leaf ↔
      pages = (List.range (layout.numLevels + 1)).map fun level =>
        leaf / layout.branchingFactor ^ (layout.numLevels - level)
  recordsInLeaf : ∀ page < layout.leafPages,
    layout.recordsInLeaf? page = some (layout.recordsInLeaf page)
  records : Size.Parts layout.recordCount layout.recordsPerLeafPage layout.leafPages
    layout.recordsInLeaf

/-- What is planned is a complete tree. -/
theorem completeTree_of_plan {attributes : Attributes} {pageSize : ℕ} {layout : Layout}
    (h : plan attributes pageSize = .ok layout) : layout.CompleteTree := by
  obtain ⟨-, hl⟩ := planned_of_plan h
  exact
    { height := hl.isLeast_numLevels
      pages := fun level hlevel => hl.pages_eq level hlevel.le
      separators := fun level hlevel page hpage =>
        ⟨hl.separatorsIn?_eq hlevel hpage, Nat.le_sub_one_of_lt (hl.separatorsIn_lt level page)⟩
      children := fun level hlevel => hl.children_parts hlevel
      parent := fun level hlevel child hchild => hl.existsUnique_parent hlevel hchild
      path := fun leaf hleaf pages => by
        simpa [passed, openPage, List.range_eq_range'] using hl.path_iff hleaf pages
      recordsInLeaf := fun page hpage => hl.recordsInLeaf?_eq hpage
      records := hl.records_parts }

theorem completeTree_of_plan_twenty :
    plan (.atom 8 20) 24 = .ok twenty ∧ twenty.CompleteTree :=
  ⟨plan_twenty, completeTree_of_plan plan_twenty⟩

end Layout

end PackedIndex
