import PackedIndex.Cursor
import PackedIndex.Proofs.Layout
/-! # The places of all separators

After `count` separators, the page being filled on a level is the one over leaf page `count`, and
its separators are the children before the one over that leaf page. One more separator goes to the
lowest level whose page has room: the levels below it start a page, those above it stay.
-/
namespace PackedIndex

namespace Layout

/-- The page over leaf page `count`, which is being filled after `count` separators. -/
def openPage (layout : Layout) (level count : ℕ) : ℕ :=
  count / layout.branchingFactor ^ (layout.numLevels - level)

def openSlots (layout : Layout) (level count : ℕ) : ℕ :=
  layout.openPage (level + 1) count % layout.branchingFactor

/-- One more than the separators that have a place: the children that the pages of the lowest level
have room for. Without index levels there is room for the one leaf page. -/
def room (layout : Layout) : ℕ :=
  if layout.numLevels = 0 then 1
  else layout.branchingFactor * (layout.region (layout.numLevels - 1)).pages

@[simp] theorem openPage_numLevels (layout : Layout) (count : ℕ) :
    layout.openPage layout.numLevels count = count := by
  simp [openPage]

@[simp] theorem openPage_zero_count (layout : Layout) (level : ℕ) :
    layout.openPage level 0 = 0 := by
  simp [openPage]

theorem openPage_eq_div (layout : Layout) {level : ℕ} (h : level < layout.numLevels) (count : ℕ) :
    layout.openPage level count = layout.openPage (level + 1) count / layout.branchingFactor := by
  have hheight : layout.numLevels - level = layout.numLevels - (level + 1) + 1 := by omega
  rw [openPage, openPage, hheight, pow_succ, Nat.div_div_eq_div_mul]

theorem openPage_eq_div_pow (layout : Layout) {level other : ℕ} (h : other ≤ level)
    (hlevel : level ≤ layout.numLevels) (count : ℕ) :
    layout.openPage other count =
      layout.openPage level count / layout.branchingFactor ^ (level - other) := by
  have hheight : layout.numLevels - other = layout.numLevels - level + (level - other) := by omega
  rw [openPage, openPage, hheight, pow_add, Nat.div_div_eq_div_mul]

theorem openPage_mul_add (layout : Layout) {level : ℕ} (h : level < layout.numLevels)
    (count : ℕ) :
    layout.openPage level count * layout.branchingFactor + layout.openSlots level count =
      layout.openPage (level + 1) count := by
  rw [layout.openPage_eq_div h, openSlots, Nat.div_add_mod']

/-- A page that has room for the separator of a page started below it stays. -/
theorem openPage_succ_of_room {layout : Layout} {level count : ℕ}
    (hlevel : level < layout.numLevels)
    (hstarted : layout.openPage (level + 1) (count + 1) = layout.openPage (level + 1) count + 1)
    (hroom : layout.openSlots level count + 1 < layout.branchingFactor) :
    layout.openPage level (count + 1) = layout.openPage level count ∧
      layout.openSlots level (count + 1) = layout.openSlots level count + 1 := by
  obtain ⟨hdiv, hmod⟩ := Size.div_mod_succ_of_room hroom
  constructor
  · rw [layout.openPage_eq_div hlevel, layout.openPage_eq_div hlevel, hstarted, hdiv]
  · rw [openSlots, hstarted, hmod, openSlots]

theorem openPage_succ_of_full {layout : Layout} {level count : ℕ}
    (hlevel : level < layout.numLevels)
    (hstarted : layout.openPage (level + 1) (count + 1) = layout.openPage (level + 1) count + 1)
    (hfull : layout.openSlots level count + 1 = layout.branchingFactor) :
    layout.openPage level (count + 1) = layout.openPage level count + 1 ∧
      layout.openSlots level (count + 1) = 0 := by
  obtain ⟨hdiv, hmod⟩ := Size.div_mod_succ_of_full hfull
  constructor
  · rw [layout.openPage_eq_div hlevel, layout.openPage_eq_div hlevel, hstarted, hdiv]
  · rw [openSlots, hstarted, hmod]

/-- The levels above a page that stays do not notice a separator. -/
theorem openPage_above {layout : Layout} {level other count : ℕ} (hlevel : level ≤ layout.numLevels)
    (hother : other ≤ level)
    (hstays : layout.openPage level (count + 1) = layout.openPage level count) :
    layout.openPage other (count + 1) = layout.openPage other count := by
  rw [layout.openPage_eq_div_pow hother hlevel, hstays, ← layout.openPage_eq_div_pow hother hlevel]

/-- A page that is started with separator `count + 1` stands over leaf page `count + 1` as the first
one below it. -/
theorem openPage_succ_mul {layout : Layout} {level count : ℕ}
    (h : layout.openPage level (count + 1) = layout.openPage level count + 1) :
    layout.openPage level (count + 1) * layout.branchingFactor ^ (layout.numLevels - level) =
      count + 1 := by
  unfold openPage at h ⊢
  refine Nat.div_mul_cancel (by_contra fun hdvd => ?_)
  rw [Nat.succ_div_of_not_dvd hdvd] at h
  omega

namespace Planned

variable {attributes : Attributes} {layout : Layout} (hl : layout.Planned attributes)
include hl

theorem openPage_lt {level count : ℕ} (hlevel : level ≤ layout.numLevels)
    (hcount : count < layout.leafPages) :
    layout.openPage level count < (layout.region level).pages := by
  rw [hl.lt_pages_iff hlevel]
  exact (Nat.div_mul_le_self _ _).trans_lt hcount

/-- There is a leaf page for every child that has room, or there would be fewer index pages. -/
theorem leafPages_le_room : layout.leafPages ≤ layout.room := by
  unfold room
  split_ifs with hlevels
  · simpa [hlevels] using hl.leafPages_le
  · have hheight : layout.numLevels - (layout.numLevels - 1) = 1 := by omega
    rw [hl.pages_eq _ (by omega), hheight, pow_one, Nat.mul_comm,
      ← Size.ceilDiv_le_iff hl.branchingFactor_pos]

theorem openPage_lt_of_room {level count : ℕ} (hlevel : level < layout.numLevels)
    (hcount : count < layout.room) :
    layout.openPage level count < (layout.region level).pages := by
  obtain ⟨top, htop⟩ : ∃ top, layout.numLevels = top + 1 := ⟨_, (Nat.succ_pred (by omega)).symm⟩
  have hlow : top < layout.numLevels := by omega
  have hheight : layout.numLevels - level = top - level + (layout.numLevels - top) := by omega
  -- the page over it on the lowest level is there, and so are the pages over that one
  have hlowest : layout.openPage top count < (layout.region top).pages := by
    rw [room, if_neg (by omega), htop, Nat.add_sub_cancel] at hcount
    rw [layout.openPage_eq_div hlow, ← htop, openPage_numLevels]
    exact Nat.div_lt_of_lt_mul hcount
  rw [hl.lt_pages_iff hlow.le] at hlowest
  rw [hl.lt_pages_iff hlevel.le, layout.openPage_eq_div_pow (by omega) hlow.le, hheight, pow_add,
    ← Nat.mul_assoc]
  exact (Nat.mul_le_mul_right _ (Nat.div_mul_le_self _ _)).trans_lt hlowest

theorem openPage_zero_of_room {count : ℕ} (hcount : count < layout.room) :
    layout.openPage 0 count = 0 := by
  rcases Nat.eq_zero_or_pos layout.numLevels with hlevels | hlevels
  · rw [room, if_pos hlevels, Nat.lt_one_iff] at hcount
    rw [hcount, openPage_zero_count]
  · have h := hl.openPage_lt_of_room hlevels hcount
    rw [hl.pages_zero] at h
    omega

theorem openPage_zero {count : ℕ} (hcount : count < layout.leafPages) :
    layout.openPage 0 count = 0 :=
  hl.openPage_zero_of_room (hcount.trans_le hl.leafPages_le_room)

theorem openPage_last {level : ℕ} (hlevel : level ≤ layout.numLevels) :
    layout.openPage level (layout.leafPages - 1) + 1 = (layout.region level).pages := by
  have hpos := hl.leafPages_pos
  refine Nat.le_antisymm (hl.openPage_lt hlevel (by omega)) (not_lt.mp fun hlt => ?_)
  rw [hl.lt_pages_iff hlevel, ← Nat.le_sub_one_iff_lt hpos,
    ← Nat.le_div_iff_mul_le (hl.power_pos _)] at hlt
  exact absurd hlt (Nat.not_succ_le_self _)

theorem separatorsIn_of_succ_lt {level page : ℕ} (hlevel : level < layout.numLevels)
    (hpage : page + 1 < (layout.region level).pages) :
    layout.separatorsIn level page = layout.branchingFactor - 1 := by
  have hchild := (hl.lt_pages_succ_iff hlevel (page + 1)).mp hpage
  rw [Nat.succ_mul] at hchild
  simp only [separatorsIn, childRegion]
  omega

theorem separatorsIn_last {level : ℕ} (hlevel : level < layout.numLevels) :
    layout.separatorsIn level (layout.openPage level (layout.leafPages - 1)) =
      layout.openSlots level (layout.leafPages - 1) := by
  have hlast := hl.openPage_last (Nat.add_one_le_of_lt hlevel)
  have hsplit := layout.openPage_mul_add hlevel (layout.leafPages - 1)
  have hlt : layout.openSlots level (layout.leafPages - 1) < layout.branchingFactor :=
    Nat.mod_lt _ hl.branchingFactor_pos
  simp only [separatorsIn, childRegion]
  omega

theorem openSlots_lt (level count : ℕ) :
    layout.openSlots level count < layout.branchingFactor :=
  Nat.mod_lt _ hl.branchingFactor_pos

end Planned

end Layout

namespace Cursors

variable {attributes : Attributes} {layout : Layout}

def levelAfter (layout : Layout) (count level : ℕ) : LevelCursor :=
  { offset := layout.pageOffset level (layout.openPage level count)
    page := layout.openPage level count
    separators := layout.openSlots level count
    pages := (layout.region level).pages }

def after (layout : Layout) (count : ℕ) : Cursors :=
  { levels := (List.range layout.numLevels).map (levelAfter layout count)
    pageSize := layout.pageSize
    mostSeparators := layout.branchingFactor - 1 }

theorem levels_after {level : ℕ} (h : level < layout.numLevels) (count : ℕ) :
    (after layout count).levels[level]? = some (levelAfter layout count level) := by
  simp [after, h]

theorem page_after {level : ℕ} (h : level < layout.numLevels) (count : ℕ) :
    (after layout count).page level = layout.openPage level count := by
  simp [page, after, levelAfter, h]

/-- What separator `count + 1` does to the levels above level `top`: it stays on level `level`, and
the levels below that one start a page. -/
structure StaysOn (layout : Layout) (count top level : ℕ) : Prop where
  lt_top : level < top
  has_room : layout.openSlots level count + 1 < layout.branchingFactor
  below : ∀ other, level < other → other ≤ top →
    layout.openPage other (count + 1) = layout.openPage other count + 1
  above : ∀ other ≤ level, layout.openPage other (count + 1) = layout.openPage other count

theorem start_eq_after (layout : Layout) : start layout = after layout 0 := by
  unfold start after
  congr 1
  apply List.ext_getElem (by simp [Layout.numLevels])
  intro level h h'
  have hlevel : level < layout.levels.length := by simpa using h
  simp [levelAfter, Layout.openSlots, Layout.pageOffset, Layout.region,
    List.getElem?_eq_getElem hlevel]

theorem levelAfter_congr {count other level : ℕ}
    (hpage : layout.openPage level other = layout.openPage level count)
    (hslots : layout.openSlots level other = layout.openSlots level count) :
    levelAfter layout other level = levelAfter layout count level := by
  simp only [levelAfter, hpage, hslots]

/-- A carry from level `top` up, on the positions after `count` separators. -/
theorem carry_after (hl : layout.Planned attributes) {count : ℕ}
    (hcount : count + 1 < layout.room) {top : ℕ} (htop : top ≤ layout.numLevels)
    (hstarted : layout.openPage top (count + 1) = layout.openPage top count + 1) :
    ∃ level, StaysOn layout count top level ∧
      carry layout.pageSize (layout.branchingFactor - 1)
          ((List.range top).map (levelAfter layout count)).reverse =
        (some (top - 1 - level, layout.openPage level count, layout.openSlots level count),
          ((List.range top).map (levelAfter layout (count + 1))).reverse) := by
  induction top with
  | zero =>
    rw [hl.openPage_zero_of_room hcount] at hstarted
    omega
  | succ top ih =>
    have hlt := hl.openSlots_lt top count
    simp only [List.range_succ, List.map_append, List.map_cons, List.map_nil, List.reverse_append,
      List.reverse_cons, List.reverse_nil, List.nil_append, List.cons_append, carry]
    by_cases hroom : (levelAfter layout count top).separators < layout.branchingFactor - 1
    · -- the separator has room here, and the levels above do not notice
      rw [if_pos hroom]
      replace hroom : layout.openSlots top count + 1 < layout.branchingFactor := by
        have : layout.openSlots top count < layout.branchingFactor - 1 := hroom
        omega
      obtain ⟨hstay, hslots⟩ := Layout.openPage_succ_of_room htop hstarted hroom
      have habove : ∀ other ≤ top,
          layout.openPage other (count + 1) = layout.openPage other count :=
        fun other hother => Layout.openPage_above (Nat.le_of_succ_le htop) hother hstay
      refine ⟨top, ⟨Nat.lt_succ_self _, hroom, fun other h h' => ?_, habove⟩, ?_⟩
      · obtain rfl : other = top + 1 := by omega
        exact hstarted
      · have hrest : (List.range top).map (levelAfter layout (count + 1)) =
            (List.range top).map (levelAfter layout count) := by
          apply List.map_congr_left
          intro other hother
          have hother := List.mem_range.mp hother
          apply levelAfter_congr (habove other hother.le)
          simp only [Layout.openSlots, habove (other + 1) hother]
        simp [hrest, levelAfter, hstay, hslots]
    · -- the page is full: a new one starts, and the level above gets the separator
      rw [if_neg hroom]
      have hfull : layout.openSlots top count + 1 = layout.branchingFactor := by
        have : ¬layout.openSlots top count < layout.branchingFactor - 1 := hroom
        omega
      obtain ⟨hnext, hslots⟩ := Layout.openPage_succ_of_full htop hstarted hfull
      have hleft :
          (levelAfter layout count top).page + 1 < (levelAfter layout count top).pages := by
        have h := hl.openPage_lt_of_room htop hcount
        rw [hnext] at h
        exact h
      obtain ⟨level, hstays, hcarry⟩ := ih (Nat.le_of_succ_le htop) hnext
      rw [if_pos hleft, hcarry]
      refine ⟨level, ⟨hstays.lt_top.trans (Nat.lt_succ_self _), hstays.has_room, ?_,
        hstays.above⟩, ?_⟩
      · intro other h h'
        rcases Nat.le_succ_iff.mp h' with h' | rfl
        · exact hstays.below other h h'
        · exact hstarted
      · have hmoved : top - 1 - level + 1 = top + 1 - 1 - level := by
          have := hstays.lt_top
          omega
        simp [hmoved, levelAfter, hnext, hslots, Layout.pageOffset_succ]

namespace StaysOn

variable {count top level : ℕ}

theorem slots_succ (h : StaysOn layout count layout.numLevels level) :
    layout.openSlots level (count + 1) = layout.openSlots level count + 1 := by
  have hstarted := h.below (level + 1) (Nat.lt_succ_self _) h.lt_top
  exact (Layout.openPage_succ_of_room h.lt_top hstarted h.has_room).2

theorem full (hl : layout.Planned attributes) (h : StaysOn layout count layout.numLevels level)
    {other : ℕ} (hother : level < other) (hlt : other < layout.numLevels) :
    layout.openSlots other count + 1 = layout.branchingFactor := by
  have hslots := hl.openSlots_lt other count
  by_contra hne
  have hroom : layout.openSlots other count + 1 < layout.branchingFactor := by omega
  have hstay := (Layout.openPage_succ_of_room hlt (h.below _ (by omega) hlt) hroom).1
  have hnext := h.below other hother hlt.le
  omega

/-- The pages started below are still empty. -/
theorem fresh (hl : layout.Planned attributes) (h : StaysOn layout count layout.numLevels level)
    {other : ℕ} (hother : level < other) (hlt : other < layout.numLevels) :
    layout.openSlots other (count + 1) = 0 := by
  exact (Layout.openPage_succ_of_full hlt (h.below _ (by omega) hlt) (h.full hl hother hlt)).2

theorem slots_above (h : StaysOn layout count layout.numLevels level) {other : ℕ}
    (hother : other < level) :
    layout.openSlots other (count + 1) = layout.openSlots other count := by
  rw [Layout.openSlots, h.above _ hother, Layout.openSlots]

theorem page_succ (h : StaysOn layout count layout.numLevels level) {other : ℕ}
    (hother : other < layout.numLevels) :
    layout.openPage other (count + 1) =
      if level < other then layout.openPage other count + 1 else layout.openPage other count := by
  split_ifs with hbelow
  · exact h.below other hbelow hother.le
  · exact h.above other (not_lt.mp hbelow)

/-- The separator is the key of the first record under the child that is started. -/
theorem child_mul (h : StaysOn layout count layout.numLevels level) :
    (layout.openPage level count * layout.branchingFactor + layout.openSlots level count + 1) *
        layout.branchingFactor ^ (layout.numLevels - (level + 1)) = count + 1 := by
  have hstarted := h.below (level + 1) (Nat.lt_succ_self _) h.lt_top
  rw [layout.openPage_mul_add h.lt_top, ← hstarted]
  exact Layout.openPage_succ_mul hstarted

end StaysOn

/-- Separator `count + 1` gets its place as long as the lowest level has room for the child. -/
theorem propagate_after (hl : layout.Planned attributes) {count : ℕ}
    (hcount : count + 1 < layout.room) :
    ∃ level, StaysOn layout count layout.numLevels level ∧
      (after layout count).propagate =
        (some ⟨level, layout.openPage level count, layout.openSlots level count⟩,
          after layout (count + 1)) := by
  obtain ⟨level, hstays, hcarry⟩ := carry_after hl hcount le_rfl (by simp)
  refine ⟨level, hstays, ?_⟩
  have hmoved : layout.numLevels - 1 - (layout.numLevels - 1 - level) = level := by
    have := hstays.lt_top
    omega
  simp [propagate, after, hcarry, hmoved]

theorem iterate_propagate (hl : layout.Planned attributes) {count : ℕ}
    (hcount : count < layout.room) :
    (fun cursors : Cursors => cursors.propagate.2)^[count] (start layout) = after layout count := by
  induction count with
  | zero => exact start_eq_after layout
  | succ count ih =>
    obtain ⟨level, -, hpropagate⟩ := propagate_after hl hcount
    rw [Function.iterate_succ_apply', ih (Nat.lt_of_succ_lt hcount), hpropagate]

end Cursors

end PackedIndex
