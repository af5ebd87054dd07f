import Mathlib
import PackedIndex.Proofs.Tiling
/-! # Cursors as a counter

The cursors count leaf pages. Read from the lowest level up, the separators in their pages are the
digits of the count in base `b`, and the numbers of those pages are what is in front of the digits. A
call for a place adds one: the digits that overflow are the levels that roll over, and the level of
the place is given by the power of `b` in the count. The counter stops before the count for which the
lowest level has no page, and a call that is refused moves nothing.
-/
namespace PackedIndex

/-- The levels that moved on to a fresh page when a separator was given a place, out of some number
of levels. -/
def Placement.rolledOver (placement : Placement) (numLevels : ℕ) : List ℕ :=
  List.range' (placement.level + 1) (numLevels - (placement.level + 1))

@[simp] theorem Placement.mem_rolledOver {placement : Placement} {numLevels level : ℕ} :
    level ∈ placement.rolledOver numLevels ↔ placement.level < level ∧ level < numLevels := by
  simp only [rolledOver, List.mem_range'_1]
  omega

namespace Cursors

variable {attributes : Attributes} {layout : Layout}

def called (layout : Layout) (calls : ℕ) : Cursors :=
  (fun cursors : Cursors => cursors.propagate.2)^[calls] (start layout)

/-- The answer to a call for a place; the first call is call one. -/
def answer (layout : Layout) (call : ℕ) : Option Placement :=
  (called layout (call - 1)).propagate.1

@[simp] theorem called_zero (layout : Layout) : called layout 0 = start layout := rfl

theorem called_succ (layout : Layout) (calls : ℕ) :
    called layout (calls + 1) = (called layout calls).propagate.2 := by
  simp [called, Function.iterate_succ_apply']

theorem answer_succ (layout : Layout) (calls : ℕ) :
    answer layout (calls + 1) = (called layout calls).propagate.1 := rfl

/-! ## The power of the base in a count -/

namespace StaysOn

variable {count level : ℕ}

/-- The power of the base in the new count is the number of levels that roll over. -/
theorem isGreatest_pow (h : StaysOn layout count layout.numLevels level) :
    IsGreatest {v | layout.branchingFactor ^ v ∣ count + 1} (layout.numLevels - 1 - level) := by
  have hlevel := h.lt_top
  constructor
  · have hstarted := Layout.openPage_succ_mul (h.below (level + 1) (Nat.lt_succ_self _) h.lt_top)
    have hheight : layout.numLevels - (level + 1) = layout.numLevels - 1 - level := by omega
    rw [hheight] at hstarted
    exact Dvd.intro_left _ hstarted
  · intro v hv
    by_contra hgt
    -- a count that is a multiple of the next power starts a page on the level itself
    have hdvd : layout.branchingFactor ^ (layout.numLevels - level) ∣ count + 1 :=
      (pow_dvd_pow _ (by omega)).trans hv
    have hstays := h.above level le_rfl
    simp only [Layout.openPage, Nat.succ_div_of_dvd hdvd] at hstays
    omega

/-- The place in terms of the new count. -/
theorem place_eq (h : StaysOn layout count layout.numLevels level) :
    layout.openPage level count =
        (count + 1) / layout.branchingFactor ^ (layout.numLevels - 1 - level + 1) ∧
      layout.openSlots level count + 1 =
        (count + 1) / layout.branchingFactor ^ (layout.numLevels - 1 - level) %
          layout.branchingFactor := by
  have hlevel := h.lt_top
  constructor
  · rw [← h.above level le_rfl, Layout.openPage]
    congr 2
    omega
  · rw [← h.slots_succ, Layout.openSlots, Layout.openPage]
    congr 3
    omega

end StaysOn

/-! ## Calls that are refused -/

theorem propagate_full (hl : layout.Planned attributes) :
    (after layout (layout.room - 1)).propagate = (none, after layout (layout.room - 1)) := by
  rcases hlevels : layout.numLevels with _ | top
  · simp [propagate, after, hlevels, carry]
  · have hlow : top < layout.numLevels := by omega
    have hbase := hl.branchingFactor_pos
    have hpages := hl.pages_pos hlow.le
    -- one less than a multiple of the base has the largest last digit
    obtain ⟨hpage, hslots⟩ := Size.div_mod_mul_add ((layout.region top).pages - 1)
      (Nat.sub_lt hbase Nat.one_pos)
    have hlast : layout.room - 1 = ((layout.region top).pages - 1) * layout.branchingFactor +
        (layout.branchingFactor - 1) := by
      rw [Layout.room, if_neg (by omega), hlevels, Nat.add_sub_cancel, Nat.sub_one_mul,
        Nat.mul_comm layout.branchingFactor]
      have := Nat.le_mul_of_pos_left layout.branchingFactor hpages
      omega
    have hopen : layout.openPage top (layout.room - 1) = (layout.region top).pages - 1 := by
      rw [layout.openPage_eq_div hlow, ← hlevels, Layout.openPage_numLevels, hlast, hpage]
    have hfull : layout.openSlots top (layout.room - 1) = layout.branchingFactor - 1 := by
      rw [Layout.openSlots, ← hlevels, Layout.openPage_numLevels, hlast, hslots]
    have hnone : ¬(layout.region top).pages - 1 + 1 < (layout.region top).pages := by omega
    simp [propagate, after, hlevels, List.range_succ, carry, levelAfter, hopen, hfull, hnone]

/-- Calls move the cursors on as long as there is a place, and then leave them where they are. -/
theorem called_eq (hl : layout.Planned attributes) (calls : ℕ) :
    called layout calls = after layout (min calls (layout.room - 1)) := by
  induction calls with
  | zero => simp [start_eq_after]
  | succ calls ih =>
    rw [called_succ, ih]
    rcases Nat.lt_or_ge (calls + 1) layout.room with hroom | hroom
    · obtain ⟨level, -, hpropagate⟩ := propagate_after hl hroom
      rw [Nat.min_eq_left (by omega), hpropagate, Nat.min_eq_left (by omega)]
    · rw [Nat.min_eq_right (by omega), propagate_full hl, Nat.min_eq_right (by omega)]

theorem called_of_lt (hl : layout.Planned attributes) {calls : ℕ} (h : calls < layout.room) :
    called layout calls = after layout calls := by
  rw [called_eq hl, Nat.min_eq_left (by omega)]

theorem answer_of_lt (hl : layout.Planned attributes) {calls : ℕ} (h : calls + 1 < layout.room) :
    ∃ level, StaysOn layout calls layout.numLevels level ∧ answer layout (calls + 1) =
      some ⟨level, layout.openPage level calls, layout.openSlots level calls⟩ := by
  obtain ⟨level, hstays, hpropagate⟩ := propagate_after hl h
  refine ⟨level, hstays, ?_⟩
  rw [answer_succ, called_of_lt hl (by omega), hpropagate]

theorem answer_of_le (hl : layout.Planned attributes) {calls : ℕ} (h : layout.room ≤ calls + 1) :
    answer layout (calls + 1) = none := by
  have hfull : min calls (layout.room - 1) = layout.room - 1 := Nat.min_eq_right (by omega)
  rw [answer_succ, called_eq hl, hfull, propagate_full hl]

theorem isSome_answer (hl : layout.Planned attributes) {n : ℕ} (hpos : 1 ≤ n) :
    (answer layout n).isSome ↔ n < layout.room := by
  obtain ⟨n, rfl⟩ := Nat.exists_eq_add_of_le' hpos
  rcases Nat.lt_or_ge (n + 1) layout.room with hroom | hroom
  · obtain ⟨level, -, hlevel⟩ := answer_of_lt hl hroom
    rw [hlevel]
    simpa using hroom
  · rw [answer_of_le hl hroom]
    simpa using hroom

/-! ## The counter -/

/-- What the place of separator `n` is when `v` is the power of the base in `n`. -/
structure PlacedBy (layout : Layout) (n v : ℕ) (placement : Placement) : Prop where
  level_eq : placement.level = layout.numLevels - 1 - v
  page_eq : placement.page = n / layout.branchingFactor ^ (v + 1)
  slot_eq : placement.slot = n / layout.branchingFactor ^ v % layout.branchingFactor - 1
  slot_pos : 0 < n / layout.branchingFactor ^ v % layout.branchingFactor
  /-- As many levels roll over, and these are the levels that move on to their next page. -/
  rolledOver_eq : placement.rolledOver layout.numLevels = List.range' (layout.numLevels - v) v
  page_succ : ∀ level < layout.numLevels, (called layout n).page level =
    if level ∈ placement.rolledOver layout.numLevels then (called layout (n - 1)).page level + 1
    else (called layout (n - 1)).page level

theorem StaysOn.placedBy (hl : layout.Planned attributes) {calls level : ℕ}
    (hroom : calls + 1 < layout.room) (h : StaysOn layout calls layout.numLevels level) :
    PlacedBy layout (calls + 1) (layout.numLevels - 1 - level)
      ⟨level, layout.openPage level calls, layout.openSlots level calls⟩ := by
  have htop := h.lt_top
  obtain ⟨hpage, hslot⟩ := h.place_eq
  constructor
  case level_eq =>
    dsimp only
    omega
  case page_eq => exact hpage
  case slot_eq => exact Nat.eq_sub_of_add_eq hslot
  case slot_pos => omega
  case rolledOver_eq =>
    simp only [Placement.rolledOver]
    congr 1 <;> omega
  case page_succ =>
    intro other hother
    rw [called_of_lt hl hroom, called_of_lt hl (by omega), page_after hother, page_after hother,
      h.page_succ hother]
    simp [hother]

/-- The cursors of a new index are a counter in base `b`, which goes up to the number of children
that the lowest level has room for. -/
structure Counter (layout : Layout) : Prop where
  room_eq : 0 < layout.numLevels →
    layout.room = layout.branchingFactor * (layout.region (layout.numLevels - 1)).pages
  isSome_iff : ∀ n, 1 ≤ n → ((answer layout n).isSome ↔ n < layout.room)
  answer_eq : ∀ n, 1 ≤ n → n < layout.room →
    ∃ v, IsGreatest {v | layout.branchingFactor ^ v ∣ n} v ∧ v < layout.numLevels ∧
      ∃ placement, answer layout n = some placement ∧ PlacedBy layout n v placement
  called_eq : ∀ n < layout.room, ∀ level < layout.numLevels,
    (called layout n).levels[level]? = some
      { offset := layout.pageOffset level
          (n / layout.branchingFactor ^ (layout.numLevels - level))
        page := n / layout.branchingFactor ^ (layout.numLevels - level)
        separators := n / layout.branchingFactor ^ (layout.numLevels - 1 - level) %
          layout.branchingFactor
        pages := (layout.region level).pages }
  /-- A refused call changes no cursor, and neither does any call after it. -/
  called_stop : ∀ n ≥ layout.room, called layout n = called layout (layout.room - 1)
  answer_none : layout.numLevels = 0 → ∀ n, answer layout n = none
  /-- The calls for the first keys of all leaf pages but the first one are answered. -/
  leafPages : ∀ n, 1 ≤ n → n ≤ layout.leafPages - 1 → (answer layout n).isSome

theorem levelAfter_eq {level : ℕ} (hlevel : level < layout.numLevels) (count : ℕ) :
    levelAfter layout count level =
      { offset := layout.pageOffset level
          (count / layout.branchingFactor ^ (layout.numLevels - level))
        page := count / layout.branchingFactor ^ (layout.numLevels - level)
        separators := count / layout.branchingFactor ^ (layout.numLevels - 1 - level) %
          layout.branchingFactor
        pages := (layout.region level).pages } := by
  have hheight : layout.numLevels - (level + 1) = layout.numLevels - 1 - level := by omega
  simp [levelAfter, Layout.openSlots, Layout.openPage, hheight]

/-- The cursors over a planned geometry are a counter. Without index levels it has no place; with
index levels its end is the room of the lowest one. -/
theorem counter_of_plan {pageSize : ℕ} (h : Layout.plan attributes pageSize = .ok layout) :
    Counter layout := by
  obtain ⟨-, hl⟩ := Layout.planned_of_plan h
  constructor
  case room_eq =>
    intro hlevels
    exact if_neg hlevels.ne'
  case isSome_iff => exact fun n hpos => isSome_answer hl hpos
  case answer_eq =>
    intro n hpos hn
    obtain ⟨n, rfl⟩ := Nat.exists_eq_add_of_le' hpos
    obtain ⟨level, hstays, hlevel⟩ := answer_of_lt hl hn
    have htop := hstays.lt_top
    exact ⟨_, hstays.isGreatest_pow, by omega, _, hlevel, hstays.placedBy hl hn⟩
  case called_eq =>
    intro n hn level hlevel
    rw [called_of_lt hl hn, levels_after hlevel, levelAfter_eq hlevel]
  case called_stop =>
    intro n hn
    rw [Cursors.called_eq hl, Cursors.called_eq hl, Nat.min_eq_right (by omega), Nat.min_self]
  case answer_none =>
    intro hlevels n
    have hroom : layout.room = 1 := if_pos hlevels
    cases n with
    | zero => exact answer_of_le hl hroom.le
    | succ n => exact answer_of_le hl (by omega)
  case leafPages =>
    intro n hpos hn
    have hroom := hl.leafPages_le_room
    exact (isSome_answer hl hpos).mpr (by omega)

theorem counter_of_plan_twenty :
    Layout.plan (.atom 8 20) 24 = .ok Layout.twenty ∧ Counter Layout.twenty :=
  ⟨Layout.plan_twenty, counter_of_plan Layout.plan_twenty⟩

/-- Separator six starts a page on the lowest level and goes to the page above; number eight has no
place, for which the lowest level would need a fifth page. -/
example : answer Layout.twenty 6 = some ⟨1, 1, 0⟩ ∧ answer Layout.twenty 8 = none := by decide

end Cursors

end PackedIndex
