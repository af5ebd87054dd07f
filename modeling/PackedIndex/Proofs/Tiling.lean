import Mathlib
import PackedIndex.Proofs.Guarded
/-! # Regions side by side

A plan places its regions one behind the other, so that from the first page to the last leaf page
every byte of a file is in exactly one region, and every page in exactly one place. `Consecutive` is
this relation between places and items; it holds of what `place` answers, by induction on the page
counts, and says at once where items start, that they do not meet, and what they cover.
-/
namespace PackedIndex

/-! ## Items side by side -/

/-- Items from one place to another, each of which starts where the one before it stops. -/
inductive Consecutive {α : Type} (start stop : α → ℕ) : ℕ → List α → ℕ → Prop
  | nil (place : ℕ) : Consecutive start stop place [] place
  | cons {place last : ℕ} {item : α} {items : List α} (first : start item = place)
      (rest : Consecutive start stop (stop item) items last) :
      Consecutive start stop place (item :: items) last

namespace Consecutive

variable {α : Type} {start stop : α → ℕ} {place middle last : ℕ} {items more : List α}

theorem append (h : Consecutive start stop place items middle)
    (hmore : Consecutive start stop middle more last) :
    Consecutive start stop place (items ++ more) last := by
  induction h with
  | nil => exact hmore
  | cons first _ ih => exact cons first (ih hmore)

theorem concat (h : Consecutive start stop place items middle) {item : α}
    (hitem : start item = middle) : Consecutive start stop place (items ++ [item]) (stop item) :=
  h.append (.cons hitem (.nil _))

theorem map {β : Type} {f : β → α} {others : List β}
    (h : Consecutive (start ∘ f) (stop ∘ f) place others last) :
    Consecutive start stop place (others.map f) last := by
  induction h with
  | nil => exact nil _
  | cons first _ ih => exact cons first ih

variable (hle : ∀ item, start item ≤ stop item)
include hle

theorem le (h : Consecutive start stop place items last) : place ≤ last := by
  induction h with
  | nil => exact le_rfl
  | cons first _ ih =>
    rw [← first]
    exact (hle _).trans ih

theorem countP_eq (h : Consecutive start stop place items last) (i : ℕ) :
    (items.countP fun item => start item ≤ i ∧ i < stop item) =
      if place ≤ i ∧ i < last then 1 else 0 := by
  induction h with
  | nil place => simp
  | @cons place last item items first rest ih =>
    have hitem := hle item
    have hlast := rest.le hle
    simp only [List.countP_cons, ih, decide_eq_true_eq, first] at *
    split_ifs <;> omega

end Consecutive

/-! ## Regions that follow each other -/

namespace Region

def stop (pageSize : ℕ) (region : Region) : ℕ :=
  region.offset + region.pages * pageSize

def bytes (region : Region) (pageSize : ℕ) : Set ℕ :=
  Set.Ico region.offset (region.stop pageSize)

theorem offset_le_stop (pageSize : ℕ) (region : Region) : region.offset ≤ region.stop pageSize :=
  Nat.le_add_right _ _

end Region

namespace Layout

def regions (layout : Layout) : List Region :=
  layout.levels ++ [layout.leafRegion]

/-- All pages, as the level and the number on it; the leaf pages are the level below the last. -/
def pages (layout : Layout) : List (ℕ × ℕ) :=
  (List.range (layout.numLevels + 1)).flatMap fun level =>
    (List.range (layout.region level).pages).map (level, ·)

@[simp] theorem mem_pages {layout : Layout} {level page : ℕ} :
    (level, page) ∈ layout.pages ↔ level ≤ layout.numLevels ∧ page < (layout.region level).pages := by
  simp [pages]

theorem nodup_pages (layout : Layout) : layout.pages.Nodup := by
  unfold pages
  refine List.nodup_flatMap.mpr ⟨fun level _ => ?_, ?_⟩
  · exact List.nodup_range.map fun _ _ => by simp
  · refine List.nodup_range.imp fun hne => ?_
    simp [Function.onFun, List.disjoint_left, hne.symm]

theorem consecutive_range (offset pageSize count : ℕ) :
    Consecutive (fun page => offset + page * pageSize)
      (fun page => offset + page * pageSize + pageSize) offset (List.range count)
      (offset + count * pageSize) := by
  induction count with
  | zero => simpa using Consecutive.nil offset
  | succ count ih =>
    rw [List.range_succ, Nat.succ_mul, ← Nat.add_assoc]
    exact ih.concat rfl

namespace Planned

variable {attributes : Attributes} {layout : Layout} (hl : layout.Planned attributes)
include hl

theorem consecutive_pages : Consecutive (fun (level, page) => layout.pageOffset level page)
    (fun (level, page) => layout.pageOffset level page + layout.pageSize) layout.pageSize
    layout.pages layout.leafEnd := by
  have hlevels : ∀ level ≤ layout.numLevels,
      Consecutive (fun (level, page) => layout.pageOffset level page)
        (fun (level, page) => layout.pageOffset level page + layout.pageSize) layout.pageSize
        ((List.range level).flatMap fun level =>
          (List.range (layout.region level).pages).map (level, ·))
        (layout.region level).offset := by
    intro level hlevel
    induction level with
    | zero => simpa [hl.offset_zero] using Consecutive.nil layout.pageSize
    | succ level ih =>
      rw [List.range_succ, List.flatMap_append, List.flatMap_singleton, hl.offset_succ level hlevel]
      exact (ih (Nat.le_of_succ_le hlevel)).append (consecutive_range _ _ _).map
  rw [pages, List.range_succ, List.flatMap_append, List.flatMap_singleton, layout.leafEnd_eq,
    ← layout.pages_numLevels]
  exact (hlevels _ le_rfl).append (consecutive_range _ _ _).map

theorem isAligned (hregions : ∀ region ∈ layout.regions, layout.pageSize ∣ region.offset)
    (hend : layout.pageSize ∣ layout.leafEnd) : layout.isAligned = true := by
  have hlevels : ∀ region ∈ layout.levels, layout.pageSize ∣ region.offset := fun region h =>
    hregions region (List.mem_append_left _ h)
  have hleaves : layout.pageSize ∣ layout.leafOffset :=
    hregions layout.leafRegion (List.mem_append_right _ (List.mem_singleton_self _))
  have hvalues : layout.pageSize ∣ layout.valueOffset := by
    rw [hl.valueOffset_eq]
    split_ifs
    · exact hend
    · exact dvd_zero _
  simp only [Layout.isAligned, Bool.and_eq_true, List.all_eq_true, decide_eq_true_eq,
    ← Nat.dvd_iff_mod_eq_zero]
  exact ⟨⟨hlevels, hleaves⟩, hvalues⟩

/-! ## Items in pages -/

end Planned

/-! ## Planned geometries -/

/-- Twenty keys on pages of three: a root, two and four pages over seven leaf pages. -/
def twenty : Layout :=
  { pageSize := 24
    keySize := 8
    recordCount := 20
    encoding := .atom
    leafRecordSize := 8
    recordsPerLeafPage := 3
    leafPages := 7
    leafOffset := 192
    valueOffset := 0
    branchingFactor := 2
    levels := [⟨24, 1⟩, ⟨48, 2⟩, ⟨96, 4⟩] }

theorem plan_twenty : plan (.atom 8 20) 24 = .ok twenty := rfl

end Layout

end PackedIndex
