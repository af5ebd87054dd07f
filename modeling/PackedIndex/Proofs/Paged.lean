import PackedIndex.Proofs.Content
import PackedIndex.Proofs.Layout
/-! # Files made of pages

A planned file is a header page, the pages of its levels with the leaf pages as the lowest one,
and a value region behind them. Each request of a writer changes one of these parts.
-/
namespace PackedIndex.Layout

/-- A file that consists of a header page, pages and values. -/
structure Paged (layout : Layout) (header : ByteArray) (page : ℕ → ℕ → ByteArray)
    (values : ByteArray) (file : Content) : Prop where
  header_eq : file.read 0 layout.pageSize = header
  page_eq : ∀ level ≤ layout.numLevels, ∀ number < (layout.region level).pages,
    file.read (layout.pageOffset level number) layout.pageSize = page level number
  values_eq : file.read layout.leafEnd values.size = values
  size_eq : file.size = layout.leafEnd + values.size

/-- One page after another replaced, each level of a list at one page number. -/
def replacePages (number : ℕ → ℕ) (data : ℕ → ByteArray) (levels : List ℕ)
    (page : ℕ → ℕ → ByteArray) (level other : ℕ) : ByteArray :=
  if level ∈ levels ∧ other = number level then data level else page level other

namespace Paged

variable {attributes : Attributes} {layout : Layout} {header : ByteArray}
  {page : ℕ → ℕ → ByteArray} {values : ByteArray} {file : Content}

theorem congr (h : layout.Paged header page values file) {page' : ℕ → ℕ → ByteArray}
    (hpage : ∀ level ≤ layout.numLevels, ∀ number < (layout.region level).pages,
      page level number = page' level number) :
    layout.Paged header page' values file :=
  { h with
    page_eq := fun level hlevel number hnumber =>
      (h.page_eq level hlevel number hnumber).trans (hpage level hlevel number hnumber) }

theorem leafEnd_le (h : layout.Paged header page values file) : layout.leafEnd ≤ file.size := by
  have := h.size_eq
  omega

theorem start (hl : layout.Planned attributes) (hheader : header.size = layout.pageSize) :
    layout.Paged header (fun _ _ => Bytes.zeros layout.pageSize) ByteArray.empty
      (Content.empty.applyAll [.write 0 header, .setLength layout.leafEnd]) := by
  have hpos := hl.pageSize_pos
  have hend := hl.pageSize_le_leafEnd
  have hsize : (Content.empty.write 0 header).size = layout.pageSize := by
    rw [Content.size_write, if_neg (by omega), hheader]
    simp [Content.empty]
  refine ⟨?_, fun level hlevel number hnumber => ?_, ?_, by simp [Content.apply]⟩
  · simp only [Content.applyAll_cons, Content.apply, Content.applyAll_nil]
    rw [Content.read_setLength (by omega) (by omega), ← hheader, Content.read_write_self]
  · simp only [Content.applyAll_cons, Content.apply, Content.applyAll_nil]
    refine Content.read_setLength_behind ?_ (hl.page_end_le_leafEnd hlevel hnumber)
    rw [hsize]
    exact hl.pageSize_le_pageOffset level number
  · rw [← ByteArray.size_eq_zero_iff, Content.size_read]
    simp

theorem writeHeader (hl : layout.Planned attributes) (h : layout.Paged header page values file)
    {other : ByteArray} (hother : other.size = layout.pageSize) :
    layout.Paged other page values (file.write 0 other) := by
  have hend := hl.pageSize_le_leafEnd
  have hfile := h.leafEnd_le
  have hsize := h.size_eq
  have hpos := hl.pageSize_pos
  refine ⟨?_, fun level hlevel number hnumber => ?_, ?_, ?_⟩
  · rw [← hother, Content.read_write_self]
  · have hplace := hl.pageSize_le_pageOffset level number
    have hin := hl.page_end_le_leafEnd hlevel hnumber
    rw [Content.read_write_apart (by omega) (by omega)]
    exact h.page_eq level hlevel number hnumber
  · rw [Content.read_write_apart (by omega) (by omega)]
    exact h.values_eq
  · rw [Content.size_write, if_neg (by omega)]
    omega

theorem writePage (hl : layout.Planned attributes) (h : layout.Paged header page values file)
    {level number : ℕ} (hlevel : level ≤ layout.numLevels)
    (hnumber : number < (layout.region level).pages) {data : ByteArray}
    (hdata : data.size = layout.pageSize) :
    layout.Paged header
      (fun other place => if other = level ∧ place = number then data else page other place) values
      (file.write (layout.pageOffset level number) data) := by
  have hplace := hl.pageSize_le_pageOffset level number
  have hin := hl.page_end_le_leafEnd hlevel hnumber
  have hfile := h.leafEnd_le
  have hsize := h.size_eq
  have hpos := hl.pageSize_pos
  refine ⟨?_, fun other hother place hplace' => ?_, ?_, ?_⟩
  · rw [Content.read_write_apart (by omega) (by omega)]
    exact h.header_eq
  · by_cases hsame : other = level ∧ place = number
    · obtain ⟨rfl, rfl⟩ := hsame
      rw [if_pos ⟨rfl, rfl⟩, ← hdata, Content.read_write_self]
    · have hapart := hl.pages_apart hother hlevel hplace' hnumber hsame
      have hin' := hl.page_end_le_leafEnd hother hplace'
      rw [if_neg hsame, Content.read_write_apart (by omega) (by omega)]
      exact h.page_eq other hother place hplace'
  · rw [Content.read_write_apart (by omega) (by omega)]
    exact h.values_eq
  · rw [Content.size_write, if_neg (by omega)]
    omega

theorem writePages (hl : layout.Planned attributes) (h : layout.Paged header page values file)
    (number : ℕ → ℕ) (data : ℕ → ByteArray) (levels : List ℕ)
    (hlevels : ∀ level ∈ levels, level ≤ layout.numLevels ∧
      number level < (layout.region level).pages ∧ (data level).size = layout.pageSize) :
    layout.Paged header (replacePages number data levels page) values
      (file.applyAll (levels.map fun level =>
        .write (layout.pageOffset level (number level)) (data level))) := by
  induction levels generalizing file page with
  | nil => exact h.congr fun level _ other _ => by simp [replacePages]
  | cons level levels ih =>
    obtain ⟨hlevel, hnumber, hdata⟩ := hlevels level List.mem_cons_self
    have hnext := ih (h.writePage hl hlevel hnumber hdata)
      fun other hother => hlevels other (List.mem_cons_of_mem _ hother)
    apply hnext.congr
    intro other _ place _
    unfold replacePages
    by_cases hsame : other = level ∧ place = number level
    · obtain ⟨rfl, rfl⟩ := hsame
      simp
    · by_cases hplace : place = number other
      · have hne : other ≠ level := fun heq => hsame ⟨heq, heq ▸ hplace⟩
        simp [hplace, hne]
      · simp [hplace, hsame]

theorem writeValues (hl : layout.Planned attributes) (h : layout.Paged header page values file)
    (data : ByteArray) :
    layout.Paged header page (values ++ data) (file.write (layout.leafEnd + values.size) data) := by
  have hend := hl.pageSize_le_leafEnd
  have hsize := h.size_eq
  have hnew : (file.write (layout.leafEnd + values.size) data).size =
      layout.leafEnd + values.size + data.size := by
    rw [Content.size_write]
    split_ifs <;> omega
  refine ⟨?_, fun level hlevel number hnumber => ?_, ?_, ?_⟩
  · rw [Content.read_write_apart (by omega) (by omega)]
    exact h.header_eq
  · have hin := hl.page_end_le_leafEnd hlevel hnumber
    rw [Content.read_write_apart (by omega) (by omega)]
    exact h.page_eq level hlevel number hnumber
  · rw [ByteArray.size_append, Content.read_append hnew.ge,
      Content.read_write_apart (by omega) (by omega), h.values_eq, Content.read_write_self]
  · rw [hnew, ByteArray.size_append, Nat.add_assoc]

end Paged

end PackedIndex.Layout
