import Mathlib
import PackedIndex.Proofs.Tiling
/-! # What was written where

`Paged` says what a file holds; `Traced` says how it came to that. By their places the writes of a
run are those of the header page, those of pages, and those of values. The pages of a level are
written from the first one on, each of them once and in full, and values go behind each other.
-/
namespace PackedIndex

theorem Run.offset_le_stop (run : Run) : run.offset ≤ run.stop :=
  Nat.le_add_right _ _

namespace Request

def written? : Request → Option Run
  | .write offset data => some ⟨offset, data⟩
  | .setLength _ | .sync | .status => none

def writes (requests : List Request) : List Run :=
  requests.filterMap written?

def writesAt (place : ℕ → Bool) (requests : List Request) : List Run :=
  (writes requests).filter fun run => place run.offset

variable {place : ℕ → Bool}

@[simp] theorem writesAt_append (requests more : List Request) :
    writesAt place (requests ++ more) = writesAt place requests ++ writesAt place more := by
  simp [writesAt, writes]

theorem writesAt_write (offset : ℕ) (data : ByteArray) :
    writesAt place [.write offset data] = if place offset then [⟨offset, data⟩] else [] := by
  simp [writesAt, writes, written?, List.filter_cons]

theorem writesAt_of_silent {requests : List Request}
    (h : ∀ request ∈ requests, request.written? = none) : writesAt place requests = [] := by
  simp [writesAt, writes, List.filterMap_eq_nil_iff.mpr h]

end Request

namespace Layout

open Request

/-! ## Three kinds of places -/

def inHeader (layout : Layout) (place : ℕ) : Bool :=
  place < layout.pageSize

def inPages (layout : Layout) (place : ℕ) : Bool :=
  layout.pageSize ≤ place ∧ place < layout.leafEnd

def inValues (layout : Layout) (place : ℕ) : Bool :=
  layout.leafEnd ≤ place

/-- Writes that cover a place are counted by where they start. -/
theorem countP_writes {layout : Layout} (hend : layout.pageSize ≤ layout.leafEnd)
    (covers : Run → Bool) (requests : List Request) :
    (writes requests).countP covers = (writesAt layout.inHeader requests).countP covers +
      (writesAt layout.inPages requests).countP covers +
      (writesAt layout.inValues requests).countP covers := by
  unfold writesAt
  induction writes requests with
  | nil => rfl
  | cons run runs ih =>
    have hkinds : layout.inHeader run.offset = true ∧ layout.inPages run.offset = false ∧
          layout.inValues run.offset = false ∨
        layout.inHeader run.offset = false ∧ layout.inPages run.offset = true ∧
          layout.inValues run.offset = false ∨
        layout.inHeader run.offset = false ∧ layout.inPages run.offset = false ∧
          layout.inValues run.offset = true := by
      simp only [inHeader, inPages, inValues, decide_eq_true_eq, decide_eq_false_iff_not]
      omega
    simp only [List.filter_cons, List.countP_cons, ih]
    rcases hkinds with ⟨hheader, hpages, hvalues⟩ | ⟨hheader, hpages, hvalues⟩ |
        ⟨hheader, hpages, hvalues⟩ <;>
      simp only [hheader, hpages, hvalues, List.countP_cons, Bool.false_eq_true, ↓reduceIte] <;>
      omega

namespace Planned

variable {attributes : Attributes} {layout : Layout} (hl : layout.Planned attributes)
include hl

theorem writesAt_header (data : ByteArray) :
    writesAt layout.inHeader [.write 0 data] = [⟨0, data⟩] ∧
      writesAt layout.inPages [.write 0 data] = [] ∧
      writesAt layout.inValues [.write 0 data] = [] := by
  have hpos := hl.pageSize_pos
  have hend := hl.pageSize_le_leafEnd
  simp only [writesAt_write, inHeader, inPages, inValues, decide_eq_true_eq]
  exact ⟨if_pos hpos, if_neg (by omega), if_neg (by omega)⟩

theorem writesAt_page {level page : ℕ} (hlevel : level ≤ layout.numLevels)
    (hpage : page < (layout.region level).pages) (data : ByteArray) :
    writesAt layout.inHeader [.write (layout.pageOffset level page) data] = [] ∧
      writesAt layout.inPages [.write (layout.pageOffset level page) data] =
        [⟨layout.pageOffset level page, data⟩] ∧
      writesAt layout.inValues [.write (layout.pageOffset level page) data] = [] := by
  have hpos := hl.pageSize_pos
  have hplace := hl.pageSize_le_pageOffset level page
  have hend := hl.page_end_le_leafEnd hlevel hpage
  simp only [writesAt_write, inHeader, inPages, inValues, decide_eq_true_eq]
  exact ⟨if_neg (by omega), if_pos ⟨hplace, by omega⟩, if_neg (by omega)⟩

theorem writesAt_value {place : ℕ} (hplace : layout.leafEnd ≤ place) (data : ByteArray) :
    writesAt layout.inHeader [.write place data] = [] ∧
      writesAt layout.inPages [.write place data] = [] ∧
      writesAt layout.inValues [.write place data] = [⟨place, data⟩] := by
  have hend := hl.pageSize_le_leafEnd
  simp only [writesAt_write, inHeader, inPages, inValues, decide_eq_true_eq]
  exact ⟨if_neg (by omega), if_neg (by omega), if_pos hplace⟩

end Planned

/-! ## Traces of files made of pages -/

/-- Requests that wrote some header pages, the first few pages of each level once each, and values
from the start of the value region up to some place. -/
structure Traced (layout : Layout) (headers : List ByteArray) (settled : ℕ → ℕ) (valueEnd : ℕ)
    (requests : List Request) : Prop where
  headers_eq : writesAt layout.inHeader requests = headers.map (Run.mk 0)
  pages : ∃ order : List (ℕ × ℕ), order.Nodup ∧
    (∀ level page, (level, page) ∈ order ↔ level ≤ layout.numLevels ∧ page < settled level) ∧
    (writesAt layout.inPages requests).map (fun run => (run.offset, run.data.size)) =
      order.map fun (level, page) => (layout.pageOffset level page, layout.pageSize)
  values : Consecutive Run.offset Run.stop layout.valueOffset (writesAt layout.inValues requests)
    valueEnd

namespace Traced

variable {attributes : Attributes} {layout : Layout} {headers : List ByteArray} {settled : ℕ → ℕ}
  {valueEnd : ℕ} {requests : List Request}

theorem congr (h : layout.Traced headers settled valueEnd requests) {settled' : ℕ → ℕ}
    (hsettled : ∀ level ≤ layout.numLevels, settled level = settled' level) :
    layout.Traced headers settled' valueEnd requests := by
  obtain ⟨order, hnodup, hmem, hruns⟩ := h.pages
  refine ⟨h.headers_eq, ⟨order, hnodup, fun level page => ?_, hruns⟩, h.values⟩
  rw [hmem]
  exact and_congr_right fun hlevel => by rw [hsettled level hlevel]

theorem append_of_silent (h : layout.Traced headers settled valueEnd requests)
    {more : List Request} (hmore : ∀ request ∈ more, request.written? = none) :
    layout.Traced headers settled valueEnd (requests ++ more) := by
  obtain ⟨hheaders, hpages, hvalues⟩ := h
  constructor
  · simpa [writesAt_of_silent hmore] using hheaders
  · simpa [writesAt_of_silent hmore] using hpages
  · simpa [writesAt_of_silent hmore] using hvalues

theorem nil (layout : Layout) : layout.Traced [] (fun _ => 0) layout.valueOffset [] :=
  ⟨rfl, ⟨[], List.nodup_nil, by simp, rfl⟩, .nil _⟩

theorem writeHeader (hl : layout.Planned attributes)
    (h : layout.Traced headers settled valueEnd requests) (header : ByteArray) :
    layout.Traced (headers ++ [header]) settled valueEnd (requests ++ [.write 0 header]) := by
  obtain ⟨hheader, hpages, hvalues⟩ := hl.writesAt_header header
  constructor
  · simp [hheader, h.headers_eq]
  · simpa [hpages] using h.pages
  · simpa [hvalues] using h.values

theorem start (hl : layout.Planned attributes) (header : ByteArray) :
    layout.Traced [header] (fun _ => 0) layout.valueOffset
      [.write 0 header, .setLength layout.leafEnd] :=
  ((nil layout).writeHeader hl header).append_of_silent (by simp [written?])

theorem writePage (hl : layout.Planned attributes)
    (h : layout.Traced headers settled valueEnd requests) {level number : ℕ}
    (hlevel : level ≤ layout.numLevels) (hnext : settled level = number)
    (hnumber : number < (layout.region level).pages) {data : ByteArray}
    (hdata : data.size = layout.pageSize) :
    layout.Traced headers (fun other => if other = level then number + 1 else settled other)
      valueEnd (requests ++ [.write (layout.pageOffset level number) data]) := by
  obtain ⟨hheader, hpages, hvalues⟩ := hl.writesAt_page hlevel hnumber data
  constructor
  · simpa [hheader] using h.headers_eq
  · obtain ⟨order, hnodup, hmem, hruns⟩ := h.pages
    refine ⟨order ++ [(level, number)], ?_, fun other page => ?_, ?_⟩
    · apply hnodup.append (List.nodup_singleton _)
      simp [hmem, hnext]
    · simp only [List.mem_append, hmem, List.mem_singleton, Prod.mk.injEq]
      by_cases hsame : other = level
      · subst hsame
        simp only [hlevel, true_and, ↓reduceIte]
        omega
      · simp [hsame]
    · simp [hpages, hruns, hdata]
  · simpa [hvalues] using h.values

theorem writePages (hl : layout.Planned attributes)
    (h : layout.Traced headers settled valueEnd requests) (number : ℕ → ℕ) (data : ℕ → ByteArray)
    {levels : List ℕ} (hnodup : levels.Nodup)
    (hlevels : ∀ level ∈ levels, level ≤ layout.numLevels ∧ settled level = number level ∧
      number level < (layout.region level).pages ∧ (data level).size = layout.pageSize) :
    layout.Traced headers
      (fun level => if level ∈ levels then number level + 1 else settled level) valueEnd
      (requests ++ levels.map fun level =>
        .write (layout.pageOffset level (number level)) (data level)) := by
  induction levels generalizing settled requests with
  | nil => simpa using h
  | cons level levels ih =>
    obtain ⟨hnot, hnodup⟩ := List.nodup_cons.mp hnodup
    obtain ⟨hlevel, hnext, hnumber, hdata⟩ := hlevels level List.mem_cons_self
    have hother : ∀ other ∈ levels, other ≠ level := fun other hmem heq => hnot (heq ▸ hmem)
    have hrest := ih (h.writePage hl hlevel hnext hnumber hdata) hnodup fun other hmem => by
      simpa [hother other hmem] using hlevels other (List.mem_cons_of_mem _ hmem)
    rw [List.append_assoc] at hrest
    apply hrest.congr
    intro other _
    by_cases hsame : other = level
    · subst hsame
      simp [hnot]
    · simp [hsame]

theorem writeValues (hl : layout.Planned attributes)
    (h : layout.Traced headers settled valueEnd requests) (hplace : layout.leafEnd ≤ valueEnd)
    (data : ByteArray) :
    layout.Traced headers settled (valueEnd + data.size)
      (requests ++ [.write valueEnd data]) := by
  obtain ⟨hheader, hpages, hvalues⟩ := hl.writesAt_value hplace data
  constructor
  · simpa [hheader] using h.headers_eq
  · simpa [hpages] using h.pages
  · rw [writesAt_append, hvalues]
    exact h.values.concat rfl

end Traced

/-! ## Traces of finished files -/

/-- Requests that wrote two header pages, one after the other, and every byte behind the header
page once, up to the end of some bytes of values. -/
structure WrittenOnce (layout : Layout) (provisional final : ByteArray) (valueBytes : ℕ)
    (requests : List Request) : Prop where
  header : writesAt layout.inHeader requests = [⟨0, provisional⟩, ⟨0, final⟩]
  /-- There is one write for each page, of the whole page and at its offset. -/
  pages : ∃ order : List (ℕ × ℕ), order.Perm layout.pages ∧
    (writesAt layout.inPages requests).map (fun run => (run.offset, run.data.size)) =
      order.map fun (level, page) => (layout.pageOffset level page, layout.pageSize)
  /-- Each value write starts where the one before it stopped. -/
  values : Consecutive Run.offset Run.stop layout.valueOffset (writesAt layout.inValues requests)
    (layout.valueOffset + valueBytes)
  times_written : ∀ place,
    (writes requests).countP (fun run => run.offset ≤ place ∧ place < run.stop) =
      if place < layout.pageSize then 2 else if place < layout.leafEnd + valueBytes then 1 else 0

namespace Traced

variable {attributes : Attributes} {layout : Layout} {headers : List ByteArray} {settled : ℕ → ℕ}
  {valueEnd : ℕ} {requests : List Request}

/-- Pages cover what is between the header page and the values, once. -/
theorem countP_pages (hl : layout.Planned attributes)
    (h : layout.Traced headers settled valueEnd requests)
    (hsettled : ∀ level ≤ layout.numLevels, settled level = (layout.region level).pages) :
    ∃ order : List (ℕ × ℕ), order.Perm layout.pages ∧
      (writesAt layout.inPages requests).map (fun run => (run.offset, run.data.size)) =
        order.map (fun (level, page) => (layout.pageOffset level page, layout.pageSize)) ∧
      ∀ place, (writesAt layout.inPages requests).countP
          (fun run => run.offset ≤ place ∧ place < run.stop) =
        if layout.pageSize ≤ place ∧ place < layout.leafEnd then 1 else 0 := by
  obtain ⟨order, hnodup, hmem, hruns⟩ := h.pages
  have hperm : order.Perm layout.pages := by
    apply (List.perm_ext_iff_of_nodup hnodup layout.nodup_pages).mpr
    rintro ⟨level, page⟩
    rw [hmem, mem_pages]
    exact and_congr_right fun hlevel => by rw [hsettled level hlevel]
  refine ⟨order, hperm, hruns, fun place => ?_⟩
  have hcounted := congrArg
    (List.countP fun (offset, size) => offset ≤ place ∧ place < offset + size) hruns
  rw [List.countP_map, List.countP_map] at hcounted
  refine hcounted.trans ?_
  rw [hperm.countP_eq]
  exact hl.consecutive_pages.countP_eq (fun _ => Nat.le_add_right _ _) place

/-- When all pages are there, everything behind the header page was written once. -/
theorem writtenOnce (hl : layout.Planned attributes) {provisional final : ByteArray}
    {valueBytes : ℕ}
    (hprovisional : provisional.size = layout.pageSize) (hfinal : final.size = layout.pageSize)
    (hsettled : ∀ level ≤ layout.numLevels, settled level = (layout.region level).pages)
    (hvalues : layout.encoding.usesValueRegion = false → valueBytes = 0)
    (h : layout.Traced [provisional, final] settled (layout.valueOffset + valueBytes) requests) :
    layout.WrittenOnce provisional final valueBytes requests := by
  obtain ⟨order, hperm, hruns, hpages⟩ := h.countP_pages hl hsettled
  refine ⟨h.headers_eq, ⟨order, hperm, hruns⟩, h.values, fun place => ?_⟩
  have hend := hl.pageSize_le_leafEnd
  have hheaders : ([provisional, final].map (Run.mk 0)).countP
      (fun run => run.offset ≤ place ∧ place < run.stop) =
        if place < layout.pageSize then 2 else 0 := by
    by_cases hplace : place < layout.pageSize
    · simp [Run.stop, hprovisional, hfinal, hplace]
    · simp [Run.stop, hprovisional, hfinal, hplace]
  rw [countP_writes hend, h.headers_eq, hheaders, hpages,
    h.values.countP_eq Run.offset_le_stop place]
  have hoffset := hl.valueOffset_eq
  -- with a value region the values start where the leaf pages end; otherwise there are none
  cases hregion : layout.encoding.usesValueRegion with
  | false =>
    rw [hregion, if_neg Bool.false_ne_true] at hoffset
    rw [hoffset, hvalues hregion]
    split_ifs <;> omega
  | true =>
    rw [hregion, if_pos rfl] at hoffset
    rw [hoffset]
    split_ifs <;> omega

end Traced

end Layout

end PackedIndex
