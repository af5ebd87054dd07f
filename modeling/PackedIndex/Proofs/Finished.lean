import PackedIndex.Proofs.Progress
/-! # Finished files

`Finished` says that a content is the complete file of some records. A writer that has taken all its
records leaves such a file, and there is only one for given records: its bytes are `Image.bytes`.
-/
namespace PackedIndex

/-- A content that is the complete file of some records. -/
structure Finished (attributes : Attributes) (layout : Layout) (records : List Record)
    (file : Content) : Prop where
  plan_eq : Layout.plan attributes layout.pageSize = .ok layout
  header_le : Size.header ≤ layout.pageSize
  pageSize_le : layout.pageSize ≤ Size.mostPage
  length_eq : records.length = layout.recordCount
  valid : ∀ record ∈ records,
    layout.encoding.validate layout.keySize attributes.valueSize record = .ok ()
  paged : layout.Paged (Header.provisional attributes layout).finalize.encodePage
    (Image.page layout records) (Image.values layout records records.length) file

theorem Writer.Progress.commit {attributes : Attributes} {options : Options} {layout : Layout}
    {records : List Record} {writer : Writer} {file : Content}
    (hplan : Layout.plan attributes layout.pageSize = .ok layout)
    (hheader : Size.header ≤ layout.pageSize) (hmost : layout.pageSize ≤ Size.mostPage)
    (h : Progress attributes options layout records writer file)
    (hcount : records.length = layout.recordCount) :
    Finished attributes layout records (file.applyAll writer.commit.requests) := by
  obtain ⟨-, hl⟩ := Layout.planned_of_plan hplan
  have hfilled := h.filled
  rw [hcount, hl.lastLeaf_recordCount] at hfilled
  have hpage : writer.header.finalize.encodePage.size = layout.pageSize := by
    rw [h.header_eq]
    exact Bytes.size_resize _ _
  have hpaged := hfilled.commit hl hpage
  rw [h.header_eq] at hpaged
  exact ⟨hplan, hheader, hmost, hcount, h.valid, hcount ▸ hpaged⟩

namespace Finished

variable {attributes : Attributes} {layout : Layout} {records : List Record} {file : Content}

theorem planned (h : Finished attributes layout records file) : layout.Planned attributes :=
  (Layout.planned_of_plan h.plan_eq).2

theorem read_region (h : Finished attributes layout records file) {level : ℕ}
    (hlevel : level ≤ layout.numLevels) :
    file.read (layout.region level).offset ((layout.region level).pages * layout.pageSize) =
      Bytes.tile (layout.region level).pages (Image.page layout records level) := by
  have hpos := h.planned.pages_pos hlevel
  have hlast : (layout.region level).pages - 1 < (layout.region level).pages := by omega
  have hend := h.planned.page_end_le_leafEnd hlevel hlast
  have hfile := h.paged.leafEnd_le
  rw [← Layout.pageOffset_succ, Nat.sub_add_cancel hpos] at hend
  apply Content.read_tile (hend.trans hfile)
  intro page hpage
  exact h.paged.page_eq level hlevel page hpage

theorem read_front (h : Finished attributes layout records file) {level : ℕ}
    (hlevel : level ≤ layout.numLevels) :
    file.read 0 (layout.region level).offset =
      (Header.provisional attributes layout).finalize.encodePage ++
        Bytes.tile level fun level =>
          Bytes.tile (layout.region level).pages (Image.page layout records level) := by
  have hl := h.planned
  induction level with
  | zero =>
    rw [hl.offset_zero, Bytes.tile_zero, ByteArray.append_empty]
    exact h.paged.header_eq
  | succ level ih =>
    have hlt : level < layout.numLevels := hlevel
    have hend := hl.region_end_le (Nat.lt_add_one level) hlevel
    have hleaves := hl.page_end_le_leafEnd hlevel (hl.pages_pos hlevel)
    have hfile := h.paged.leafEnd_le
    simp only [Layout.pageOffset, Nat.zero_mul, Nat.add_zero] at hend hleaves
    rw [hl.offset_succ level hlt, Content.read_append (by omega), ih hlt.le, Nat.zero_add,
      h.read_region hlt.le, Bytes.tile_succ, ByteArray.append_assoc]

/-- The bytes of a finished file are determined by its records. -/
theorem toBytes_eq (h : Finished attributes layout records file) :
    file.toBytes = Image.bytes layout records attributes := by
  have hsize := h.paged.size_eq
  have hleafEnd := layout.leafEnd_eq
  have hfile := h.paged.leafEnd_le
  rw [Layout.pageOffset] at hleafEnd
  have hleaves := h.read_region le_rfl
  rw [layout.pages_numLevels] at hleaves
  have hindex : Bytes.tile layout.numLevels (fun level =>
        Bytes.tile (layout.region level).pages (Image.page layout records level)) =
      Bytes.tile layout.numLevels (Image.indexLevel layout records) := by
    refine Bytes.tile_congr fun level hlevel => Bytes.tile_congr fun page _ => ?_
    rw [Image.page, if_pos hlevel]
  have hlast : Bytes.tile layout.leafPages (Image.page layout records layout.numLevels) =
      Image.leaves layout records := by
    apply Bytes.tile_congr
    intro page _
    rw [Image.page, if_neg (lt_irrefl _)]
  rw [Content.toBytes, hsize, Content.read_append (by omega), Nat.zero_add, h.paged.values_eq,
    hleafEnd, Content.read_append (by omega), h.read_front le_rfl, Nat.zero_add, hleaves, hindex,
    hlast, Image.bytes, Image.finalize_provisional]

end Finished

end PackedIndex
