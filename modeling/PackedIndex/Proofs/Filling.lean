import PackedIndex.Proofs.Image
import PackedIndex.Proofs.Paged
/-! # How a file is filled

`Filled` relates a writer and its file to the records, with a counter for each of the three things
that a record brings: a separator, a value entry, and a leaf record. Each step of the writer
advances one counter.
-/
namespace PackedIndex

namespace Layout

def lastLeaf (layout : Layout) (count : ℕ) : ℕ :=
  (count - 1) / layout.recordsPerLeafPage

def fullLeaves (layout : Layout) (count : ℕ) : ℕ :=
  if count = layout.recordCount then layout.leafPages else count / layout.recordsPerLeafPage

theorem fullLeaves_of_lt {layout : Layout} {count : ℕ} (h : count < layout.recordCount) :
    layout.fullLeaves count = count / layout.recordsPerLeafPage :=
  if_neg h.ne

theorem lastLeaf_succ_of_start {layout : Layout} {count : ℕ} (hcount : 0 < count)
    (hstart : count % layout.recordsPerLeafPage = 0) :
    layout.lastLeaf (count + 1) = layout.lastLeaf count + 1 ∧
      (layout.lastLeaf count + 1) * layout.recordsPerLeafPage = count := by
  have hdvd := Nat.dvd_of_mod_eq_zero hstart
  obtain ⟨last, rfl⟩ : ∃ last, count = last + 1 := ⟨_, (Nat.succ_pred hcount.ne').symm⟩
  have hnext := Nat.succ_div_of_dvd hdvd
  refine ⟨hnext, ?_⟩
  unfold lastLeaf
  rw [Nat.add_sub_cancel, ← hnext]
  exact Nat.div_mul_cancel hdvd

theorem lastLeaf_succ_of_not_start {layout : Layout} {count : ℕ}
    (hstart : ¬(0 < count ∧ count % layout.recordsPerLeafPage = 0)) :
    layout.lastLeaf (count + 1) = layout.lastLeaf count := by
  unfold lastLeaf
  cases count with
  | zero => rfl
  | succ last =>
    refine Nat.succ_div_of_not_dvd fun hdvd => hstart ⟨Nat.succ_pos _, ?_⟩
    exact Nat.mod_eq_zero_of_dvd hdvd

theorem lastLeaf_mul_lt {layout : Layout} {count : ℕ} (h : 0 < layout.lastLeaf count) :
    layout.lastLeaf count * layout.recordsPerLeafPage < count := by
  have hbelow := Nat.div_mul_le_self (count - 1) layout.recordsPerLeafPage
  have hsome : 0 < count - 1 := by
    refine Nat.pos_of_ne_zero fun hzero => h.ne' ?_
    rw [lastLeaf, hzero, Nat.zero_div]
  unfold lastLeaf
  omega

def Completes (layout : Layout) (index : ℕ) : Prop :=
  index % layout.recordsPerLeafPage + 1 = layout.recordsPerLeafPage ∨
    index + 1 = layout.recordCount

namespace Completes

variable {attributes : Attributes} {layout : Layout} {index : ℕ}

theorem recordsInLeaf (hl : layout.Planned attributes) (h : layout.Completes index)
    (hindex : index < layout.recordCount) :
    layout.recordsInLeaf (index / layout.recordsPerLeafPage) =
      index % layout.recordsPerLeafPage + 1 := by
  have hsplit := Nat.div_add_mod' index layout.recordsPerLeafPage
  have hlt := Nat.mod_lt index hl.recordsPerLeafPage_pos
  unfold Layout.recordsInLeaf
  rcases h with h | h <;> omega

theorem fullLeaves_succ (hl : layout.Planned attributes) (h : layout.Completes index) :
    layout.fullLeaves (index + 1) = index / layout.recordsPerLeafPage + 1 := by
  have hroom := hl.recordsPerLeafPage_pos
  unfold fullLeaves
  split_ifs with hlast
  · refine Nat.le_antisymm ?_ (hl.leafPage_lt (by omega))
    rw [hl.leafPages_eq, Size.ceilDiv_le_iff hroom, ← hlast, Nat.succ_mul]
    have hsplit := Nat.div_add_mod' index layout.recordsPerLeafPage
    have hlt := Nat.mod_lt index hroom
    omega
  · exact (Size.div_mod_succ_of_full (h.resolve_right hlast)).1

end Completes

theorem div_mod_succ_of_not_completes {attributes : Attributes} {layout : Layout} {index : ℕ}
    (hl : layout.Planned attributes) (h : ¬layout.Completes index) :
    (index + 1) / layout.recordsPerLeafPage = index / layout.recordsPerLeafPage ∧
      (index + 1) % layout.recordsPerLeafPage = index % layout.recordsPerLeafPage + 1 := by
  have hlt := Nat.mod_lt index hl.recordsPerLeafPage_pos
  obtain ⟨hfull, -⟩ := not_or.mp h
  exact Size.div_mod_succ_of_room (by omega)

theorem fullLeaves_succ_of_not_completes {attributes : Attributes} {layout : Layout} {index : ℕ}
    (hl : layout.Planned attributes) (h : ¬layout.Completes index)
    (hindex : index < layout.recordCount) :
    layout.fullLeaves (index + 1) = layout.fullLeaves index := by
  obtain ⟨-, hlast⟩ := not_or.mp h
  rw [fullLeaves_of_lt (Nat.lt_of_le_of_ne hindex hlast), fullLeaves_of_lt hindex,
    (div_mod_succ_of_not_completes hl h).1]

theorem Planned.lastLeaf_recordCount {attributes : Attributes} {layout : Layout}
    (hl : layout.Planned attributes) :
    layout.lastLeaf layout.recordCount = layout.leafPages - 1 := by
  have hpos := hl.recordCount_pos
  have hcomplete : layout.Completes (layout.recordCount - 1) := Or.inr (by omega)
  have hfull := hcomplete.fullLeaves_succ hl
  rw [Nat.sub_add_cancel hpos, fullLeaves, if_pos rfl] at hfull
  rw [lastLeaf, hfull, Nat.add_sub_cancel]

end Layout

namespace Image

variable (layout : Layout) (records : List Record)

/-- The leaf page being filled after `count` records; after the last one there is none. -/
def openLeaf (count : ℕ) : ByteArray :=
  if count = layout.recordCount then Bytes.zeros layout.pageSize
  else leafPage layout records (count / layout.recordsPerLeafPage)
    (count % layout.recordsPerLeafPage)

/-- The pages of a file that has the index pages before those over leaf page `leaf`, and the leaf
pages of `count` records. -/
def settled (leaf count level page : ℕ) : ByteArray :=
  if level < layout.numLevels then
    if page < layout.openPage level leaf then
      indexPage layout records level page (layout.branchingFactor - 1)
    else Bytes.zeros layout.pageSize
  else if page < layout.fullLeaves count then
    leafPage layout records page (layout.recordsInLeaf page)
  else Bytes.zeros layout.pageSize

def page (level page : ℕ) : ByteArray :=
  if level < layout.numLevels then
    indexPage layout records level page (layout.separatorsIn level page)
  else leafPage layout records page (layout.recordsInLeaf page)

variable {layout records} {attributes : Attributes} {leaf count : ℕ}

theorem openLeaf_append (more : List Record) (h : count ≤ records.length) :
    openLeaf layout (records ++ more) count = openLeaf layout records count := by
  unfold openLeaf
  rw [leafPage_append (by rw [Nat.div_add_mod']; exact h)]

/-- The settled pages only depend on the records so far. -/
theorem settled_append (hl : layout.Planned attributes) (more : List Record)
    (hleaf : 0 < leaf → leaf * layout.recordsPerLeafPage < records.length)
    (hcount : count ≤ records.length) (level page : ℕ) :
    settled layout (records ++ more) leaf count level page =
      settled layout records leaf count level page := by
  unfold settled
  split_ifs with hindex hpage hpage
  · refine indexPage_append ?_ hleaf
    have hchild := layout.openPage_mul_add hindex leaf
    have hbelow := Nat.mul_le_mul_right layout.branchingFactor hpage
    have hpos := hl.branchingFactor_pos
    rw [Nat.succ_mul] at hbelow
    omega
  · rfl
  · refine leafPage_append (le_trans ?_ hcount)
    unfold Layout.fullLeaves at hpage
    unfold Layout.recordsInLeaf
    split_ifs at hpage with hlast
    · rw [hl.leafPages_eq, Size.lt_ceilDiv_iff hl.recordsPerLeafPage_pos] at hpage
      omega
    · have hbelow := (Nat.le_div_iff_mul_le hl.recordsPerLeafPage_pos).mp hpage
      rw [Nat.succ_mul] at hbelow
      omega
  · rfl

end Image

namespace Writer

open Layout

/-- A writer whose file has the separators up to leaf page `leaf`, `entries` value entries and
`count` leaf records, all those that are not in the file being in its memory. -/
structure Filled (layout : Layout) (records : List Record) (header : ByteArray)
    (leaf entries count : ℕ) (writer : Writer) (file : Content) : Prop where
  layout_eq : writer.layout = layout
  cursors_eq : writer.cursors = Cursors.after layout leaf
  indexPages_eq : writer.indexPages = Image.openPages layout records leaf
  leafPage_eq : writer.leafPage = Image.openLeaf layout records count
  written_eq : writer.written = count
  valueCursor_eq :
    writer.valueCursor = layout.valueOffset + (Image.values layout records entries).size
  stored : ∃ flushed, Image.values layout records entries = flushed ++ writer.valueBuffer ∧
    writer.valueFlushed = layout.valueOffset + flushed.size ∧
    layout.Paged header (Image.settled layout records leaf count) flushed file

variable {attributes : Attributes} {layout : Layout} {records : List Record} {header : ByteArray}
  {leaf entries count : ℕ} {writer : Writer} {file : Content}

theorem zipIdx_drop_map_range (f : ℕ → α) (size start : ℕ) :
    ((List.range size).map f).zipIdx.drop start =
      (List.range' start (size - start)).map fun i => (f i, i) := by
  apply List.ext_getElem (by simp)
  intro i h h'
  simp

theorem place_openPages (hl : layout.Planned attributes) {level : ℕ}
    (hstays : Cursors.StaysOn layout leaf layout.numLevels level) :
    (Image.openPages layout records leaf).mapIdx (fun other indexPage =>
      if other < level then indexPage
      else if other = level then
        indexPage.place layout ⟨level, layout.openPage level leaf, layout.openSlots level leaf⟩
          (Image.key layout records ((leaf + 1) * layout.recordsPerLeafPage))
      else IndexPage.start layout other ((Cursors.after layout (leaf + 1)).page other)) =
    Image.openPages layout records (leaf + 1) := by
  have hroom := hl.index_room
  have htwo := hl.two_le_branchingFactor
  apply List.ext_getElem (by simp [Image.openPages])
  intro other h h'
  have hother : other < layout.numLevels := by simpa [Image.openPages] using h'
  simp only [Image.openPages, List.getElem_mapIdx, List.getElem_map, List.getElem_range]
  -- above, at and below the level that takes the separator
  rcases Nat.lt_trichotomy other level with hlt | rfl | hgt
  · rw [if_pos hlt, hstays.above other hlt.le, hstays.slots_above hlt]
  · have hkey : Image.key layout records ((leaf + 1) * layout.recordsPerLeafPage) =
        Image.separator layout records other
          (layout.openPage other leaf * layout.branchingFactor + layout.openSlots other leaf + 1) :=
      by rw [Image.separator, hstays.child_mul]
    rw [if_neg (lt_irrefl _), if_pos rfl, hkey, Image.place_indexPage hstays.has_room hroom,
      hstays.above other le_rfl, hstays.slots_succ]
  · have hstart : layout.pointerPosition 1 ≤ layout.pageSize := by
      refine le_trans (Nat.add_le_add_left (Nat.mul_le_mul_right _ ?_) _) hroom
      omega
    rw [if_neg hgt.not_gt, if_neg hgt.ne', Cursors.page_after hother,
      Image.start_eq_indexPage _ _ hstart, hstays.fresh hl hgt hother]

/-- The index pages that are full on the way of a separator go to their places. -/
theorem paged_placeSeparator (hl : layout.Planned attributes) {level : ℕ}
    (hstays : Cursors.StaysOn layout leaf layout.numLevels level)
    (hleaf : leaf + 1 < layout.leafPages) {flushed : ByteArray}
    (h : layout.Paged header (Image.settled layout records leaf count) flushed file) :
    layout.Paged header (Image.settled layout records (leaf + 1) count) flushed
      (file.applyAll (((Image.openPages layout records leaf).zipIdx.drop (level + 1)).map
        fun (indexPage, level) =>
          .write (layout.pageOffset level indexPage.page) indexPage.data)) := by
  have hwritten := h.writePages hl (fun level => layout.openPage level leaf)
    (fun level =>
      Image.indexPage layout records level (layout.openPage level leaf)
        (layout.openSlots level leaf))
    (List.range' (level + 1) (layout.numLevels - (level + 1))) fun other hother => by
      have hother := List.mem_range'_1.mp hother
      exact ⟨by omega, hl.openPage_lt (by omega) (by omega), by simp⟩
  rw [Image.openPages, zipIdx_drop_map_range, List.map_map]
  apply hwritten.congr
  intro other hother number _
  simp only [replacePages, Image.settled, List.mem_range'_1]
  rcases Nat.lt_or_eq_of_le hother with hlt | rfl
  · rw [if_pos hlt, if_pos hlt]
    by_cases hbelow : level < other
    · have hfull := hstays.full hl hbelow hlt
      rw [hstays.below other hbelow hlt.le]
      by_cases hnumber : number = layout.openPage other leaf
      · subst hnumber
        rw [if_pos ⟨by omega, rfl⟩, if_pos (Nat.lt_succ_self _), ← hfull, Nat.add_sub_cancel]
      · rw [if_neg fun hmem => hnumber hmem.2]
        simp only [Nat.lt_succ_iff_lt_or_eq, hnumber, or_false]
    · rw [if_neg (by omega), hstays.above other (by omega)]
  · rw [if_neg (by omega), if_neg (lt_irrefl _), if_neg (lt_irrefl _)]

theorem Filled.placeSeparator (hl : layout.Planned attributes)
    (h : Filled layout records header leaf entries count writer file)
    (hleaf : leaf + 1 < layout.leafPages) :
    ∃ step, writer.placeSeparator
        (Image.key layout records ((leaf + 1) * layout.recordsPerLeafPage)) = some step ∧
      Filled layout records header (leaf + 1) entries count step.writer
        (file.applyAll step.requests) := by
  obtain ⟨level, hstays, hpropagate⟩ :=
    Cursors.propagate_after hl (hleaf.trans_le hl.leafPages_le_room)
  obtain ⟨flushed, hvalues, hflushed, hpaged⟩ := h.stored
  unfold Writer.placeSeparator
  rw [h.layout_eq, h.cursors_eq, hpropagate, h.indexPages_eq]
  refine ⟨_, rfl, h.layout_eq, rfl, place_openPages hl hstays, h.leafPage_eq, h.written_eq,
    h.valueCursor_eq, flushed, hvalues, hflushed, ?_⟩
  exact paged_placeSeparator hl hstays hleaf hpaged

theorem Filled.usesValueRegion (h : Filled layout records header leaf entries count writer file)
    (hbuffer : writer.valueBuffer.size ≠ 0) : layout.encoding.usesValueRegion = true := by
  obtain ⟨flushed, hvalues, -, -⟩ := h.stored
  by_contra hnot
  rw [Bool.not_eq_true] at hnot
  rw [Image.values_eq_empty records hnot] at hvalues
  have hsize := congrArg ByteArray.size hvalues
  rw [ByteArray.size_append] at hsize
  exact hbuffer (Nat.eq_zero_of_add_eq_zero hsize.symm).2

theorem Filled.pageSize_le_valueFlushed (hl : layout.Planned attributes)
    (h : Filled layout records header leaf entries count writer file)
    (hregion : layout.encoding.usesValueRegion = true) : layout.pageSize ≤ writer.valueFlushed := by
  obtain ⟨flushed, -, hflushed, -⟩ := h.stored
  rw [hflushed, hl.valueOffset_eq, if_pos hregion]
  exact hl.pageSize_le_leafEnd.trans (Nat.le_add_right _ _)

theorem Filled.flushValues (hl : layout.Planned attributes)
    (h : Filled layout records header leaf entries count writer file) :
    Filled layout records header leaf entries count writer.flushValues.writer
        (file.applyAll writer.flushValues.requests) ∧
      writer.flushValues.writer.valueBuffer.size = 0 := by
  obtain ⟨flushed, hvalues, hflushed, hpaged⟩ := h.stored
  unfold Writer.flushValues
  split_ifs with hempty
  · exact ⟨h, hempty⟩
  · refine ⟨⟨h.layout_eq, h.cursors_eq, h.indexPages_eq, h.leafPage_eq, h.written_eq,
      h.valueCursor_eq, flushed ++ writer.valueBuffer, ?_, ?_, ?_⟩, rfl⟩
    · rw [hvalues, ByteArray.append_empty]
    · rw [ByteArray.size_append, ← Nat.add_assoc, ← hflushed]
    · have hplace : writer.valueFlushed = layout.leafEnd + flushed.size := by
        rw [hflushed, hl.valueOffset_eq, if_pos (h.usesValueRegion hempty)]
      simp only [Content.applyAll_cons, Content.apply, Content.applyAll_nil]
      rw [hplace]
      exact hpaged.writeValues hl _

theorem Filled.storeValue (hl : layout.Planned attributes)
    (h : Filled layout records header leaf entries count writer file)
    (hentries : entries < records.length) :
    Filled layout records header leaf (entries + 1) count
      (writer.storeValue records[entries]).writer
      (file.applyAll (writer.storeValue records[entries]).requests) := by
  have hnext := Image.values_succ layout hentries
  obtain ⟨flushed, hvalues, hflushed, hpaged⟩ := h.stored
  unfold Writer.storeValue
  rw [h.layout_eq]
  dsimp only
  by_cases hregion : layout.encoding.usesValueRegion = true
  · rw [if_pos hregion]
    -- the entry is in the buffer first, and may then be sent with the others
    have hgathered : Filled layout records header leaf (entries + 1) count
        { writer with
          valueBuffer := writer.valueBuffer ++ layout.encoding.valueEntry records[entries]
          valueCursor :=
            writer.valueCursor + (layout.encoding.valueEntry records[entries]).size } file := by
      refine ⟨h.layout_eq, h.cursors_eq, h.indexPages_eq, h.leafPage_eq, h.written_eq, ?_, flushed,
        ?_, hflushed, hpaged⟩
      · rw [hnext, ByteArray.size_append, ← Nat.add_assoc, ← h.valueCursor_eq]
      · rw [hnext, hvalues, ByteArray.append_assoc]
    split_ifs with hfull
    · exact (hgathered.flushValues hl).1
    · exact hgathered
  · have hempty := Image.values_eq_empty records (Bool.not_eq_true _ ▸ hregion)
    rw [if_neg hregion]
    refine ⟨h.layout_eq, h.cursors_eq, h.indexPages_eq, h.leafPage_eq, h.written_eq, ?_, ?_⟩
    · rw [hempty (entries + 1), ← hempty entries]
      exact h.valueCursor_eq
    · rw [hempty (entries + 1), ← hempty entries]
      exact h.stored

theorem openLeaf_succ_of_completes (h : layout.Completes count) :
    Image.openLeaf layout records (count + 1) = Bytes.zeros layout.pageSize := by
  unfold Image.openLeaf
  split_ifs with hlast
  · rfl
  · obtain ⟨-, hmod⟩ := Size.div_mod_succ_of_full (h.resolve_right hlast)
    rw [hmod, Image.leafPage_zero]

theorem openLeaf_succ_of_not_completes (hl : layout.Planned attributes)
    (h : ¬layout.Completes count) :
    Image.openLeaf layout records (count + 1) =
      Image.leafPage layout records (count / layout.recordsPerLeafPage)
        (count % layout.recordsPerLeafPage + 1) := by
  obtain ⟨hdiv, hmod⟩ := div_mod_succ_of_not_completes hl h
  rw [Image.openLeaf, if_neg (not_or.mp h).2, hdiv, hmod]

theorem overlay_openLeaf (hl : layout.Planned attributes)
    (hvalid : ∀ record ∈ records,
      layout.encoding.validate layout.keySize attributes.valueSize record = .ok ())
    (hcount : count < records.length) (hlength : records.length ≤ layout.recordCount) :
    Bytes.overlay (Image.openLeaf layout records count)
        (count % layout.recordsPerLeafPage * layout.leafRecordSize)
        (layout.encoding.leaf layout.keySize records[count] (Image.pointer layout records count)) =
      Image.leafPage layout records (count / layout.recordsPerLeafPage)
        (count % layout.recordsPerLeafPage + 1) := by
  have hslot := Nat.mod_lt count hl.recordsPerLeafPage_pos
  have hsplit := Nat.div_add_mod' count layout.recordsPerLeafPage
  have hnot : count ≠ layout.recordCount := by omega
  have hplace : Image.leaf layout records count = Image.leaf layout records
      (count / layout.recordsPerLeafPage * layout.recordsPerLeafPage +
        count % layout.recordsPerLeafPage) := by rw [hsplit]
  have hleaf : ∀ slot ≤ count % layout.recordsPerLeafPage,
      (Image.leaf layout records
        (count / layout.recordsPerLeafPage * layout.recordsPerLeafPage + slot)).size =
          layout.leafRecordSize := by
    intro slot hle
    rw [Image.leaf_eq (by omega)]
    exact Encoding.size_leaf (hvalid _ (List.getElem_mem _)) hl.leafRecordSize_eq _
  rw [Image.openLeaf, if_neg hnot, ← Image.leaf_eq hcount, hplace]
  exact Image.leafPage_succ hleaf ((Nat.mul_le_mul_right _ hslot).trans hl.leaf_room)

theorem paged_storeLeaf (hl : layout.Planned attributes) (hcomplete : layout.Completes count)
    (hcount : count < layout.recordCount) {flushed : ByteArray}
    (h : layout.Paged header (Image.settled layout records leaf count) flushed file) :
    layout.Paged header (Image.settled layout records leaf (count + 1)) flushed
      (file.write (layout.leafPageOffset (count / layout.recordsPerLeafPage))
        (Image.leafPage layout records (count / layout.recordsPerLeafPage)
          (count % layout.recordsPerLeafPage + 1))) := by
  have hpage : count / layout.recordsPerLeafPage < (layout.region layout.numLevels).pages := by
    rw [region_numLevels]
    exact hl.leafPage_lt hcount
  rw [leafPageOffset_eq]
  refine (h.writePage hl le_rfl hpage (Image.size_leafPage _ _)).congr
    fun other hother number _ => ?_
  unfold Image.settled
  rcases Nat.lt_or_eq_of_le hother with hlt | rfl
  · rw [if_neg fun hsame => hlt.ne hsame.1, if_pos hlt, if_pos hlt]
  · rw [if_neg (lt_irrefl _), if_neg (lt_irrefl _), hcomplete.fullLeaves_succ hl,
      fullLeaves_of_lt hcount]
    by_cases hnumber : number = count / layout.recordsPerLeafPage
    · subst hnumber
      rw [if_pos ⟨rfl, rfl⟩, if_pos (Nat.lt_succ_self _), hcomplete.recordsInLeaf hl hcount]
    · rw [if_neg fun hsame => hnumber hsame.2]
      simp only [Nat.lt_succ_iff_lt_or_eq, hnumber, or_false]

theorem Filled.storeLeaf (hl : layout.Planned attributes)
    (h : Filled layout records header leaf entries count writer file)
    (hvalid : ∀ record ∈ records,
      layout.encoding.validate layout.keySize attributes.valueSize record = .ok ())
    (hcount : count < records.length) (hlength : records.length ≤ layout.recordCount)
    (key : ByteArray) :
    Filled layout records header leaf entries (count + 1)
      (writer.storeLeaf key records[count] (Image.pointer layout records count)).writer
      (file.applyAll
        (writer.storeLeaf key records[count] (Image.pointer layout records count)).requests) := by
  have hlt : count < layout.recordCount := hcount.trans_le hlength
  obtain ⟨flushed, hvalues, hflushed, hpaged⟩ := h.stored
  unfold Writer.storeLeaf
  rw [h.layout_eq, h.written_eq, h.leafPage_eq]
  dsimp only
  rw [overlay_openLeaf hl hvalid hcount hlength]
  split_ifs with hcomplete
  · refine ⟨h.layout_eq, h.cursors_eq, h.indexPages_eq, ?_, rfl, h.valueCursor_eq, flushed, hvalues,
      hflushed, ?_⟩
    · rw [openLeaf_succ_of_completes hcomplete]
    · simp only [Content.applyAll_cons, Content.apply, Content.applyAll_nil]
      exact paged_storeLeaf hl hcomplete hlt hpaged
  · have hopen : Image.openLeaf layout records (count + 1) = _ :=
      openLeaf_succ_of_not_completes hl hcomplete
    have hsettled : layout.fullLeaves (count + 1) = layout.fullLeaves count :=
      fullLeaves_succ_of_not_completes hl hcomplete hlt
    refine ⟨h.layout_eq, h.cursors_eq, h.indexPages_eq, hopen.symm, rfl, h.valueCursor_eq, flushed,
      hvalues, hflushed, hpaged.congr fun level _ number _ => ?_⟩
    rw [Image.settled, Image.settled, hsettled]

/-- What a file holds does not depend on the records still to come. -/
theorem Filled.append (hl : layout.Planned attributes)
    (h : Filled layout records header leaf entries count writer file)
    (hleaf : 0 < leaf → leaf * layout.recordsPerLeafPage < records.length)
    (hentries : entries ≤ records.length) (hcount : count ≤ records.length) (more : List Record) :
    Filled layout (records ++ more) header leaf entries count writer file := by
  obtain ⟨flushed, hvalues, hflushed, hpaged⟩ := h.stored
  refine ⟨h.layout_eq, h.cursors_eq, ?_, ?_, h.written_eq, ?_, flushed, ?_, hflushed, ?_⟩
  · rw [Image.openPages_append hleaf, h.indexPages_eq]
  · rw [Image.openLeaf_append more hcount, h.leafPage_eq]
  · rw [Image.values_append hentries, h.valueCursor_eq]
  · rw [Image.values_append hentries, hvalues]
  · exact hpaged.congr fun level _ page _ =>
      (Image.settled_append hl more hleaf hcount level page).symm

theorem writes_openPages (layout : Layout) (records : List Record) (leaf : ℕ) :
    (Image.openPages layout records leaf).mapIdx (fun level indexPage =>
        Request.write (layout.pageOffset level indexPage.page) indexPage.data) =
      (List.range layout.numLevels).map fun level =>
        .write (layout.pageOffset level (layout.openPage level leaf))
          (Image.indexPage layout records level (layout.openPage level leaf)
            (layout.openSlots level leaf)) :=
  List.ext_getElem (by simp [Image.openPages]) fun level _ _ => by simp [Image.openPages]

theorem paged_openPages (hl : layout.Planned attributes) {values : ByteArray}
    (h : layout.Paged header
      (Image.settled layout records (layout.leafPages - 1) layout.recordCount) values file) :
    layout.Paged header (Image.page layout records) values
      (file.applyAll ((Image.openPages layout records (layout.leafPages - 1)).mapIdx
        fun level indexPage =>
          .write (layout.pageOffset level indexPage.page) indexPage.data)) := by
  have hpos := hl.leafPages_pos
  have hwritten := h.writePages hl
    (fun level => layout.openPage level (layout.leafPages - 1))
    (fun level => Image.indexPage layout records level
      (layout.openPage level (layout.leafPages - 1))
      (layout.openSlots level (layout.leafPages - 1)))
    (List.range layout.numLevels) fun level hlevel => by
      have hlevel := List.mem_range.mp hlevel
      exact ⟨hlevel.le, hl.openPage_lt hlevel.le (by omega), by simp⟩
  rw [writes_openPages]
  apply hwritten.congr
  intro level hlevel number hnumber
  unfold replacePages Image.settled Image.page
  -- what is left of each level is its last page; the leaf pages are all there
  rcases Nat.lt_or_eq_of_le hlevel with hlt | rfl
  · have hlast := hl.openPage_last hlevel
    rw [if_pos hlt, if_pos hlt]
    by_cases hopen : number = layout.openPage level (layout.leafPages - 1)
    · subst hopen
      rw [if_pos ⟨List.mem_range.mpr hlt, rfl⟩, hl.separatorsIn_last hlt]
    · rw [if_neg fun hsame => hopen hsame.2, if_pos (by omega),
        hl.separatorsIn_of_succ_lt hlt (by omega)]
  · have hnot : layout.numLevels ∉ List.range layout.numLevels := by simp
    have hpage : number < layout.fullLeaves layout.recordCount := by
      rw [fullLeaves, if_pos rfl]
      simpa [leafRegion] using hnumber
    rw [if_neg fun hsame => hnot hsame.1, if_neg (lt_irrefl _), if_neg (lt_irrefl _), if_pos hpage]

/-- A writer that has all records completes its file. -/
theorem Filled.commit (hl : layout.Planned attributes)
    (h : Filled layout records header (layout.leafPages - 1) layout.recordCount layout.recordCount
      writer file)
    (hheader : writer.header.finalize.encodePage.size = layout.pageSize) :
    layout.Paged writer.header.finalize.encodePage (Image.page layout records)
      (Image.values layout records layout.recordCount) (file.applyAll writer.commit.requests) := by
  obtain ⟨hfilled, hempty⟩ := h.flushValues hl
  obtain ⟨flushed, hvalues, -, hpaged⟩ := hfilled.stored
  rw [ByteArray.size_eq_zero_iff.mp hempty, ByteArray.append_empty] at hvalues
  have hindex : layout.Paged header (Image.page layout records) flushed
      ((file.applyAll writer.flushValues.requests).applyAll (writer.indexPages.mapIdx
        fun level indexPage => .write (writer.layout.pageOffset level indexPage.page)
          indexPage.data)) := by
    rw [h.layout_eq, h.indexPages_eq]
    exact paged_openPages hl hpaged
  have hfinal := hindex.writeHeader hl hheader
  unfold Writer.commit
  simp only [Content.applyAll_append, Content.applyAll_cons, Content.apply, Content.applyAll_nil]
  rw [hvalues]
  split_ifs
  · exact hfinal
  · exact hfinal

end Writer

end PackedIndex
