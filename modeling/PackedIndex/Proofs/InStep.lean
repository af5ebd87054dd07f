import PackedIndex.Proofs.Build
/-! # Between two calls

What a writer holds in memory and what is in its file at any moment between two calls. As long as no
request has failed, the two together account for exactly the records that were taken, and every
counter of the writer follows from their number.
-/
namespace PackedIndex

namespace Layout

variable {attributes : Attributes} {layout : Layout} {count page : ℕ}

/-- The separators that `count` records bring: one for each of their leaf pages but the first. -/
def separatorsFor (layout : Layout) (count : ℕ) : ℕ :=
  Size.ceilDiv count layout.recordsPerLeafPage - 1

theorem lastLeaf_eq_separatorsFor (hl : layout.Planned attributes) (count : ℕ) :
    layout.lastLeaf count = layout.separatorsFor count := by
  have hroom := hl.recordsPerLeafPage_pos
  unfold lastLeaf separatorsFor Size.ceilDiv
  cases count with
  | zero => simp [Nat.div_eq_of_lt (Nat.sub_lt hroom Nat.one_pos)]
  | succ last =>
    have hsum : last + 1 + layout.recordsPerLeafPage - 1 = last + layout.recordsPerLeafPage := by
      omega
    rw [hsum, Nat.add_div_right _ hroom, Nat.add_sub_cancel, Nat.succ_sub_one]

theorem separatorsFor_lt (hl : layout.Planned attributes) (hcount : count ≤ layout.recordCount) :
    layout.separatorsFor count < layout.leafPages := by
  have hpos := hl.recordCount_pos
  rw [← lastLeaf_eq_separatorsFor hl]
  exact hl.leafPage_lt (by omega)

theorem lt_fullLeaves_iff (hl : layout.Planned attributes) (hcount : count ≤ layout.recordCount)
    (hpage : page < layout.leafPages) :
    page < layout.fullLeaves count ↔
      min ((page + 1) * layout.recordsPerLeafPage) layout.recordCount ≤ count := by
  unfold fullLeaves
  split_ifs with hlast
  · simp [hpage, hlast]
  · rw [← Nat.add_one_le_iff, Nat.le_div_iff_mul_le hl.recordsPerLeafPage_pos, min_le_iff]
    omega

end Layout

namespace Writer

def valuesIn (layout : Layout) (file : Content) : ByteArray :=
  file.read layout.leafEnd (file.size - layout.leafEnd)

/-- A writer whose memory and file account for exactly some records. The index pages being filled
hold the separators and pointers of all leaf pages that were started; a leaf page is in the file as
soon as it has got its last record, and an index page as soon as its level has moved on. -/
structure InStep (attributes : Attributes) (options : Options) (layout : Layout)
    (records : List Record) (writer : Writer) (file : Content) : Prop where
  header_eq : writer.header = Header.provisional attributes layout
  written_eq : writer.written = records.length
  written_le : writer.written ≤ layout.recordCount
  valueCursor_eq : writer.valueCursor = writer.valueFlushed + writer.valueBuffer.size
  valueFlushed_eq : writer.valueFlushed = layout.valueOffset + (valuesIn layout file).size
  buffer_lt : writer.valueBuffer.size < options.valueBufferSize
  values_eq : valuesIn layout file ++ writer.valueBuffer =
    Bytes.join (records.map layout.encoding.valueEntry)
  leafPage_eq : writer.written < layout.recordCount →
    writer.leafPage = Image.leafPage layout records (writer.written / layout.recordsPerLeafPage)
      (writer.written % layout.recordsPerLeafPage)
  leafPage_fresh : writer.written = layout.recordCount ∨
    writer.written % layout.recordsPerLeafPage = 0 →
      writer.leafPage = Bytes.zeros layout.pageSize
  cursors_eq : writer.cursors = (fun cursors : Cursors => cursors.propagate.2)^[
    layout.separatorsFor writer.written] (Cursors.start layout)
  indexPages_length : writer.indexPages.length = layout.numLevels
  indexPage_eq : ∀ level < layout.numLevels, ∃ cursor indexPage,
    writer.cursors.levels[level]? = some cursor ∧ writer.indexPages[level]? = some indexPage ∧
      cursor.page * layout.branchingFactor + cursor.separators =
        layout.separatorsFor writer.written /
          layout.branchingFactor ^ (layout.numLevels - (level + 1)) ∧
      cursor.separators < layout.branchingFactor ∧
      indexPage.page = cursor.page ∧
      indexPage.data = Image.indexPage layout records level cursor.page cursor.separators
  lastKey_eq : ∀ record, records.getLast? = some record →
    writer.lastKey = Bytes.resize record.key layout.keySize
  ascending : options.verifyOrder = true →
    (Image.keys layout records).IsChain fun first second => writer.order second first = .gt
  size_eq : file.size = layout.leafEnd + (valuesIn layout file).size
  header_in : file.read 0 layout.pageSize = (Header.provisional attributes layout).encodePage
  index_in : ∀ level < layout.numLevels, ∀ page < (layout.region level).pages,
    file.read (layout.pageOffset level page) layout.pageSize =
      if page < writer.cursors.page level then
        Image.indexPage layout records level page (layout.branchingFactor - 1)
      else Bytes.zeros layout.pageSize
  leaf_in : ∀ page < layout.leafPages,
    file.read (layout.leafPageOffset page) layout.pageSize =
      if min ((page + 1) * layout.recordsPerLeafPage) layout.recordCount ≤ writer.written then
        Image.leafPage layout records page (layout.recordsInLeaf page)
      else Bytes.zeros layout.pageSize

variable {attributes : Attributes} {options : Options} {layout : Layout} {records : List Record}
  {writer : Writer} {file : Content}

/-! ## The value buffer -/

/-- Whether the gathered values are too few to be sent. -/
def Gathers (writer : Writer) : Prop :=
  writer.valueBuffer.size < writer.options.valueBufferSize

theorem gathers_storeValue (h : writer.Gathers) (record : Record) :
    (writer.storeValue record).writer.Gathers := by
  unfold storeValue
  dsimp only
  split_ifs with hregion hfull
  · unfold flushValues Gathers
    split_ifs with hempty
    · exact hempty ▸ Nat.zero_lt_of_lt h
    · exact Nat.zero_lt_of_lt h
  · exact not_le.mp hfull
  · exact h

theorem gathers_placeSeparator (h : writer.Gathers) {key : ByteArray} {step : Step}
    (hstep : writer.placeSeparator key = some step) : step.writer.Gathers := by
  unfold placeSeparator at hstep
  dsimp only at hstep
  split at hstep
  · cases hstep
  · cases hstep
    exact h

theorem gathers_storeLeaf (h : writer.Gathers) (key : ByteArray) (record : Record) (pointer : ℕ) :
    (writer.storeLeaf key record pointer).writer.Gathers := by
  unfold storeLeaf
  dsimp only
  split_ifs
  · exact h
  · exact h

theorem gathers_append (h : writer.Gathers) {key : ByteArray} {record : Record} {steps : List Step}
    (happend : writer.append key record = some steps) : (writer.last steps).Gathers := by
  obtain ⟨separated, hseparated, rfl⟩ := append_eq_some happend
  have hfirst : separated.writer.Gathers := by
    split_ifs at hseparated
    · exact gathers_placeSeparator h hseparated
    · cases hseparated
      exact h
  exact gathers_storeLeaf (gathers_storeValue hfirst record) _ _ _

theorem Journal.gathers_calls {journal : Journal} (h : journal.writer.Gathers)
    (calls : List Call) : (journal.calls calls).writer.Gathers := by
  apply calls_preserves (P := fun journal => journal.writer.Gathers) _ _ h
  · intro journal record h
    unfold Journal.put
    cases htake : journal.writer.take record with
    | error => exact h
    | ok steps =>
      obtain ⟨key, -, happend⟩ := Progress.take_eq_ok htake
      exact gathers_append h happend
  · intro journal order h
    unfold Writer.setOrder
    split_ifs
    · exact h
    · exact h

/-! ## Memory and file -/

theorem valuesIn_eq {header flushed : ByteArray} {page : ℕ → ℕ → ByteArray}
    (h : layout.Paged header page flushed file) : valuesIn layout file = flushed := by
  rw [valuesIn, h.size_eq, Nat.add_sub_cancel_left]
  exact h.values_eq

namespace Progress

/-- The index pages being filled, each where its cursor stands. -/
theorem indexPage_spec (hl : layout.Planned attributes)
    (h : Progress attributes options layout records writer file) {level : ℕ}
    (hlevel : level < layout.numLevels) :
    ∃ cursor indexPage, writer.cursors.levels[level]? = some cursor ∧
      writer.indexPages[level]? = some indexPage ∧
      cursor.page * layout.branchingFactor + cursor.separators =
        layout.separatorsFor records.length /
          layout.branchingFactor ^ (layout.numLevels - (level + 1)) ∧
      cursor.separators < layout.branchingFactor ∧
      indexPage.page = cursor.page ∧
      indexPage.data = Image.indexPage layout records level cursor.page cursor.separators := by
  have hcursors := h.filled.cursors_eq
  have hpages := h.filled.indexPages_eq
  rw [Layout.lastLeaf_eq_separatorsFor hl] at hcursors hpages
  generalize layout.separatorsFor records.length = count at hcursors hpages ⊢
  refine ⟨Cursors.levelAfter layout count level, ⟨layout.openPage level count,
    Image.indexPage layout records level (layout.openPage level count)
      (layout.openSlots level count)⟩, ?_, ?_, ?_, ?_, rfl, rfl⟩
  · simp [hcursors, Cursors.after, hlevel]
  · simp [hpages, Image.openPages, hlevel]
  · exact layout.openPage_mul_add hlevel count
  · exact hl.openSlots_lt level count

theorem leafPage_spec (h : Progress attributes options layout records writer file) :
    (records.length < layout.recordCount → writer.leafPage =
      Image.leafPage layout records (records.length / layout.recordsPerLeafPage)
        (records.length % layout.recordsPerLeafPage)) ∧
    (records.length = layout.recordCount ∨ records.length % layout.recordsPerLeafPage = 0 →
      writer.leafPage = Bytes.zeros layout.pageSize) := by
  have hleaf := h.filled.leafPage_eq
  unfold Image.openLeaf at hleaf
  constructor
  · intro hlt
    rw [hleaf, if_neg hlt.ne]
  · intro hfresh
    rw [hleaf]
    split_ifs with hlast
    · rfl
    · rw [hfresh.resolve_left hlast, Image.leafPage_zero]

theorem lastKey_of_getLast? (h : Progress attributes options layout records writer file)
    {record : Record} (hrecord : records.getLast? = some record) :
    writer.lastKey = Bytes.resize record.key layout.keySize := by
  have hpos : 0 < records.length := by
    apply List.length_pos_of_ne_nil
    rintro rfl
    cases hrecord
  rw [h.lastKey_eq hpos, Image.key, ← List.getLast?_eq_getElem?, hrecord]
  rfl

theorem isChain_keys (h : Progress attributes options layout records writer file)
    (hverify : options.verifyOrder = true) :
    (Image.keys layout records).IsChain fun first second => writer.order second first = .gt := by
  rw [List.isChain_iff_getElem]
  intro index hindex
  rw [Image.getElem_keys, Image.getElem_keys]
  exact h.ascending hverify index (by simpa [Image.length_keys] using hindex)

theorem cursors_spec (hl : layout.Planned attributes)
    (h : Progress attributes options layout records writer file) :
    writer.cursors = (fun cursors : Cursors => cursors.propagate.2)^[
      layout.separatorsFor records.length] (Cursors.start layout) := by
  have hroom := (Layout.separatorsFor_lt hl h.length_le).trans_le hl.leafPages_le_room
  rw [Cursors.iterate_propagate hl hroom, ← Layout.lastLeaf_eq_separatorsFor hl]
  exact h.filled.cursors_eq

/-- The pages in the file are those that the index levels and the leaf pages have moved on from. -/
theorem pages_spec (hl : layout.Planned attributes)
    (h : Progress attributes options layout records writer file) :
    (∀ level < layout.numLevels, ∀ page < (layout.region level).pages,
      file.read (layout.pageOffset level page) layout.pageSize =
        if page < writer.cursors.page level then
          Image.indexPage layout records level page (layout.branchingFactor - 1)
        else Bytes.zeros layout.pageSize) ∧
    ∀ page < layout.leafPages,
      file.read (layout.leafPageOffset page) layout.pageSize =
        if min ((page + 1) * layout.recordsPerLeafPage) layout.recordCount ≤ records.length then
          Image.leafPage layout records page (layout.recordsInLeaf page)
        else Bytes.zeros layout.pageSize := by
  obtain ⟨flushed, -, -, hpaged⟩ := h.filled.stored
  constructor
  · intro level hlevel page hpage
    rw [hpaged.page_eq level hlevel.le page hpage, h.filled.cursors_eq, Cursors.page_after hlevel,
      Image.settled, if_pos hlevel]
  · intro page hpage
    have hregion := layout.pages_numLevels ▸ hpage
    rw [Layout.leafPageOffset_eq, hpaged.page_eq _ le_rfl page hregion, Image.settled,
      if_neg (lt_irrefl _)]
    simp only [Layout.lt_fullLeaves_iff hl h.length_le hpage]

theorem values_spec (h : Progress attributes options layout records writer file) :
    writer.valueCursor = writer.valueFlushed + writer.valueBuffer.size ∧
      writer.valueFlushed = layout.valueOffset + (valuesIn layout file).size ∧
      valuesIn layout file ++ writer.valueBuffer =
        Bytes.join (records.map layout.encoding.valueEntry) ∧
      file.size = layout.leafEnd + (valuesIn layout file).size := by
  obtain ⟨flushed, hvalues, hflushed, hpaged⟩ := h.filled.stored
  rw [valuesIn_eq hpaged]
  refine ⟨?_, hflushed, ?_, hpaged.size_eq⟩
  · rw [h.filled.valueCursor_eq, hvalues, hflushed, ByteArray.size_append, Nat.add_assoc]
  · rw [← hvalues, Image.values, List.take_length]

theorem inStep (hl : layout.Planned attributes)
    (h : Progress attributes options layout records writer file) (hgathers : writer.Gathers) :
    InStep attributes options layout records writer file := by
  obtain ⟨hcursor, hflushed, hvalues, hsize⟩ := h.values_spec
  obtain ⟨hfilling, hfresh⟩ := h.leafPage_spec
  obtain ⟨hindex, hleaves⟩ := h.pages_spec hl
  obtain ⟨values, -, -, hpaged⟩ := h.filled.stored
  have hwritten := h.written_eq
  rw [← hwritten] at hfilling hfresh hleaves
  exact
    { header_eq := h.header_eq
      written_eq := hwritten
      written_le := hwritten ▸ h.length_le
      valueCursor_eq := hcursor
      valueFlushed_eq := hflushed
      buffer_lt := h.options_eq ▸ hgathers
      values_eq := hvalues
      leafPage_eq := hfilling
      leafPage_fresh := hfresh
      cursors_eq := hwritten ▸ h.cursors_spec hl
      indexPages_length := by simp [h.filled.indexPages_eq, Image.openPages]
      indexPage_eq := fun level hlevel => hwritten ▸ h.indexPage_spec hl hlevel
      lastKey_eq := fun record hrecord => h.lastKey_of_getLast? hrecord
      ascending := h.isChain_keys
      size_eq := hsize
      header_in := hpaged.header_eq
      index_in := hindex
      leaf_in := hleaves }

end Progress

/-- In a run of which no request has failed, the writer and its file are in step after any calls,
whether they were refused or not. -/
theorem inStep_calls {volume created : Volume} {path : String} {session : Session}
    (hcreate : create volume path attributes options = (.ok writer, created)) (calls : List Call)
    (hcalls : Session.calls ⟨[], writer, created⟩ calls = session)
    (hunfailed : volume.faults = FaultPlan.none ∨ session.writer.state = .accepting) :
    session.writer.state = .accepting ∧ ∃ layout,
      Layout.plan attributes (pageSize volume options) = .ok layout ∧
      session.volume.existing path = .ok (.file session.writer.file) ∧
      InStep attributes options layout session.accepted session.writer
        (session.volume.content session.writer.file) := by
  subst hcalls
  obtain ⟨layout, file, opened, hvalid, hopened, hl, -, hsound, hsession⟩ :=
    calls_of_create hcreate calls
  have hgathers : (Journal.start path file attributes layout options).writer.Gathers :=
    Options.valueBufferSize_pos hvalid
  rcases hsession with habreast | hstopped
  · have hwriter := habreast.writer_eq
    refine ⟨(congrArg Writer.state hwriter).trans hsound.state_eq, layout, ?_, ?_, ?_⟩
    · rw [← hopened.pageSize_eq]
      exact hopened.plan_eq
    · rw [habreast.sameNames.existing_eq, hopened.existing_eq, habreast.file_eq]
    · have hstep := hsound.inStep hl (Journal.gathers_calls hgathers calls)
      rwa [← habreast.content_eq, ← hwriter, ← habreast.accepted_eq, ← habreast.file_eq] at hstep
  · -- a session that has stopped had a request refused
    rcases hunfailed with hnone | haccepting
    · exact absurd (hopened.faults_eq.trans hnone) hstopped.faults_ne
    · rw [hstopped.state_eq] at haccepting
      cases haccepting

theorem inStep_calls_sample : ∃ writer created session,
    create Sample.volume "t" Sample.attributes Sample.options = (.ok writer, created) ∧
      Session.calls ⟨[], writer, created⟩ Sample.calls = session ∧
      session.writer.state = .accepting ∧
      InStep Sample.attributes Sample.options Sample.layout Sample.records session.writer
        (session.volume.content session.writer.file) := by
  obtain ⟨built, after, hbuild, haccepted, hlayout, -⟩ := Sample.exists_build
  obtain ⟨writer, created, hcreate, htaken, hplanned⟩ := session_of_build hbuild
  obtain ⟨hstate, layout, -, -, hstep⟩ :=
    inStep_calls hcreate Sample.calls rfl (Or.inl rfl)
  have heq : layout = Sample.layout := by
    rw [← hlayout, ← hplanned, Writer.layout, hstep.header_eq]
    rfl
  rw [htaken, haccepted, heq] at hstep
  exact ⟨writer, created, _, hcreate, rfl, hstate, hstep⟩

end Writer

end PackedIndex
