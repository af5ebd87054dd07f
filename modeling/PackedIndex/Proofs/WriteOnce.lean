import PackedIndex.Proofs.Admission
import PackedIndex.Proofs.GuardedWriter
import PackedIndex.Proofs.Traced
/-! # The discipline of a writer

A writer hands each page to its file when it has its last item, and not again: a counter that says
how many pages of a level are complete goes up by one with each write. With all records and finished,
it has written every page once, values in one row behind them, and the header page twice.
-/
namespace PackedIndex

namespace Layout

/-- The pages of a level that are complete with the separators up to leaf page `leaf` and `count`
leaf records. -/
def settledPages (layout : Layout) (leaf count level : ℕ) : ℕ :=
  if level < layout.numLevels then layout.openPage level leaf else layout.fullLeaves count

variable {attributes : Attributes} {layout : Layout} {leaf count level : ℕ}

theorem settledPages_of_lt (h : level < layout.numLevels) (leaf count : ℕ) :
    layout.settledPages leaf count level = layout.openPage level leaf :=
  if_pos h

@[simp] theorem settledPages_numLevels (leaf count : ℕ) :
    layout.settledPages leaf count layout.numLevels = layout.fullLeaves count :=
  if_neg (lt_irrefl _)

end Layout

namespace Writer

open Layout

variable {attributes : Attributes} {options : Options} {layout : Layout} {records : List Record}
  {header : ByteArray} {headers : List ByteArray} {leaf entries count : ℕ} {writer : Writer}
  {file : Content} {requests : List Request}

/-! ## The steps of a record -/

theorem Filled.traced_placeSeparator (hl : layout.Planned attributes)
    (h : Filled layout records header leaf entries count writer file)
    (hleaf : leaf + 1 < layout.leafPages) {key : ByteArray} {step : Step}
    (hstep : writer.placeSeparator key = some step)
    (htraced : layout.Traced headers (layout.settledPages leaf count) writer.valueFlushed
      requests) :
    layout.Traced headers (layout.settledPages (leaf + 1) count) step.writer.valueFlushed
      (requests ++ step.requests) := by
  obtain ⟨level, hstays, hpropagate⟩ :=
    Cursors.propagate_after hl (hleaf.trans_le hl.leafPages_le_room)
  simp only [Writer.placeSeparator, h.layout_eq, h.cursors_eq, hpropagate, h.indexPages_eq,
    Option.some.injEq] at hstep
  subst hstep
  -- the levels below the one that takes the separator have filled a page each
  have hlevels : ∀ other ∈ List.range' (level + 1) (layout.numLevels - (level + 1)),
      level < other ∧ other < layout.numLevels := by
    intro other hother
    have := List.mem_range'_1.mp hother
    omega
  have hwritten := htraced.writePages hl (fun other => layout.openPage other leaf)
    (fun other => Image.indexPage layout records other (layout.openPage other leaf)
      (layout.openSlots other leaf)) List.nodup_range' fun other hother => by
        obtain ⟨-, hlt⟩ := hlevels other hother
        exact ⟨hlt.le, settledPages_of_lt hlt _ _,
          hl.openPage_lt hlt.le (Nat.lt_of_succ_lt hleaf), Image.size_indexPage _ _ _⟩
  rw [Image.openPages, zipIdx_drop_map_range, List.map_map]
  apply hwritten.congr
  intro other hother
  rcases Nat.lt_or_eq_of_le hother with hlt | rfl
  · rw [settledPages_of_lt hlt, settledPages_of_lt hlt, hstays.page_succ hlt]
    simp only [List.mem_range'_1]
    split_ifs <;> first | rfl | omega
  · have hnot : layout.numLevels ∉
        List.range' (level + 1) (layout.numLevels - (level + 1)) := fun hmem =>
      lt_irrefl _ (hlevels _ hmem).2
    simp only [if_neg hnot, settledPages_numLevels]

theorem Filled.leafEnd_le_valueFlushed (hl : layout.Planned attributes)
    (h : Filled layout records header leaf entries count writer file)
    (hregion : layout.encoding.usesValueRegion = true) :
    layout.leafEnd ≤ writer.valueFlushed := by
  obtain ⟨flushed, -, hflushed, -⟩ := h.stored
  rw [hflushed, hl.valueOffset_eq, if_pos hregion]
  exact Nat.le_add_right _ _

theorem traced_flushValues (hl : layout.Planned attributes) {settled : ℕ → ℕ}
    (hplace : writer.valueBuffer.size ≠ 0 → layout.leafEnd ≤ writer.valueFlushed)
    (htraced : layout.Traced headers settled writer.valueFlushed requests) :
    layout.Traced headers settled writer.flushValues.writer.valueFlushed
      (requests ++ writer.flushValues.requests) := by
  unfold flushValues
  split_ifs with hempty
  · simpa using htraced
  · exact htraced.writeValues hl (hplace hempty) _

theorem Filled.traced_storeValue (hl : layout.Planned attributes)
    (h : Filled layout records header leaf entries count writer file) (record : Record)
    {settled : ℕ → ℕ} (htraced : layout.Traced headers settled writer.valueFlushed requests) :
    layout.Traced headers settled (writer.storeValue record).writer.valueFlushed
      (requests ++ (writer.storeValue record).requests) := by
  unfold Writer.storeValue
  dsimp only
  split_ifs with hregion hfull
  · rw [h.layout_eq] at hregion
    have hplace := h.leafEnd_le_valueFlushed hl hregion
    apply traced_flushValues hl
    · exact fun _ => hplace
    · exact htraced
  · simpa using htraced
  · simpa using htraced

theorem Filled.traced_storeLeaf (hl : layout.Planned attributes)
    (h : Filled layout records header leaf entries count writer file)
    (hcount : count < layout.recordCount) {record : Record}
    (hvalid : layout.encoding.validate layout.keySize attributes.valueSize record = .ok ())
    (key : ByteArray) (pointer : ℕ)
    (htraced : layout.Traced headers (layout.settledPages leaf count) writer.valueFlushed
      requests) :
    layout.Traced headers (layout.settledPages leaf (count + 1))
      (writer.storeLeaf key record pointer).writer.valueFlushed
      (requests ++ (writer.storeLeaf key record pointer).requests) := by
  have hslot := hl.slot_room (Nat.mod_lt count hl.recordsPerLeafPage_pos)
  have hpage : count / layout.recordsPerLeafPage < (layout.region layout.numLevels).pages := by
    rw [layout.pages_numLevels]
    exact hl.leafPage_lt hcount
  have hsize : (Bytes.overlay writer.leafPage
      (count % layout.recordsPerLeafPage * layout.leafRecordSize)
      (layout.encoding.leaf layout.keySize record pointer)).size = layout.pageSize := by
    rw [Bytes.size_overlay, h.size_leafPage, Encoding.size_leaf hvalid hl.leafRecordSize_eq]
    omega
  simp only [Writer.storeLeaf, h.layout_eq, h.written_eq]
  split_ifs with hcomplete
  · rw [leafPageOffset_eq]
    have hnext : layout.settledPages leaf count layout.numLevels =
        count / layout.recordsPerLeafPage := by
      rw [settledPages_numLevels, fullLeaves_of_lt hcount]
    apply (htraced.writePage hl le_rfl hnext hpage hsize).congr
    intro other hother
    rcases Nat.lt_or_eq_of_le hother with hlt | rfl
    · rw [if_neg hlt.ne, settledPages_of_lt hlt, settledPages_of_lt hlt]
    · rw [if_pos rfl, settledPages_numLevels, Completes.fullLeaves_succ hl hcomplete]
  · rw [List.append_nil]
    apply htraced.congr
    intro other hother
    unfold settledPages
    rw [fullLeaves_succ_of_not_completes hl hcomplete hcount]

theorem Progress.traced_take (hl : layout.Planned attributes)
    (h : Progress attributes options layout records writer file) {record : Record}
    {steps : List Step} (htake : writer.take record = .ok steps)
    (htraced : layout.Traced headers
      (layout.settledPages (layout.lastLeaf records.length) records.length) writer.valueFlushed
      requests) :
    layout.Traced headers
      (layout.settledPages (layout.lastLeaf (records.length + 1)) (records.length + 1))
      (writer.last steps).valueFlushed (requests ++ Writer.requests steps) := by
  obtain ⟨key, happrove, happend⟩ := take_eq_ok htake
  obtain ⟨separated, hsteps, hbetween⟩ := h.exists_between hl happrove
  cases hsteps.symm.trans happend
  have hlt := hbetween.length_lt
  have hseparated := hbetween.separated_eq
  have hplaced : layout.Traced headers
      (layout.settledPages (layout.lastLeaf (records.length + 1)) records.length)
      separated.writer.valueFlushed (requests ++ separated.requests) := by
    split_ifs at hseparated with hstart
    · obtain ⟨hnext, -⟩ := lastLeaf_succ_of_start hstart.1 hstart.2
      rw [hnext]
      exact hbetween.before.traced_placeSeparator hl (hnext ▸ hl.leafPage_lt hlt) hseparated htraced
    · cases hseparated
      rw [lastLeaf_succ_of_not_start hstart]
      simpa using htraced
  have hvalued := hbetween.placed.traced_storeValue hl record hplaced
  have hstored := hbetween.valued.traced_storeLeaf hl hlt hbetween.valid key
    (if writer.layout.encoding.usesValueRegion then writer.valueCursor else 0) hvalued
  simpa [last, Writer.requests] using hstored

/-! ## The end of a run -/

theorem Filled.valueFlushed_flushValues (hl : layout.Planned attributes)
    (h : Filled layout records header leaf entries count writer file) :
    writer.flushValues.writer.valueFlushed =
      layout.valueOffset + (Image.values layout records entries).size := by
  obtain ⟨hfilled, hempty⟩ := h.flushValues hl
  obtain ⟨flushed, hvalues, hflushed, -⟩ := hfilled.stored
  rw [hflushed, hvalues, ByteArray.size_append, hempty, Nat.add_zero]

theorem Filled.requests_commit (h : Filled layout records header leaf entries count writer file) :
    writer.commit.requests = writer.flushValues.requests ++
      ((List.range layout.numLevels).map fun level =>
        Request.write (layout.pageOffset level (layout.openPage level leaf))
          (Image.indexPage layout records level (layout.openPage level leaf)
            (layout.openSlots level leaf))) ++
      [Request.write 0 writer.header.finalize.encodePage] ++
      ((if writer.options.syncOnFinish then [Request.sync] else []) ++ [Request.status]) := by
  simp only [Writer.commit, h.layout_eq, h.indexPages_eq, writes_openPages, List.append_assoc]

/-- The pages still being filled are the last ones of their levels. -/
theorem traced_openPages (hl : layout.Planned attributes) (records : List Record) {valueEnd : ℕ}
    (htraced : layout.Traced headers
      (layout.settledPages (layout.leafPages - 1) layout.recordCount) valueEnd requests) :
    layout.Traced headers (fun level => (layout.region level).pages) valueEnd
      (requests ++ (List.range layout.numLevels).map fun level =>
        Request.write (layout.pageOffset level (layout.openPage level (layout.leafPages - 1)))
          (Image.indexPage layout records level (layout.openPage level (layout.leafPages - 1))
            (layout.openSlots level (layout.leafPages - 1)))) := by
  have hlast : layout.leafPages - 1 < layout.leafPages := Nat.sub_lt hl.leafPages_pos Nat.one_pos
  have hwritten := htraced.writePages hl
    (fun level => layout.openPage level (layout.leafPages - 1))
    (fun level => Image.indexPage layout records level
      (layout.openPage level (layout.leafPages - 1)) (layout.openSlots level (layout.leafPages - 1)))
    List.nodup_range fun level hlevel => by
      have hlt := List.mem_range.mp hlevel
      exact ⟨hlt.le, settledPages_of_lt hlt _ _, hl.openPage_lt hlt.le hlast,
        Image.size_indexPage _ _ _⟩
  apply hwritten.congr
  intro level hlevel
  rcases Nat.lt_or_eq_of_le hlevel with hlt | rfl
  · rw [if_pos (List.mem_range.mpr hlt), hl.openPage_last hlevel]
  · rw [if_neg (by simp), settledPages_numLevels, fullLeaves, if_pos rfl, pages_numLevels]

/-- What completes a file writes the last page of each level, and the header page once more. -/
theorem Progress.traced_commit (hl : layout.Planned attributes)
    (h : Progress attributes options layout records writer file)
    (hcount : records.length = layout.recordCount)
    (htraced : layout.Traced headers
      (layout.settledPages (layout.lastLeaf records.length) records.length) writer.valueFlushed
      requests) :
    layout.Traced (headers ++ [(Header.provisional attributes layout).finalize.encodePage])
      (fun level => (layout.region level).pages)
      (layout.valueOffset + (Image.values layout records records.length).size)
      (requests ++ writer.commit.requests) := by
  have hfilled := h.filled
  have hflushed := hfilled.valueFlushed_flushValues hl
  have hvalues := traced_flushValues hl
    (fun hbuffer => hfilled.leafEnd_le_valueFlushed hl (hfilled.usesValueRegion hbuffer)) htraced
  rw [hflushed] at hvalues
  rw [hcount, hl.lastLeaf_recordCount] at hvalues hfilled
  have hsilent : ∀ request ∈ (if writer.options.syncOnFinish then [Request.sync] else []) ++
      [.status], request.written? = none := by
    split_ifs
    · simp [Request.written?]
    · simp [Request.written?]
  have hended := ((traced_openPages hl records hvalues).writeHeader hl
    (Header.provisional attributes layout).finalize.encodePage).append_of_silent hsilent
  rw [hfilled.requests_commit, h.header_eq, hcount]
  simpa only [List.append_assoc] using hended

namespace Journal

variable {journal : Journal}

/-- The requests so far wrote the provisional header page, and each page that is complete once. -/
def Traced (attributes : Attributes) (layout : Layout) (journal : Journal) : Prop :=
  layout.Traced [(Header.provisional attributes layout).encodePage]
    (layout.settledPages (layout.lastLeaf journal.accepted.length) journal.accepted.length)
    journal.writer.valueFlushed journal.requests

theorem traced_start (hl : layout.Planned attributes) (options : Options) (path : String)
    (file : FileId) : (start path file attributes layout options).Traced attributes layout := by
  have hpos := hl.recordCount_pos
  apply (Layout.Traced.start hl (Header.provisional attributes layout).encodePage).congr
  intro level _
  simp [settledPages, start, lastLeaf, fullLeaves, hpos.ne]

theorem Traced.put (hl : layout.Planned attributes)
    (hsound : journal.Sound attributes options layout) (h : journal.Traced attributes layout)
    (record : Record) : (journal.put record).2.Traced attributes layout := by
  unfold Journal.put
  cases htake : journal.writer.take record with
  | error => exact h
  | ok steps =>
    have hnext := Progress.traced_take hl hsound htake h
    simpa [Journal.Traced] using hnext

theorem Traced.setOrder (h : journal.Traced attributes layout) (order : KeyOrder) :
    Journal.Traced attributes layout
      { journal with writer := (journal.writer.setOrder order).2 } := by
  unfold Writer.setOrder
  split_ifs
  · exact h
  · exact h

theorem traced_calls (hl : layout.Planned attributes) (options : Options) (path : String)
    (file : FileId) (calls : List Call) :
    ((start path file attributes layout options).calls calls).Traced attributes layout := by
  have hcalls := calls_preserves
    (P := fun journal =>
      journal.Sound attributes options layout ∧ journal.Traced attributes layout)
    (fun _ record h => ⟨Sound.put hl h.1 record, h.2.put hl h.1 record⟩)
    (fun _ order h => ⟨Progress.setOrder h.1 order, h.2.setOrder order⟩)
    ⟨sound_start hl options path file, traced_start hl options path file⟩ calls
  exact hcalls.2

/-- A run that is finished with all its records has written everything once. -/
theorem Traced.writtenOnce (hl : layout.Planned attributes)
    (hsound : journal.Sound attributes options layout) (h : journal.Traced attributes layout)
    (hcount : journal.accepted.length = layout.recordCount) :
    layout.WrittenOnce (Header.provisional attributes layout).encodePage
      (Header.provisional attributes layout).finalize.encodePage
      (Image.values layout journal.accepted journal.accepted.length).size
      (journal.ending true) := by
  have hcommit := Progress.traced_commit hl hsound hcount h
  rw [ending_eq hsound, if_pos ⟨rfl, hcount⟩]
  apply Layout.Traced.writtenOnce hl (Header.size_encodePage _) (Header.size_encodePage _)
    (fun _ _ => rfl) _ hcommit
  intro hregion
  rw [Image.values_eq_empty _ hregion]
  rfl

end Journal

/-! ## Whole runs -/

/-- Every record that a session approves has a place. Taking it breaks no condition of the guarded
steps as long as its value entry ends at a place of 64 bits. -/
def Session.HasPlace (layout : Layout) (session : Session) : Prop :=
  ∀ record key, session.writer.approve record = .ok key →
    (session.writer.append key record).isSome ∧
      (session.writer.valueCursor + (layout.encoding.valueEntry record).size < Size.limit →
        session.writer.append? key record = session.writer.append key record)

/-- What no record is answered with, no list of records is answered with. -/
theorem Session.answer_putMany_ne {session : Session} {error : Error}
    (h : ∀ calls record, ((session.calls calls).put record).1 ≠ .error error)
    (records : List Record) : session.answer (.putMany records) ≠ .error error := by
  induction records generalizing session with
  | nil =>
    intro hanswer
    cases hanswer
  | cons record records ih =>
    have hput : (session.put record).1 ≠ .error error := h [] record
    have hnext := @ih (session.put record).2 fun calls => h (.put record :: calls)
    rw [answer_putMany_cons]
    rcases hresult : session.put record with ⟨⟨fault⟩ | ⟨⟨⟩⟩, next⟩
    · rwa [hresult] at hput
    · rwa [hresult] at hnext

section

variable {volume created : Volume} {path : String} {session : Session}

/-- The levels of a file do not overflow, whatever becomes of a run. -/
theorem put_ne_levelsOverflowed
    (hcreate : create volume path attributes options = (.ok writer, created)) (calls : List Call)
    (hcalls : Session.calls ⟨[], writer, created⟩ calls = session) (record : Record) :
    (session.put record).1 ≠ .error (.invalidState .levelsOverflowed) := by
  intro hput
  rcases progress_or_failed hcreate calls hcalls with ⟨layout, file, hl, hprogress⟩ | ⟨-, hfailed⟩
  · by_cases hadmits : session.Admits attributes options record
    · rcases Session.put_of_admits hl hprogress hadmits with hok | ⟨cause, hcause⟩
      · rw [hok] at hput
        cases hput
      · rw [hcause] at hput
        cases hput
    · obtain ⟨error, hrefused, herror⟩ := Session.put_of_not_admits hl hprogress hadmits
      rw [hrefused] at hput
      cases hput
      split_ifs at herror
      obtain ⟨fault, hfault⟩ := herror
      cases hfault
  · rw [Session.put_of_failed hfailed] at hput
    cases hput

theorem answer_ne_levelsOverflowed
    (hcreate : create volume path attributes options = (.ok writer, created)) (calls : List Call)
    (hcalls : Session.calls ⟨[], writer, created⟩ calls = session) (call : Call) :
    session.answer call ≠ .error (.invalidState .levelsOverflowed) := by
  cases call with
  | setOrder order =>
    unfold Session.answer setOrder
    intro hanswer
    dsimp only at hanswer
    split_ifs at hanswer
    cases hanswer
  | put record => exact put_ne_levelsOverflowed hcreate calls hcalls record
  | putMany records =>
    apply Session.answer_putMany_ne
    intro more
    apply put_ne_levelsOverflowed hcreate (calls ++ more)
    rw [Session.calls_append, hcalls]

section

variable {opened after : Volume} {file : FileId} {journal : Journal} {size : ℕ}

theorem Abreast.hasPlace (hl : layout.Planned attributes)
    (hsound : journal.Sound attributes options layout) (h : Abreast opened file journal session) :
    session.HasPlace layout := by
  unfold Journal.Sound at hsound
  rw [← h.writer_eq] at hsound
  intro record key happrove
  exact ⟨hsound.append_isSome hl happrove, hsound.append?_eq hl happrove⟩

theorem Abreast.writtenOnce (hl : layout.Planned attributes)
    (hsound : journal.Sound attributes options layout) (htraced : journal.Traced attributes layout)
    (hfile : file < opened.contents.size) (h : Abreast opened file journal session)
    (hfinish : session.writer.finish session.volume = (.ok size, after)) :
    opened.performAll file (journal.ending true) = (.ok (), after) ∧
      layout.WrittenOnce (Header.provisional attributes layout).encodePage
        (Header.provisional attributes layout).finalize.encodePage
        (Image.values layout session.accepted session.accepted.length).size
        (journal.ending true) := by
  obtain ⟨outcome, later, hfinished, hcase⟩ := h.finish hsound hfile
  cases hfinish.symm.trans hfinished
  rcases hcase with ⟨hcount, -, -, -, hperformed⟩ | ⟨⟨error, herror⟩, -⟩
  · rw [h.accepted_eq]
    exact ⟨hperformed, htraced.writtenOnce hl hsound hcount⟩
  · cases herror

end

/-- In a run the levels never overflow. The pages that a writer starts out with and the records that
it takes break no condition, as long as no request fails. A run that is finished has carried out the
requests of its journal, which write the header page twice and everything behind it once. -/
theorem discipline_of_create
    (hcreate : create volume path attributes options = (.ok writer, created)) (calls : List Call)
    (hcalls : Session.calls ⟨[], writer, created⟩ calls = session) :
    (∀ call, session.answer call ≠ .error (.invalidState .levelsOverflowed)) ∧
    ∃ layout file opened, Opened path attributes options volume layout file opened ∧
      (List.range layout.numLevels).mapM (fun level => IndexPage.start? layout level 0) =
        some writer.indexPages ∧
      (volume.faults = FaultPlan.none ∨ session.writer.state = .accepting →
        session.HasPlace layout) ∧
      ∀ requests,
        ((Journal.start path file attributes layout options).calls calls).ending true = requests →
        ∀ size after, session.writer.finish session.volume = (.ok size, after) →
          opened.performAll file requests = (.ok (), after) ∧
            layout.WrittenOnce (Header.provisional attributes layout).encodePage
              (Header.provisional attributes layout).finalize.encodePage
              (Image.values layout session.accepted session.accepted.length).size requests := by
  refine ⟨answer_ne_levelsOverflowed hcreate calls hcalls, ?_⟩
  subst hcalls
  obtain ⟨layout, file, opened, -, hopened, hstart⟩ := started_of_create hcreate
  obtain ⟨-, hl⟩ := Layout.planned_of_plan hopened.plan_eq
  have hstarted := Journal.sound_start hl options path file
  have hsound := hstarted.calls hl calls
  have htraced := Journal.traced_calls hl options path file calls
  have hwriter : writer = (Writer.start path file attributes layout options).writer :=
    hstart.writer_eq
  have hpages := indexPages_start hl path file options
  rw [← hwriter] at hpages
  refine ⟨layout, file, opened, hopened, hpages, ?_⟩
  rcases hstart.calls hl hstarted hopened.file_lt calls with habreast | hstopped
  · -- the session has kept up with its journal
    constructor
    · exact fun _ => habreast.hasPlace hl hsound
    · rintro requests rfl size after hfinish
      exact habreast.writtenOnce hl hsound htraced hopened.file_lt hfinish
  · constructor
    · rintro (hnone | haccepting)
      · exact absurd (hopened.faults_eq.trans hnone) hstopped.faults_ne
      · rw [hstopped.state_eq] at haccepting
        cases haccepting
    · intro requests _ size after hfinish
      obtain ⟨error, later, hfailed, -⟩ := hstopped.finish
      cases hfinish.symm.trans hfailed

theorem discipline_of_create_sample : ∃ (opened : Volume) (file : FileId) (requests : List Request)
    (after : Volume),
    ((Journal.start "t" file Sample.attributes Sample.layout Sample.options).calls
        Sample.calls).ending true = requests ∧
      opened.performAll file requests = (.ok (), after) ∧
      Sample.layout.WrittenOnce (Header.provisional Sample.attributes Sample.layout).encodePage
        (Header.provisional Sample.attributes Sample.layout).finalize.encodePage
        (Image.values Sample.layout Sample.records 3).size requests := by
  obtain ⟨built, after, hbuild, haccepted, -, -⟩ := Sample.exists_build
  obtain ⟨writer, created, hcreate, htaken, -⟩ := session_of_build hbuild
  have hfinish := finish_of_build hbuild hcreate rfl
  obtain ⟨-, layout, file, opened, hopened, -, -, hwritten⟩ :=
    discipline_of_create hcreate Sample.calls rfl
  have hplan := hopened.plan_eq
  rw [hopened.pageSize_eq] at hplan
  cases Sample.plan_eq.symm.trans hplan
  obtain ⟨hperformed, honce⟩ := hwritten _ rfl _ _ hfinish
  rw [htaken, haccepted] at honce
  exact ⟨opened, file, _, after, rfl, hperformed, honce⟩

end

end Writer

end PackedIndex
