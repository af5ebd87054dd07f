import PackedIndex.Proofs.Build
import PackedIndex.Proofs.Reading
import PackedIndex.Proofs.Torn
/-! # Publication

The requests of a run are the provisional header page, requests behind the first page, and where the
writer is finished with all its records, the final header page. Wherever a run stops, its file is
refused by every reader or is the finished one.
-/
namespace PackedIndex.Writer

variable {attributes : Attributes} {options : Options} {layout : Layout} {writer : Writer}

/-! ## Where requests go -/

theorem behind_placeSeparator (hl : layout.Planned attributes) (hlayout : writer.layout = layout)
    {key : ByteArray} {step : Step} (h : writer.placeSeparator key = some step) :
    ∀ request ∈ step.requests, request.Behind layout.pageSize := by
  unfold placeSeparator at h
  dsimp only at h
  split at h
  · cases h
  · cases h
    intro request hrequest
    obtain ⟨⟨indexPage, level⟩, -, rfl⟩ := List.mem_map.mp hrequest
    rw [hlayout]
    exact hl.pageSize_le_pageOffset level indexPage.page

theorem valueFlushed_placeSeparator {key : ByteArray} {step : Step}
    (h : writer.placeSeparator key = some step) :
    step.writer.valueFlushed = writer.valueFlushed := by
  unfold placeSeparator at h
  dsimp only at h
  split at h
  · cases h
  · cases h
    rfl

theorem behind_flushValues {limit : ℕ}
    (h : writer.valueBuffer.size ≠ 0 → limit ≤ writer.valueFlushed) :
    ∀ request ∈ writer.flushValues.requests, request.Behind limit := by
  unfold flushValues
  split_ifs with hempty
  · intro request hrequest
    cases hrequest
  · intro request hrequest
    rw [List.mem_singleton.mp hrequest]
    exact h hempty

theorem behind_storeValue {limit : ℕ}
    (h : writer.layout.encoding.usesValueRegion = true → limit ≤ writer.valueFlushed)
    (record : Record) : ∀ request ∈ (writer.storeValue record).requests, request.Behind limit := by
  unfold storeValue
  dsimp only
  split_ifs with hregion hfull
  · exact behind_flushValues fun _ => h hregion
  · intro request hrequest
    cases hrequest
  · intro request hrequest
    cases hrequest

theorem behind_storeLeaf (hl : layout.Planned attributes) (hlayout : writer.layout = layout)
    (key : ByteArray) (record : Record) (pointer : ℕ) :
    ∀ request ∈ (writer.storeLeaf key record pointer).requests, request.Behind layout.pageSize := by
  unfold storeLeaf
  dsimp only
  split_ifs
  · intro request hrequest
    rw [List.mem_singleton.mp hrequest, hlayout, Layout.leafPageOffset_eq]
    exact hl.pageSize_le_pageOffset _ _
  · intro request hrequest
    cases hrequest

theorem behind_append (hl : layout.Planned attributes) (hlayout : writer.layout = layout)
    (hvalues : layout.encoding.usesValueRegion = true → layout.pageSize ≤ writer.valueFlushed)
    {key : ByteArray} {record : Record} {steps : List Step}
    (h : writer.append key record = some steps) :
    ∀ request ∈ requests steps, request.Behind layout.pageSize := by
  have halike := alike_append h
  obtain ⟨separated, hseparated, rfl⟩ := append_eq_some h
  have hfirst : (∀ request ∈ separated.requests, request.Behind layout.pageSize) ∧
      separated.writer.valueFlushed = writer.valueFlushed := by
    split_ifs at hseparated
    · exact ⟨behind_placeSeparator hl hlayout hseparated, valueFlushed_placeSeparator hseparated⟩
    · cases hseparated
      exact ⟨by simp, rfl⟩
  have hseparated' : separated.writer.layout = layout :=
    (congrArg Header.layout (halike separated (by simp)).header_eq).trans hlayout
  have hvalued : (separated.writer.storeValue record).writer.layout = layout :=
    (congrArg Header.layout (alike_storeValue _ record).header_eq).trans hseparated'
  have hflushed : separated.writer.layout.encoding.usesValueRegion = true →
      layout.pageSize ≤ separated.writer.valueFlushed := by
    rw [hseparated', hfirst.2]
    exact hvalues
  have hsecond := behind_storeValue hflushed record
  intro request hrequest
  simp only [requests, List.flatMap_cons, List.flatMap_nil, List.append_nil, List.mem_append]
    at hrequest
  rcases hrequest with hrequest | hrequest | hrequest
  · exact hfirst.1 request hrequest
  · exact hsecond request hrequest
  · exact behind_storeLeaf hl hvalued _ _ _ request hrequest

theorem behind_take (hl : layout.Planned attributes) {records : List Record} {file : Content}
    (h : Progress attributes options layout records writer file) {record : Record}
    {steps : List Step} (htake : writer.take record = .ok steps) :
    ∀ request ∈ requests steps, request.Behind layout.pageSize := by
  obtain ⟨key, -, happend⟩ := Progress.take_eq_ok htake
  exact behind_append hl h.layout_eq (h.filled.pageSize_le_valueFlushed hl) happend

/-- What completes a file is behind the first page but for the final header. -/
theorem commit_requests (hl : layout.Planned attributes) {records : List Record} {file : Content}
    (h : Progress attributes options layout records writer file) :
    ∃ front back, writer.commit.requests =
        front ++ .write 0 (Header.provisional attributes layout).finalize.encodePage :: back ∧
      (∀ request ∈ front, request.Behind layout.pageSize) ∧
      ∀ request ∈ back, request = .sync ∨ request = .status := by
  refine ⟨writer.flushValues.requests ++ writer.indexPages.mapIdx fun level indexPage =>
      .write (writer.layout.pageOffset level indexPage.page) indexPage.data,
    (if writer.options.syncOnFinish then [.sync] else []) ++ [.status], ?_, ?_, ?_⟩
  · unfold commit
    rw [h.header_eq]
    simp only [List.append_assoc, List.cons_append, List.nil_append]
  · intro request hrequest
    rcases List.mem_append.mp hrequest with hrequest | hrequest
    · refine behind_flushValues (fun hbuffer => ?_) request hrequest
      exact h.filled.pageSize_le_valueFlushed hl (h.filled.usesValueRegion hbuffer)
    · obtain ⟨level, hlevel, rfl⟩ := List.mem_mapIdx.mp hrequest
      rw [h.layout_eq]
      exact hl.pageSize_le_pageOffset _ _
  · intro request hrequest
    split_ifs at hrequest
    · simpa using hrequest
    · exact Or.inr (by simpa using hrequest)

namespace Journal

variable {journal : Journal} {path : String} {file : FileId}

/-- The requests before the final header: the provisional header page and requests behind it. -/
def Fronted (attributes : Attributes) (layout : Layout) (journal : Journal) : Prop :=
  Request.Fronted (Header.provisional attributes layout).encodePage journal.requests

theorem fronted_start (hl : layout.Planned attributes) (options : Options) (path : String)
    (file : FileId) : (start path file attributes layout options).Fronted attributes layout := by
  refine ⟨[.setLength layout.leafEnd], rfl, ?_⟩
  intro request hrequest
  rw [List.mem_singleton.mp hrequest, Header.size_encodePage]
  exact hl.pageSize_le_leafEnd

theorem Fronted.put (hl : layout.Planned attributes)
    (hsound : journal.Sound attributes options layout) (h : journal.Fronted attributes layout)
    (record : Record) :
    (journal.put record).2.Fronted attributes layout := by
  unfold Journal.put
  cases htake : journal.writer.take record with
  | error => exact h
  | ok steps =>
    apply Request.Fronted.append h
    rw [Header.size_encodePage]
    exact behind_take hl hsound htake

theorem fronted_calls (hl : layout.Planned attributes) (options : Options) (path : String)
    (file : FileId) (calls : List Call) :
    ((start path file attributes layout options).calls calls).Fronted attributes layout := by
  have hcalls := calls_preserves
    (P := fun journal =>
      journal.Sound attributes options layout ∧ journal.Fronted attributes layout)
    (fun _ record h => ⟨Sound.put hl h.1 record, h.2.put hl h.1 record⟩)
    (fun _ order h => ⟨Progress.setOrder h.1 order, h.2⟩)
    ⟨sound_start hl options path file, fronted_start hl options path file⟩ calls
  exact hcalls.2

theorem ending_eq (hsound : journal.Sound attributes options layout) (finishing : Bool) :
    journal.ending finishing = journal.requests ++
      if finishing = true ∧ journal.accepted.length = layout.recordCount then
        journal.writer.commit.requests else [] := by
  unfold Journal.ending
  rw [hsound.written_eq, hsound.layout_eq]
  split_ifs
  · rfl
  · rw [List.append_nil]

end Journal

/-! ## Runs that stop anywhere -/

/-- The records that a run took and the volume that it leaves. A run that does not finish its writer
stops where it is. -/
def leave (volume : Volume) (path : String) (attributes : Attributes) (options : Options)
    (calls : List Call) (finishing : Bool) : List Record × Volume :=
  match create volume path attributes options with
  | (.error _, volume) => ([], volume)
  | (.ok writer, volume) =>
    let session := Session.calls ⟨[], writer, volume⟩ calls
    (session.accepted,
      if finishing = true then (session.writer.finish session.volume).2 else session.volume)

section

variable {opened : Volume} {file : FileId} {journal : Journal} {session : Session}

/-- A session that has kept up leaves a snapshot of the requests, and where none fails, the whole
of them. -/
theorem Abreast.leave (hsound : journal.Sound attributes options layout)
    (hfile : file < opened.contents.size) (h : Abreast opened file journal session)
    (finishing : Bool) {left : Volume}
    (hleft : (if finishing = true then (session.writer.finish session.volume).2
      else session.volume) = left) :
    Content.Snapshot (journal.ending finishing) (left.content file) ∧
      (opened.faults = FaultPlan.none →
        left.content file = Content.empty.applyAll (journal.ending finishing)) := by
  cases finishing with
  | false =>
    rw [if_neg (by decide)] at hleft
    rw [← hleft, h.content_eq]
    exact ⟨Content.snapshot_applyAll _, fun _ => rfl⟩
  | true =>
    obtain ⟨_, after, hfinish, hcase⟩ := h.finish hsound hfile
    rw [if_pos rfl, hfinish] at hleft
    subst hleft
    rcases hcase with ⟨-, -, -, hcontent, -⟩ | ⟨-, hnone, hcut⟩
    · dsimp only
      rw [hcontent]
      exact ⟨Content.snapshot_applyAll _, fun _ => rfl⟩
    · exact ⟨hcut, fun hfaults => (hnone hfaults).2⟩

theorem Stopped.leave (hsound : journal.Sound attributes options layout)
    (h : Stopped opened file journal session) (finishing : Bool) {left : Volume}
    (hleft : (if finishing = true then (session.writer.finish session.volume).2
      else session.volume) = left) :
    Content.Snapshot (journal.ending finishing) (left.content file) := by
  have hsame : left.content file = session.volume.content file := by
    obtain ⟨error, after, hfinish, hsame⟩ := h.finish
    rw [hfinish] at hleft
    rw [← hleft]
    split_ifs
    · exact hsame
    · rfl
  rw [Journal.ending_eq hsound, hsame]
  exact h.cut.snapshot.append _

end

/-- A run leaves a snapshot of its requests, and where none fails, the whole of them. -/
theorem leave_spec {volume opened later : Volume} {path : String} {fixed : Option Layout}
    {file : FileId} (hfixed : planFixed attributes options = .ok fixed)
    (hopen : volume.openEmpty path = .ok (file, opened))
    (hplan : planOn opened file attributes fixed = (.ok layout, later)) (calls : List Call)
    (finishing : Bool) {journal : Journal}
    (hjournal : (Journal.start path file attributes layout options).calls calls = journal) :
    Content.Snapshot (journal.ending finishing)
        ((leave volume path attributes options calls finishing).2.content file) ∧
      (volume.faults = FaultPlan.none →
        (leave volume path attributes options calls finishing).1 = journal.accepted ∧
          (leave volume path attributes options calls finishing).2.content file =
            Content.empty.applyAll (journal.ending finishing)) := by
  have hopened := planOn_spec hfixed hopen hplan
  obtain ⟨-, hl⟩ := Layout.planned_of_plan hopened.plan_eq
  have hstarted := Journal.sound_start hl options path file
  have hsound := hstarted.calls hl calls
  have hextends := (Journal.start path file attributes layout options).extends_calls calls
  rw [hjournal] at hsound hextends
  obtain ⟨_, created, hcreate, hcase⟩ := create_spec hfixed hopen hplan
  unfold leave
  rw [hcreate]
  rcases hcase with ⟨writer, rfl, hstart⟩ | ⟨hne, ⟨error, rfl⟩, hcut⟩
  · have hreached := hstart.calls hl hstarted hopened.file_lt calls
    rw [hjournal] at hreached
    rcases hreached with habreast | hstopped
    · obtain ⟨hsnapshot, hwhole⟩ := habreast.leave hsound hopened.file_lt finishing rfl
      refine ⟨hsnapshot, fun hnone => ⟨habreast.accepted_eq, ?_⟩⟩
      exact hwhole (hopened.faults_eq.trans hnone)
    · refine ⟨hstopped.leave hsound finishing rfl, fun hnone => ?_⟩
      exact absurd (hopened.faults_eq.trans hnone) hstopped.faults_ne
  · obtain ⟨more, hmore⟩ := hextends
    refine ⟨?_, fun hnone => absurd hnone hne⟩
    rw [Journal.ending_eq hsound, hmore]
    exact (hcut.snapshot.append more).append _

/-- The requests of a run: the provisional header page, requests behind the first page, and for a
finished writer with all its records the final header page. No write follows that one. -/
theorem ending_shape (hl : layout.Planned attributes) {journal : Journal}
    (hsound : journal.Sound attributes options layout) (hfront : journal.Fronted attributes layout)
    (finishing : Bool) :
    ∃ rest, (∀ request ∈ rest, request.Behind layout.pageSize) ∧
      if finishing = true ∧ journal.accepted.length = layout.recordCount then
        ∃ back, (∀ request ∈ back, request = .sync ∨ request = .status) ∧
          journal.ending finishing =
            .write 0 (Header.provisional attributes layout).encodePage ::
              (rest ++ .write 0 (Header.provisional attributes layout).finalize.encodePage :: back)
      else
        journal.ending finishing =
          .write 0 (Header.provisional attributes layout).encodePage :: rest := by
  obtain ⟨rest, hrequests, hrest⟩ := hfront
  obtain ⟨front, back, hcommit, hbefore, hback⟩ := commit_requests hl hsound
  have hending := Journal.ending_eq hsound finishing
  rw [Header.size_encodePage] at hrest
  split_ifs at hending ⊢ with hcomplete
  · refine ⟨rest ++ front, ?_, back, hback, ?_⟩
    · intro request hrequest
      exact (List.mem_append.mp hrequest).elim (hrest request) (hbefore request)
    · rw [hending, hrequests, hcommit, List.cons_append, List.append_assoc]
  · exact ⟨rest, hrest, by rw [hending, hrequests, List.append_nil]⟩

/-- Wherever a run stops, its file is refused by every reader, or the run was finished with all its
records and the file is the finished one. -/
theorem complete_of_opened {volume opened later : Volume} {path : String} {fixed : Option Layout}
    {file : FileId} (hfixed : planFixed attributes options = .ok fixed)
    (hopen : volume.openEmpty path = .ok (file, opened))
    (hplan : planOn opened file attributes fixed = (.ok layout, later)) (calls : List Call)
    (finishing : Bool) :
    let journal := (Journal.start path file attributes layout options).calls calls
    let requests := journal.ending finishing
    let provisional := Request.write 0 (Header.provisional attributes layout).encodePage
    let final := Request.write 0 (Header.provisional attributes layout).finalize.encodePage
    let left := leave volume path attributes options calls finishing
    Content.Snapshot requests (left.2.content file) ∧
    (volume.faults = FaultPlan.none →
      left.1 = journal.accepted ∧ left.2.content file = Content.empty.applyAll requests) ∧
    (∃ rest, (∀ request ∈ rest, request.Behind layout.pageSize) ∧
      (if finishing = true ∧ journal.accepted.length = attributes.recordCount then
        ∃ back, (∀ request ∈ back, request = .sync ∨ request = .status) ∧
          requests = provisional :: (rest ++ final :: back)
      else requests = provisional :: rest) ∧
      ∀ content name order reader, Content.Snapshot (provisional :: rest) content →
        Reader.ofContent name content order ≠ .ok reader) ∧
    ∀ content name order reader, Content.Snapshot requests content →
      Reader.ofContent name content order = .ok reader →
        finishing = true ∧ journal.accepted.length = attributes.recordCount ∧
          content.toBytes = (Content.empty.applyAll requests).toBytes := by
  intro journal requests provisional final left
  have hopened := planOn_spec hfixed hopen hplan
  obtain ⟨-, hl⟩ := Layout.planned_of_plan hopened.plan_eq
  have hlevels : (Header.provisional attributes layout).layout.numLevels ≤ Size.mostLevels :=
    hl.numLevels_le
  have hsound : journal.Sound attributes options layout :=
    (Journal.sound_start hl options path file).calls hl calls
  have hspec := leave_spec hfixed hopen hplan calls finishing (Eq.refl journal)
  obtain ⟨rest, hrest, hshape⟩ :=
    ending_shape hl hsound (Journal.fronted_calls hl options path file calls) finishing
  have hfront : Request.Fronted (Header.provisional attributes layout).encodePage
      (provisional :: rest) := by
    refine ⟨rest, rfl, ?_⟩
    rw [Header.size_encodePage]
    exact hrest
  have hrefused : ∀ content name order reader, Content.Snapshot (provisional :: rest) content →
      Reader.ofContent name content order ≠ .ok reader := by
    rintro content name order reader ⟨count, written, rfl⟩
    exact Header.refused_of_fronted hlevels hopened.header_le rfl hfront count written
  rw [← hl.recordCount_eq]
  refine ⟨hspec.1, hspec.2, ⟨rest, hrest, hshape, hrefused⟩, ?_⟩
  intro content name order reader hsnapshot hreader
  split_ifs at hshape with hcomplete
  · -- the file is published by its final header page
    obtain ⟨back, hback, hrequests⟩ := hshape
    obtain ⟨count, written, rfl⟩ := hsnapshot
    refine ⟨hcomplete.1, hcomplete.2, ?_⟩
    rw [← List.cons_append] at hrequests
    change Reader.ofContent name (Content.empty.cutShort (journal.ending finishing) count written)
      order = _ at hreader
    change (Content.empty.cutShort (journal.ending finishing) count written).toBytes =
      (Content.empty.applyAll (journal.ending finishing)).toBytes
    rw [hrequests] at hreader ⊢
    exact Header.toBytes_of_published hlevels hopened.header_le rfl hfront hback hreader
  · -- a final header page is never asked for
    rw [← hshape] at hrefused
    exact absurd hreader (hrefused content name order reader hsnapshot)

theorem complete_of_opened_sample :
    let journal :=
      (Journal.start "t" 0 Sample.attributes Sample.layout Sample.options).calls Sample.calls
    let left := leave Sample.volume "t" Sample.attributes Sample.options Sample.calls true
    left.1 = Sample.records ∧ left.2.content 0 = Content.empty.applyAll (journal.ending true) ∧
      ∃ reader, Reader.ofContent "t" (left.2.content 0) KeyOrder.bytewise = .ok reader ∧
        journal.accepted.length = 3 := by
  intro journal left
  have hplan : planOn (Sample.volume.addFile ["t"]) 0 Sample.attributes (some Sample.layout) =
      (.ok Sample.layout, Sample.volume.addFile ["t"]) := rfl
  obtain ⟨hsnapshot, hwhole, -, hcomplete⟩ :=
    complete_of_opened Sample.planFixed_eq Sample.openEmpty_eq hplan Sample.calls true
  obtain ⟨haccepted, hcontent⟩ := hwhole rfl
  obtain ⟨-, hl⟩ := Layout.planned_of_plan Sample.plan_eq
  have hsound : journal.Sound Sample.attributes Sample.options Sample.layout :=
    (Journal.sound_start hl Sample.options "t" 0).calls hl Sample.calls
  have hrecords : journal.accepted = Sample.records := Sample.accepted_eq
  have hcount : journal.accepted.length = Sample.layout.recordCount := by
    rw [hrecords]
    rfl
  have hfinished := hsound.file_ending Sample.plan_eq (by decide) (by decide) hcount
  rw [hrecords] at hfinished
  have hreader := hfinished.ofContent_eq (Sample.size_lt hfinished) "t" KeyOrder.bytewise
  rw [← hcontent] at hreader
  exact ⟨haccepted.trans hrecords, hcontent, _, hreader,
    (hcomplete _ _ _ _ hsnapshot hreader).2.1⟩

end PackedIndex.Writer
