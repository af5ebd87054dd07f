import PackedIndex.Writer
import PackedIndex.Proofs.Filling
/-! # Records taken one by one

`Progress` is the invariant of a writer that has taken some records: its memory and its file account
for exactly these. A record that is admitted carries it on, and with all records it makes a finished
file. `Writer.take` collects the checks and steps of a record that do not touch the volume.
-/
namespace PackedIndex

namespace Writer

def last (writer : Writer) (steps : List Step) : Writer :=
  steps.foldl (fun _ step => step.writer) writer

def requests (steps : List Step) : List Request :=
  steps.flatMap Step.requests

/-- The steps that take a record, or why it is refused. -/
def take (writer : Writer) (record : Record) : Except Error (List Step) := do
  writer.ensureAccepting
  let key ← writer.approve record
  match writer.append key record with
  | none => throw (.invalidState .levelsOverflowed)
  | some steps => return steps

/-- Two writers that differ at most in what they have written. -/
structure Alike (writer other : Writer) : Prop where
  path_eq : other.path = writer.path
  file_eq : other.file = writer.file
  header_eq : other.header = writer.header
  options_eq : other.options = writer.options
  order_eq : other.order = writer.order
  state_eq : other.state = writer.state

namespace Alike

variable {writer other third : Writer}

theorem refl (writer : Writer) : Alike writer writer :=
  ⟨rfl, rfl, rfl, rfl, rfl, rfl⟩

theorem trans (h : Alike writer other) (h' : Alike other third) : Alike writer third :=
  ⟨h'.path_eq.trans h.path_eq, h'.file_eq.trans h.file_eq, h'.header_eq.trans h.header_eq,
    h'.options_eq.trans h.options_eq, h'.order_eq.trans h.order_eq, h'.state_eq.trans h.state_eq⟩

end Alike

theorem alike_placeSeparator {writer : Writer} {key : ByteArray} {step : Step}
    (h : writer.placeSeparator key = some step) : Alike writer step.writer := by
  unfold placeSeparator at h
  dsimp only at h
  split at h
  · cases h
  · cases h
    exact ⟨rfl, rfl, rfl, rfl, rfl, rfl⟩

theorem alike_flushValues (writer : Writer) : Alike writer writer.flushValues.writer := by
  unfold flushValues
  split_ifs
  · exact Alike.refl writer
  · exact ⟨rfl, rfl, rfl, rfl, rfl, rfl⟩

theorem alike_storeValue (writer : Writer) (record : Record) :
    Alike writer (writer.storeValue record).writer := by
  unfold storeValue
  dsimp only
  split_ifs
  · refine Alike.trans ?_ (alike_flushValues _)
    exact ⟨rfl, rfl, rfl, rfl, rfl, rfl⟩
  · exact ⟨rfl, rfl, rfl, rfl, rfl, rfl⟩
  · exact Alike.refl writer

theorem alike_storeLeaf (writer : Writer) (key : ByteArray) (record : Record) (pointer : ℕ) :
    Alike writer (writer.storeLeaf key record pointer).writer := by
  unfold storeLeaf
  dsimp only
  split_ifs
  · exact ⟨rfl, rfl, rfl, rfl, rfl, rfl⟩
  · exact ⟨rfl, rfl, rfl, rfl, rfl, rfl⟩

theorem append_eq_some {writer : Writer} {key : ByteArray} {record : Record} {steps : List Step}
    (h : writer.append key record = some steps) :
    ∃ separated,
      (if 0 < writer.written ∧ writer.written % writer.layout.recordsPerLeafPage = 0 then
        writer.placeSeparator key else some ⟨[], writer⟩) = some separated ∧
      steps = [separated, separated.writer.storeValue record,
        (separated.writer.storeValue record).writer.storeLeaf key record
          (if writer.layout.encoding.usesValueRegion then writer.valueCursor else 0)] := by
  unfold append at h
  simp only [Option.bind_eq_bind, Option.pure_def] at h
  by_cases hstart : 0 < writer.written ∧ writer.written % writer.layout.recordsPerLeafPage = 0
  · rw [if_pos hstart] at h ⊢
    simp only [Option.bind_eq_some_iff, Option.some.injEq] at h
    obtain ⟨separated, hseparated, hsteps⟩ := h
    exact ⟨separated, hseparated, hsteps.symm⟩
  · rw [if_neg hstart] at h ⊢
    simp only [Option.bind_some, Option.some.injEq] at h
    exact ⟨_, rfl, h.symm⟩

theorem alike_append {writer : Writer} {key : ByteArray} {record : Record} {steps : List Step}
    (h : writer.append key record = some steps) : ∀ step ∈ steps, Alike writer step.writer := by
  obtain ⟨separated, hseparated, rfl⟩ := append_eq_some h
  have hfirst : Alike writer separated.writer := by
    split_ifs at hseparated
    · exact alike_placeSeparator hseparated
    · cases hseparated
      exact Alike.refl writer
  have hsecond := hfirst.trans (alike_storeValue separated.writer record)
  intro step hstep
  simp only [List.mem_cons, List.not_mem_nil, or_false] at hstep
  rcases hstep with rfl | rfl | rfl
  · exact hfirst
  · exact hsecond
  · exact hsecond.trans (alike_storeLeaf _ _ _ _)

open Outcome Layout

theorem approve_eq_ok {writer : Writer} {record : Record} {key : ByteArray}
    (h : writer.approve record = .ok key) :
    writer.written ≠ writer.layout.recordCount ∧
      writer.layout.encoding.validate writer.header.attributes.keySize
        writer.header.attributes.valueSize record = .ok () ∧
      key = Bytes.resize record.key writer.header.attributes.keySize ∧
      (writer.options.verifyOrder = true → 0 < writer.written →
        writer.order key writer.lastKey = .gt) := by
  unfold approve at h
  rw [guard_eq_ok] at h
  obtain ⟨hcount, h⟩ := h
  rw [bind_eq_ok] at h
  obtain ⟨⟨⟩, hvalid, h⟩ := h
  rw [mapError_eq_ok] at hvalid
  rw [bind_eq_ok] at h
  obtain ⟨padded, hpadded, h⟩ := h
  rw [mapError_eq_ok] at hpadded
  rw [guard_eq_ok, pure_eq_ok] at h
  obtain ⟨horder, rfl⟩ := h
  refine ⟨hcount, hvalid, ?_, ?_⟩
  · unfold padKey at hpadded
    split_ifs at hpadded
    exact (Except.ok.inj hpadded).symm
  · intro hverify hwritten
    by_contra hne
    exact horder ⟨hverify, hwritten, hne⟩

theorem ensureAccepting_eq_ok {writer : Writer} :
    writer.ensureAccepting = .ok () ↔ writer.state = .accepting := by
  unfold ensureAccepting
  cases writer.state <;> simp

/-- What is true of a writer that has taken some records, and of its file. -/
structure Progress (attributes : Attributes) (options : Options) (layout : Layout)
    (records : List Record) (writer : Writer) (file : Content) : Prop where
  header_eq : writer.header = Header.provisional attributes layout
  options_eq : writer.options = options
  state_eq : writer.state = .accepting
  length_le : records.length ≤ layout.recordCount
  valid : ∀ record ∈ records,
    layout.encoding.validate layout.keySize attributes.valueSize record = .ok ()
  lastKey_eq : 0 < records.length →
    writer.lastKey = Image.key layout records (records.length - 1)
  ascending : options.verifyOrder = true → ∀ index, index + 1 < records.length →
    writer.order (Image.key layout records (index + 1)) (Image.key layout records index) = .gt
  filled : Filled layout records (Header.provisional attributes layout).encodePage
    (layout.lastLeaf records.length) records.length records.length writer file

namespace Progress

variable {attributes : Attributes} {options : Options} {layout : Layout} {records : List Record}
  {record : Record} {header : ByteArray} {writer : Writer} {file : Content} {steps : List Step}

theorem layout_eq (h : Progress attributes options layout records writer file) :
    writer.layout = layout :=
  h.filled.layout_eq

theorem written_eq (h : Progress attributes options layout records writer file) :
    writer.written = records.length :=
  h.filled.written_eq

theorem start (hl : layout.Planned attributes) (options : Options) (path : String) (file : FileId) :
    Progress attributes options layout [] (Writer.start path file attributes layout options).writer
      (Content.empty.applyAll (Writer.start path file attributes layout options).requests) := by
  have hpos := hl.recordCount_pos
  have hstart : layout.pointerPosition 1 ≤ layout.pageSize := by
    have htwo := hl.two_le_branchingFactor
    refine le_trans (Nat.add_le_add_left (Nat.mul_le_mul_right _ ?_) _) hl.index_room
    omega
  have hpage : (Header.provisional attributes layout).encodePage.size = layout.pageSize :=
    Bytes.size_resize _ _
  have hpaged := Paged.start hl hpage
  refine ⟨rfl, rfl, rfl, Nat.zero_le _, by simp, by simp, by simp, rfl, ?_, ?_, ?_, rfl, ?_,
    ByteArray.empty, rfl, rfl, hpaged.congr fun level _ number _ => ?_⟩
  · simp [Writer.start, Layout.lastLeaf, Cursors.start_eq_after]
  · simp only [Writer.start, Layout.lastLeaf, Image.openPages, Layout.openSlots, List.length_nil,
      Nat.zero_sub, Nat.zero_div, openPage_zero_count, Nat.zero_mod]
    exact List.map_congr_left fun level _ => Image.start_eq_indexPage _ _ hstart
  · simp [Writer.start, Image.openLeaf, hpos.ne, Image.leafPage_zero]
  · simp [Writer.start, Image.values]
  · simp [Image.settled, Layout.lastLeaf, Layout.fullLeaves, hpos.ne]

/-- The separator of the next record is placed where it starts a leaf page. -/
theorem separate (hl : layout.Planned attributes)
    (h : Filled layout (records ++ [record]) header (layout.lastLeaf records.length) records.length
      records.length writer file)
    (hlt : records.length < layout.recordCount) {separated : Step}
    (hseparated :
      (if 0 < writer.written ∧ writer.written % writer.layout.recordsPerLeafPage = 0 then
      writer.placeSeparator (Image.key layout (records ++ [record]) records.length)
      else some ⟨[], writer⟩) = some separated) :
    Filled layout (records ++ [record]) header (layout.lastLeaf (records.length + 1)) records.length
      records.length separated.writer (file.applyAll separated.requests) := by
  rw [h.written_eq, h.layout_eq] at hseparated
  split_ifs at hseparated with hstart
  · obtain ⟨hnext, hplace⟩ := lastLeaf_succ_of_start hstart.1 hstart.2
    have hpage : layout.lastLeaf records.length + 1 < layout.leafPages :=
      hnext ▸ hl.leafPage_lt hlt
    obtain ⟨step, hstep, hfilled⟩ := h.placeSeparator hl hpage
    rw [hplace, hseparated] at hstep
    cases hstep
    rw [hnext]
    exact hfilled
  · cases hseparated
    rw [lastLeaf_succ_of_not_start hstart]
    exact h

theorem fill (hl : layout.Planned attributes)
    (h : Filled layout records header (layout.lastLeaf records.length) records.length
      records.length writer file)
    (hvalid : ∀ other ∈ records ++ [record],
      layout.encoding.validate layout.keySize attributes.valueSize other = .ok ())
    (hlt : records.length < layout.recordCount)
    (happend : writer.append (Image.key layout (records ++ [record]) records.length) record =
      some steps) :
    Filled layout (records ++ [record]) header (layout.lastLeaf (records.length + 1))
      (records.length + 1) (records.length + 1) (writer.last steps)
      (file.applyAll (requests steps)) := by
  have hin : records.length < (records ++ [record]).length := by simp
  have hnext : (records ++ [record])[records.length] = record := by simp
  have hpointer : (if writer.layout.encoding.usesValueRegion then writer.valueCursor else 0) =
      Image.pointer layout (records ++ [record]) records.length := by
    rw [h.layout_eq, h.valueCursor_eq, Image.pointer, Image.values_append le_rfl]
  obtain ⟨separated, hseparated, rfl⟩ := append_eq_some happend
  have hfirst := separate hl (h.append hl lastLeaf_mul_lt le_rfl le_rfl [record]) hlt hseparated
  have hsecond := hfirst.storeValue hl hin
  have hthird := hsecond.storeLeaf hl hvalid hin (by simpa using hlt)
    (Image.key layout (records ++ [record]) records.length)
  rw [hnext] at hsecond hthird
  rw [hpointer]
  simp only [last, requests, List.foldl_cons, List.foldl_nil, List.flatMap_cons, List.flatMap_nil,
    List.append_nil, Content.applyAll_append]
  exact hthird

theorem storeLeaf_lastKey (writer : Writer) (key : ByteArray) (record : Record) (pointer : ℕ) :
    (writer.storeLeaf key record pointer).writer.lastKey = key := by
  unfold Writer.storeLeaf
  dsimp only
  split_ifs <;> rfl

theorem last_append {key : ByteArray} (h : writer.append key record = some steps) :
    Alike writer (writer.last steps) ∧ (writer.last steps).lastKey = key := by
  have halike := alike_append h
  obtain ⟨separated, -, rfl⟩ := append_eq_some h
  exact ⟨halike _ (by simp), storeLeaf_lastKey _ _ _ _⟩

theorem take_eq_ok (h : writer.take record = .ok steps) :
    ∃ key, writer.approve record = .ok key ∧ writer.append key record = some steps := by
  unfold Writer.take at h
  rw [bind_eq_ok] at h
  obtain ⟨-, -, h⟩ := h
  rw [bind_eq_ok] at h
  obtain ⟨key, happrove, h⟩ := h
  split at h
  · cases h
  · cases h
    exact ⟨key, happrove, by assumption⟩

theorem approve_key (hl : layout.Planned attributes)
    (h : Progress attributes options layout records writer file) {key : ByteArray}
    (happrove : writer.approve record = .ok key) :
    key = Image.key layout (records ++ [record]) records.length := by
  obtain ⟨-, -, hkey, -⟩ := approve_eq_ok happrove
  rw [hkey, h.header_eq, Image.key_eq (by simp), hl.keySize_eq]
  simp [Header.provisional]

theorem valid_append (hl : layout.Planned attributes)
    (h : Progress attributes options layout records writer file) {key : ByteArray}
    (happrove : writer.approve record = .ok key) : ∀ other ∈ records ++ [record],
      layout.encoding.validate layout.keySize attributes.valueSize other = .ok () := by
  obtain ⟨-, hvalid, -, -⟩ := approve_eq_ok happrove
  rw [h.header_eq, h.layout_eq] at hvalid
  intro other hother
  rcases List.mem_append.mp hother with hother | hother
  · exact h.valid other hother
  · rw [List.mem_singleton.mp hother, hl.keySize_eq]
    exact hvalid

theorem ascending_append (hl : layout.Planned attributes)
    (h : Progress attributes options layout records writer file) {key : ByteArray}
    (happrove : writer.approve record = .ok key) (hverify : options.verifyOrder = true) {index : ℕ}
    (hindex : index < records.length) :
    writer.order (Image.key layout (records ++ [record]) (index + 1))
      (Image.key layout (records ++ [record]) index) = .gt := by
  rw [Image.key_append hindex]
  rcases Nat.lt_or_eq_of_le (Nat.succ_le_of_lt hindex) with hlt | heq
  · rw [Image.key_append hlt]
    exact h.ascending hverify index hlt
  · have hsome : 0 < records.length := Nat.zero_lt_of_lt hindex
    have hlast : records.length - 1 = index := by omega
    obtain ⟨-, -, -, horder⟩ := approve_eq_ok happrove
    rw [h.options_eq, h.written_eq] at horder
    have hprevious := horder hverify hsome
    rw [h.lastKey_eq hsome, hlast, h.approve_key hl happrove] at hprevious
    rw [Nat.succ_eq_add_one] at heq
    rw [heq]
    exact hprevious

theorem take (hl : layout.Planned attributes)
    (h : Progress attributes options layout records writer file)
    (htake : writer.take record = .ok steps) :
    Progress attributes options layout (records ++ [record]) (writer.last steps)
      (file.applyAll (requests steps)) := by
  obtain ⟨key, happrove, happend⟩ := take_eq_ok htake
  obtain ⟨hnot, -, -, -⟩ := approve_eq_ok happrove
  obtain ⟨halike, hlast⟩ := last_append happend
  have hlength := h.length_le
  have hkey := h.approve_key hl happrove
  have hvalid := h.valid_append hl happrove
  have hone : (records ++ [record]).length = records.length + 1 := by simp
  rw [h.written_eq, h.layout_eq] at hnot
  refine ⟨halike.header_eq.trans h.header_eq, halike.options_eq.trans h.options_eq,
    halike.state_eq.trans h.state_eq, ?_, hvalid, ?_, ?_, ?_⟩
  · omega
  · intro _
    rw [hlast, hkey, hone, Nat.add_sub_cancel]
  · intro hverify index hindex
    rw [halike.order_eq]
    exact h.ascending_append hl happrove hverify (by omega)
  · rw [hone]
    apply fill hl h.filled hvalid (by omega)
    rw [← hkey]
    exact happend

/-- There is a place for the separator of every record that is approved. -/
theorem append_isSome (hl : layout.Planned attributes)
    (h : Progress attributes options layout records writer file) {key : ByteArray}
    (happrove : writer.approve record = .ok key) : (writer.append key record).isSome := by
  obtain ⟨hnot, -, -, -⟩ := approve_eq_ok happrove
  have hlength := h.length_le
  have hkey := h.approve_key hl happrove
  rw [h.written_eq, h.layout_eq] at hnot
  unfold Writer.append
  rw [h.written_eq, h.layout_eq]
  by_cases hstart : 0 < records.length ∧ records.length % layout.recordsPerLeafPage = 0
  · obtain ⟨hnext, hplace⟩ := lastLeaf_succ_of_start hstart.1 hstart.2
    have hpage : layout.lastLeaf records.length + 1 < layout.leafPages :=
      hnext ▸ hl.leafPage_lt (by omega)
    have hfilled := h.filled.append hl lastLeaf_mul_lt le_rfl le_rfl [record]
    obtain ⟨step, hstep, -⟩ := hfilled.placeSeparator hl hpage
    rw [hplace, ← hkey] at hstep
    rw [if_pos hstart, hstep]
    rfl
  · rw [if_neg hstart]
    rfl

/-- An approved record between its steps: before its separator is placed, behind that, and behind its
value entry. -/
structure Between (attributes : Attributes) (layout : Layout) (records : List Record)
    (record : Record) (key : ByteArray) (writer : Writer) (file : Content) (separated : Step) :
    Prop where
  length_lt : records.length < layout.recordCount
  size_key : key.size = layout.keySize
  valid : layout.encoding.validate layout.keySize attributes.valueSize record = .ok ()
  separated_eq :
    (if 0 < records.length ∧ records.length % layout.recordsPerLeafPage = 0 then
      writer.placeSeparator key else some ⟨[], writer⟩) = some separated
  before : Filled layout (records ++ [record]) (Header.provisional attributes layout).encodePage
    (layout.lastLeaf records.length) records.length records.length writer file
  placed : Filled layout (records ++ [record]) (Header.provisional attributes layout).encodePage
    (layout.lastLeaf (records.length + 1)) records.length records.length separated.writer
    (file.applyAll separated.requests)
  valued : Filled layout (records ++ [record]) (Header.provisional attributes layout).encodePage
    (layout.lastLeaf (records.length + 1)) (records.length + 1) records.length
    (separated.writer.storeValue record).writer
    ((file.applyAll separated.requests).applyAll (separated.writer.storeValue record).requests)

theorem exists_between (hl : layout.Planned attributes)
    (h : Progress attributes options layout records writer file) {key : ByteArray}
    (happrove : writer.approve record = .ok key) :
    ∃ separated, writer.append key record = some [separated, separated.writer.storeValue record,
        (separated.writer.storeValue record).writer.storeLeaf key record
          (if writer.layout.encoding.usesValueRegion then writer.valueCursor else 0)] ∧
      Between attributes layout records record key writer file separated := by
  obtain ⟨hnot, -, -, -⟩ := approve_eq_ok happrove
  have hlength := h.length_le
  have hkey := h.approve_key hl happrove
  rw [h.written_eq, h.layout_eq] at hnot
  have hlt : records.length < layout.recordCount := by omega
  have hbefore := h.filled.append hl lastLeaf_mul_lt le_rfl le_rfl [record]
  obtain ⟨steps, hsteps⟩ := Option.isSome_iff_exists.mp (h.append_isSome hl happrove)
  obtain ⟨separated, hseparated, rfl⟩ := append_eq_some hsteps
  have hplaced := separate hl hbefore hlt (hkey ▸ hseparated)
  have hvalued := hplaced.storeValue hl (by simp)
  rw [List.getElem_concat_length rfl] at hvalued
  rw [h.written_eq, h.layout_eq] at hseparated
  exact ⟨separated, hsteps,
    { length_lt := hlt
      size_key := hkey ▸ Image.size_key _
      valid := h.valid_append hl happrove record (by simp)
      separated_eq := hseparated
      before := hbefore
      placed := hplaced
      valued := hvalued }⟩

/-- A record is either admitted, and its steps are issued, or refused without a trace. -/
theorem put_eq (hl : layout.Planned attributes)
    (h : Progress attributes options layout records writer file) (volume : Volume)
    (record : Record) :
    writer.put volume record =
      match writer.take record with
      | .ok steps => issueAll writer volume steps
      | .error error => (.error error, writer, volume) := by
  unfold put Writer.take
  rw [ensureAccepting_eq_ok.mpr h.state_eq]
  cases happrove : writer.approve record with
  | error => rfl
  | ok key =>
    have hsome := h.append_isSome hl happrove
    dsimp only
    cases happend : writer.append key record with
    | none =>
      rw [happend] at hsome
      cases hsome
    | some steps =>
      simp [bind, Except.bind, happend, pure, Except.pure]

theorem setOrder (h : Progress attributes options layout records writer file) (order : KeyOrder) :
    Progress attributes options layout records (writer.setOrder order).2 file := by
  unfold Writer.setOrder
  split_ifs with hwritten
  · exact h
  · rw [h.written_eq] at hwritten
    obtain ⟨hlayout, hcursors, hindex, hleaf, hcount, hvalues, hstored⟩ := h.filled
    refine ⟨h.header_eq, h.options_eq, h.state_eq, h.length_le, h.valid, h.lastKey_eq, ?_,
      ⟨hlayout, hcursors, hindex, hleaf, hcount, hvalues, hstored⟩⟩
    intro _ index hindex
    omega

end Progress

end Writer

end PackedIndex
