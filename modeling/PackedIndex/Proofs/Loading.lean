import PackedIndex.Proofs.Batch
import PackedIndex.Proofs.Description
import PackedIndex.Proofs.Lines
/-! # What is built from lines

Each line of the input is a record of one run, taken as it is read. So the lines build an index
exactly when all of them say a key and a value and these make a run that goes through, and then the
index holds what the lines say.
-/
namespace PackedIndex.Load

open Outcome Writer

def recordOf (format : Format) (entry : ByteArray × ByteArray) : Record :=
  .ofFormat format entry.1 entry.2

@[simp] theorem key_recordOf (format : Format) (entry : ByteArray × ByteArray) :
    (recordOf format entry).key = entry.1 := by
  cases format <;> rfl

@[simp] theorem format_recordOf (format : Format) (entry : ByteArray × ByteArray) :
    (recordOf format entry).format = format := by
  cases format <;> rfl

theorem padded_recordOf (format : Format) (entry : ByteArray × ByteArray) (keySize : ℕ) :
    (recordOf format entry).padded keySize =
      recordOf format (Bytes.resize entry.1 keySize, entry.2) := by
  cases format <;> rfl

@[simp] theorem recordCount_attributes (job : Job) (key value : ByteArray) :
    (job.attributes key value).recordCount = job.records := by
  unfold Job.attributes
  cases job.format <;> rfl

@[simp] theorem format_attributes (job : Job) (key value : ByteArray) :
    (job.attributes key value).format = job.format := by
  unfold Job.attributes
  cases job.format <;> rfl

@[simp] theorem keySize_attributes (job : Job) (key value : ByteArray) :
    (job.attributes key value).keySize = key.size := by
  unfold Job.attributes
  cases job.format <;> rfl

/-! ## One line -/

section

variable {job : Job} {volume after : Volume} {writer next : Writer} {number : ℕ}
  {entry : ByteArray × ByteArray} {data : List UInt8} {attributes : Attributes}

theorem eq_of_record {r : Record} (h : record attributes number entry.1 entry.2 = .ok r) :
    r = recordOf attributes.format entry := by
  unfold record at h
  unfold recordOf
  cases hformat : attributes.format <;> simp only [hformat] at h
  · exact (Except.ok.inj h).symm
  · split_ifs at h
    exact (Except.ok.inj h).symm
  · split_ifs at h
    exact (Except.ok.inj h).symm
  · exact (Except.ok.inj h).symm

theorem record_of_valueFits (h : (recordOf attributes.format entry).ValueFits attributes) :
    record attributes number entry.1 entry.2 = .ok (recordOf attributes.format entry) := by
  unfold record
  unfold recordOf at h ⊢
  cases hformat : attributes.format <;> rw [hformat] at h
  · rfl
  · exact if_neg (not_not.mpr h)
  · exact if_neg (not_not.mpr h)
  · rfl

/-- The writer checks again what was checked of a value. -/
theorem valueFits_of_put {r : Record} (h : writer.put volume r = (.ok (), next, after)) :
    r.ValueFits writer.header.attributes := by
  obtain ⟨key, steps, happrove, -, -⟩ := put_eq_ok h
  obtain ⟨-, hvalid, -, -⟩ := approve_eq_ok happrove
  exact (Encoding.validate_eq_ok.mp hvalid).2.2

/-- A line is taken when it says a key and a value and the writer takes their record. -/
theorem takeLine_eq_ok_iff {line : List UInt8} (start : Option Writer) :
    job.takeLine volume start number line.toByteArray = (.ok next, after) ↔
      ∃ entry writer created, Says line entry ∧
        job.writerFor volume entry.1 entry.2 start = (.ok writer, created) ∧
        writer.put created (recordOf writer.header.attributes.format entry) =
          (.ok (), next, after) := by
  have hparse : ∀ entry, parseLine number line.toByteArray = .ok entry ↔ Says line entry :=
    fun _ => parseLine_eq_ok_iff
  unfold Job.takeLine
  constructor
  · intro h
    rcases hline : parseLine number line.toByteArray with failure | entry
    · rw [hline] at h
      cases h
    rw [hline] at h
    dsimp only at h
    rcases hwriter : job.writerFor volume entry.1 entry.2 start with ⟨failure | writer, created⟩
    · rw [hwriter] at h
      cases h
    rw [hwriter] at h
    dsimp only at h
    rcases hrecord : record writer.header.attributes number entry.1 entry.2 with failure | r
    · rw [hrecord] at h
      cases h
    rw [hrecord] at h
    dsimp only at h
    obtain rfl := eq_of_record hrecord
    refine ⟨entry, writer, created, (hparse entry).mp hline, hwriter, ?_⟩
    rcases hput : writer.put created (recordOf writer.header.attributes.format entry) with
      ⟨⟨error⟩ | ⟨⟨⟩⟩, taken, later⟩
    · rw [hput] at h
      cases h
    · rw [hput] at h
      cases h
      rfl
  · rintro ⟨entry, writer, created, hsaid, hwriter, hput⟩
    rw [(hparse entry).mpr hsaid]
    dsimp only
    rw [hwriter]
    dsimp only
    rw [record_of_valueFits (valueFits_of_put hput)]
    dsimp only
    rw [hput]

theorem takeLine_eq_ok (start : Option Writer) :
    job.takeLine volume start number (firstLine data).toByteArray = (.ok next, after) ↔
      ∃ entry writer created, Says (bareLine data) entry ∧
        job.writerFor volume entry.1 entry.2 start = (.ok writer, created) ∧
        writer.put created (recordOf writer.header.attributes.format entry) =
          (.ok (), next, after) := by
  simp only [takeLine_eq_ok_iff, says_firstLine]

theorem writerFor_none_eq_ok :
    job.writerFor volume entry.1 entry.2 none = (.ok writer, after) ↔
      create volume job.output (job.attributes entry.1 entry.2) {} = (.ok writer, after) := by
  unfold Job.writerFor
  rcases create volume job.output (job.attributes entry.1 entry.2) {} with ⟨error | made, later⟩
  · simp
  · simp

end

/-! ## All lines -/

/-- A writer that takes the records of fewer than `most` lines at once, and is finished then. -/
def Job.Completes (job : Job) (volume : Volume) (writer : Writer) (lines : List (List UInt8))
    (most : ℕ) (after : Volume) : Prop :=
  ∃ entries next later size, List.Forall₂ Says lines entries ∧ entries.length < most ∧
    writer.putMany volume (entries.map (recordOf job.format)) = (.ok (), next, later) ∧
    next.finish later = (.ok size, after)

section

variable {job : Job} {volume after opened : Volume} {writer : Writer} {input : Input}
  {data : List UInt8} {file : FileId}

theorem size_firstLine_eq_zero : (firstLine data).toByteArray.size = 0 ↔ data = [] := by
  rw [List.size_toByteArray, List.length_eq_zero_iff, firstLine_eq_nil]

/-- The lines of a stream are taken one by one, as the records that they say are. -/
theorem takeLines_eq_ok (hrest : input.rest volume = some data) (hapart : input.Apart writer.file)
    (hformat : writer.header.attributes.format = job.format) (number most : ℕ) :
    job.takeLines volume (some writer) input number most = (.ok (), after) ↔
      job.Completes volume writer (lines data) most after := by
  induction most generalizing volume writer input data number with
  | zero => simp [Job.takeLines, Job.Completes]
  | succ most ih =>
    obtain ⟨further, hline, hnext, hkept⟩ := Input.line_spec hrest
    have hfurther := hkept writer.file hapart
    -- the stream goes on behind a line that was taken as it would have before
    have hrun : ∀ {r : Record} {taken : Writer} {later : Volume},
        writer.put volume r = (.ok (), taken, later) →
        (job.takeLines later (some taken) further (number + 1) most = (.ok (), after) ↔
          job.Completes later taken (lines (behindLine data)) most after) := by
      intro r taken later hput
      obtain ⟨halike, hbeside⟩ := put_frame hput
      exact ih ((Input.rest_congr hfurther hbeside).trans hnext)
        (halike.file_eq ▸ hfurther) (halike.header_eq ▸ hformat) (number + 1)
    unfold Job.takeLines
    rw [hline]
    dsimp only
    by_cases hdata : data = []
    · rw [if_pos (size_firstLine_eq_zero.mpr hdata), hdata]
      constructor
      · intro h
        rcases hfinish : writer.finish volume with ⟨error | size, finished⟩
        · rw [hfinish] at h
          cases h
        · rw [hfinish] at h
          cases h
          exact ⟨[], writer, volume, size, .nil, Nat.succ_pos _, rfl, hfinish⟩
      · rintro ⟨entries, next, later, size, hsaid, -, hput, hfinish⟩
        obtain rfl := List.forall₂_nil_left_iff.mp hsaid
        cases hput
        rw [hfinish]
    · rw [if_neg fun hsize => hdata (size_firstLine_eq_zero.mp hsize), lines_eq hdata]
      constructor
      · intro h
        rcases htake : job.takeLine volume (some writer) number (firstLine data).toByteArray with
          ⟨failure | taken, later⟩
        · rw [htake] at h
          cases h
        rw [htake] at h
        obtain ⟨entry, _, _, hsaid, hwriter, hput⟩ := (takeLine_eq_ok _).mp htake
        cases hwriter
        rw [hformat] at hput
        obtain ⟨entries, next, final, size, hall, hlt, hmany, hfinish⟩ := (hrun hput).mp h
        exact ⟨entry :: entries, next, final, size, .cons hsaid hall, Nat.succ_lt_succ hlt,
          putMany_cons_eq_ok.mpr ⟨taken, later, hput, hmany⟩, hfinish⟩
      · rintro ⟨_, next, final, size, hsaid, hlt, hmany, hfinish⟩
        obtain ⟨entry, entries, hentry, hall, rfl⟩ := List.forall₂_cons_left_iff.mp hsaid
        obtain ⟨taken, later, hput, hrest⟩ := putMany_cons_eq_ok.mp hmany
        have htake : job.takeLine volume (some writer) number (firstLine data).toByteArray =
            (.ok taken, later) :=
          (takeLine_eq_ok _).mpr ⟨entry, writer, volume, hentry, rfl, hformat ▸ hput⟩
        rw [htake]
        exact (hrun hput).mpr
          ⟨entries, next, final, size, hall, Nat.lt_of_succ_lt_succ hlt, hrest, hfinish⟩

theorem run_eq_ok (hopen : volume.openEmpty job.output = .ok (file, opened))
    (hrest : input.rest volume = some data) (hapart : input.Apart file) :
    job.run volume input = (.ok (), after) ↔
      ∃ first entries built, List.Forall₂ Says (lines data) (first :: entries) ∧
        build volume job.output (job.attributes first.1 first.2) {}
          [.putMany ((first :: entries).map (recordOf job.format))] = (.ok built, after) ∧
        built.accepted = (first :: entries).map (recordOf job.format) := by
  obtain ⟨further, hline, hnext, hkept⟩ := Input.line_spec hrest
  have hfurther := hkept file hapart
  -- the first line creates the writer; the others are taken as in any run that has one
  have hrun : ∀ {entry : ByteArray × ByteArray} {writer taken : Writer} {created later : Volume}
      {r : Record}, create volume job.output (job.attributes entry.1 entry.2) {} =
        (.ok writer, created) → writer.put created r = (.ok (), taken, later) →
      (job.takeLines later (some taken) further 2 job.records = (.ok (), after) ↔
        job.Completes later taken (lines (behindLine data)) job.records after) := by
    intro entry writer taken created later r hcreate hput
    obtain ⟨hattributes, hfile, -, hcreated⟩ := create_frame hopen hcreate
    obtain ⟨halike, hbeside⟩ := put_frame hput
    rw [hfile] at hbeside
    refine takeLines_eq_ok ((Input.rest_congr hfurther (hcreated.trans hbeside)).trans hnext)
      ?_ ?_ 2 job.records
    · rw [halike.file_eq, hfile]
      exact hfurther
    · rw [halike.header_eq, hattributes, format_attributes]
  unfold Job.run Job.takeLines
  rw [hline]
  dsimp only
  by_cases hdata : data = []
  · rw [if_pos (size_firstLine_eq_zero.mpr hdata), hdata]
    simp [lines]
  · rw [if_neg fun hsize => hdata (size_firstLine_eq_zero.mp hsize), lines_eq hdata]
    constructor
    · intro h
      rcases htake : job.takeLine volume none 1 (firstLine data).toByteArray with
        ⟨failure | taken, later⟩
      · rw [htake] at h
        cases h
      rw [htake] at h
      obtain ⟨first, writer, created, hsaid, hwriter, hput⟩ := (takeLine_eq_ok _).mp htake
      have hcreate := writerFor_none_eq_ok.mp hwriter
      rw [(create_frame hopen hcreate).1, format_attributes] at hput
      obtain ⟨entries, next, final, size, hall, -, hmany, hfinish⟩ := (hrun hcreate hput).mp h
      obtain ⟨hbuild, haccepted⟩ := build_putMany_iff.mpr ⟨writer, created, next, final, size,
        hcreate, putMany_cons_eq_ok.mpr ⟨taken, later, hput, hmany⟩, hfinish, rfl⟩
      exact ⟨first, entries, _, .cons hsaid hall, hbuild, haccepted⟩
    · rintro ⟨first, entries, built, hsaid, hbuild, haccepted⟩
      obtain ⟨hfirst, hall⟩ := List.forall₂_cons.mp hsaid
      obtain ⟨writer, created, next, final, size, hcreate, hmany, hfinish, -⟩ :=
        build_putMany_iff.mp ⟨hbuild, haccepted⟩
      obtain ⟨taken, later, hput, hrest⟩ := putMany_cons_eq_ok.mp hmany
      have hformat : writer.header.attributes.format = job.format := by
        rw [(create_frame hopen hcreate).1, format_attributes]
      have htake : job.takeLine volume none 1 (firstLine data).toByteArray = (.ok taken, later) :=
        (takeLine_eq_ok _).mpr ⟨first, writer, created, hfirst, writerFor_none_eq_ok.mpr hcreate,
          hformat ▸ hput⟩
      rw [htake]
      refine (hrun hcreate hput).mpr ⟨entries, next, final, size, hall, ?_, hrest, hfinish⟩
      -- a run that goes through has the announced number of records, so the bound is never reached
      obtain ⟨file, hleaves⟩ := build_spec hbuild
      have hcount := hleaves.finished.length_eq.trans hleaves.finished.planned.recordCount_eq
      rw [haccepted, List.length_map, List.length_cons, recordCount_attributes] at hcount
      omega

end

/-! ## What is accepted -/

/-- Whether the value of a line has the size that the first line fixes. -/
def ValueSuits (format : Format) (first entry : ByteArray × ByteArray) : Prop :=
  match format with
  | .atom => True
  | .pair => entry.2.size = first.1.size
  | .block => entry.2.size = first.2.size
  | .blob => entry.2.size < Size.blobLimit

/-- A stream whose lines are the records of an index: each says a key and a value, there are as many
as announced, the first one fixes a geometry that can be planned, and the others fit into it with
keys that increase once they are padded. -/
structure Job.Accepts (job : Job) (data : List UInt8) (first : ByteArray × ByteArray)
    (entries : List (ByteArray × ByteArray)) : Prop where
  lines_say : List.Forall₂ Says (lines data) entries
  head_eq : entries.head? = some first
  length_eq : (lines data).length = job.records
  planned : ∃ layout, Layout.plan (job.attributes first.1 first.2) 4096 = .ok layout
  key_le : ∀ entry ∈ entries, entry.1.size ≤ first.1.size
  value_suits : ∀ entry ∈ entries, ValueSuits job.format first entry
  increasing : KeyOrder.bytewise.Increasing
    (entries.map fun entry => Bytes.resize entry.1 first.1.size)

theorem suits_recordOf_iff {job : Job} {first entry : ByteArray × ByteArray} :
    Suits (job.attributes first.1 first.2) (recordOf job.format entry) ↔
      entry.1.size ≤ first.1.size ∧ ValueSuits job.format first entry := by
  have hvalue : (recordOf job.format entry).ValueFits (job.attributes first.1 first.2) ↔
      ValueSuits job.format first entry := by
    unfold recordOf Job.attributes ValueSuits
    cases job.format <;> rfl
  constructor
  · rintro ⟨-, hkey, hfits⟩
    rw [key_recordOf, keySize_attributes] at hkey
    exact ⟨hkey, hvalue.mp hfits⟩
  · rintro ⟨hkey, hsuits⟩
    refine ⟨?_, ?_, hvalue.mpr hsuits⟩
    · rw [format_recordOf, format_attributes]
    · rwa [key_recordOf, keySize_attributes]

theorem keys_recordOf (job : Job) (first : ByteArray × ByteArray)
    (entries : List (ByteArray × ByteArray)) :
    (entries.map (recordOf job.format)).map (fun record =>
        Bytes.resize record.key (job.attributes first.1 first.2).keySize) =
      entries.map fun entry => Bytes.resize entry.1 first.1.size := by
  rw [List.map_map, keySize_attributes]
  exact List.map_congr_left fun entry _ => congrArg (Bytes.resize · _) (key_recordOf _ entry)

/-- Lines are accepted when the run of their records goes through. -/
theorem accepts_iff {job : Job} {volume opened : Volume} {data : List UInt8} {file : FileId}
    {first : ByteArray × ByteArray} {entries : List (ByteArray × ByteArray)}
    (hfaults : volume.faults = FaultPlan.none) (hpage : defaultPageSize volume = 4096)
    (hopen : volume.openEmpty job.output = .ok (file, opened))
    (hsaid : List.Forall₂ Says (lines data) (first :: entries)) :
    job.Accepts data first (first :: entries) ↔
      ∃ built after, build volume job.output (job.attributes first.1 first.2) {}
          [.putMany ((first :: entries).map (recordOf job.format))] = (.ok built, after) ∧
        built.accepted = (first :: entries).map (recordOf job.format) := by
  have hsize : pageSize volume {} = 4096 := hpage
  have hlength : (lines data).length = job.records ↔
      ((first :: entries).map (recordOf job.format)).length =
        (job.attributes first.1 first.2).recordCount := by
    rw [hsaid.length_eq, List.length_map, recordCount_attributes]
  rw [exists_build_putMany_iff hfaults rfl hopen, keys_recordOf, hsize, ← hlength,
    List.forall_mem_map]
  simp only [suits_recordOf_iff]
  constructor
  · rintro ⟨-, -, hcount, hplan, hkey, hvalue, hkeys⟩
    exact ⟨hplan, hcount, fun entry hentry => ⟨hkey entry hentry, hvalue entry hentry⟩,
      fun _ => hkeys⟩
  · rintro ⟨hplan, hcount, hsuits, hkeys⟩
    exact ⟨hsaid, rfl, hcount, hplan, fun entry hentry => (hsuits entry hentry).1,
      fun entry hentry => (hsuits entry hentry).2, hkeys trivial⟩

theorem eq_of_forall₂ {lines : List (List UInt8)} {entries others : List (ByteArray × ByteArray)}
    (h : List.Forall₂ Says lines entries) (h' : List.Forall₂ Says lines others) :
    entries = others := by
  induction h generalizing others with
  | nil => exact (List.forall₂_nil_left_iff.mp h').symm
  | cons hentry _ ih =>
    obtain ⟨other, more, hother, hmore, rfl⟩ := List.forall₂_cons_left_iff.mp h'
    rw [hentry.unique hother, ih hmore]

theorem exists_line {lines : List (List UInt8)} {entries : List (ByteArray × ByteArray)}
    (h : List.Forall₂ Says lines entries) : ∀ entry ∈ entries, ∃ line, Says line entry := by
  induction h with
  | nil => simp
  | cons hentry _ ih => exact List.forall_mem_cons.mpr ⟨⟨_, hentry⟩, ih⟩

/-! ## What is shown -/

open Utf8

/-- What is shown of a line: its key in full width and, where there are values, its value. -/
def Shows (format : Format) (keySize : ℕ) (entry : ByteArray × ByteArray) (shown : Json) : Prop :=
  ∃ key value : String, key.toByteArray = Bytes.resize entry.1 keySize ∧
    value.toByteArray = entry.2 ∧
    shown = .fields (("key", .string key) ::
      if format = .atom then [] else [("value", .string value)])

theorem exists_text {data : ByteArray} (h : IsText data.data.toList) :
    ∃ text : String, text.toByteArray = data := by
  obtain ⟨text, htext⟩ := h
  refine ⟨text, htext.trans (ByteArray.ext ?_)⟩
  rw [List.data_toByteArray, Array.toArray_toList]

theorem isText_resize {data : ByteArray} {size : ℕ} (h : IsText data.data.toList)
    (hsize : data.size ≤ size) : IsText (Bytes.resize data size).data.toList := by
  rw [Bytes.toList_resize hsize, isText_append_left]
  · exact h
  · intro byte hbyte
    rw [List.eq_of_mem_replicate hbyte]
    decide

theorem shows_describeRecord {format : Format} {keySize : ℕ} {line : List UInt8}
    {entry : ByteArray × ByteArray} (hsaid : Says line entry) (hkey : entry.1.size ≤ keySize) :
    Shows format keySize entry
      (Reader.describeRecord (recordOf format (Bytes.resize entry.1 keySize, entry.2))) := by
  obtain ⟨key, hpadded⟩ := exists_text (isText_resize hsaid.isText.1 hkey)
  obtain ⟨value, hvalue⟩ := exists_text hsaid.isText.2
  refine ⟨key, value, hpadded, hvalue, ?_⟩
  unfold Reader.describeRecord recordOf
  rw [← hpadded, ← hvalue]
  cases format <;> simp [Record.ofFormat, Record.key, Record.value?, lossy_toByteArray]

/-! ## The index of a stream -/

namespace Sample

def job : Job := ⟨.blob, 2, "t"⟩

/-- The lines "a,x" and "b, y", the second one with a carriage return. -/
def data : List UInt8 := [97, 44, 120, 10, 98, 44, 32, 121, 13, 10]

def first : ByteArray × ByteArray := ([97].toByteArray, [120].toByteArray)

def second : ByteArray × ByteArray := ([98].toByteArray, [121].toByteArray)

def layout : Layout :=
  { pageSize := 4096
    keySize := 1
    recordCount := 2
    encoding := .blob
    leafRecordSize := 9
    recordsPerLeafPage := 455
    leafPages := 1
    leafOffset := 4096
    valueOffset := 8192
    branchingFactor := 455
    levels := [] }

theorem plan_eq : Layout.plan (job.attributes first.1 first.2) 4096 = .ok layout := by
  decide +kernel

theorem padded_eq : [first, second].map (fun entry =>
    recordOf job.format (Bytes.resize entry.1 first.1.size, entry.2)) =
      [recordOf .blob first, recordOf .blob second] := by
  decide +kernel

theorem described_eq : [recordOf .blob first, recordOf .blob second].map Reader.describeRecord =
    [.fields [("key", .string "a"), ("value", .string "x")],
      .fields [("key", .string "b"), ("value", .string "y")]] := by
  cbv

theorem size_values_lt : layout.leafEnd + (Image.values layout
    ([first, second].map (recordOf job.format)) 2).size < Size.limit := by
  decide +kernel

theorem accepts : job.Accepts data first [first, second] := by
  have hlines : lines data = [[97, 44, 120], [98, 44, 32, 121, 13]] := rfl
  refine ⟨?_, rfl, rfl, ⟨layout, plan_eq⟩, by decide, ?_, ?_⟩
  · have hfirst : Says [97, 44, 120] first := says_iff.mpr ⟨⟨"a,x", rfl⟩, rfl⟩
    have hsecond : Says [98, 44, 32, 121, 13] second := says_iff.mpr ⟨⟨"b, y\r", rfl⟩, rfl⟩
    rw [hlines]
    exact .cons hfirst (.cons hsecond .nil)
  · exact (by decide : ∀ entry ∈ [first, second], entry.2.size < Size.blobLimit)
  · unfold KeyOrder.Increasing
    decide +kernel

end Sample

/-- On a volume where no request fails, with pages of 4096 bytes, lines build an index exactly when
they are accepted. The index then holds what the lines say, in their order, with padded keys, and
its description lists the same texts, item by item. The lines must not come from the output itself,
which is emptied when the first of them has been read. -/
theorem run_exact {job : Job} {volume opened : Volume} {input : Input} {data : List UInt8}
    {file : FileId} (hfaults : volume.faults = FaultPlan.none)
    (hpage : defaultPageSize volume = 4096)
    (hopen : volume.openEmpty job.output = .ok (file, opened))
    (hrest : input.rest volume = some data) (hapart : input.Apart file) :
    ((∃ after, job.run volume input = (.ok (), after)) ↔
      ∃ first entries, job.Accepts data first entries) ∧
    ∀ after first entries, job.run volume input = (.ok (), after) →
      job.Accepts data first entries →
      ∃ bytes, after.read job.output = .ok bytes ∧
        (bytes.size < Size.limit → ∃ reader records described,
          Reader.openPath after job.output KeyOrder.bytewise = .ok reader ∧
          records = entries.map (fun entry =>
            recordOf job.format (Bytes.resize entry.1 first.1.size, entry.2)) ∧
          reader.records = records.map .ok ∧
          reader.describe true = .ok described ∧
          described.itemsAt? ["pagetree", "records"] =
            some (records.map Reader.describeRecord) ∧
          List.Forall₂ (Shows job.format first.1.size) entries
            (records.map Reader.describeRecord)) := by
  have hrun : ∀ after, job.run volume input = (.ok (), after) ↔ _ :=
    fun _ => run_eq_ok hopen hrest hapart
  refine ⟨⟨?_, ?_⟩, ?_⟩
  · rintro ⟨after, hok⟩
    obtain ⟨first, entries, built, hsaid, hbuild⟩ := (hrun after).mp hok
    exact ⟨first, first :: entries,
      (accepts_iff hfaults hpage hopen hsaid).mpr ⟨built, after, hbuild⟩⟩
  · rintro ⟨first, entries, haccepts⟩
    obtain ⟨more, rfl⟩ := List.head?_eq_some_iff.mp haccepts.head_eq
    have hsaid := haccepts.lines_say
    obtain ⟨built, after, hbuild⟩ := (accepts_iff hfaults hpage hopen hsaid).mp haccepts
    exact ⟨after, (hrun after).mpr ⟨first, more, built, hsaid, hbuild⟩⟩
  · intro after first entries hok haccepts
    obtain ⟨head, more, built, hsaid, hbuild, haccepted⟩ := (hrun after).mp hok
    obtain rfl := eq_of_forall₂ haccepts.lines_say hsaid
    obtain rfl : head = first := Option.some.inj haccepts.head_eq
    obtain ⟨file, hleaves⟩ := build_spec hbuild
    refine ⟨_, hleaves.read_eq, fun hlimit => ?_⟩
    rw [← hleaves.finished.toBytes_eq, Content.size_toBytes, ← hleaves.size_eq] at hlimit
    obtain ⟨reader, hreader, -, -, -, -, -, hrecords, -⟩ :=
      records_build hbuild hlimit KeyOrder.bytewise
    have hlisted : reader.records = ((head :: more).map fun entry =>
        recordOf job.format (Bytes.resize entry.1 head.1.size, entry.2)).map .ok := by
      rw [hrecords, haccepted, keySize_attributes, List.map_map, List.map_map]
      exact List.map_congr_left fun entry _ => congrArg Except.ok (padded_recordOf _ entry _)
    refine ⟨reader, _, _, hreader, rfl, hlisted, Reader.describe_eq_ok_iff.mpr ⟨_, hlisted, rfl⟩,
      Reader.itemsAt?_document _, ?_⟩
    rw [List.map_map, List.forall₂_map_right_iff, List.forall₂_same]
    intro entry hentry
    obtain ⟨line, hline⟩ := exists_line hsaid entry hentry
    exact shows_describeRecord hline (haccepts.key_le entry hentry)

/-- Two lines, the second one with a space before its value and a carriage return behind it. -/
theorem run_exact_sample : ∃ after reader described,
    Sample.job.run Writer.Sample.volume (.ofBytes Sample.data.toByteArray) = (.ok (), after) ∧
      Reader.openPath after "t" KeyOrder.bytewise = .ok reader ∧
      reader.records = [recordOf .blob Sample.first, recordOf .blob Sample.second].map .ok ∧
      reader.describe true = .ok described ∧
      described.itemsAt? ["pagetree", "records"] =
        some [.fields [("key", .string "a"), ("value", .string "x")],
          .fields [("key", .string "b"), ("value", .string "y")]] := by
  have hopen : Writer.Sample.volume.openEmpty Sample.job.output = _ := Writer.Sample.openEmpty_eq
  have hrest : (Input.ofBytes Sample.data.toByteArray).rest Writer.Sample.volume =
      some Sample.data := Input.rest_ofBytes _ _
  have hapart := Input.apart_of_fetched Sample.data.toByteArray 0 0
  obtain ⟨haccepted, hindex⟩ := run_exact rfl rfl hopen hrest hapart
  obtain ⟨after, hrun⟩ := haccepted.mpr ⟨_, _, Sample.accepts⟩
  obtain ⟨bytes, hread, hopens⟩ := hindex after _ _ hrun Sample.accepts
  have hsize : bytes.size < Size.limit := by
    obtain ⟨_, _, built, hsaid, hbuild, htaken⟩ := (run_eq_ok hopen hrest hapart).mp hrun
    cases eq_of_forall₂ Sample.accepts.lines_say hsaid
    obtain ⟨file, hleaves⟩ := build_spec hbuild
    have hplan := (build_bytes hbuild).1.symm.trans Sample.plan_eq
    have hbytes := hread.symm.trans hleaves.read_eq
    have hpaged := hleaves.finished.paged.size_eq
    rw [Except.ok.injEq] at hplan hbytes
    rw [hbytes, ← hleaves.finished.toBytes_eq, Content.size_toBytes, hpaged, hplan, htaken]
    exact Sample.size_values_lt
  obtain ⟨reader, records, described, hreader, rfl, hrecords, hdescribed, hlisted, -⟩ :=
    hopens hsize
  rw [Sample.padded_eq] at hrecords hlisted
  rw [Sample.described_eq] at hlisted
  exact ⟨after, reader, described, hrun, hreader, hrecords, hdescribed, hlisted⟩

end PackedIndex.Load
