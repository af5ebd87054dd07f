import PackedIndex.Proofs.Loading
/-! # Line by line

Lines are taken one by one, until one of them is at fault or none is left. So the lines up to the
one at fault settle what comes of a stream. A line at fault is named, and the file is removed.
-/
namespace PackedIndex.Load

open Outcome Writer

/-! ## Lines with their ends -/

/-- The lines of a stream, with the line feeds that end them. The last line may lack one. -/
def rawLines : List UInt8 → List (List UInt8)
  | [] => []
  | byte :: data =>
    if byte = 10 then [10] :: rawLines data
    else
      match rawLines data with
      | [] => [[byte]]
      | line :: more => (byte :: line) :: more

theorem rawLines_cons {byte : UInt8} (h : byte ≠ 10) (data : List UInt8) :
    rawLines (byte :: data) =
      match rawLines data with
      | [] => [[byte]]
      | line :: more => (byte :: line) :: more :=
  if_neg h

theorem firstLine_cons {byte : UInt8} (h : byte ≠ 10) (data : List UInt8) :
    firstLine (byte :: data) = byte :: firstLine data := by
  rw [firstLine, bareLine_cons h, List.length_cons, List.take_succ_cons]
  rfl

theorem rawLines_eq {data : List UInt8} (h : data ≠ []) :
    rawLines data = firstLine data :: rawLines (behindLine data) := by
  induction data with
  | nil => exact absurd rfl h
  | cons byte data ih =>
    by_cases hfeed : byte = 10
    · rw [hfeed]
      rfl
    · rw [rawLines_cons hfeed, firstLine_cons hfeed, behindLine_cons hfeed]
      cases data with
      | nil => rfl
      | cons next data => rw [ih (List.cons_ne_nil _ _)]

/-! ## All lines -/

def Job.takeAll (job : Job) (volume : Volume) (writer : Option Writer) (number : ℕ) :
    List (List UInt8) → Except Failure (Option Writer) × Volume
  | [] => (.ok writer, volume)
  | line :: more =>
    match job.takeLine volume writer number line.toByteArray with
    | (.error failure, volume) => (.error failure, volume)
    | (.ok writer, volume) => job.takeAll volume (some writer) (number + 1) more

def conclude (volume : Volume) : Option Writer → Except Failure Unit × Volume
  | none => (.error .noLines, volume)
  | some writer =>
    match writer.finish volume with
    | (.ok _, volume) => (.ok (), volume)
    | (.error cause, volume) => (.error (.cannotFinish cause), volume)

/-- The file of a writer, or of the first one to come. -/
def Job.On (job : Job) (file : FileId) (volume : Volume) : Option Writer → Prop
  | none => ∃ opened, volume.openEmpty job.output = .ok (file, opened)
  | some writer => writer.file = file

section

variable {job : Job} {volume after : Volume} {start : Option Writer} {next : Writer} {input : Input}
  {file : FileId} {number most : ℕ} {line data : List UInt8} {failure : Failure}

theorem takeLine_frame (hon : job.On file volume start)
    (h : job.takeLine volume start number line.toByteArray = (.ok next, after)) :
    next.file = file ∧ Volume.SameBeside file volume after := by
  obtain ⟨entry, writer, created, -, hwriter, hput⟩ := (takeLine_eq_ok_iff start).mp h
  obtain ⟨halike, hbeside⟩ := put_frame hput
  cases start with
  | none =>
    obtain ⟨opened, hopen⟩ := hon
    obtain ⟨-, hfile, -, hcreated⟩ := create_frame hopen (writerFor_none_eq_ok.mp hwriter)
    rw [hfile] at hbeside
    exact ⟨halike.file_eq.trans hfile, hcreated.trans hbeside⟩
  | some writer =>
    cases hwriter
    have hfile : writer.file = file := hon
    rw [hfile] at hbeside
    exact ⟨halike.file_eq.trans hfile, hbeside⟩

theorem takeLines_succ (job : Job) (hrest : input.rest volume = some data) (hdata : data ≠ [])
    (start : Option Writer) (number most : ℕ) :
    ∃ further, further.rest volume = some (behindLine data) ∧
      (∀ file, input.Apart file → further.Apart file) ∧
      job.takeLines volume start input number (most + 1) =
        match job.takeLine volume start number (firstLine data).toByteArray with
        | (.error failure, after) => (.error failure, after)
        | (.ok next, after) => job.takeLines after (some next) further (number + 1) most := by
  obtain ⟨further, hline, hnext, hkept⟩ := Input.line_spec hrest
  refine ⟨further, hnext, hkept, ?_⟩
  conv_lhs => unfold Job.takeLines
  rw [hline]
  exact if_neg fun hsize => hdata (size_firstLine_eq_zero.mp hsize)

/-- A stream whose first line is taken goes on with what is behind it, as it would have before. -/
theorem takeLines_of_taken (hon : job.On file volume start)
    (hrest : input.rest volume = some data) (hapart : input.Apart file) (hdata : data ≠ [])
    (htake : job.takeLine volume start number (firstLine data).toByteArray = (.ok next, after))
    (most : ℕ) :
    ∃ further, job.On file after (some next) ∧ further.rest after = some (behindLine data) ∧
      further.Apart file ∧ job.takeLines volume start input number (most + 1) =
        job.takeLines after (some next) further (number + 1) most := by
  obtain ⟨further, hnext, hkept, hstep⟩ := takeLines_succ job hrest hdata start number most
  obtain ⟨hfile, hbeside⟩ := takeLine_frame hon htake
  have hfurther := hkept file hapart
  refine ⟨further, hfile, (Input.rest_congr hfurther hbeside).trans hnext, hfurther, ?_⟩
  rw [hstep, htake]

/-- A line at fault ends the run, whatever comes behind it. -/
theorem takeLines_of_error {front back : List (List UInt8)} (hon : job.On file volume start)
    (hrest : input.rest volume = some data) (hapart : input.Apart file)
    (hlines : rawLines data = front ++ back) (hmost : front.length ≤ most)
    (h : job.takeAll volume start number front = (.error failure, after)) :
    job.takeLines volume start input number most = (.error failure, after) := by
  induction front generalizing volume start input data number most with
  | nil => cases h
  | cons line front ih =>
    have hdata : data ≠ [] := by
      rintro rfl
      cases hlines
    rw [rawLines_eq hdata, List.cons_append, List.cons.injEq] at hlines
    obtain ⟨rfl, hbehind⟩ := hlines
    rw [List.length_cons] at hmost
    obtain ⟨most, rfl⟩ := Nat.exists_eq_add_of_le' (Nat.one_le_of_lt hmost)
    unfold Job.takeAll at h
    rcases htake : job.takeLine volume start number (firstLine data).toByteArray with
      ⟨other | next, later⟩
    · rw [htake] at h
      cases h
      obtain ⟨further, -, -, hstep⟩ := takeLines_succ job hrest hdata start number most
      rw [hstep, htake]
    · rw [htake] at h
      obtain ⟨further, hnext, hrest', hapart', hstep⟩ :=
        takeLines_of_taken hon hrest hapart hdata htake most
      rw [hstep]
      exact ih hnext hrest' hapart' hbehind (Nat.le_of_succ_le_succ hmost) h

theorem takeLines_of_ok {last : Option Writer} (hon : job.On file volume start)
    (hrest : input.rest volume = some data) (hapart : input.Apart file)
    (hmost : (rawLines data).length < most)
    (h : job.takeAll volume start number (rawLines data) = (.ok last, after)) :
    job.takeLines volume start input number most = conclude after last := by
  induction most generalizing volume start input data number with
  | zero => cases hmost
  | succ most ih =>
    by_cases hdata : data = []
    · obtain ⟨further, hline, -, -⟩ := Input.line_spec hrest
      subst hdata
      cases h
      unfold Job.takeLines
      rw [hline]
      cases last with
      | none => rfl
      | some writer => rfl
    · rw [rawLines_eq hdata] at h hmost
      unfold Job.takeAll at h
      rcases htake : job.takeLine volume start number (firstLine data).toByteArray with
        ⟨other | next, later⟩
      · rw [htake] at h
        cases h
      · rw [htake] at h
        obtain ⟨further, hnext, hrest', hapart', hstep⟩ :=
          takeLines_of_taken hon hrest hapart hdata htake most
        rw [hstep]
        exact ih hnext hrest' hapart' (Nat.lt_of_succ_lt_succ hmost) h

end

/-! ## What a failure names -/

def Failure.line? : Failure → Option ℕ
  | cannotRead line _ | malformed line _ | pairSizes line | blockSizes line | refused line _ =>
    some line
  | cannotOpen .. | cannotCreate .. | noLines | cannotFinish _ => none

/-- A failure that names a line and leaves no file. -/
structure Job.Blames (job : Job) (number : ℕ) (failure : Failure) (after : Volume) : Prop where
  line?_eq : failure.line? = some number
  existing_eq : after.existing job.output = .error .noSuchFile

theorem Failure.exists_chain_of_line? {failure : Failure} {number : ℕ}
    (h : failure.line? = some number) : ∃ before behind causes,
      failure.chain = (before ++ s!"line {number}" ++ behind) :: causes := by
  have htext : ∀ text : String, toString text = text := fun _ => rfl
  have hread : "cannot read line " ++ number.repr = "cannot read " ++ ("line " ++ number.repr) := by
    rw [← String.append_assoc]
    rfl
  cases failure with
  | cannotRead line cause =>
    cases h
    exact ⟨"cannot read ", "", [cause.message], by simp [chain, htext, hread]⟩
  | malformed line text =>
    cases h
    exact ⟨"", " is not `key,value`: " ++ Quoted.quote text, [],
      by simp [chain, htext, String.append_assoc]⟩
  | pairSizes line =>
    cases h
    exact ⟨"", ": 'pair' format requires keys and values of the same size", [],
      by simp [chain, htext, String.append_assoc]⟩
  | blockSizes line =>
    cases h
    exact ⟨"", ": 'block' format requires all values to be the same size", [],
      by simp [chain, htext, String.append_assoc]⟩
  | refused line cause =>
    cases h
    exact ⟨"", "", cause.chain, by simp [chain, htext]⟩
  | cannotOpen => cases h
  | cannotCreate => cases h
  | noLines => cases h
  | cannotFinish => cases h

section

variable {number : ℕ} {line : ByteArray} {failure : Failure}

theorem line?_of_parseLine {cause : Failure} (h : parseLine number line = .error cause) :
    cause.line? = some number := by
  unfold parseLine at h
  split at h
  · cases h
    rfl
  · dsimp only at h
    split at h
    · cases h
      rfl
    · cases h

theorem line?_of_record {attributes : Attributes} {key value : ByteArray}
    (h : record attributes number key value = .error failure) : failure.line? = some number := by
  unfold record at h
  split at h
  · cases h
  · split_ifs at h
    cases h
    rfl
  · split_ifs at h
    cases h
    rfl
  · cases h

end

/-! ## What a failure leaves -/

/-- A writer whose file is at its path, and which has not let go of it. -/
structure Holding (volume : Volume) (writer : Writer) : Prop where
  exists_file : ∃ file, volume.existing writer.path = .ok (.file file)
  state_eq : writer.state = .accepting ∨ writer.state = .failed

section

variable {job : Job} {volume after : Volume} {writer next : Writer} {failure : Failure}

theorem Holding.of_continues (h : Holding volume writer)
    (hcontinues : Continues writer volume next after) : Holding after next := by
  obtain ⟨file, hexisting⟩ := h.exists_file
  refine ⟨⟨file, ?_⟩, ?_⟩
  · rw [hcontinues.path_eq, hcontinues.sameNames.existing_eq, hexisting]
  · rcases hcontinues.state_eq with hkept | hfailed
    · rw [hkept]
      exact h.state_eq
    · exact Or.inr hfailed

theorem Holding.existing_drop (h : Holding volume writer) :
    (writer.drop volume).existing writer.path = .error .noSuchFile := by
  obtain ⟨file, hexisting⟩ := h.exists_file
  exact Writer.existing_drop hexisting h.state_eq

theorem holding_of_create {created : Volume} {path : String} {attributes : Attributes}
    {options : Options} (hcreate : create volume path attributes options = (.ok writer, created))
    (calls : List Call) {session : Session}
    (hcalls : Session.calls ⟨[], writer, created⟩ calls = session) :
    session.writer.path = path ∧ Holding session.volume session.writer := by
  obtain ⟨hpath, hexisting, hstate⟩ := session_of_create hcreate calls hcalls
  exact ⟨hpath, ⟨_, hpath ▸ hexisting⟩, hstate⟩

/-- A line at fault is named, and the file of the writer is removed. -/
theorem takeLine_spec (h : Holding volume writer) (job : Job) (number : ℕ) (line : ByteArray) :
    (∃ next after, job.takeLine volume (some writer) number line = (.ok next, after) ∧
      Continues writer volume next after) ∨
    ∃ failure after, job.takeLine volume (some writer) number line = (.error failure, after) ∧
      failure.line? = some number ∧ after.existing writer.path = .error .noSuchFile := by
  unfold Job.takeLine
  rcases hparse : parseLine number line with cause | entry
  · exact Or.inr ⟨cause, _, rfl, line?_of_parseLine hparse, h.existing_drop⟩
  dsimp only [Job.writerFor]
  rcases hrecord : record writer.header.attributes number entry.1 entry.2 with cause | r
  · exact Or.inr ⟨cause, _, rfl, line?_of_record hrecord, h.existing_drop⟩
  dsimp only
  have hcontinues := put_continues writer volume r
  rcases hput : writer.put volume r with ⟨⟨cause⟩ | ⟨⟨⟩⟩, next, later⟩
  · rw [hput] at hcontinues
    have hgone := (h.of_continues hcontinues).existing_drop
    rw [hcontinues.path_eq] at hgone
    exact Or.inr ⟨.refused number cause, _, rfl, rfl, hgone⟩
  · rw [hput] at hcontinues
    exact Or.inl ⟨next, later, rfl, hcontinues⟩

theorem existing_of_conclude (h : Holding volume writer)
    (hfailed : conclude volume (some writer) = (.error failure, after)) :
    after.existing writer.path = .error .noSuchFile := by
  obtain ⟨file, hexisting⟩ := h.exists_file
  have hfinish := existing_finish hexisting h.state_eq
  unfold conclude at hfailed
  dsimp only at hfailed
  rcases hresult : writer.finish volume with ⟨error | size, later⟩
  · rw [hresult] at hfailed hfinish
    cases hfailed
    rcases hfinish with ⟨⟨size, hsize⟩, -⟩ | ⟨-, hgone⟩
    · cases hsize
    · exact hgone
  · rw [hresult] at hfailed
    cases hfailed

/-- Whatever keeps lines from being taken to the end, and whatever requests fail on the way, the
file is removed. -/
theorem existing_of_takeLines {input : Input} {number most : ℕ} (h : Holding volume writer)
    (hfailed : job.takeLines volume (some writer) input number most = (.error failure, after)) :
    after.existing writer.path = .error .noSuchFile := by
  induction most generalizing volume writer input number with
  | zero =>
    cases hfailed
    exact h.existing_drop
  | succ most ih =>
    unfold Job.takeLines at hfailed
    rcases hline : input.line volume with ⟨cause | line, further⟩
    · rw [hline] at hfailed
      cases hfailed
      exact h.existing_drop
    rw [hline] at hfailed
    dsimp only at hfailed
    split_ifs at hfailed
    · exact existing_of_conclude h hfailed
    · rcases takeLine_spec h job number line with
        ⟨next, later, htake, hcontinues⟩ | ⟨cause, later, htake, -, hgone⟩
      · rw [htake] at hfailed
        rw [← hcontinues.path_eq]
        exact ih (h.of_continues hcontinues) hfailed
      · rw [htake] at hfailed
        cases hfailed
        exact hgone

end

end PackedIndex.Load
