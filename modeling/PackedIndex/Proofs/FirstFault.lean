import PackedIndex.Proofs.LineByLine
/-! # The first line at fault

What comes of a stream is settled by its lines up to the first one at fault: that line is named, and
no file is left. Nothing at all is touched before the first line has given attributes that can be
used.
-/
namespace PackedIndex.Load

open Outcome Writer

/-! ## What a writer of lines takes -/

/-- Entries that a writer takes whose attributes come from a first entry: there is a place for each
of them, keys and values have sizes that suit, and padded keys increase. -/
structure Job.Fits (job : Job) (first : ByteArray × ByteArray)
    (entries : List (ByteArray × ByteArray)) : Prop where
  length_le : entries.length ≤ job.records
  key_le : ∀ entry ∈ entries, entry.1.size ≤ first.1.size
  value_suits : ∀ entry ∈ entries, ValueSuits job.format first entry
  increasing : KeyOrder.bytewise.Increasing
    (entries.map fun entry => Bytes.resize entry.1 first.1.size)

def Job.Takes (job : Job) (first : ByteArray × ByteArray) (lines : List (List UInt8)) : Prop :=
  ∃ entries, List.Forall₂ Says lines entries ∧ job.Fits first entries

theorem Job.Fits.take {job : Job} {first : ByteArray × ByteArray}
    {entries : List (ByteArray × ByteArray)} (h : job.Fits first entries) (count : ℕ) :
    job.Fits first (entries.take count) := by
  refine ⟨(List.length_take_le' ..).trans h.length_le, ?_, ?_, ?_⟩
  · exact fun entry hentry => h.key_le entry (List.mem_of_mem_take hentry)
  · exact fun entry hentry => h.value_suits entry (List.mem_of_mem_take hentry)
  · rw [List.map_take]
    exact h.increasing.take count

theorem Job.Takes.of_append {job : Job} {first : ByteArray × ByteArray}
    {front back : List (List UInt8)} (h : job.Takes first (front ++ back)) :
    job.Takes first front := by
  obtain ⟨entries, hsaid, hfits⟩ := h
  have hfront := List.forall₂_take front.length hsaid
  rw [List.take_left] at hfront
  exact ⟨_, hfront, hfits.take _⟩

theorem Job.not_takes_concat {job : Job} {first : ByteArray × ByteArray}
    {front : List (List UInt8)} {line : List UInt8} {entries : List (ByteArray × ByteArray)}
    (hfront : List.Forall₂ Says front entries)
    (hline : ∀ entry, Says line entry → ¬job.Fits first (entries ++ [entry])) :
    ¬job.Takes first (front ++ [line]) := by
  rintro ⟨all, hall, hfits⟩
  have htake := List.forall₂_take front.length hall
  have hdrop := List.forall₂_drop front.length hall
  rw [List.take_left] at htake
  rw [List.drop_left] at hdrop
  obtain ⟨entry, _, hentry, hnil, hback⟩ := List.forall₂_cons_left_iff.mp hdrop
  obtain rfl := List.forall₂_nil_left_iff.mp hnil
  rw [← all.take_append_drop front.length, hback, ← eq_of_forall₂ hfront htake] at hfits
  exact hline entry hentry hfits

theorem Job.fits_nil (job : Job) (first : ByteArray × ByteArray) : job.Fits first [] :=
  ⟨Nat.zero_le _, by simp, by simp, .nil⟩

theorem increasing_concat_iff {order : KeyOrder} {keys : List ByteArray} {key : ByteArray} :
    order.Increasing (keys ++ [key]) ↔
      order.Increasing keys ∧ ∀ last ∈ keys.getLast?, order last key = .lt := by
  unfold KeyOrder.Increasing
  rw [List.isChain_append]
  constructor
  · rintro ⟨hkeys, -, hlast⟩
    exact ⟨hkeys, fun last hmem => hlast last hmem key rfl⟩
  · rintro ⟨hkeys, hlast⟩
    refine ⟨hkeys, .singleton key, fun last hmem next hnext => ?_⟩
    cases hnext
    exact hlast last hmem

theorem Job.fits_concat_iff {job : Job} {first entry : ByteArray × ByteArray}
    {entries : List (ByteArray × ByteArray)} :
    job.Fits first (entries ++ [entry]) ↔ job.Fits first entries ∧ entries.length < job.records ∧
      (entry.1.size ≤ first.1.size ∧ ValueSuits job.format first entry) ∧
      ∀ last ∈ entries.getLast?,
        KeyOrder.bytewise (Bytes.resize last.1 first.1.size) (Bytes.resize entry.1 first.1.size) =
          .lt := by
  have hchain : KeyOrder.bytewise.Increasing
        ((entries ++ [entry]).map fun entry => Bytes.resize entry.1 first.1.size) ↔
      KeyOrder.bytewise.Increasing (entries.map fun entry => Bytes.resize entry.1 first.1.size) ∧
        ∀ last ∈ entries.getLast?,
          KeyOrder.bytewise (Bytes.resize last.1 first.1.size)
            (Bytes.resize entry.1 first.1.size) = .lt := by
    rw [List.map_append, List.map_singleton, increasing_concat_iff, List.getLast?_map,
      Option.forall_mem_map]
  constructor
  · rintro ⟨hlength, hkey, hvalue, hkeys⟩
    obtain ⟨hfront, hlast⟩ := hchain.mp hkeys
    rw [List.length_append, List.length_singleton] at hlength
    rw [List.forall_mem_append] at hkey hvalue
    exact ⟨⟨by omega, hkey.1, hvalue.1, hfront⟩, hlength,
      ⟨hkey.2 entry (List.mem_singleton_self _), hvalue.2 entry (List.mem_singleton_self _)⟩, hlast⟩
  · rintro ⟨⟨-, hkey, hvalue, hfront⟩, hlength, ⟨hsize, hsuits⟩, hlast⟩
    refine ⟨?_, ?_, ?_, hchain.mpr ⟨hfront, hlast⟩⟩
    · rwa [List.length_append, List.length_singleton]
    · exact List.forall_mem_append.mpr ⟨hkey, List.forall_mem_singleton.mpr hsize⟩
    · exact List.forall_mem_append.mpr ⟨hvalue, List.forall_mem_singleton.mpr hsuits⟩

/-- A session of a run over lines, begun with the creation of a writer, that has taken some
entries. -/
structure Underway (job : Job) (volume : Volume) (first : ByteArray × ByteArray)
    (entries : List (ByteArray × ByteArray)) (session : Session) : Prop where
  fits : job.Fits first entries
  reached : ∃ writer created,
    create volume job.output (job.attributes first.1 first.2) {} = (.ok writer, created) ∧
      Session.calls ⟨[], writer, created⟩
        (entries.map fun entry => .put (recordOf job.format entry)) = session
  accepted_eq : session.accepted = entries.map (recordOf job.format)
  order_eq : session.writer.order = KeyOrder.bytewise

section

variable {job : Job} {volume opened : Volume} {first entry : ByteArray × ByteArray}
  {entries : List (ByteArray × ByteArray)} {session : Session} {file : FileId} {number : ℕ}
  {line : List UInt8}

theorem underway_start {writer : Writer} {created : Volume}
    (hopen : volume.openEmpty job.output = .ok (file, opened))
    (hcreate : create volume job.output (job.attributes first.1 first.2) {} =
      (.ok writer, created)) : Underway job volume first [] ⟨[], writer, created⟩ :=
  ⟨job.fits_nil first, ⟨writer, created, hcreate, rfl⟩, rfl, (create_frame hopen hcreate).2.2.1⟩

namespace Underway

variable (h : Underway job volume first entries session) (hfaults : volume.faults = FaultPlan.none)
include h

theorem holding : session.writer.path = job.output ∧ Holding session.volume session.writer := by
  obtain ⟨writer, created, hcreate, hcalls⟩ := h.reached
  exact holding_of_create hcreate _ hcalls

include hfaults

theorem progress : ∃ layout content, layout.Planned (job.attributes first.1 first.2) ∧
    Progress (job.attributes first.1 first.2) {} layout session.accepted session.writer
      content := by
  obtain ⟨writer, created, hcreate, hcalls⟩ := h.reached
  exact (progress_or_failed hcreate _ hcalls).resolve_right fun hne => hne.1 hfaults

/-- The next entry is admitted when it fits behind the ones before. -/
theorem admits_iff :
    session.Admits (job.attributes first.1 first.2) {} (recordOf job.format entry) ↔
      job.Fits first (entries ++ [entry]) := by
  obtain ⟨layout, content, -, hprogress⟩ := h.progress hfaults
  have hpreorder := KeyOrder.bytewise_isPreorder first.1.size
  have hwritten : session.writer.written = entries.length := by
    rw [hprogress.written_eq, h.accepted_eq, List.length_map]
  have hkeys : (∀ last ∈ session.accepted.getLast?,
        session.writer.order
          (Bytes.resize (recordOf job.format entry).key (job.attributes first.1 first.2).keySize)
          (Bytes.resize last.key (job.attributes first.1 first.2).keySize) = .gt) ↔
      ∀ last ∈ entries.getLast?,
        KeyOrder.bytewise (Bytes.resize last.1 first.1.size) (Bytes.resize entry.1 first.1.size) =
          .lt := by
    rw [h.accepted_eq, h.order_eq, List.getLast?_map, Option.forall_mem_map, keySize_attributes]
    refine forall₂_congr fun last _ => ?_
    rw [key_recordOf, key_recordOf,
      hpreorder.swap _ _ (Bytes.size_resize last.1 _) (Bytes.size_resize entry.1 _),
      Ordering.swap_eq_gt]
  rw [Job.fits_concat_iff, ← suits_recordOf_iff]
  constructor
  · rintro ⟨hroom, hformat, hkey, hvalue, hascending⟩
    rw [hwritten, recordCount_attributes] at hroom
    exact ⟨h.fits, hroom, ⟨hformat, hkey, hvalue⟩, hkeys.mp (hascending rfl)⟩
  · rintro ⟨-, hroom, ⟨hformat, hkey, hvalue⟩, hlast⟩
    refine ⟨?_, hformat, hkey, hvalue, fun _ => hkeys.mpr hlast⟩
    rwa [hwritten, recordCount_attributes]

theorem put (hfits : job.Fits first (entries ++ [entry])) :
    ∃ next later,
      session.writer.put session.volume (recordOf job.format entry) = (.ok (), next, later) ∧
        Underway job volume first (entries ++ [entry])
          ⟨session.accepted ++ [recordOf job.format entry], next, later⟩ := by
  obtain ⟨layout, content, hl, hprogress⟩ := h.progress hfaults
  obtain ⟨writer, created, hcreate, hcalls⟩ := h.reached
  have hadmits := (h.admits_iff hfaults).mpr hfits
  have hnext : Session.calls ⟨[], writer, created⟩
      ((entries ++ [entry]).map fun entry => .put (recordOf job.format entry)) =
        (session.put (recordOf job.format entry)).2 := by
    rw [List.map_append, Session.calls_append, hcalls]
    rfl
  have hok : (session.put (recordOf job.format entry)).1 = .ok () := by
    rcases Session.put_of_admits hl hprogress hadmits with hok | ⟨cause, hcause⟩
    · exact hok
    · -- a writer fails over a refused request, and no request is refused
      obtain ⟨key, happrove⟩ := (Session.approve_iff hl hprogress).mpr hadmits
      have hfailed := Session.state_of_put_error hprogress.state_eq happrove hcause
      rcases progress_or_failed hcreate _ hnext with ⟨_, _, _, hworks⟩ | ⟨hne, -⟩
      · rw [hworks.state_eq] at hfailed
        cases hfailed
      · exact absurd hfaults hne
  rcases hput : session.writer.put session.volume (recordOf job.format entry) with
    ⟨⟨error⟩ | ⟨⟨⟩⟩, next, later⟩
  · unfold Session.put at hok
    rw [hput] at hok
    cases hok
  · unfold Session.put at hnext
    rw [hput] at hnext
    refine ⟨next, later, rfl, hfits, ⟨writer, created, hcreate, hnext⟩, ?_, ?_⟩
    · rw [h.accepted_eq, List.map_append]
      rfl
    · exact (put_frame hput).1.order_eq.trans h.order_eq

theorem takeLine (number : ℕ) (line : List UInt8) :
    (∃ entry next, Says line entry ∧ Underway job volume first (entries ++ [entry]) next ∧
      job.takeLine session.volume (some session.writer) number line.toByteArray =
        (.ok next.writer, next.volume)) ∨
    (∀ entry, Says line entry → ¬job.Fits first (entries ++ [entry])) ∧
      ∃ failure after, job.Blames number failure after ∧
        job.takeLine session.volume (some session.writer) number line.toByteArray =
          (.error failure, after) := by
  obtain ⟨layout, content, hl, hprogress⟩ := h.progress hfaults
  have hformat : session.writer.header.attributes.format = job.format := by
    rw [hprogress.header_eq]
    exact format_attributes job first.1 first.2
  by_cases hfits : ∃ entry, Says line entry ∧ job.Fits first (entries ++ [entry])
  · obtain ⟨entry, hsaid, hfits⟩ := hfits
    obtain ⟨next, later, hput, hnext⟩ := h.put hfaults hfits
    rw [← hformat] at hput
    exact Or.inl ⟨entry, _, hsaid, hnext,
      (takeLine_eq_ok_iff _).mpr ⟨entry, _, _, hsaid, rfl, hput⟩⟩
  · push Not at hfits
    refine Or.inr ⟨hfits, ?_⟩
    rcases htake : job.takeLine session.volume (some session.writer) number line.toByteArray with
      ⟨failure | next, after⟩
    · obtain ⟨hpath, hholding⟩ := h.holding
      rcases takeLine_spec hholding job number line.toByteArray with
        ⟨_, _, htaken, -⟩ | ⟨_, _, hfailed, hline, hgone⟩
      · rw [htaken] at htake
        cases htake
      · rw [hfailed] at htake
        cases htake
        exact ⟨failure, after, ⟨hline, hpath ▸ hgone⟩, rfl⟩
    · -- a record that was taken was approved, so that its entry fits
      obtain ⟨entry, writer, created, hsaid, hwriter, hput⟩ := (takeLine_eq_ok_iff _).mp htake
      cases hwriter
      rw [hformat] at hput
      obtain ⟨key, -, happrove, -⟩ := put_eq_ok hput
      have hadmits := (Session.approve_iff hl hprogress).mp ⟨key, happrove⟩
      exact absurd ((h.admits_iff hfaults).mp hadmits) (hfits entry hsaid)

/-- All lines are taken, or those up to the first that is at fault. -/
theorem takeAll (number : ℕ) (lines : List (List UInt8)) :
    (∃ more last, List.Forall₂ Says lines more ∧
      Underway job volume first (entries ++ more) last ∧
      job.takeAll session.volume (some session.writer) number lines =
        (.ok (some last.writer), last.volume)) ∨
    ∃ front line back more failure after, lines = front ++ line :: back ∧
      List.Forall₂ Says front more ∧ job.Fits first (entries ++ more) ∧
      (∀ entry, Says line entry → ¬job.Fits first (entries ++ more ++ [entry])) ∧
      job.Blames (number + front.length) failure after ∧
      job.takeAll session.volume (some session.writer) number (front ++ [line]) =
        (.error failure, after) := by
  induction lines generalizing entries session number with
  | nil =>
    refine Or.inl ⟨[], session, .nil, ?_, rfl⟩
    rwa [List.append_nil]
  | cons line lines ih =>
    rcases h.takeLine hfaults number line with
      ⟨entry, next, hsaid, hnext, htake⟩ | ⟨hunfit, failure, after, hblames, htake⟩
    · have hstep : ∀ more, job.takeAll session.volume (some session.writer) number (line :: more) =
          job.takeAll next.volume (some next.writer) (number + 1) more := by
        intro more
        rw [Job.takeAll, htake]
      rcases ih hnext (number + 1) with ⟨more, last, hall, hlast, hrun⟩ |
        ⟨front, bad, back, more, failure, after, hlines, hall, hfits, hunfit, hblames, hrun⟩
      · refine Or.inl ⟨entry :: more, last, .cons hsaid hall, ?_, (hstep lines).trans hrun⟩
        rwa [List.append_assoc] at hlast
      · rw [List.append_assoc, List.singleton_append] at hfits hunfit
        refine Or.inr ⟨line :: front, bad, back, entry :: more, failure, after, ?_,
          .cons hsaid hall, hfits, hunfit, ?_, (hstep _).trans hrun⟩
        · rw [hlines, List.cons_append]
        · rwa [List.length_cons, ← Nat.add_assoc, Nat.add_right_comm]
    · refine Or.inr ⟨[], line, lines, [], failure, after, rfl, .nil, ?_, ?_, hblames, ?_⟩
      · rw [List.append_nil]
        exact h.fits
      · rwa [List.append_nil]
      · rw [List.nil_append, Job.takeAll, htake]

theorem conclude_of_lt (hfew : entries.length < job.records) :
    ∃ after, conclude session.volume (some session.writer) =
      (.error (.cannotFinish (.expectationFailed (.recordCount job.records entries.length))),
        after) := by
  obtain ⟨layout, content, -, hprogress⟩ := h.progress hfaults
  obtain ⟨writer, created, hcreate, hcalls⟩ := h.reached
  have hwritten : session.writer.written = entries.length := by
    rw [hprogress.written_eq, h.accepted_eq, List.length_map]
  have hne : session.writer.written ≠ (job.attributes first.1 first.2).recordCount := by
    rw [hwritten, recordCount_attributes]
    exact hfew.ne
  have hfinish := finish_of_written_ne hcreate _ hcalls hprogress.state_eq hne
  rw [hwritten, recordCount_attributes] at hfinish
  unfold conclude
  dsimp only
  rcases hresult : session.writer.finish session.volume with ⟨error | size, after⟩
  · rw [hresult] at hfinish
    cases hfinish
    exact ⟨after, rfl⟩
  · rw [hresult] at hfinish
    cases hfinish

end Underway

end

/-! ## Runs that fail -/

section

variable {job : Job} {volume opened created after : Volume} {input : Input} {data : List UInt8}
  {file : FileId} {first : ByteArray × ByteArray} {writer : Writer} {layout : Layout}

theorem Says.stream_ne_nil (h : Says (bareLine data) first) : data ≠ [] := by
  rintro rfl
  obtain ⟨-, _, _, _, _, hparts, -⟩ := h
  exact hparts.key_ne_nil (List.append_eq_nil_iff.mp hparts.line_eq.symm).1

/-- Nothing is touched before the first line has given attributes that can be used. -/
theorem run_of_unusable (hrest : input.rest volume = some data)
    (h : ∀ first, Says (bareLine data) first →
      (job.attributes first.1 first.2).validate ≠ .ok ()) :
    ∃ failure, job.run volume input = (.error failure, volume) := by
  by_cases hdata : data = []
  · obtain ⟨further, hline, -, -⟩ := Input.line_spec hrest
    subst hdata
    refine ⟨.noLines, ?_⟩
    unfold Job.run Job.takeLines
    rw [hline]
    rfl
  · obtain ⟨further, -, -, hstep⟩ := takeLines_succ job hrest hdata none 1 job.records
    rw [Job.run, hstep]
    rcases hparse : parseLine 1 (firstLine data).toByteArray with failure | first
    · refine ⟨failure, ?_⟩
      rw [Job.takeLine, hparse]
      rfl
    · have hbarred : Barred volume job.output (job.attributes first.1 first.2) {} :=
        Or.inr (Or.inl (h first (parseLine_firstLine.mp hparse)))
      obtain ⟨error, hcreate⟩ := create_of_barred hbarred
      refine ⟨.cannotCreate job.output error, ?_⟩
      rw [Job.takeLine, hparse]
      dsimp only [Job.writerFor]
      rw [hcreate]

theorem takeLine_of_create {line : List UInt8} (hsaid : Says line first)
    (hcreate : create volume job.output (job.attributes first.1 first.2) {} =
      (.ok writer, created)) (number : ℕ) :
    job.takeLine volume none number line.toByteArray =
      job.takeLine created (some writer) number line.toByteArray := by
  unfold Job.takeLine
  rw [parseLine_eq_ok_iff.mpr hsaid]
  dsimp only [Job.writerFor]
  rw [hcreate]

theorem exists_planFixed (h : (job.attributes first.1 first.2).validate = .ok ()) :
    ∃ fixed, planFixed (job.attributes first.1 first.2) {} = .ok fixed :=
  planFixed_of_ok rfl h nofun

theorem exists_create (hfaults : volume.faults = FaultPlan.none)
    (hopen : volume.openEmpty job.output = .ok (file, opened))
    (hplan : Layout.plan (job.attributes first.1 first.2) (defaultPageSize volume) = .ok layout) :
    ∃ writer created, create volume job.output (job.attributes first.1 first.2) {} =
      (.ok writer, created) := by
  obtain ⟨-, hl⟩ := Layout.planned_of_plan hplan
  obtain ⟨fixed, hfixed⟩ := exists_planFixed hl.valid
  obtain ⟨later, hlater⟩ := planOn_of_plan hfaults hfixed hopen hplan
  obtain ⟨_, created, hcreate, ⟨writer, rfl, -⟩ | ⟨hne, -⟩⟩ := create_spec hfixed hopen hlater
  · exact ⟨writer, created, hcreate⟩
  · exact absurd hfaults hne

/-- What comes of a stream whose first line has created a writer. All lines are taken and the file
is to be finished, or the run ends at the first line that is at fault. -/
theorem run_of_create (hfaults : volume.faults = FaultPlan.none)
    (hopen : volume.openEmpty job.output = .ok (file, opened))
    (hrest : input.rest volume = some data) (hapart : input.Apart file)
    (hsaid : Says (bareLine data) first)
    (hcreate : create volume job.output (job.attributes first.1 first.2) {} =
      (.ok writer, created)) :
    (∃ entries last, List.Forall₂ Says (rawLines data) entries ∧
      Underway job volume first entries last ∧
      job.run volume input = conclude last.volume (some last.writer)) ∨
    ∃ front line back failure after, rawLines data = front ++ line :: back ∧
      job.Takes first front ∧ ¬job.Takes first (front ++ [line]) ∧
      job.Blames (front.length + 1) failure after ∧
      ∀ other data' back', other.rest volume = some data' → other.Apart file →
        rawLines data' = front ++ line :: back' →
        job.run volume other = (.error failure, after) := by
  have hdata := hsaid.stream_ne_nil
  have hfirst := says_firstLine.mpr hsaid
  have hon : job.On file volume none := ⟨opened, hopen⟩
  have hstart : ∀ more, job.takeAll volume none 1 (firstLine data :: more) =
      job.takeAll created (some writer) 1 (firstLine data :: more) := by
    intro more
    rw [Job.takeAll, Job.takeAll, takeLine_of_create hfirst hcreate]
  rcases (underway_start hopen hcreate).takeAll hfaults 1 (rawLines data) with
    ⟨entries, last, hall, hlast, hrun⟩ |
    ⟨front, line, back, entries, failure, after, hlines, hall, hfits, hunfit, hblames, hrun⟩
  · rw [List.nil_append] at hlast
    refine Or.inl ⟨entries, last, hall, hlast, ?_⟩
    rw [rawLines_eq hdata, ← hstart, ← rawLines_eq hdata] at hrun
    refine takeLines_of_ok hon hrest hapart ?_ hrun
    rw [hall.length_eq]
    exact Nat.lt_succ_of_le hlast.fits.length_le
  · rw [List.nil_append] at hfits hunfit
    rw [Nat.add_comm] at hblames
    refine Or.inr ⟨front, line, back, failure, after, hlines, ⟨entries, hall, hfits⟩,
      Job.not_takes_concat hall hunfit, hblames, ?_⟩
    intro other data' back' hrest' hapart' hlines'
    -- the lines up to the one at fault begin with the first line of the stream
    obtain ⟨more, hmore⟩ : ∃ more, front ++ [line] = firstLine data :: more := by
      rw [rawLines_eq hdata] at hlines
      cases front with
      | nil => exact ⟨[], congrArg (· :: []) (List.cons.inj hlines).1.symm⟩
      | cons head front => exact ⟨front ++ [line], congrArg (· :: _) (List.cons.inj hlines).1.symm⟩
    rw [hmore, ← hstart, ← hmore] at hrun
    have hsplit : rawLines data' = (front ++ [line]) ++ back' := by
      rw [hlines', List.append_assoc, List.singleton_append]
    refine takeLines_of_error hon hrest' hapart' hsplit ?_ hrun
    rw [List.length_append, List.length_singleton, hall.length_eq]
    exact Nat.succ_le_succ hfits.length_le

/-- A run that fails over attributes that can be used leaves no file, whatever requests fail. -/
theorem existing_of_run_error {failure : Failure}
    (hopen : volume.openEmpty job.output = .ok (file, opened))
    (hrest : input.rest volume = some data) (hsaid : Says (bareLine data) first)
    (hvalid : (job.attributes first.1 first.2).validate = .ok ())
    (h : job.run volume input = (.error failure, after)) :
    after.existing job.output = .error .noSuchFile := by
  obtain ⟨further, -, -, hstep⟩ := takeLines_succ job hrest hsaid.stream_ne_nil none 1 job.records
  rw [Job.run, hstep] at h
  rcases hcreate : create volume job.output (job.attributes first.1 first.2) {} with
    ⟨error | writer, created⟩
  · obtain ⟨fixed, hfixed⟩ := exists_planFixed hvalid
    have hbarred := not_barred_iff.mpr ⟨fixed, (file, opened), hfixed, hopen⟩
    rw [Job.takeLine, parseLine_firstLine.mpr hsaid] at h
    dsimp only [Job.writerFor] at h
    rw [hcreate] at h
    cases h
    exact existing_of_create_error hbarred hcreate
  · obtain ⟨hpath, hholding⟩ : writer.path = job.output ∧ Holding created writer :=
      holding_of_create hcreate [] rfl
    rw [takeLine_of_create (says_firstLine.mpr hsaid) hcreate] at h
    rcases takeLine_spec hholding job 1 (firstLine data).toByteArray with
      ⟨next, later, htake, hcontinues⟩ | ⟨cause, later, htake, -, hgone⟩
    · rw [htake] at h
      have hgone := existing_of_takeLines (hholding.of_continues hcontinues) h
      rwa [hcontinues.path_eq, hpath] at hgone
    · rw [htake] at h
      cases h
      rwa [hpath] at hgone

/-- What is left of a run that fails. Where the first line says nothing, or gives attributes that
cannot be used, nothing is touched. Otherwise, if the output can be opened, there is no file in its
place. When no request fails and a geometry can be planned, a line at fault ends the run: the first
such line is named, whatever lines come behind it. Lines that are too few cannot be finished. -/
theorem run_fails (job : Job) (volume : Volume) (input : Input) (data : List UInt8)
    (hrest : input.rest volume = some data) :
    ((∀ first, Says (bareLine data) first →
        (job.attributes first.1 first.2).validate ≠ .ok ()) →
      ∃ failure, job.run volume input = (.error failure, volume)) ∧
    ∀ first file opened, Says (bareLine data) first →
      volume.openEmpty job.output = .ok (file, opened) →
      ((job.attributes first.1 first.2).validate = .ok () → ∀ failure after,
        job.run volume input = (.error failure, after) →
        after.existing job.output = .error .noSuchFile) ∧
      ∀ layout, volume.faults = FaultPlan.none → input.Apart file →
        Layout.plan (job.attributes first.1 first.2) (defaultPageSize volume) = .ok layout →
        (¬job.Takes first (rawLines data) →
          ∃ front line back failure after, rawLines data = front ++ line :: back ∧
            job.Takes first front ∧ ¬job.Takes first (front ++ [line]) ∧
            job.run volume input = (.error failure, after) ∧
            job.Blames (front.length + 1) failure after ∧
            (∃ before behind causes, failure.chain =
              (before ++ s!"line {front.length + 1}" ++ behind) :: causes) ∧
            ∀ other data' back', other.rest volume = some data' → other.Apart file →
              rawLines data' = front ++ line :: back' →
              job.run volume other = (.error failure, after)) ∧
        (job.Takes first (rawLines data) → (rawLines data).length < job.records →
          ∃ after, job.run volume input = (.error (.cannotFinish (.expectationFailed
            (.recordCount job.records (rawLines data).length))), after)) := by
  refine ⟨run_of_unusable hrest, fun first file opened hsaid hopen => ⟨?_, ?_⟩⟩
  · exact fun hvalid failure after => existing_of_run_error hopen hrest hsaid hvalid
  intro layout hfaults hapart hplan
  obtain ⟨writer, created, hcreate⟩ := exists_create hfaults hopen hplan
  have hcases := run_of_create hfaults hopen hrest hapart hsaid hcreate
  constructor
  · intro hfault
    rcases hcases with ⟨entries, last, hall, hlast, -⟩ |
      ⟨front, line, back, failure, after, hlines, htaken, hunfit, hblames, hrun⟩
    · exact absurd ⟨entries, hall, hlast.fits⟩ hfault
    · exact ⟨front, line, back, failure, after, hlines, htaken, hunfit,
        hrun input data back hrest hapart hlines, hblames,
        Failure.exists_chain_of_line? hblames.line?_eq, hrun⟩
  · intro htaken hfew
    rcases hcases with ⟨entries, last, hall, hlast, hrun⟩ |
      ⟨front, line, back, failure, after, hlines, -, hunfit, -, -⟩
    · rw [hrun, hall.length_eq]
      rw [hall.length_eq] at hfew
      exact hlast.conclude_of_lt hfaults hfew
    · rw [hlines, List.append_cons] at htaken
      exact absurd htaken.of_append hunfit

end

namespace Sample

/-- The lines "a,x" and "b", of which the second lacks a comma. -/
def halted : List UInt8 := [97, 44, 120, 10, 98, 10]

theorem rawLines_halted (back : List UInt8) :
    rawLines (halted ++ back) = [97, 44, 120, 10] :: [98, 10] :: rawLines back := rfl

theorem says_first : Says [97, 44, 120] first :=
  says_iff.mpr ⟨⟨"a,x", rfl⟩, rfl⟩

theorem takes_first : job.Takes first [[97, 44, 120, 10]] := by
  have hsaid : Says [97, 44, 120, 10] first := says_iff.mpr ⟨⟨"a,x\n", rfl⟩, rfl⟩
  refine ⟨[first], .cons hsaid .nil, ?_⟩
  have haccepts := accepts
  refine ⟨by decide, fun entry hentry => haccepts.key_le entry ?_,
    fun entry hentry => haccepts.value_suits entry ?_, .singleton _⟩
  · exact List.mem_cons.mpr (Or.inl (List.mem_singleton.mp hentry))
  · exact List.mem_cons.mpr (Or.inl (List.mem_singleton.mp hentry))

theorem not_takes_second (more : List (List UInt8)) :
    ¬job.Takes first ([97, 44, 120, 10] :: [98, 10] :: more) := by
  rintro ⟨entries, hall, -⟩
  obtain ⟨_, _, -, hall, -⟩ := List.forall₂_cons_left_iff.mp hall
  obtain ⟨entry, _, hsaid, -, -⟩ := List.forall₂_cons_left_iff.mp hall
  cases (says_iff.mp hsaid).2

end Sample

theorem run_fails_sample : ∃ failure after, failure.line? = some 2 ∧
    after.existing "t" = .error .noSuchFile ∧
    ∀ back, Sample.job.run Writer.Sample.volume (.ofBytes (Sample.halted ++ back).toByteArray) =
      (.error failure, after) := by
  have hrest : ∀ back, (Input.ofBytes (Sample.halted ++ back).toByteArray).rest
      Writer.Sample.volume = some (Sample.halted ++ back) := by
    intro back
    rw [Input.rest_ofBytes, List.data_toByteArray]
  have hapart : ∀ back file, (Input.ofBytes (Sample.halted ++ back).toByteArray).Apart file :=
    fun _ file => Input.apart_of_fetched _ _ file
  have hopen : Writer.Sample.volume.openEmpty Sample.job.output = _ := Writer.Sample.openEmpty_eq
  have hfails := (run_fails Sample.job _ _ _ (hrest [])).2 Sample.first _ _ Sample.says_first hopen
  obtain ⟨hfault, -⟩ := hfails.2 Sample.layout rfl (hapart [] _) Sample.plan_eq
  obtain ⟨front, line, back, failure, after, hlines, htaken, hunfit, -, hblames, -, hrun⟩ :=
    hfault (Sample.not_takes_second _)
  obtain ⟨rfl, rfl⟩ : front = [[97, 44, 120, 10]] ∧ line = [98, 10] := by
    rw [Sample.rawLines_halted] at hlines
    rcases front with _ | ⟨head, _ | ⟨next, more⟩⟩
    · cases hlines
      exact absurd Sample.takes_first hunfit
    · cases hlines
      exact ⟨rfl, rfl⟩
    · have hlength := congrArg List.length hlines
      simp [rawLines] at hlength
  exact ⟨failure, after, hblames.line?_eq, hblames.existing_eq, fun back =>
    hrun _ _ _ (hrest back) (hapart back _) (Sample.rawLines_halted back)⟩

end PackedIndex.Load
