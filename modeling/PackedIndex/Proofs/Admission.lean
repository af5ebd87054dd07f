import PackedIndex.Proofs.InStep
import PackedIndex.Proofs.Lifecycle
/-! # Which records a writer takes

`Admits` says which record a session may take next. A session that works takes exactly these. Any
other record is refused without a trace, so that a run is the same without its refused records, and
records given at once are the same as records given one by one up to the first that is refused.
-/
namespace PackedIndex

theorem Encoding.format_select (attributes : Attributes) (pageSize : ℕ) :
    (select attributes pageSize).format = attributes.format := by
  cases hformat : attributes.format with
  | block => rcases select_of_block pageSize hformat with h | h <;> rw [h] <;> rfl
  | _ => simp [select, hformat, Encoding.format]

def Record.ValueFits (attributes : Attributes) : Record → Prop
  | .atom _ => True
  | .pair _ value => value.size = attributes.keySize
  | .block _ value => value.size = attributes.valueSize
  | .blob _ value => value.size < Size.blobLimit

namespace Writer

open Outcome

/-! ## Calls and what they answer -/

namespace Session

def answer (session : Session) : Call → Except Error Unit
  | .setOrder order => (session.writer.setOrder order).1
  | .put record => (session.put record).1
  | .putMany records => (session.writer.putMany session.volume records).1

def log (session : Session) : List Call → List (Call × Except Error Unit)
  | [] => []
  | call :: calls => (call, session.answer call) :: (session.call call).log calls

/-- Records up to the first that is refused, that one included. -/
def upToRefused (session : Session) : List Record → List Record
  | [] => []
  | record :: records =>
    match session.put record with
    | (.ok (), next) => record :: next.upToRefused records
    | (.error _, _) => [record]

/-- What a record has to be to come next: there is a place left, the parts of the record have the
sizes that the attributes give them, and where order is checked its padded key is greater than the
last one. -/
structure Admits (attributes : Attributes) (options : Options) (session : Session)
    (record : Record) : Prop where
  written_lt : session.writer.written < attributes.recordCount
  format_eq : record.format = attributes.format
  key_le : record.key.size ≤ attributes.keySize
  value_fits : record.ValueFits attributes
  ascending : options.verifyOrder = true → ∀ last, session.accepted.getLast? = some last →
    session.writer.order (Bytes.resize record.key attributes.keySize)
      (Bytes.resize last.key attributes.keySize) = .gt

end Session

/-- Whether a record was refused for what it is or for where it came. -/
def isRefused : Call × Except Error Unit → Bool
  | (.put _, .error (.io _)) => false
  | (.put _, .error _) => true
  | _ => false

/-! ## One record -/

theorem io_of_issueAll_error {steps : List Step} {writer next : Writer} {volume after : Volume}
    {error : Error} (h : issueAll writer volume steps = (.error error, next, after)) :
    ∃ cause, error = .io cause := by
  induction steps generalizing writer volume with
  | nil => cases h
  | cons step steps ih =>
    unfold issueAll Step.issue at h
    rcases hresult : volume.performAll step.writer.file step.requests with
      ⟨⟨cause⟩ | ⟨⟨⟩⟩, later⟩
    · rw [hresult] at h
      cases h
      exact ⟨cause, rfl⟩
    · rw [hresult] at h
      exact ih h

theorem approve_of_valid {writer : Writer} {record : Record}
    (hwritten : writer.written ≠ writer.layout.recordCount)
    (hvalid : writer.layout.encoding.validate writer.header.attributes.keySize
      writer.header.attributes.valueSize record = .ok ())
    (horder : writer.options.verifyOrder = true → 0 < writer.written →
      writer.order (Bytes.resize record.key writer.header.attributes.keySize) writer.lastKey =
        .gt) :
    writer.approve record =
      .ok (Bytes.resize record.key writer.header.attributes.keySize) := by
  have hkey := (Encoding.validate_eq_ok.mp hvalid).2.1
  have hchecked : ¬(writer.options.verifyOrder = true ∧ 0 < writer.written ∧
      writer.order (Bytes.resize record.key writer.header.attributes.keySize) writer.lastKey ≠
        .gt) := fun h => h.2.2 (horder h.1 h.2.1)
  simp only [approve, hwritten, if_false, hvalid, mapError_ok, ok_bind, padKey, not_lt.mpr hkey,
    hchecked]
  rfl

/-- A writer with all its records refuses every record in the same words, and one that is not full
finds fault with the record. -/
theorem error_of_approve {writer : Writer} {record : Record} {error : Error}
    (h : writer.approve record = .error error) :
    if writer.written = writer.layout.recordCount then
      error = .tooManyRecords writer.layout.recordCount
    else ∃ fault, error = .invalidArgument fault := by
  unfold approve at h
  split_ifs with hfull
  · rw [if_pos hfull] at h
    cases h
    rfl
  rw [if_neg hfull] at h
  cases hvalid : writer.layout.encoding.validate writer.header.attributes.keySize
      writer.header.attributes.valueSize record with
  | error fault =>
    rw [hvalid] at h
    cases h
    exact ⟨fault, rfl⟩
  | ok =>
    cases hkey : padKey record.key writer.header.attributes.keySize with
    | error fault =>
      rw [hvalid, hkey] at h
      cases h
      exact ⟨fault, rfl⟩
    | ok key =>
      rw [hvalid, hkey, mapError_ok, mapError_ok, ok_bind, ok_bind] at h
      split_ifs at h
      · cases h
        exact ⟨.keyOrder, rfl⟩
      · cases h

namespace Session

variable {attributes : Attributes} {options : Options} {layout : Layout} {session : Session}
  {file : Content} {record : Record}

theorem approve_iff (hl : layout.Planned attributes)
    (h : Progress attributes options layout session.accepted session.writer file) :
    (∃ key, session.writer.approve record = .ok key) ↔
      session.Admits attributes options record := by
  have hlength := h.length_le
  have hwritten := h.written_eq
  have hlayout := h.layout_eq
  have hheader : session.writer.header.attributes = attributes := by
    rw [h.header_eq]
    rfl
  have hformat : session.writer.layout.encoding.format = attributes.format := by
    rw [hlayout, hl.encoding_eq, Encoding.format_select]
  have hcount : session.writer.layout.recordCount = attributes.recordCount := by
    rw [hlayout, hl.recordCount_eq]
  -- the key that the writer remembers is that of the last record
  have hlast : ∀ last, session.accepted.getLast? = some last →
      session.writer.lastKey = Bytes.resize last.key attributes.keySize := by
    intro last hlast
    rw [h.lastKey_of_getLast? hlast, hl.keySize_eq]
  rw [← hlayout, hcount] at hlength
  constructor
  · rintro ⟨key, happrove⟩
    obtain ⟨hfull, hvalid, rfl, horder⟩ := approve_eq_ok happrove
    rw [hheader, Encoding.validate_eq_ok, hformat] at hvalid
    obtain ⟨hrecord, hkey, hvalue⟩ := hvalid
    refine ⟨by omega, hrecord, hkey, hvalue, fun hverify last hsome => ?_⟩
    have hpos : 0 < session.writer.written := by
      rw [hwritten]
      exact List.length_pos_of_mem (List.mem_of_getLast? hsome)
    rw [← hlast last hsome, ← hheader]
    exact horder (h.options_eq ▸ hverify) hpos
  · intro hadmits
    refine ⟨_, approve_of_valid ?_ ?_ fun hverify hpos => ?_⟩
    · have hroom := hadmits.written_lt
      omega
    · rw [hheader, Encoding.validate_eq_ok, hformat]
      exact ⟨hadmits.format_eq, hadmits.key_le, hadmits.value_fits⟩
    · have hne : session.accepted ≠ [] := List.length_pos_iff.mp (hwritten ▸ hpos)
      have hsome := List.getLast?_eq_getLast_of_ne_nil hne
      rw [hlast _ hsome, hheader]
      exact hadmits.ascending (h.options_eq ▸ hverify) _ hsome

theorem put_of_admits (hl : layout.Planned attributes)
    (h : Progress attributes options layout session.accepted session.writer file)
    (hadmits : session.Admits attributes options record) :
    (session.put record).1 = .ok () ∨ ∃ cause, (session.put record).1 = .error (.io cause) := by
  obtain ⟨key, happrove⟩ := (approve_iff hl h).mpr hadmits
  obtain ⟨steps, happend⟩ := Option.isSome_iff_exists.mp (h.append_isSome hl happrove)
  unfold Session.put Writer.put
  rw [ensureAccepting_eq_ok.mpr h.state_eq, happrove]
  dsimp only
  rw [happend]
  dsimp only
  rcases hissue : issueAll session.writer session.volume steps with ⟨⟨error⟩ | ⟨⟨⟩⟩, writer, volume⟩
  · obtain ⟨cause, rfl⟩ := io_of_issueAll_error hissue
    exact Or.inr ⟨cause, rfl⟩
  · exact Or.inl rfl

theorem put_of_not_admits (hl : layout.Planned attributes)
    (h : Progress attributes options layout session.accepted session.writer file)
    (hadmits : ¬session.Admits attributes options record) :
    ∃ error, session.put record = (.error error, session) ∧
      if session.writer.written < attributes.recordCount then
        ∃ fault, error = .invalidArgument fault
      else error = .tooManyRecords attributes.recordCount := by
  cases happrove : session.writer.approve record with
  | ok key => exact absurd ((approve_iff hl h).mp ⟨key, happrove⟩) hadmits
  | error error =>
    have hlength := h.length_le
    have hcount : session.writer.layout.recordCount = attributes.recordCount := by
      rw [h.layout_eq, hl.recordCount_eq]
    have herror := error_of_approve happrove
    rw [← h.layout_eq, hcount, ← h.written_eq] at hlength
    rw [hcount] at herror
    refine ⟨error, ?_, ?_⟩
    · unfold Session.put Writer.put
      rw [ensureAccepting_eq_ok.mpr h.state_eq, happrove]
    · split_ifs with hroom
      · rwa [if_neg (by omega)] at herror
      · rwa [if_pos (by omega)] at herror

end Session

/-! ## Whole runs -/

/-- After any calls a writer that was created works, or it has failed over a request. -/
theorem progress_or_failed {volume created : Volume} {path : String} {attributes : Attributes}
    {options : Options} {writer : Writer}
    (hcreate : create volume path attributes options = (.ok writer, created)) (calls : List Call)
    {session : Session} (hcalls : Session.calls ⟨[], writer, created⟩ calls = session) :
    (∃ layout file, layout.Planned attributes ∧
        Progress attributes options layout session.accepted session.writer file) ∨
      volume.faults ≠ FaultPlan.none ∧ session.writer.state = .failed := by
  subst hcalls
  obtain ⟨layout, file, opened, -, hopened, hl, -, hsound, hsession⟩ := calls_of_create hcreate calls
  rcases hsession with habreast | hstopped
  · unfold Journal.Sound at hsound
    rw [← habreast.accepted_eq, ← habreast.writer_eq] at hsound
    exact Or.inl ⟨layout, _, hl, hsound⟩
  · exact Or.inr ⟨hopened.faults_eq ▸ hstopped.faults_ne, hstopped.state_eq⟩

theorem eq_put_of_isRefused {call : Call} {answer : Except Error Unit}
    (h : isRefused (call, answer) = true) :
    ∃ record error, call = .put record ∧ answer = .error error ∧ ∀ cause, error ≠ .io cause := by
  cases call with
  | put record =>
    cases answer with
    | ok => cases h
    | error error =>
      refine ⟨record, error, rfl, rfl, ?_⟩
      rintro cause rfl
      cases h
  | setOrder => cases h
  | putMany => cases h

namespace Session

variable {session : Session}

/-- A session that no refused record leaves a trace in comes to the same without them, and answers
the other calls alike. -/
theorem log_without_refused
    (h : ∀ calls record error, ((session.calls calls).put record).1 = .error error →
      (∀ cause, error ≠ .io cause) → ((session.calls calls).put record).2 = session.calls calls)
    (calls : List Call) :
    session.log (((session.log calls).filter fun entry => !isRefused entry).map Prod.fst) =
        (session.log calls).filter (fun entry => !isRefused entry) ∧
      session.calls (((session.log calls).filter fun entry => !isRefused entry).map Prod.fst) =
        session.calls calls := by
  induction calls generalizing session with
  | nil => exact ⟨rfl, rfl⟩
  | cons call calls ih =>
    have hnext := @ih (session.call call) fun more => h (call :: more)
    cases hrefused : isRefused (call, session.answer call) with
    | true =>
      obtain ⟨record, error, rfl, hanswer, hio⟩ := eq_put_of_isRefused hrefused
      have hsame : session.call (.put record) = session := h [] record error hanswer hio
      rw [hsame] at hnext
      simp only [log, List.filter_cons, hrefused, Bool.not_true, Bool.false_eq_true, if_false]
      rw [hsame]
      refine ⟨hnext.1, hnext.2.trans ?_⟩
      change _ = (session.call (.put record)).calls calls
      rw [hsame]
    | false =>
      simp only [log, List.filter_cons, hrefused, Bool.not_false, if_true, List.map_cons]
      exact ⟨congrArg _ hnext.1, hnext.2⟩

theorem calls_upToRefused (session : Session) (records : List Record) :
    session.calls ((session.upToRefused records).map .put) = session.putMany records := by
  induction records generalizing session with
  | nil => rfl
  | cons record records ih =>
    have hcall : ∀ more, session.calls (.put record :: more) = (session.put record).2.calls more :=
      fun _ => rfl
    unfold upToRefused putMany
    rcases hput : session.put record with ⟨⟨error⟩ | ⟨⟨⟩⟩, next⟩
    · rw [List.map_singleton, hcall, hput]
      rfl
    · rw [List.map_cons, hcall, hput]
      exact ih next

theorem answer_putMany_cons (session : Session) (record : Record) (records : List Record) :
    session.answer (.putMany (record :: records)) =
      match session.put record with
      | (.ok (), next) => next.answer (.putMany records)
      | (.error error, _) => .error error := by
  change (session.writer.putMany session.volume (record :: records)).1 = _
  unfold Writer.putMany put
  rcases session.writer.put session.volume record with ⟨⟨error⟩ | ⟨⟨⟩⟩, writer, volume⟩ <;> rfl

/-- Records given at once are answered with the last answer that they get one by one. -/
theorem answer_upToRefused (session : Session) (records : List Record) :
    ((session.log ((session.upToRefused records).map .put)).getLast?.map Prod.snd).getD (.ok ()) =
      session.answer (.putMany records) := by
  induction records generalizing session with
  | nil => rfl
  | cons record records ih =>
    have hlog : ∀ more, session.log (.put record :: more) =
        (.put record, (session.put record).1) :: (session.put record).2.log more := fun _ => rfl
    rw [answer_putMany_cons]
    unfold upToRefused
    rcases hput : session.put record with ⟨⟨error⟩ | ⟨⟨⟩⟩, next⟩
    · rw [List.map_singleton, hlog, hput]
      rfl
    · rw [List.map_cons, hlog, hput, List.getLast?_cons]
      dsimp only
      rw [← ih next]
      cases (next.log ((next.upToRefused records).map .put)).getLast? <;> rfl

end Session

section

variable {volume created : Volume} {path : String} {attributes : Attributes} {options : Options}
  {writer : Writer} {session : Session}

theorem put_ne_io (hcreate : create volume path attributes options = (.ok writer, created))
    (calls : List Call) (hcalls : Session.calls ⟨[], writer, created⟩ calls = session)
    (hfaults : volume.faults = FaultPlan.none) (record : Record) (cause : SystemError) :
    (session.put record).1 ≠ .error (.io cause) := by
  intro hput
  rcases progress_or_failed hcreate calls hcalls with ⟨layout, file, hl, hprogress⟩ | ⟨hne, -⟩
  · have hadmits : session.Admits attributes options record := by
      by_contra hadmits
      obtain ⟨error, hrefused, herror⟩ := Session.put_of_not_admits hl hprogress hadmits
      rw [hrefused] at hput
      cases hput
      split_ifs at herror
      obtain ⟨fault, hfault⟩ := herror
      cases hfault
    obtain ⟨key, happrove⟩ := (Session.approve_iff hl hprogress).mpr hadmits
    have hfailed := Session.state_of_put_error hprogress.state_eq happrove hput
    have hcalls' : Session.calls ⟨[], writer, created⟩ (calls ++ [.put record]) =
        (session.put record).2 := by
      rw [Session.calls_append, hcalls]
      rfl
    rcases progress_or_failed hcreate _ hcalls' with ⟨_, _, _, hnext⟩ | ⟨hne, -⟩
    · rw [hnext.state_eq] at hfailed
      cases hfailed
    · exact hne hfaults
  · exact hne hfaults

theorem put_of_refused (hcreate : create volume path attributes options = (.ok writer, created))
    (calls : List Call) (hcalls : Session.calls ⟨[], writer, created⟩ calls = session)
    {record : Record} {error : Error} (hput : (session.put record).1 = .error error)
    (hio : ∀ cause, error ≠ .io cause) : (session.put record).2 = session := by
  rcases progress_or_failed hcreate calls hcalls with ⟨layout, file, hl, hprogress⟩ | ⟨-, hfailed⟩
  · have hadmits : ¬session.Admits attributes options record := by
      intro hadmits
      rcases Session.put_of_admits hl hprogress hadmits with hok | ⟨cause, hcause⟩
      · rw [hok] at hput
        cases hput
      · rw [hcause] at hput
        cases hput
        exact hio cause rfl
    obtain ⟨error, hrefused, -⟩ := Session.put_of_not_admits hl hprogress hadmits
    rw [hrefused]
  · rw [Session.put_of_failed hfailed]

/-- At any time in any run, a writer that works takes exactly the records that it admits, unless the
volume refuses a request. What it does not admit it refuses, for being full before anything else, and
nothing changes. So the calls of a run come to the same, with the same answers, without the records
that are refused, and records given at once are records given one by one up to the first that is
refused. -/
theorem admission (hcreate : create volume path attributes options = (.ok writer, created))
    (calls : List Call) (hcalls : Session.calls ⟨[], writer, created⟩ calls = session) :
    (volume.faults = FaultPlan.none →
      session.writer.state = .accepting ∧
        ∀ record cause, (session.put record).1 ≠ .error (.io cause)) ∧
    (session.writer.state = .accepting → ∀ record,
      ((∀ cause, (session.put record).1 ≠ .error (.io cause)) →
        ((session.put record).1 = .ok () ↔ session.Admits attributes options record)) ∧
      (¬session.Admits attributes options record →
        ∃ error, session.put record = (.error error, session) ∧
          if session.writer.written < attributes.recordCount then
            ∃ fault, error = .invalidArgument fault
          else error = .tooManyRecords attributes.recordCount)) ∧
    (∀ more kept, (session.log more).filter (fun entry => !isRefused entry) = kept →
      session.log (kept.map Prod.fst) = kept ∧
        session.calls (kept.map Prod.fst) = session.calls more) ∧
    ∀ records puts, (session.upToRefused records).map .put = puts →
      session.calls puts = session.call (.putMany records) ∧
        ((session.log puts).getLast?.map Prod.snd).getD (.ok ()) =
          session.answer (.putMany records) := by
  refine ⟨fun hfaults => ⟨?_, put_ne_io hcreate calls hcalls hfaults⟩, fun hstate record => ?_,
    ?_, ?_⟩
  · rcases progress_or_failed hcreate calls hcalls with ⟨_, _, _, hprogress⟩ | ⟨hne, -⟩
    · exact hprogress.state_eq
    · exact absurd hfaults hne
  · rcases progress_or_failed hcreate calls hcalls with ⟨layout, file, hl, hprogress⟩ | ⟨-, hfailed⟩
    · have hrefuse : ¬session.Admits attributes options record → _ :=
        Session.put_of_not_admits hl hprogress
      refine ⟨fun hio => ⟨fun hok => ?_, fun hadmits => ?_⟩, hrefuse⟩
      · by_contra hadmits
        obtain ⟨error, hrefused, -⟩ := hrefuse hadmits
        rw [hrefused] at hok
        cases hok
      · rcases Session.put_of_admits hl hprogress hadmits with hok | ⟨cause, hcause⟩
        · exact hok
        · exact absurd hcause (hio cause)
    · rw [hfailed] at hstate
      cases hstate
  · rintro more kept rfl
    refine Session.log_without_refused (fun other record error hput hio => ?_) more
    exact put_of_refused hcreate (calls ++ other) (by rw [Session.calls_append, hcalls]) hput hio
  · rintro records puts rfl
    exact ⟨session.calls_upToRefused records, session.answer_upToRefused records⟩

theorem admission_sample : ∃ writer created session,
    create Sample.volume "t" Sample.attributes Sample.options = (.ok writer, created) ∧
      Session.calls ⟨[], writer, created⟩ Sample.calls = session ∧
      session.accepted = Sample.records ∧
      ∀ record, session.put record = (.error (.tooManyRecords 3), session) := by
  obtain ⟨built, after, hbuild, haccepted, -, -⟩ := Sample.exists_build
  obtain ⟨writer, created, hcreate, htaken, -⟩ := session_of_build hbuild
  obtain ⟨hworks, hadmission, -, -⟩ := admission hcreate Sample.calls rfl
  obtain ⟨-, layout, -, -, hstep⟩ := inStep_calls hcreate Sample.calls rfl (Or.inl rfl)
  have hwritten := hstep.written_eq
  rw [htaken, haccepted] at hwritten
  have hfull : ¬(Session.calls ⟨[], writer, created⟩ Sample.calls).writer.written <
      Sample.attributes.recordCount := by
    rw [hwritten]
    decide
  refine ⟨writer, created, _, hcreate, rfl, htaken.trans haccepted, fun record => ?_⟩
  obtain ⟨error, hput, herror⟩ :=
    (hadmission (hworks rfl).1 record).2 fun hadmits => hfull hadmits.written_lt
  rw [if_neg hfull] at herror
  rw [hput, herror]
  rfl

end

end Writer

end PackedIndex
