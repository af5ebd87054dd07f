import PackedIndex.Proofs.Publication
/-! # The life of a file

From the creation of a writer until it is let go of, its file is found at the path; afterwards it is
found there exactly when the writer was finished. This does not depend on which requests fail.
-/
namespace PackedIndex

open Outcome

namespace Writer

section

/-! ## What calls leave in place -/

structure Continues (writer : Writer) (volume : Volume) (next : Writer) (after : Volume) : Prop where
  sameNames : Volume.SameNames volume after
  path_eq : next.path = writer.path
  file_eq : next.file = writer.file
  state_eq : next.state = writer.state ∨ next.state = .failed

variable {writer next third : Writer} {volume after later : Volume}

theorem Continues.refl (writer : Writer) (volume : Volume) :
    Continues writer volume writer volume :=
  ⟨Volume.SameNames.refl volume, rfl, rfl, Or.inl rfl⟩

theorem Continues.trans (h : Continues writer volume next after)
    (h' : Continues next after third later) : Continues writer volume third later := by
  refine ⟨h.sameNames.trans h'.sameNames, h'.path_eq.trans h.path_eq,
    h'.file_eq.trans h.file_eq, ?_⟩
  rcases h'.state_eq with hsame | hfailed
  · rw [hsame]
    exact h.state_eq
  · exact Or.inr hfailed

theorem issue_continues (step : Step) (volume : Volume) :
    Continues step.writer volume (step.issue volume).2.1 (step.issue volume).2.2 := by
  have hsame := volume.sameNames_performAll step.writer.file step.requests
  unfold Step.issue
  rcases hafter : volume.performAll step.writer.file step.requests with
    ⟨⟨cause⟩ | ⟨⟨⟩⟩, after⟩
  · rw [hafter] at hsame
    exact ⟨hsame, rfl, rfl, Or.inr rfl⟩
  · rw [hafter] at hsame
    exact ⟨hsame, rfl, rfl, Or.inl rfl⟩

theorem issueAll_continues {base : Writer} {steps : List Step}
    (hsteps : ∀ step ∈ steps, Alike base step.writer) (h : Continues base volume writer after) :
    Continues base volume (issueAll writer after steps).2.1 (issueAll writer after steps).2.2 := by
  induction steps generalizing writer after with
  | nil => exact h
  | cons step steps ih =>
    rw [List.forall_mem_cons] at hsteps
    have hstart : Continues base volume step.writer after :=
      ⟨h.sameNames, hsteps.1.path_eq, hsteps.1.file_eq, Or.inl hsteps.1.state_eq⟩
    have hissue := hstart.trans (issue_continues step after)
    unfold issueAll
    rcases hresult : step.issue after with ⟨⟨error⟩ | ⟨⟨⟩⟩, next, later⟩
    · rw [hresult] at hissue
      exact hissue
    · rw [hresult] at hissue
      exact ih hsteps.2 hissue

theorem put_continues (writer : Writer) (volume : Volume) (record : Record) :
    Continues writer volume (writer.put volume record).2.1 (writer.put volume record).2.2 := by
  unfold Writer.put
  cases writer.ensureAccepting with
  | error => exact Continues.refl writer volume
  | ok =>
    dsimp only
    cases writer.approve record with
    | error => exact Continues.refl writer volume
    | ok key =>
      dsimp only
      cases happend : writer.append key record with
      | none => exact ⟨Volume.SameNames.refl volume, rfl, rfl, Or.inr rfl⟩
      | some steps =>
        exact issueAll_continues (alike_append happend) (Continues.refl writer volume)

namespace Session

variable {session : Session}

theorem continues_put (session : Session) (record : Record) :
    Continues session.writer session.volume (session.put record).2.writer
      (session.put record).2.volume := by
  have hput := put_continues session.writer session.volume record
  unfold Session.put
  rcases hresult : session.writer.put session.volume record with
    ⟨⟨error⟩ | ⟨⟨⟩⟩, writer, volume⟩
  · rw [hresult] at hput
    exact hput
  · rw [hresult] at hput
    exact hput

theorem continues_putMany (session : Session) (records : List Record) :
    Continues session.writer session.volume (session.putMany records).writer
      (session.putMany records).volume := by
  induction records generalizing session with
  | nil => exact Continues.refl _ _
  | cons record records ih =>
    have hput := session.continues_put record
    unfold Session.putMany
    rcases hresult : session.put record with ⟨⟨error⟩ | ⟨⟨⟩⟩, next⟩
    · rw [hresult] at hput
      exact hput
    · rw [hresult] at hput
      exact hput.trans (ih next)

theorem continues_call (session : Session) (call : Call) :
    Continues session.writer session.volume (session.call call).writer
      (session.call call).volume := by
  cases call with
  | setOrder order =>
    unfold Session.call Writer.setOrder
    dsimp only
    split_ifs
    · exact Continues.refl _ _
    · exact ⟨Volume.SameNames.refl _, rfl, rfl, Or.inl rfl⟩
  | put record => exact session.continues_put record
  | putMany records => exact session.continues_putMany records

/-- After any calls the writer is still on its file, and has at most failed. -/
theorem continues_calls (session : Session) (calls : List Call) :
    Continues session.writer session.volume (session.calls calls).writer
      (session.calls calls).volume := by
  induction calls generalizing session with
  | nil => exact Continues.refl _ _
  | cons call calls ih => exact (session.continues_call call).trans (ih (session.call call))

end Session

/-! ## Letting go of a writer -/

/-- The ways to let go of a writer. -/
inductive Ending where
  | finish
  | abandon
  | drop

/-- Lets go of the writer of a session. Answers the length of its file if it was finished. -/
def Session.close (session : Session) : Ending → Option ℕ × Volume
  | .finish =>
    match session.writer.finish session.volume with
    | (.ok size, volume) => (some size, volume)
    | (.error _, volume) => (none, volume)
  | .abandon => (none, (session.writer.abandon session.volume).2)
  | .drop => (none, session.writer.drop session.volume)

theorem existing_removeQuietly {path : String} {file : FileId}
    (h : volume.existing path = .ok (.file file)) :
    (removeQuietly volume path).existing path = .error .noSuchFile := by
  obtain ⟨after, hremove, hgone, -⟩ := Volume.remove_spec h
  unfold removeQuietly
  rw [hremove]
  exact hgone

theorem existing_abandon {file : FileId}
    (h : volume.existing writer.path = .ok (.file file)) :
    (writer.abandon volume).1 = .ok () ∧
      (writer.abandon volume).2.existing writer.path = .error .noSuchFile := by
  obtain ⟨after, hremove, hgone, -⟩ := Volume.remove_spec h
  unfold abandon
  rw [hremove]
  exact ⟨rfl, hgone⟩

theorem existing_drop {file : FileId}
    (h : volume.existing writer.path = .ok (.file file))
    (hstate : writer.state = .accepting ∨ writer.state = .failed) :
    (writer.drop volume).existing writer.path = .error .noSuchFile := by
  unfold drop
  rcases hstate with hstate | hstate
  · rw [hstate]
    exact existing_removeQuietly h
  · rw [hstate]
    exact existing_removeQuietly h

/-- A writer that is finished leaves its file, and one that cannot be finished removes it. -/
theorem existing_finish {file : FileId}
    (h : volume.existing writer.path = .ok (.file file))
    (hstate : writer.state = .accepting ∨ writer.state = .failed) :
    (∃ size, (writer.finish volume).1 = .ok size) ∧
        (writer.finish volume).2.existing writer.path = .ok (.file file) ∨
      (∃ error, (writer.finish volume).1 = .error error) ∧
        (writer.finish volume).2.existing writer.path = .error .noSuchFile := by
  have hpath : writer.commit.writer.path = writer.path := (alike_flushValues writer).path_eq
  have hsame : writer.commit.writer.state = writer.state := (alike_flushValues writer).state_eq
  have hissue := issue_continues writer.commit volume
  unfold Writer.finish
  rcases hensure : writer.ensureAccepting with ⟨error⟩ | ⟨⟨⟩⟩
  · exact Or.inr ⟨⟨error, rfl⟩, existing_drop h hstate⟩
  · dsimp only
    by_cases hcount : writer.written = writer.layout.recordCount
    · rw [if_neg (not_not.mpr hcount)]
      have hpath : (writer.commit.issue volume).2.1.path = writer.path :=
        hissue.path_eq.trans hpath
      have hlater := (hissue.sameNames.existing_eq writer.path).trans h
      have hopen : (writer.commit.issue volume).2.1.state = .accepting ∨
          (writer.commit.issue volume).2.1.state = .failed := by
        rcases hissue.state_eq with hkept | hfailed
        · rw [hkept, hsame]
          exact hstate
        · exact Or.inr hfailed
      rcases hresult : writer.commit.issue volume with ⟨⟨error⟩ | ⟨⟨⟩⟩, next, after⟩
      · rw [hresult] at hpath hlater hopen
        rw [← hpath] at hlater ⊢
        exact Or.inr ⟨⟨error, rfl⟩, existing_drop hlater hopen⟩
      · rw [hresult] at hlater
        exact Or.inl ⟨⟨_, rfl⟩, hlater⟩
    · rw [if_pos hcount]
      exact Or.inr ⟨⟨_, rfl⟩, existing_removeQuietly h⟩

theorem Session.existing_close {session : Session} {file : FileId}
    (h : session.volume.existing session.writer.path = .ok (.file file))
    (hstate : session.writer.state = .accepting ∨ session.writer.state = .failed)
    (ending : Ending) :
    (session.close ending).2.existing session.writer.path =
      if (session.close ending).1.isSome then .ok (.file file) else .error .noSuchFile := by
  cases ending with
  | finish =>
    have hfinish := existing_finish h hstate
    unfold Session.close
    rcases hresult : session.writer.finish session.volume with ⟨⟨error⟩ | ⟨size⟩, after⟩
    · rw [hresult] at hfinish
      rcases hfinish with ⟨⟨size, hsize⟩, -⟩ | ⟨-, hgone⟩
      · cases hsize
      · exact hgone
    · rw [hresult] at hfinish
      rcases hfinish with ⟨-, hfound⟩ | ⟨⟨error, herror⟩, -⟩
      · exact hfound
      · cases herror
  | abandon => exact (existing_abandon h).2
  | drop => exact existing_drop h hstate

/-! ## Creating a writer -/

/-- What is in the way of a run before its file is touched: choices or attributes that are refused,
no geometry for the page size that was chosen, or a path that cannot be opened. -/
def Barred (volume : Volume) (path : String) (attributes : Attributes) (options : Options) : Prop :=
  options.validate ≠ .ok () ∨ attributes.validate ≠ .ok () ∨
    (∃ size, options.pageSize = some size ∧ ∀ layout, Layout.plan attributes size ≠ .ok layout) ∨
    ∀ opened, volume.openEmpty path ≠ .ok opened

variable {path : String} {attributes : Attributes} {options : Options}

theorem planFixed_of_ok (hoptions : options.validate = .ok ())
    (hattributes : attributes.validate = .ok ())
    (hplan : ∀ size, options.pageSize = some size →
      ∃ layout, Layout.plan attributes size = .ok layout) :
    ∃ fixed, planFixed attributes options = .ok fixed := by
  unfold planFixed
  rw [hoptions, hattributes, mapError_ok, ok_bind, ok_bind]
  cases hsize : options.pageSize with
  | none => exact ⟨none, rfl⟩
  | some size =>
    obtain ⟨layout, hlayout⟩ := hplan size hsize
    dsimp only
    rw [hlayout]
    exact ⟨some layout, rfl⟩

theorem validate_of_planFixed {fixed : Option Layout}
    (h : planFixed attributes options = .ok fixed) : attributes.validate = .ok () := by
  unfold planFixed at h
  obtain ⟨-, -, h⟩ := bind_eq_ok.mp h
  obtain ⟨⟨⟩, hvalid, -⟩ := bind_eq_ok.mp h
  exact mapError_eq_ok.mp hvalid

/-- Nothing is in the way of a run exactly when it gets as far as its open file. -/
theorem not_barred_iff : ¬Barred volume path attributes options ↔
    ∃ fixed opened, planFixed attributes options = .ok fixed ∧
      volume.openEmpty path = .ok opened := by
  unfold Barred
  push Not
  constructor
  · rintro ⟨hoptions, hattributes, hplan, opened, hopened⟩
    obtain ⟨fixed, hfixed⟩ := planFixed_of_ok hoptions hattributes hplan
    exact ⟨fixed, opened, hfixed, hopened⟩
  · rintro ⟨fixed, opened, hfixed, hopened⟩
    obtain ⟨hoptions, hchosen⟩ := planFixed_eq_ok hfixed
    refine ⟨hoptions, validate_of_planFixed hfixed, ?_, opened, hopened⟩
    intro size hsize
    rw [hsize] at hchosen
    obtain ⟨layout, -, hlayout⟩ := hchosen
    exact ⟨layout, hlayout⟩

theorem create_of_barred (h : Barred volume path attributes options) :
    ∃ error, create volume path attributes options = (.error error, volume) := by
  unfold create
  cases hfixed : planFixed attributes options with
  | error error => exact ⟨error, rfl⟩
  | ok fixed =>
    dsimp only
    cases hopen : volume.openEmpty path with
    | error cause => exact ⟨.io cause, rfl⟩
    | ok opened => exact absurd h (not_barred_iff.mpr ⟨fixed, opened, hfixed, hopen⟩)

theorem sameNames_planOn (volume : Volume) (file : FileId) (attributes : Attributes)
    (fixed : Option Layout) : Volume.SameNames volume (planOn volume file attributes fixed).2 := by
  cases fixed with
  | some layout => exact Volume.SameNames.refl volume
  | none =>
    have hsame := volume.sameNames_perform file .status
    unfold planOn
    rcases hresult : volume.perform file .status with ⟨⟨cause⟩ | ⟨⟨⟩⟩, after⟩
    · rw [hresult] at hsame
      exact hsame
    · rw [hresult] at hsame
      exact hsame

theorem existing_of_create_error (hopened : ¬Barred volume path attributes options) {error : Error}
    (h : create volume path attributes options = (.error error, after)) :
    after.existing path = .error .noSuchFile := by
  obtain ⟨fixed, ⟨file, opened⟩, hfixed, hopen⟩ := not_barred_iff.mp hopened
  obtain ⟨hexisting, -⟩ := Volume.openEmpty_spec hopen
  have hplanned := sameNames_planOn opened file attributes fixed
  unfold create at h
  rw [hfixed] at h
  dsimp only at h
  rw [hopen] at h
  dsimp only at h
  rcases hplan : planOn opened file attributes fixed with ⟨error | layout, later⟩
  · rw [hplan] at h hplanned
    cases h
    exact existing_removeQuietly ((hplanned.existing_eq path).trans hexisting)
  · rw [hplan] at h hplanned
    have hissue := issue_continues (start path file attributes layout options) later
    dsimp only at h
    rcases hresult : (start path file attributes layout options).issue later with
      ⟨⟨cause⟩ | ⟨⟨⟩⟩, writer, written⟩
    · rw [hresult] at h hissue
      cases h
      have hsame := hplanned.trans hissue.sameNames
      exact existing_removeQuietly ((hsame.existing_eq path).trans hexisting)
    · rw [hresult] at h
      cases h

/-! ## Failed writers -/

theorem state_of_issueAll_error {steps : List Step} {error : Error}
    (h : issueAll writer volume steps = (.error error, next, after)) : next.state = .failed := by
  induction steps generalizing writer volume with
  | nil => cases h
  | cons step steps ih =>
    unfold issueAll Step.issue at h
    rcases hresult : volume.performAll step.writer.file step.requests with
      ⟨⟨cause⟩ | ⟨⟨⟩⟩, later⟩
    · rw [hresult] at h
      cases h
      rfl
    · rw [hresult] at h
      exact ih h

namespace Session

variable {session : Session}

theorem calls_append (session : Session) (first second : List Call) :
    session.calls (first ++ second) = (session.calls first).calls second :=
  List.foldl_append

theorem state_of_put_error {record : Record} {key : ByteArray} {error : Error}
    (hstate : session.writer.state = .accepting)
    (happrove : session.writer.approve record = .ok key)
    (h : (session.put record).1 = .error error) : (session.put record).2.writer.state = .failed := by
  unfold Session.put Writer.put at h ⊢
  rw [ensureAccepting_eq_ok.mpr hstate, happrove] at h ⊢
  cases happend : session.writer.append key record with
  | none => simp only [happend]
  | some steps =>
    simp only [happend] at h ⊢
    rcases hresult : issueAll session.writer session.volume steps with
      ⟨⟨cause⟩ | ⟨⟨⟩⟩, next, after⟩
    · exact state_of_issueAll_error hresult
    · rw [hresult] at h
      cases h

/-- Only the order of a failed writer can still be set. -/
theorem call_of_failed (h : session.writer.state = .failed) (call : Call) :
    ∃ order, session.call call = { session with writer := { session.writer with order } } := by
  cases call with
  | setOrder order =>
    unfold Session.call Writer.setOrder
    split_ifs
    · exact ⟨session.writer.order, rfl⟩
    · exact ⟨order, rfl⟩
  | put record =>
    refine ⟨session.writer.order, ?_⟩
    rw [Session.call, put_of_failed h]
  | putMany records =>
    refine ⟨session.writer.order, ?_⟩
    cases records with
    | nil => rfl
    | cons record records => rw [Session.call, Session.putMany, put_of_failed h]

theorem calls_of_failed (h : session.writer.state = .failed) (calls : List Call) :
    ∃ order, session.calls calls = { session with writer := { session.writer with order } } := by
  induction calls generalizing session with
  | nil => exact ⟨session.writer.order, rfl⟩
  | cons call calls ih =>
    obtain ⟨first, hfirst⟩ := call_of_failed h call
    have hnext : (session.call call).writer.state = .failed := by
      rw [hfirst]
      exact h
    obtain ⟨last, hlast⟩ := ih hnext
    refine ⟨last, ?_⟩
    change (session.call call).calls calls = _
    rw [hlast, hfirst]

theorem content_close_of_failed (h : session.writer.state = .failed) (ending : Ending)
    (file : FileId) :
    (session.close ending).1 = none ∧
      (session.close ending).2.content file = session.volume.content file := by
  cases ending with
  | finish =>
    unfold Session.close Writer.finish ensureAccepting
    rw [h]
    exact ⟨rfl, content_drop _ _ _⟩
  | abandon =>
    refine ⟨rfl, ?_⟩
    have hquiet : (session.writer.abandon session.volume).2 =
        removeQuietly session.volume session.writer.path := by
      unfold Writer.abandon removeQuietly
      split
      · rfl
      · rfl
    unfold Session.close
    dsimp only
    rw [hquiet, content_removeQuietly]
  | drop => exact ⟨rfl, content_drop _ _ _⟩

end Session

theorem session_of_create {created : Volume}
    (hcreate : create volume path attributes options = (.ok writer, created)) (calls : List Call)
    {session : Session} (hcalls : Session.calls ⟨[], writer, created⟩ calls = session) :
    session.writer.path = path ∧ session.volume.existing path = .ok (.file writer.file) ∧
      (session.writer.state = .accepting ∨ session.writer.state = .failed) := by
  have hcontinues : Continues writer created session.writer session.volume :=
    hcalls ▸ Session.continues_calls ⟨[], writer, created⟩ calls
  obtain ⟨layout, file, opened, -, hopened, hstart⟩ := started_of_create hcreate
  have hfile : writer.file = file := hstart.file_eq
  have hwriter : writer = (Journal.start path file attributes layout options).writer :=
    hstart.writer_eq
  refine ⟨?_, ?_, ?_⟩
  · rw [hcontinues.path_eq, hwriter]
    rfl
  · rw [hcontinues.sameNames.existing_eq, hstart.sameNames.existing_eq, hopened.existing_eq, hfile]
  · have hstate : writer.state = .accepting := by
      rw [hwriter]
      rfl
    rw [← hstate]
    exact hcontinues.state_eq

/-- The file of a failed writer is refused by every reader. -/
theorem refused_of_failed {created : Volume}
    (hcreate : create volume path attributes options = (.ok writer, created)) (calls : List Call)
    (hfailed : (Session.calls ⟨[], writer, created⟩ calls).writer.state = .failed)
    (name : String) (order : KeyOrder) (reader : Reader) :
    Reader.ofContent name
      ((Session.calls ⟨[], writer, created⟩ calls).volume.content writer.file) order ≠
        .ok reader := by
  obtain ⟨layout, file, opened, -, hopened, hl, hfile, hsound, hsession⟩ :=
    calls_of_create hcreate calls
  rw [hfile]
  rcases hsession with habreast | hstopped
  · rw [habreast.writer_eq, hsound.state_eq] at hfailed
    cases hfailed
  · obtain ⟨count, written, hcut⟩ := hstopped.cut.snapshot
    rw [hcut]
    exact Header.refused_of_fronted hl.numLevels_le hopened.header_le rfl
      (Journal.fronted_calls hl options path file calls) count written

theorem finish_of_written_ne {created : Volume}
    (hcreate : create volume path attributes options = (.ok writer, created)) (calls : List Call)
    {session : Session} (hcalls : Session.calls ⟨[], writer, created⟩ calls = session)
    (hstate : session.writer.state = .accepting)
    (hwritten : session.writer.written ≠ attributes.recordCount) :
    (session.writer.finish session.volume).1 = .error (.expectationFailed
      (.recordCount attributes.recordCount session.writer.written)) := by
  subst hcalls
  obtain ⟨layout, file, opened, -, -, hl, -, hsound, hsession⟩ := calls_of_create hcreate calls
  rcases hsession with habreast | hstopped
  · have hcount : (Session.calls ⟨[], writer, created⟩ calls).writer.layout.recordCount =
        attributes.recordCount := by
      rw [habreast.writer_eq, hsound.layout_eq, hl.recordCount_eq]
    unfold Writer.finish
    rw [ensureAccepting_eq_ok.mpr hstate, hcount]
    dsimp only
    rw [if_pos hwritten]
  · rw [hstopped.state_eq] at hstate
    cases hstate

/-- What happens to the path of a run, whatever requests fail. Nothing, when the run has something in
its way; otherwise there is a file while there is a writer, and it stays exactly when the writer is
finished. A writer that failed over a record takes no other, cannot be finished, and its file is
refused by every reader. -/
theorem lifecycle (volume : Volume) (path : String) (attributes : Attributes) (options : Options) :
    (Barred volume path attributes options →
      ∃ error, create volume path attributes options = (.error error, volume)) ∧
    (¬Barred volume path attributes options → ∀ error after,
      create volume path attributes options = (.error error, after) →
        after.existing path = .error .noSuchFile) ∧
    ∀ writer created, create volume path attributes options = (.ok writer, created) →
      ∀ calls session, Session.calls ⟨[], writer, created⟩ calls = session →
        (∀ ending, (session.close ending).2.existing path =
          if (session.close ending).1.isSome then .ok (.file writer.file)
          else .error .noSuchFile) ∧
        (session.writer.state = .accepting →
          session.writer.written ≠ attributes.recordCount →
            (session.writer.finish session.volume).1 = .error (.expectationFailed
              (.recordCount attributes.recordCount session.writer.written))) ∧
        ∀ record key error, session.writer.state = .accepting →
          session.writer.approve record = .ok key → (session.put record).1 = .error error →
            ∀ more later, (session.put record).2.calls more = later →
              later.volume = (session.put record).2.volume ∧
              (∀ other, later.put other = (.error (.invalidState .writerFailed), later)) ∧
              (later.writer.finish later.volume).1 = .error (.invalidState .writerFailed) ∧
              ∀ ending, (later.close ending).1 = none ∧ ∀ name order reader,
                Reader.ofContent name ((later.close ending).2.content writer.file) order ≠
                  .ok reader := by
  refine ⟨create_of_barred, fun hopened error after h => existing_of_create_error hopened h, ?_⟩
  rintro writer created hcreate calls session hcalls
  obtain ⟨hpath, hexisting, hstate⟩ := session_of_create hcreate calls hcalls
  refine ⟨?_, finish_of_written_ne hcreate calls hcalls, ?_⟩
  · intro ending
    rw [← hpath] at hexisting ⊢
    exact Session.existing_close hexisting hstate ending
  · rintro record key error haccepting happrove hput more later rfl
    have hfailed := Session.state_of_put_error haccepting happrove hput
    have hrefused := refused_of_failed hcreate (calls ++ [.put record])
    rw [Session.calls_append, hcalls] at hrefused
    obtain ⟨order, hlater⟩ := Session.calls_of_failed hfailed more
    rw [hlater]
    have hlast : ({ (session.put record).2 with
        writer := { (session.put record).2.writer with order } } : Session).writer.state =
          .failed := hfailed
    refine ⟨rfl, Session.put_of_failed hlast, ?_, ?_⟩
    · unfold Writer.finish ensureAccepting
      rw [hlast]
    · intro ending
      have hclose := Session.content_close_of_failed hlast ending writer.file
      refine ⟨hclose.1, fun name order reader => ?_⟩
      rw [hclose.2]
      exact hrefused hfailed name order reader

end

namespace Sample

/-- A volume that stores five bytes of the first leaf page and no more. -/
def faulty : Volume :=
  .empty 4096 fun issued _ => if issued = 2 then some ⟨5, .stated "disk full"⟩ else none

theorem openEmpty_faulty : faulty.openEmpty "t" = .ok (0, faulty.addFile ["t"]) := by
  unfold faulty
  cbv

def started : Except Error Unit × Writer × Volume :=
  (start "t" 0 attributes layout options).issue (faulty.addFile ["t"])

theorem create_faulty :
    create faulty "t" attributes options = (.ok started.2.1, started.2.2) := by
  have hok : started.1 = .ok () := by decide +kernel
  have hissue : (start "t" 0 attributes layout options).issue (faulty.addFile ["t"]) =
      (.ok (), started.2.1, started.2.2) := by
    rw [← hok]
    rfl
  unfold create
  rw [planFixed_eq]
  dsimp only
  rw [openEmpty_faulty]
  dsimp only [planOn]
  rw [hissue]

end Sample

theorem lifecycle_sample :
    let session := Session.calls ⟨[], Sample.started.2.1, Sample.started.2.2⟩
      [.put (.blob [1].toByteArray [7].toByteArray)]
    let later := (session.put (.blob [2].toByteArray [9].toByteArray)).2
    create Sample.faulty "t" Sample.attributes Sample.options =
        (.ok Sample.started.2.1, Sample.started.2.2) ∧
      (session.put (.blob [2].toByteArray [9].toByteArray)).1 =
        .error (.io (.stated "disk full")) ∧
      (∀ other, later.put other = (.error (.invalidState .writerFailed), later)) ∧
      (later.writer.finish later.volume).1 = .error (.invalidState .writerFailed) ∧
      (session.close .drop).2.existing "t" = .error .noSuchFile := by
  intro session later
  have hstate : session.writer.state = .accepting := by decide +kernel
  have hput : (session.put (.blob [2].toByteArray [9].toByteArray)).1 =
      .error (.io (.stated "disk full")) := by decide +kernel
  have hok : (session.writer.approve (.blob [2].toByteArray [9].toByteArray)).isOk = true := by
    decide +kernel
  obtain ⟨key, happrove⟩ := Outcome.isOk_iff.mp hok
  obtain ⟨-, -, hcreated⟩ := lifecycle Sample.faulty "t" Sample.attributes Sample.options
  obtain ⟨hclose, -, hfailed⟩ := hcreated _ _ Sample.create_faulty _ session rfl
  obtain ⟨-, hrefuses, hfinish, -⟩ := hfailed _ _ _ hstate happrove hput [] later rfl
  exact ⟨Sample.create_faulty, hput, hrefuses, hfinish, hclose .drop⟩

end Writer

end PackedIndex
