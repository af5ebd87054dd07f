import PackedIndex.Proofs.Finished
import PackedIndex.Proofs.Volume
/-! # Runs of a writer

A session is a writer in use on a volume, where any request may fail. A journal is the same on
paper: the requests that its calls need when none fails. A session either keeps up with its
journal or stops within its requests, so that what is proved of a journal holds of every session.
-/
namespace PackedIndex

namespace Writer

inductive Call where
  | setOrder (order : KeyOrder)
  | put (record : Record)
  | putMany (records : List Record)

/-- A writer in use, with the records that it took. -/
structure Session where
  accepted : List Record
  writer : Writer
  volume : Volume

namespace Session

def put (session : Session) (record : Record) : Except Error Unit × Session :=
  match session.writer.put session.volume record with
  | (.ok (), writer, volume) => (.ok (), ⟨session.accepted ++ [record], writer, volume⟩)
  | (.error error, writer, volume) => (.error error, ⟨session.accepted, writer, volume⟩)

def putMany (session : Session) : List Record → Session
  | [] => session
  | record :: records =>
    match session.put record with
    | (.ok (), session) => session.putMany records
    | (.error _, session) => session

def call (session : Session) : Call → Session
  | .setOrder order => { session with writer := (session.writer.setOrder order).2 }
  | .put record => (session.put record).2
  | .putMany records => session.putMany records

def calls (session : Session) (calls : List Call) : Session :=
  calls.foldl call session

theorem put_of_failed {session : Session} (h : session.writer.state = .failed) (record : Record) :
    session.put record = (.error (.invalidState .writerFailed), session) := by
  unfold Session.put Writer.put ensureAccepting
  rw [h]

/-- Records given at once are taken as one by one. -/
theorem putMany_eq (session : Session) (records : List Record) :
    ((session.putMany records).writer, (session.putMany records).volume) =
      (session.writer.putMany session.volume records).2 := by
  induction records generalizing session with
  | nil => rfl
  | cons record records ih =>
    unfold putMany Writer.putMany put
    rcases session.writer.put session.volume record with ⟨⟨error⟩ | ⟨⟨⟩⟩, writer, volume⟩
    · rfl
    · exact ih _

end Session

/-- A writer on paper: the records that it took and the requests that it issued. -/
structure Journal where
  accepted : List Record
  requests : List Request
  writer : Writer

namespace Journal

def file (journal : Journal) : Content :=
  Content.empty.applyAll journal.requests

def start (path : String) (file : FileId) (attributes : Attributes) (layout : Layout)
    (options : Options) : Journal :=
  let step := Writer.start path file attributes layout options
  ⟨[], step.requests, step.writer⟩

def put (journal : Journal) (record : Record) : Except Error Unit × Journal :=
  match journal.writer.take record with
  | .ok steps =>
    (.ok (), ⟨journal.accepted ++ [record], journal.requests ++ Writer.requests steps,
      journal.writer.last steps⟩)
  | .error error => (.error error, journal)

def putMany (journal : Journal) : List Record → Journal
  | [] => journal
  | record :: records =>
    match journal.put record with
    | (.ok (), journal) => journal.putMany records
    | (.error _, journal) => journal

def call (journal : Journal) : Call → Journal
  | .setOrder order => { journal with writer := (journal.writer.setOrder order).2 }
  | .put record => (journal.put record).2
  | .putMany records => journal.putMany records

def calls (journal : Journal) (calls : List Call) : Journal :=
  calls.foldl call journal

/-- The requests of a run that ends here, by finishing where it can. -/
def ending (journal : Journal) (finishing : Bool) : List Request :=
  if finishing = true ∧ journal.writer.written = journal.writer.layout.recordCount then
    journal.requests ++ journal.writer.commit.requests
  else journal.requests

section

/-! What a record preserves, whether it is taken or not, is preserved by all calls. -/

variable {P : Journal → Prop} (hput : ∀ journal record, P journal → P (journal.put record).2)
include hput

theorem putMany_preserves {journal : Journal} (h : P journal) (records : List Record) :
    P (journal.putMany records) := by
  induction records generalizing journal with
  | nil => exact h
  | cons record records ih =>
    have hnext := hput journal record h
    unfold Journal.putMany
    rcases hresult : journal.put record with ⟨⟨error⟩ | ⟨⟨⟩⟩, next⟩
    · rw [hresult] at hnext
      exact hnext
    · rw [hresult] at hnext
      exact ih hnext

variable (horder : ∀ journal order, P journal →
  P { journal with writer := (journal.writer.setOrder order).2 })
include horder

theorem call_preserves {journal : Journal} (h : P journal) (call : Call) :
    P (journal.call call) := by
  cases call with
  | setOrder order => exact horder journal order h
  | put record => exact hput journal record h
  | putMany records => exact putMany_preserves hput h records

theorem calls_preserves {journal : Journal} (h : P journal) (calls : List Call) :
    P (journal.calls calls) := by
  induction calls generalizing journal with
  | nil => exact h
  | cons call calls ih => exact ih (call_preserves hput horder h call)

end

def Sound (attributes : Attributes) (options : Options) (layout : Layout) (journal : Journal) :
    Prop :=
  Progress attributes options layout journal.accepted journal.writer journal.file

variable {attributes : Attributes} {options : Options} {layout : Layout} {journal : Journal}

theorem sound_start (hl : layout.Planned attributes) (options : Options) (path : String)
    (file : FileId) : (start path file attributes layout options).Sound attributes options layout :=
  Progress.start hl options path file

theorem Sound.put (hl : layout.Planned attributes) (h : journal.Sound attributes options layout)
    (record : Record) : (journal.put record).2.Sound attributes options layout := by
  unfold Journal.put
  cases htake : journal.writer.take record with
  | error => exact h
  | ok steps =>
    have hnext := Progress.take hl h htake
    unfold Sound file
    dsimp only
    rw [Content.applyAll_append]
    exact hnext

theorem Sound.call (hl : layout.Planned attributes) (h : journal.Sound attributes options layout)
    (call : Call) : (journal.call call).Sound attributes options layout :=
  call_preserves (P := Sound attributes options layout) (fun _ record h => Sound.put hl h record)
    (fun _ order h => Progress.setOrder h order) h call

theorem Sound.calls (hl : layout.Planned attributes) (h : journal.Sound attributes options layout)
    (calls : List Call) : (journal.calls calls).Sound attributes options layout :=
  calls_preserves (P := Sound attributes options layout) (fun _ record h => Sound.put hl h record)
    (fun _ order h => Progress.setOrder h order) h calls

def Extends (journal next : Journal) : Prop :=
  ∃ more, next.requests = journal.requests ++ more

theorem Extends.refl (journal : Journal) : journal.Extends journal :=
  ⟨[], (List.append_nil _).symm⟩

theorem Extends.put {next : Journal} (h : journal.Extends next) (record : Record) :
    journal.Extends (next.put record).2 := by
  obtain ⟨more, hmore⟩ := h
  unfold Journal.put
  cases next.writer.take record with
  | error => exact ⟨more, hmore⟩
  | ok steps => exact ⟨more ++ Writer.requests steps, by simp [hmore]⟩

theorem extends_putMany (journal : Journal) (records : List Record) :
    journal.Extends (journal.putMany records) :=
  putMany_preserves (fun _ record h => h.put record) (Extends.refl journal) records

theorem extends_call (journal : Journal) (call : Call) : journal.Extends (journal.call call) :=
  call_preserves (fun _ record h => h.put record) (fun _ _ h => h) (Extends.refl journal) call

theorem extends_calls (journal : Journal) (calls : List Call) :
    journal.Extends (journal.calls calls) :=
  calls_preserves (fun _ record h => h.put record) (fun _ _ h => h) (Extends.refl journal) calls

end Journal

/-- A step is issued in full, or the writer fails within it. -/
theorem issue_spec (volume : Volume) (step : Step)
    (hfile : step.writer.file < volume.contents.size) :
    ∃ outcome writer after, step.issue volume = (outcome, writer, after) ∧
      Volume.SameNames volume after ∧
      (outcome = .ok () ∧ writer = step.writer ∧
          after.content step.writer.file =
            (volume.content step.writer.file).applyAll step.requests ∨
        volume.faults ≠ FaultPlan.none ∧ (∃ error, outcome = .error error) ∧
          writer = { step.writer with state := .failed } ∧
          (volume.content step.writer.file).CutWithin step.requests
            (after.content step.writer.file)) := by
  obtain ⟨hsame, hperform⟩ := volume.performAll_spec hfile step.requests
  unfold Step.issue
  rcases hafter : volume.performAll step.writer.file step.requests with ⟨outcome, after⟩
  rw [hafter] at hsame hperform
  rcases hperform with ⟨hok, hcontent⟩ | ⟨hfaults, ⟨cause, herror⟩, hcut⟩
  · dsimp only at hok
    subst hok
    exact ⟨_, _, _, rfl, hsame, Or.inl ⟨rfl, rfl, hcontent⟩⟩
  · dsimp only at herror
    subst herror
    exact ⟨_, _, _, rfl, hsame, Or.inr ⟨hfaults, ⟨_, rfl⟩, rfl, hcut⟩⟩

theorem issueAll_spec (volume : Volume) (writer : Writer) (file : FileId) (steps : List Step)
    (hsteps : ∀ step ∈ steps, step.writer.file = file) (hfile : file < volume.contents.size) :
    ∃ outcome writer' after, issueAll writer volume steps = (outcome, writer', after) ∧
      Volume.SameNames volume after ∧
      (outcome = .ok () ∧ writer' = writer.last steps ∧
          after.content file = (volume.content file).applyAll (requests steps) ∨
        volume.faults ≠ FaultPlan.none ∧ (∃ error, outcome = .error error) ∧
          writer'.state = .failed ∧
          (volume.content file).CutWithin (requests steps) (after.content file)) := by
  induction steps generalizing volume writer with
  | nil => exact ⟨_, _, _, rfl, Volume.SameNames.refl volume, Or.inl ⟨rfl, rfl, rfl⟩⟩
  | cons step steps ih =>
    have hstep := hsteps step List.mem_cons_self
    obtain ⟨outcome, writer', after, hissue, hsame, hcase⟩ :=
      issue_spec volume step (hstep ▸ hfile)
    rw [hstep] at hcase
    have hrequests : requests (step :: steps) = step.requests ++ requests steps := rfl
    unfold issueAll
    rw [hissue, hrequests]
    rcases hcase with ⟨rfl, rfl, hcontent⟩ | ⟨hfaults, ⟨error, rfl⟩, rfl, hcut⟩
    · -- the first step went through, and the others may stop within one of them
      obtain ⟨outcome, writer', later, hall, hsame', hcase⟩ := ih after step.writer
        (fun other hother => hsteps other (List.mem_cons_of_mem _ hother)) (hsame.size_eq ▸ hfile)
      rw [hcontent, hsame.faults_eq] at hcase
      refine ⟨outcome, writer', later, hall, hsame.trans hsame', ?_⟩
      rcases hcase with ⟨hok, hlast, hfinal⟩ | ⟨hfaults, herror, hstate, hcut⟩
      · refine Or.inl ⟨hok, hlast, ?_⟩
        rw [Content.applyAll_append]
        exact hfinal
      · exact Or.inr ⟨hfaults, herror, hstate, hcut.behind⟩
    · exact ⟨_, _, _, rfl, hsame, Or.inr ⟨hfaults, ⟨error, rfl⟩, rfl, hcut.append _⟩⟩

theorem performAll_of_issue {step : Step} {volume after : Volume} {writer : Writer}
    (h : step.issue volume = (.ok (), writer, after)) :
    writer = step.writer ∧
      volume.performAll step.writer.file step.requests = (.ok (), after) := by
  unfold Step.issue at h
  rcases hperform : volume.performAll step.writer.file step.requests with ⟨⟨cause⟩ | ⟨⟨⟩⟩, next⟩
  · rw [hperform] at h
    cases h
  · rw [hperform] at h
    cases h
    exact ⟨rfl, rfl⟩

theorem performAll_of_issueAll {steps : List Step} {volume after : Volume} {writer next : Writer}
    {file : FileId} (hsteps : ∀ step ∈ steps, step.writer.file = file)
    (h : issueAll writer volume steps = (.ok (), next, after)) :
    volume.performAll file (requests steps) = (.ok (), after) := by
  induction steps generalizing volume writer with
  | nil =>
    cases h
    rfl
  | cons step steps ih =>
    unfold issueAll at h
    rcases hissue : step.issue volume with ⟨⟨error⟩ | ⟨⟨⟩⟩, writer', middle⟩
    · rw [hissue] at h
      cases h
    · rw [hissue] at h
      obtain ⟨-, hperform⟩ := performAll_of_issue hissue
      rw [hsteps step List.mem_cons_self] at hperform
      exact (Volume.performAll_append hperform _).trans
        (ih (fun other hother => hsteps other (List.mem_cons_of_mem _ hother)) h)

/-- A session that has come to the same as its journal. -/
structure Abreast (opened : Volume) (file : FileId) (journal : Journal) (session : Session) :
    Prop where
  sameNames : Volume.SameNames opened session.volume
  file_eq : session.writer.file = file
  accepted_eq : session.accepted = journal.accepted
  writer_eq : session.writer = journal.writer
  content_eq : session.volume.content file = journal.file
  performed : opened.performAll file journal.requests = (.ok (), session.volume)

/-- A session that failed within the requests of its journal. -/
structure Stopped (opened : Volume) (file : FileId) (journal : Journal) (session : Session) :
    Prop where
  sameNames : Volume.SameNames opened session.volume
  faults_ne : opened.faults ≠ FaultPlan.none
  state_eq : session.writer.state = .failed
  cut : Content.empty.CutWithin journal.requests (session.volume.content file)

variable {attributes : Attributes} {options : Options} {layout : Layout} {opened : Volume}
  {file : FileId} {journal next : Journal} {session : Session}

/-- The journal goes on alone. -/
theorem Stopped.grow (h : Stopped opened file journal session)
    (hnext : journal.Extends next) : Stopped opened file next session := by
  obtain ⟨more, hmore⟩ := hnext
  refine ⟨h.sameNames, h.faults_ne, h.state_eq, ?_⟩
  rw [hmore]
  exact h.cut.append more

theorem Stopped.call (h : Stopped opened file journal session) (call : Call) :
    Stopped opened file (journal.call call) (session.call call) := by
  have hgrown := h.grow (journal.extends_call call)
  cases call with
  | setOrder order =>
    refine ⟨h.sameNames, h.faults_ne, ?_, h.cut⟩
    unfold Session.call Writer.setOrder
    dsimp only
    split_ifs
    · exact h.state_eq
    · exact h.state_eq
  | put record =>
    simp only [Session.call, Session.put_of_failed h.state_eq record]
    exact hgrown
  | putMany records =>
    cases records with
    | nil => exact h
    | cons record records =>
      simp only [Session.call, Session.putMany, Session.put_of_failed h.state_eq record]
      exact hgrown

theorem alike_take {writer : Writer} {record : Record} {steps : List Step}
    (h : writer.take record = .ok steps) :
    (∀ step ∈ steps, Alike writer step.writer) ∧ Alike writer (writer.last steps) := by
  obtain ⟨key, -, happend⟩ := Progress.take_eq_ok h
  exact ⟨alike_append happend, (Progress.last_append happend).1⟩

/-- A record is refused or taken by both, or the session fails over it. -/
theorem Abreast.put (hl : layout.Planned attributes)
    (hsound : journal.Sound attributes options layout) (hfile : file < opened.contents.size)
    (h : Abreast opened file journal session) (record : Record) :
    (session.put record).1 = (journal.put record).1 ∧
        Abreast opened file (journal.put record).2 (session.put record).2 ∨
      (∃ error, (session.put record).1 = .error error) ∧
        Stopped opened file (journal.put record).2 (session.put record).2 := by
  have hput := Progress.put_eq hl hsound session.volume record
  rw [← h.writer_eq] at hput
  unfold Session.put Journal.put
  rw [hput, ← h.writer_eq]
  cases htake : session.writer.take record with
  | error error => exact Or.inl ⟨rfl, h⟩
  | ok steps =>
    obtain ⟨halike, hlast⟩ := alike_take htake
    have hsteps : ∀ step ∈ steps, step.writer.file = file := by
      intro step hstep
      rw [(halike step hstep).file_eq, h.file_eq]
    obtain ⟨outcome, writer, after, hissue, hsame, hcase⟩ := issueAll_spec session.volume
      session.writer file steps hsteps (h.sameNames.size_eq ▸ hfile)
    rw [h.content_eq, h.sameNames.faults_eq] at hcase
    dsimp only
    rw [hissue]
    rcases hcase with ⟨rfl, rfl, hcontent⟩ | ⟨hfaults, ⟨error, rfl⟩, hstate, hcut⟩
    · refine Or.inl ⟨rfl, h.sameNames.trans hsame, ?_, ?_, rfl, ?_, ?_⟩
      · exact hlast.file_eq.trans h.file_eq
      · dsimp only
        rw [h.accepted_eq]
      · rw [hcontent, Journal.file, Journal.file, Content.applyAll_append]
      · exact (Volume.performAll_append h.performed _).trans (performAll_of_issueAll hsteps hissue)
    · exact Or.inr ⟨⟨error, rfl⟩, h.sameNames.trans hsame, hfaults, hstate, hcut.behind⟩

theorem Abreast.putMany (hl : layout.Planned attributes)
    (hsound : journal.Sound attributes options layout) (hfile : file < opened.contents.size)
    (h : Abreast opened file journal session) (records : List Record) :
    Abreast opened file (journal.putMany records) (session.putMany records) ∨
      Stopped opened file (journal.putMany records) (session.putMany records) := by
  induction records generalizing journal session with
  | nil => exact Or.inl h
  | cons record records ih =>
    have hgrow := fun next : Journal => next.extends_putMany records
    have hnext := hsound.put hl record
    have hput := h.put hl hsound hfile record
    unfold Journal.putMany Session.putMany
    -- session and journal disagree on a record only where a request fails
    rcases hsession : session.put record with ⟨⟨error⟩ | ⟨⟨⟩⟩, later⟩ <;>
      rcases hjournal : journal.put record with ⟨⟨fault⟩ | ⟨⟨⟩⟩, next⟩ <;>
      rw [hsession, hjournal] at hput <;> rw [hjournal] at hnext
    · exact hput.imp And.right And.right
    · rcases hput with ⟨houtcome, -⟩ | ⟨-, hstopped⟩
      · cases houtcome
      · exact Or.inr (hstopped.grow (hgrow next))
    · rcases hput with ⟨houtcome, -⟩ | ⟨⟨error, herror⟩, -⟩
      · cases houtcome
      · cases herror
    · rcases hput with ⟨-, hnextAbreast⟩ | ⟨⟨error, herror⟩, -⟩
      · exact ih hnext hnextAbreast
      · cases herror

theorem Abreast.call (hl : layout.Planned attributes)
    (hsound : journal.Sound attributes options layout) (hfile : file < opened.contents.size)
    (h : Abreast opened file journal session) (call : Call) :
    Abreast opened file (journal.call call) (session.call call) ∨
      Stopped opened file (journal.call call) (session.call call) := by
  cases call with
  | setOrder order =>
    left
    refine ⟨h.sameNames, ?_, h.accepted_eq, ?_, h.content_eq, h.performed⟩
    · unfold Session.call Writer.setOrder
      dsimp only
      split_ifs
      · exact h.file_eq
      · exact h.file_eq
    · unfold Session.call Journal.call
      dsimp only
      rw [h.writer_eq]
  | put record => exact (h.put hl hsound hfile record).imp And.right And.right
  | putMany records => exact h.putMany hl hsound hfile records

/-- After any calls a session has come to the same as its journal, or failed on the way. -/
theorem Abreast.calls (hl : layout.Planned attributes)
    (hsound : journal.Sound attributes options layout) (hfile : file < opened.contents.size)
    (h : Abreast opened file journal session) (calls : List Call) :
    Abreast opened file (journal.calls calls) (session.calls calls) ∨
      Stopped opened file (journal.calls calls) (session.calls calls) := by
  have hstopped : ∀ {journal : Journal} {session : Session} (calls : List Call),
      Stopped opened file journal session →
        Stopped opened file (journal.calls calls) (session.calls calls) := by
    intro journal session calls h
    induction calls generalizing journal session with
    | nil => exact h
    | cons call calls ih => exact ih (h.call call)
  induction calls generalizing journal session with
  | nil => exact Or.inl h
  | cons call calls ih =>
    rcases h.call hl hsound hfile call with hnext | hnext
    · exact ih (hsound.call hl call) hnext
    · exact Or.inr (hstopped calls hnext)

end Writer

end PackedIndex
