import Mathlib
import PackedIndex.Proofs.Run
/-! # Whole runs

A run creates a writer, uses it, and finishes it. One that goes through leaves a finished file of
the records that it took, on a volume where the path leads to that file.
-/
namespace PackedIndex

open Outcome

theorem Options.validate_eq_ok {options : Options} (h : options.validate = .ok ()) {size : ℕ}
    (hsize : options.pageSize = some size) : Size.header ≤ size ∧ size ≤ Size.mostPage := by
  unfold Options.validate at h
  rw [hsize] at h
  dsimp only at h
  rw [guard_eq_ok, guard_eq_ok] at h
  exact ⟨not_lt.mp h.1, not_lt.mp h.2.1⟩

theorem Options.valueBufferSize_pos {options : Options} (h : options.validate = .ok ()) :
    0 < options.valueBufferSize := by
  unfold Options.validate at h
  cases hsize : options.pageSize with
  | none =>
    simp only [hsize] at h
    split_ifs at h with hzero
    exact Nat.pos_of_ne_zero hzero
  | some size =>
    rw [hsize] at h
    dsimp only at h
    rw [guard_eq_ok, guard_eq_ok] at h
    obtain ⟨-, -, h⟩ := h
    split_ifs at h with hzero
    exact Nat.pos_of_ne_zero hzero

namespace Writer

/-- What a run that went through leaves besides its file. -/
structure Built where
  /-- The records that were taken, in order. -/
  accepted : List Record
  /-- The geometry that was planned. -/
  layout : Layout
  /-- The order that keys were checked by. -/
  order : KeyOrder
  /-- The length of the file, as finishing answered it. -/
  size : ℕ

/-- A whole run: a writer is created, used, and finished. -/
def build (volume : Volume) (path : String) (attributes : Attributes) (options : Options)
    (calls : List Call) : Except Error Built × Volume :=
  match create volume path attributes options with
  | (.error error, volume) => (.error error, volume)
  | (.ok writer, volume) =>
    let session := Session.calls ⟨[], writer, volume⟩ calls
    match session.writer.finish session.volume with
    | (.error error, volume) => (.error error, volume)
    | (.ok size, volume) =>
      (.ok ⟨session.accepted, session.writer.layout, session.writer.order, size⟩, volume)

theorem header_le_defaultPageSize (volume : Volume) :
    Size.header ≤ defaultPageSize volume ∧ defaultPageSize volume ≤ Size.mostPage := by
  unfold defaultPageSize
  split_ifs with h
  · exact h
  · decide

def pageSize (volume : Volume) (options : Options) : ℕ :=
  options.pageSize.getD (defaultPageSize volume)

theorem defaultPageSize_congr {volume other : Volume} (h : other.blockSize = volume.blockSize) :
    defaultPageSize other = defaultPageSize volume := by
  rw [defaultPageSize, defaultPageSize, h]

theorem planFixed_eq_ok {attributes : Attributes} {options : Options} {fixed : Option Layout}
    (h : planFixed attributes options = .ok fixed) :
    options.validate = .ok () ∧
      match options.pageSize with
      | none => fixed = none
      | some size => ∃ layout, fixed = some layout ∧ Layout.plan attributes size = .ok layout := by
  unfold planFixed at h
  rw [bind_eq_ok] at h
  obtain ⟨⟨⟩, hvalid, h⟩ := h
  rw [bind_eq_ok] at h
  obtain ⟨⟨⟩, -, h⟩ := h
  rw [mapError_eq_ok] at hvalid
  refine ⟨hvalid, ?_⟩
  cases hsize : options.pageSize with
  | none =>
    rw [hsize] at h
    cases h
    rfl
  | some size =>
    rw [hsize] at h
    dsimp only at h
    rw [bind_eq_ok] at h
    obtain ⟨layout, hplan, h⟩ := h
    rw [mapError_eq_ok] at hplan
    cases h
    exact ⟨layout, rfl, hplan⟩

/-- A run that has got its file and its geometry. -/
structure Opened (path : String) (attributes : Attributes) (options : Options) (volume : Volume)
    (layout : Layout) (file : FileId) (opened : Volume) : Prop where
  plan_eq : Layout.plan attributes layout.pageSize = .ok layout
  pageSize_eq : layout.pageSize = pageSize volume options
  header_le : Size.header ≤ layout.pageSize
  pageSize_le : layout.pageSize ≤ Size.mostPage
  existing_eq : opened.existing path = .ok (.file file)
  file_lt : file < opened.contents.size
  content_eq : opened.content file = Content.empty
  faults_eq : opened.faults = volume.faults

theorem planOn_spec {volume opened later : Volume} {path : String} {attributes : Attributes}
    {options : Options} {fixed : Option Layout} {file : FileId} {layout : Layout}
    (hfixed : planFixed attributes options = .ok fixed)
    (hopen : volume.openEmpty path = .ok (file, opened))
    (hplan : planOn opened file attributes fixed = (.ok layout, later)) :
    Opened path attributes options volume layout file later := by
  obtain ⟨hexisting, hcontent, hfile, hblock, hfaults⟩ := Volume.openEmpty_spec hopen
  obtain ⟨hvalid, hsize⟩ := planFixed_eq_ok hfixed
  cases hchosen : options.pageSize with
  | some size =>
    -- the geometry was planned before the file was touched
    rw [hchosen] at hsize
    obtain ⟨found, rfl, hfound⟩ := hsize
    cases hplan
    obtain ⟨rfl, -⟩ := Layout.planned_of_plan hfound
    obtain ⟨hheader, hmost⟩ := Options.validate_eq_ok hvalid hchosen
    refine ⟨hfound, ?_, hheader, hmost, hexisting, hfile, hcontent, hfaults⟩
    rw [pageSize, hchosen, Option.getD_some]
  | none =>
    -- the page size is the block size of the volume, which opening the file has not changed
    rw [hchosen] at hsize
    subst hsize
    obtain ⟨hsame, hstatus⟩ := opened.perform_spec hfile .status
    unfold planOn at hplan
    rcases hperform : opened.perform file .status with ⟨⟨cause⟩ | ⟨⟨⟩⟩, after⟩
    · rw [hperform] at hplan
      cases hplan
    · rw [hperform] at hplan hsame hstatus
      dsimp only at hplan hsame hstatus
      obtain ⟨hfound, rfl⟩ := Prod.mk.inj hplan
      rw [mapError_eq_ok] at hfound
      obtain ⟨hpage, -⟩ := Layout.planned_of_plan hfound
      obtain ⟨hheader, hmost⟩ := header_le_defaultPageSize after
      have hdefault := defaultPageSize_congr (hsame.blockSize_eq.trans hblock)
      rw [← hpage] at hfound hheader hmost
      refine ⟨hfound, ?_, hheader, hmost, ?_, ?_, ?_, ?_⟩
      · rw [pageSize, hchosen, Option.getD_none, hpage, hdefault]
      · rw [hsame.existing_eq, hexisting]
      · rw [hsame.size_eq]
        exact hfile
      · rcases hstatus with ⟨-, hsame'⟩ | ⟨-, cause, written, herror, -⟩
        · rw [hsame', Content.apply, hcontent]
        · cases herror
      · rw [hsame.faults_eq, hfaults]

theorem content_removeQuietly (volume : Volume) (path : String) (file : FileId) :
    (removeQuietly volume path).content file = volume.content file := by
  unfold removeQuietly
  cases hremove : volume.remove path with
  | error => rfl
  | ok later =>
    unfold Volume.remove at hremove
    rw [bind_eq_ok] at hremove
    obtain ⟨entry, -, hremove⟩ := hremove
    cases entry with
    | directory => cases hremove
    | file other =>
      dsimp only at hremove
      rw [bind_eq_ok] at hremove
      obtain ⟨taken, -, hremove⟩ := hremove
      rw [bind_eq_ok] at hremove
      obtain ⟨way, -, hremove⟩ := hremove
      cases hremove
      rfl

theorem create_eq_ok {volume created : Volume} {path : String} {attributes : Attributes}
    {options : Options} {writer : Writer}
    (h : create volume path attributes options = (.ok writer, created)) :
    ∃ fixed file opened layout later, planFixed attributes options = .ok fixed ∧
      volume.openEmpty path = .ok (file, opened) ∧
      planOn opened file attributes fixed = (.ok layout, later) := by
  unfold create at h
  cases hfixed : planFixed attributes options with
  | error =>
    rw [hfixed] at h
    cases h
  | ok fixed =>
    rw [hfixed] at h
    dsimp only at h
    rcases hopen : volume.openEmpty path with cause | ⟨file, opened⟩
    · rw [hopen] at h
      cases h
    rw [hopen] at h
    dsimp only at h
    rcases hplan : planOn opened file attributes fixed with ⟨error | layout, later⟩
    · rw [hplan] at h
      cases h
    exact ⟨fixed, file, opened, layout, later, rfl, rfl, hplan⟩

/-- The first requests of a run succeed, and its writer stands at the start of its journal, or one
of them fails. -/
theorem create_spec {volume opened later : Volume} {path : String} {attributes : Attributes}
    {options : Options} {fixed : Option Layout} {file : FileId} {layout : Layout}
    (hfixed : planFixed attributes options = .ok fixed)
    (hopen : volume.openEmpty path = .ok (file, opened))
    (hplan : planOn opened file attributes fixed = (.ok layout, later)) :
    ∃ outcome created, create volume path attributes options = (outcome, created) ∧
      ((∃ writer, outcome = .ok writer ∧
          Abreast later file (Journal.start path file attributes layout options)
            ⟨[], writer, created⟩) ∨
        volume.faults ≠ FaultPlan.none ∧ (∃ error, outcome = .error error) ∧
          Content.empty.CutWithin (start path file attributes layout options).requests
            (created.content file)) := by
  have hopened := planOn_spec hfixed hopen hplan
  have hfile : (start path file attributes layout options).writer.file = file := rfl
  obtain ⟨outcome, writer, after, hissue, hsame, hcase⟩ :=
    issue_spec later (start path file attributes layout options) hopened.file_lt
  rw [hfile, hopened.content_eq, hopened.faults_eq] at hcase
  unfold create
  rw [hfixed]
  dsimp only
  rw [hopen]
  dsimp only
  rw [hplan]
  dsimp only
  rw [hissue]
  rcases hcase with ⟨rfl, rfl, hcontent⟩ | ⟨hfaults, ⟨error, rfl⟩, -, hcut⟩
  · have hperformed := (performAll_of_issue hissue).2
    exact ⟨_, _, rfl, Or.inl ⟨_, rfl, hsame, rfl, rfl, rfl, hcontent, hperformed⟩⟩
  · refine ⟨_, _, rfl, Or.inr ⟨hfaults, ⟨error, rfl⟩, ?_⟩⟩
    rw [content_removeQuietly]
    exact hcut

theorem started_of_create {volume created : Volume} {path : String} {attributes : Attributes}
    {options : Options} {writer : Writer}
    (h : create volume path attributes options = (.ok writer, created)) :
    ∃ layout file opened, options.validate = .ok () ∧
      Opened path attributes options volume layout file opened ∧
      Abreast opened file (Journal.start path file attributes layout options)
        ⟨[], writer, created⟩ := by
  obtain ⟨fixed, file, opened, layout, later, hfixed, hopen, hplan⟩ := create_eq_ok h
  refine ⟨layout, file, later, (planFixed_eq_ok hfixed).1, planOn_spec hfixed hopen hplan, ?_⟩
  obtain ⟨outcome, _, hspec, hcase⟩ := create_spec hfixed hopen hplan
  rw [h] at hspec
  cases hspec
  rcases hcase with ⟨_, ⟨⟩, hstart⟩ | ⟨-, ⟨error, ⟨⟩⟩, -⟩
  exact hstart

/-- The calls to a writer that was created go on beside its journal, until a request is refused. -/
theorem calls_of_create {volume created : Volume} {path : String} {attributes : Attributes}
    {options : Options} {writer : Writer}
    (h : create volume path attributes options = (.ok writer, created)) (calls : List Call) :
    ∃ layout file opened, options.validate = .ok () ∧
      Opened path attributes options volume layout file opened ∧ layout.Planned attributes ∧
      writer.file = file ∧
      ((Journal.start path file attributes layout options).calls calls).Sound attributes options
        layout ∧
      (Abreast opened file ((Journal.start path file attributes layout options).calls calls)
          (Session.calls ⟨[], writer, created⟩ calls) ∨
        Stopped opened file ((Journal.start path file attributes layout options).calls calls)
          (Session.calls ⟨[], writer, created⟩ calls)) := by
  obtain ⟨layout, file, opened, hvalid, hopened, hstart⟩ := started_of_create h
  obtain ⟨-, hl⟩ := Layout.planned_of_plan hopened.plan_eq
  have hstarted := Journal.sound_start hl options path file
  exact ⟨layout, file, opened, hvalid, hopened, hl, hstart.file_eq, hstarted.calls hl calls,
    hstart.calls hl hstarted hopened.file_lt calls⟩

section

variable {attributes : Attributes} {options : Options} {layout : Layout} {opened after : Volume}
  {file : FileId} {journal : Journal} {session : Session}

theorem commit_file (writer : Writer) : writer.commit.writer.file = writer.file :=
  (alike_flushValues writer).file_eq

theorem content_drop (writer : Writer) (volume : Volume) (file : FileId) :
    (writer.drop volume).content file = volume.content file := by
  unfold Writer.drop
  cases writer.state with
  | accepting => exact content_removeQuietly volume writer.path file
  | failed => exact content_removeQuietly volume writer.path file
  | finished => rfl
  | discarded => rfl

theorem Journal.Sound.file_ending (h : journal.Sound attributes options layout)
    (hplan : Layout.plan attributes layout.pageSize = .ok layout)
    (hheader : Size.header ≤ layout.pageSize) (hmost : layout.pageSize ≤ Size.mostPage)
    (hcount : journal.accepted.length = layout.recordCount) :
    Finished attributes layout journal.accepted
      (Content.empty.applyAll (journal.ending true)) := by
  unfold Journal.ending
  rw [h.written_eq, h.layout_eq, if_pos ⟨rfl, hcount⟩, Content.applyAll_append]
  exact Progress.commit hplan hheader hmost h hcount

/-- Finishing completes the file of a session that has all records, or stops within its requests. -/
theorem Abreast.finish (hsound : journal.Sound attributes options layout)
    (hfile : file < opened.contents.size) (h : Abreast opened file journal session) :
    ∃ outcome after, session.writer.finish session.volume = (outcome, after) ∧
      (journal.accepted.length = layout.recordCount ∧ outcome = .ok (after.content file).size ∧
          Volume.SameNames opened after ∧
          after.content file = Content.empty.applyAll (journal.ending true) ∧
          opened.performAll file (journal.ending true) = (.ok (), after) ∨
        (∃ error, outcome = .error error) ∧
          (opened.faults = FaultPlan.none → journal.accepted.length ≠ layout.recordCount ∧
            after.content file = Content.empty.applyAll (journal.ending true)) ∧
          Content.Snapshot (journal.ending true) (after.content file)) := by
  have hcommit : session.writer.commit.writer.file = file := (commit_file _).trans h.file_eq
  have hlayout : journal.writer.layout = layout := hsound.layout_eq
  have hwritten : journal.writer.written = journal.accepted.length := hsound.written_eq
  unfold Writer.finish Journal.ending
  rw [h.writer_eq] at hcommit ⊢
  rw [ensureAccepting_eq_ok.mpr hsound.state_eq, hlayout, hwritten]
  dsimp only
  by_cases hcount : journal.accepted.length = layout.recordCount
  · rw [if_neg (not_not.mpr hcount), if_pos ⟨rfl, hcount⟩]
    obtain ⟨outcome, writer, after, hissue, hsame, hcase⟩ := issue_spec session.volume
      journal.writer.commit (by rw [hcommit, h.sameNames.size_eq]; exact hfile)
    rw [hcommit, h.content_eq, h.sameNames.faults_eq] at hcase
    rw [hissue]
    rcases hcase with ⟨rfl, rfl, hcontent⟩ | ⟨hfaults, ⟨error, rfl⟩, -, hcut⟩
    · dsimp only
      rw [hcommit]
      have hperformed := (performAll_of_issue hissue).2
      rw [hcommit] at hperformed
      refine ⟨_, after, rfl, Or.inl ⟨hcount, rfl, h.sameNames.trans hsame, ?_, ?_⟩⟩
      · rw [hcontent, Content.applyAll_append]
        rfl
      · exact (Volume.performAll_append h.performed _).trans hperformed
    · refine ⟨_, _, rfl, Or.inr ⟨⟨error, rfl⟩, fun hnone => absurd hnone hfaults, ?_⟩⟩
      rw [content_drop]
      exact hcut.behind.snapshot
  · rw [if_pos hcount, if_neg fun h => hcount h.2]
    have hcontent := (content_removeQuietly session.volume journal.writer.path file).trans
      h.content_eq
    refine ⟨_, _, rfl, Or.inr ⟨⟨_, rfl⟩, fun _ => ⟨hcount, hcontent⟩, ?_⟩⟩
    rw [hcontent]
    exact Content.snapshot_applyAll _

theorem Stopped.finish (h : Stopped opened file journal session) :
    ∃ error after, session.writer.finish session.volume = (.error error, after) ∧
      after.content file = session.volume.content file := by
  unfold Writer.finish ensureAccepting
  rw [h.state_eq]
  exact ⟨_, _, rfl, content_drop _ _ _⟩

structure Leaves (volume : Volume) (path : String) (attributes : Attributes) (options : Options)
    (built : Built) (after : Volume) (file : FileId) : Prop where
  finished : Finished attributes built.layout built.accepted (after.content file)
  pageSize_eq : built.layout.pageSize = pageSize volume options
  existing_eq : after.existing path = .ok (.file file)
  size_eq : built.size = (after.content file).size
  ascending : options.verifyOrder = true → ∀ index, index + 1 < built.accepted.length →
    built.order (Image.key built.layout built.accepted (index + 1))
      (Image.key built.layout built.accepted index) = .gt

theorem build_spec {volume : Volume} {path : String} {calls : List Call} {built : Built}
    (h : build volume path attributes options calls = (.ok built, after)) :
    ∃ file, Leaves volume path attributes options built after file := by
  unfold build at h
  rcases hcreate : create volume path attributes options with ⟨error | writer, created⟩
  · rw [hcreate] at h
    cases h
  rw [hcreate] at h
  dsimp only at h
  obtain ⟨layout, file, opened, -, hopened, hl, -, hsound, hsession⟩ := calls_of_create hcreate calls
  rcases hsession with habreast | hstopped
  · obtain ⟨outcome, later, hfinish, hcase⟩ := habreast.finish hsound hopened.file_lt
    rw [hfinish] at h
    rcases hcase with ⟨hcount, rfl, hsame, hcontent, -⟩ | ⟨⟨error, rfl⟩, -⟩
    · cases h
      have hlayout := (congrArg Writer.layout habreast.writer_eq).trans hsound.layout_eq
      refine ⟨file, ?_, ?_, ?_, ?_, ?_⟩
      · dsimp only
        rw [hlayout, habreast.accepted_eq, hcontent]
        exact hsound.file_ending hopened.plan_eq hopened.header_le hopened.pageSize_le hcount
      · dsimp only
        rw [hlayout, hopened.pageSize_eq]
      · rw [hsame.existing_eq, hopened.existing_eq]
      · rfl
      · dsimp only
        rw [hlayout, habreast.accepted_eq, habreast.writer_eq]
        exact hsound.ascending
    · cases h
  · obtain ⟨error, later, hfinish, -⟩ := hstopped.finish
    rw [hfinish] at h
    cases h

/-- A run that went through is a session that was finished. -/
theorem session_of_build {volume : Volume} {path : String} {calls : List Call} {built : Built}
    (h : build volume path attributes options calls = (.ok built, after)) :
    ∃ writer created, create volume path attributes options = (.ok writer, created) ∧
      (Session.calls ⟨[], writer, created⟩ calls).accepted = built.accepted ∧
      (Session.calls ⟨[], writer, created⟩ calls).writer.layout = built.layout := by
  unfold build at h
  rcases hcreate : create volume path attributes options with ⟨error | writer, created⟩
  · rw [hcreate] at h
    cases h
  refine ⟨writer, created, rfl, ?_⟩
  rw [hcreate] at h
  dsimp only at h
  split at h
  · cases h
  · cases h
    exact ⟨rfl, rfl⟩

theorem finish_of_build {volume created : Volume} {path : String} {calls : List Call}
    {built : Built} {writer : Writer}
    (h : build volume path attributes options calls = (.ok built, after))
    (hcreate : create volume path attributes options = (.ok writer, created))
    (hcalls : Session.calls ⟨[], writer, created⟩ calls = session) :
    session.writer.finish session.volume = (.ok built.size, after) := by
  unfold build at h
  rw [hcreate] at h
  dsimp only at h
  rw [hcalls] at h
  split at h
  · cases h
  · cases h
    assumption

theorem planOn_of_plan {volume : Volume} {path : String} {fixed : Option Layout}
    (hfaults : volume.faults = FaultPlan.none) (hfixed : planFixed attributes options = .ok fixed)
    (hopen : volume.openEmpty path = .ok (file, opened))
    (hplan : Layout.plan attributes (pageSize volume options) = .ok layout) :
    ∃ later, planOn opened file attributes fixed = (.ok layout, later) := by
  obtain ⟨-, -, hfile, hblock, hfaults'⟩ := Volume.openEmpty_spec hopen
  obtain ⟨-, hsize⟩ := planFixed_eq_ok hfixed
  cases hchosen : options.pageSize with
  | some size =>
    rw [hchosen] at hsize
    obtain ⟨found, rfl, hfound⟩ := hsize
    rw [pageSize, hchosen, Option.getD_some, hfound] at hplan
    cases hplan
    exact ⟨opened, rfl⟩
  | none =>
    rw [hchosen] at hsize
    subst hsize
    obtain ⟨hsame, hstatus⟩ := opened.perform_spec hfile .status
    unfold planOn
    rcases hperform : opened.perform file .status with ⟨⟨cause⟩ | ⟨⟨⟩⟩, after⟩
    · rw [hperform] at hstatus
      rcases hstatus with ⟨hok, -⟩ | ⟨hne, -⟩
      · cases hok
      · exact absurd (hfaults'.trans hfaults) hne
    · rw [hperform] at hsame
      have hdefault : defaultPageSize after = pageSize volume options := by
        rw [pageSize, hchosen, Option.getD_none]
        exact defaultPageSize_congr (hsame.blockSize_eq.trans hblock)
      rw [← hdefault] at hplan
      refine ⟨after, ?_⟩
      dsimp only
      rw [hplan]
      rfl

/-- Where no request fails, a run goes through when its calls bring all records. -/
theorem build_of_journal {volume : Volume} {path : String} {fixed : Option Layout}
    {calls : List Call} (hfaults : volume.faults = FaultPlan.none)
    (hfixed : planFixed attributes options = .ok fixed)
    (hopen : volume.openEmpty path = .ok (file, opened))
    (hplan : Layout.plan attributes (pageSize volume options) = .ok layout)
    (hcount : ((Journal.start path file attributes layout options).calls calls).accepted.length =
      layout.recordCount) :
    ∃ built after, build volume path attributes options calls = (.ok built, after) ∧
      built.accepted = ((Journal.start path file attributes layout options).calls calls).accepted ∧
      built.layout = layout ∧
      built.order =
        ((Journal.start path file attributes layout options).calls calls).writer.order := by
  obtain ⟨later, hlater⟩ := planOn_of_plan hfaults hfixed hopen hplan
  have hopened := planOn_spec hfixed hopen hlater
  have hnone := hopened.faults_eq.trans hfaults
  obtain ⟨-, hl⟩ := Layout.planned_of_plan hplan
  have hstarted := Journal.sound_start hl options path file
  have hsound := hstarted.calls hl calls
  obtain ⟨_, created, hcreate, ⟨writer, rfl, hstart⟩ | ⟨hne, -⟩⟩ := create_spec hfixed hopen hlater
  rotate_left
  · exact absurd hfaults hne
  unfold build
  rw [hcreate]
  dsimp only
  rcases hstart.calls hl hstarted hopened.file_lt calls with habreast | hstopped
  · obtain ⟨outcome, later, hfinish, hcase⟩ := habreast.finish hsound hopened.file_lt
    rw [hfinish]
    rcases hcase with ⟨-, rfl, -⟩ | ⟨-, hshort, -⟩
    · refine ⟨_, _, rfl, habreast.accepted_eq, ?_, ?_⟩
      · exact (congrArg Writer.layout habreast.writer_eq).trans hsound.layout_eq
      · exact congrArg Writer.order habreast.writer_eq
    · exact absurd hcount (hshort hnone).1
  · exact absurd hnone hstopped.faults_ne

end

/-! ## A small run -/

namespace Sample

/-- Long keys, so that a leaf page has room for two records. -/
def attributes : Attributes := .blob 300 3

def options : Options := { pageSize := some 636 }

def volume : Volume := .empty 4096 .none

/-- The second record is out of order and is refused. -/
def calls : List Call :=
  [.put (.blob [1].toByteArray [7].toByteArray), .put (.blob [0].toByteArray [8].toByteArray),
    .putMany [.blob [2].toByteArray [9].toByteArray, .blob [3].toByteArray ByteArray.empty]]

def records : List Record :=
  [.blob [1].toByteArray [7].toByteArray, .blob [2].toByteArray [9].toByteArray,
    .blob [3].toByteArray ByteArray.empty]

def layout : Layout :=
  { pageSize := 636
    keySize := 300
    recordCount := 3
    encoding := .blob
    leafRecordSize := 308
    recordsPerLeafPage := 2
    leafPages := 2
    leafOffset := 1272
    valueOffset := 2544
    branchingFactor := 3
    levels := [⟨636, 1⟩] }

theorem plan_eq : Layout.plan attributes 636 = .ok layout := by
  decide +kernel

theorem openEmpty_eq : volume.openEmpty "t" = .ok (0, volume.addFile ["t"]) := by
  unfold volume
  cbv

theorem accepted_eq :
    ((Journal.start "t" 0 attributes layout options).calls calls).accepted = records := by
  decide +kernel

theorem planFixed_eq : planFixed attributes options = .ok (some layout) := rfl

theorem size_values_lt :
    layout.leafEnd + (Image.values layout records records.length).size < Size.limit := by
  decide +kernel

theorem size_lt {file : Content} (h : Finished attributes layout records file) :
    file.size < Size.limit := by
  rw [h.paged.size_eq]
  exact size_values_lt

theorem exists_build_of {options : Options} {calls : List Call} {records : List Record}
    (hfixed : planFixed attributes options = .ok (some layout))
    (hpage : pageSize volume options = 636)
    (haccepted : ((Journal.start "t" 0 attributes layout options).calls calls).accepted = records)
    (hcount : records.length = 3)
    (hsize : layout.leafEnd + (Image.values layout records records.length).size < Size.limit) :
    ∃ built after, build volume "t" attributes options calls = (.ok built, after) ∧
      built.accepted = records ∧ built.layout = layout ∧ built.size < Size.limit := by
  rw [← haccepted] at hcount
  obtain ⟨built, after, hbuild, htaken, hlayout, -⟩ :=
    build_of_journal rfl hfixed openEmpty_eq (hpage ▸ plan_eq) hcount
  obtain ⟨file, hleaves⟩ := build_spec hbuild
  rw [haccepted] at htaken
  have hpaged := hleaves.finished.paged.size_eq
  rw [hlayout, htaken, ← hleaves.size_eq] at hpaged
  exact ⟨built, after, hbuild, htaken, hlayout, hpaged ▸ hsize⟩

theorem exists_build : ∃ built after,
    build volume "t" attributes options calls = (.ok built, after) ∧ built.accepted = records ∧
      built.layout = layout ∧ built.size < Size.limit :=
  exists_build_of planFixed_eq rfl accepted_eq rfl size_values_lt

end Sample

end Writer

end PackedIndex
