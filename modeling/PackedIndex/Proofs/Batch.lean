import PackedIndex.Proofs.Admission
import PackedIndex.Proofs.RoundTrip
/-! # Runs that give their records at once

A run that is given all its records at once goes through exactly when its geometry can be planned,
there are as many records as its attributes say, each of them fits, and their keys increase. It
touches no other file.
-/
namespace PackedIndex

open Outcome

namespace Volume

/-- A volume before and after, where at most one file has another content. -/
def SameBeside (file : FileId) (volume after : Volume) : Prop :=
  ∀ other ≠ file, after.content other = volume.content other

namespace SameBeside

variable {file : FileId} {volume after later : Volume}

theorem refl (file : FileId) (volume : Volume) : SameBeside file volume volume :=
  fun _ _ => rfl

theorem trans (h : SameBeside file volume after) (h' : SameBeside file after later) :
    SameBeside file volume later :=
  fun other hother => (h' other hother).trans (h other hother)

end SameBeside

theorem sameBeside_modify (volume : Volume) (file : FileId) (change : Content → Content) :
    SameBeside file volume (volume.modify file change) := by
  intro other hother
  simp [modify, content, Array.getElem?_modify, Ne.symm hother]

theorem sameBeside_perform (volume : Volume) (file : FileId) (request : Request) :
    SameBeside file volume (volume.perform file request).2 := by
  unfold perform
  dsimp only
  split
  · exact sameBeside_modify { volume with issued := volume.issued + 1 } file _
  · exact sameBeside_modify { volume with issued := volume.issued + 1 } file _

theorem sameBeside_performAll (volume : Volume) (file : FileId) (requests : List Request) :
    SameBeside file volume (volume.performAll file requests).2 :=
  performAll_preserves (SameBeside.refl file) SameBeside.trans
    (fun volume request => volume.sameBeside_perform file request) volume requests

theorem sameBeside_openEmpty {volume opened : Volume} {path : String} {file : FileId}
    (h : volume.openEmpty path = .ok (file, opened)) : SameBeside file volume opened := by
  unfold openEmpty at h
  obtain ⟨taken, -, h⟩ := bind_eq_ok.mp h
  obtain ⟨directory, -, h⟩ := bind_eq_ok.mp h
  obtain ⟨-, h⟩ := guard_eq_ok.mp h
  obtain ⟨way, -, h⟩ := bind_eq_ok.mp h
  rcases hentry : volume.entryAt way with ⟨⟩ | ⟨⟨⟩ | found⟩
  · rw [hentry] at h
    cases h
    intro other hother
    simp [content, addFile, Array.getElem?_push, hother]
  · rw [hentry] at h
    cases h
  · rw [hentry] at h
    cases h
    exact volume.sameBeside_modify file _

end Volume

namespace Writer

/-! ## What records leave as it is -/

section

variable {writer next : Writer} {volume after : Volume}

theorem issueAll_frame {base : Writer} {steps : List Step} (hwriter : Alike base writer)
    (hsteps : ∀ step ∈ steps, Alike base step.writer)
    (h : issueAll writer volume steps = (.ok (), next, after)) :
    Alike base next ∧ Volume.SameBeside base.file volume after := by
  induction steps generalizing writer volume with
  | nil =>
    cases h
    exact ⟨hwriter, Volume.SameBeside.refl _ _⟩
  | cons step steps ih =>
    rw [List.forall_mem_cons] at hsteps
    have hsame := volume.sameBeside_performAll step.writer.file step.requests
    unfold issueAll Step.issue at h
    rcases hresult : volume.performAll step.writer.file step.requests with
      ⟨⟨cause⟩ | ⟨⟨⟩⟩, later⟩
    · rw [hresult] at h
      cases h
    · rw [hresult] at h hsame
      obtain ⟨halike, hbeside⟩ := ih hsteps.1 hsteps.2 h
      rw [hsteps.1.file_eq] at hsame
      exact ⟨halike, hsame.trans hbeside⟩

theorem put_eq_ok {record : Record} (h : writer.put volume record = (.ok (), next, after)) :
    ∃ key steps, writer.approve record = .ok key ∧ writer.append key record = some steps ∧
      issueAll writer volume steps = (.ok (), next, after) := by
  unfold put at h
  cases hensure : writer.ensureAccepting with
  | error =>
    rw [hensure] at h
    cases h
  | ok =>
    rw [hensure] at h
    dsimp only at h
    cases happrove : writer.approve record with
    | error =>
      rw [happrove] at h
      cases h
    | ok key =>
      rw [happrove] at h
      dsimp only at h
      cases happend : writer.append key record with
      | none =>
        rw [happend] at h
        cases h
      | some steps =>
        rw [happend] at h
        exact ⟨key, steps, rfl, happend, h⟩

theorem put_frame {record : Record} (h : writer.put volume record = (.ok (), next, after)) :
    Alike writer next ∧ Volume.SameBeside writer.file volume after := by
  obtain ⟨key, steps, -, happend, hissue⟩ := put_eq_ok h
  exact issueAll_frame (Alike.refl writer) (alike_append happend) hissue

theorem putMany_cons_eq_ok {record : Record} {records : List Record} :
    writer.putMany volume (record :: records) = (.ok (), next, after) ↔
      ∃ middle between, writer.put volume record = (.ok (), middle, between) ∧
        middle.putMany between records = (.ok (), next, after) := by
  rw [putMany]
  rcases writer.put volume record with ⟨⟨error⟩ | ⟨⟨⟩⟩, middle, between⟩
  · simp
  · simp

theorem alike_putMany {records : List Record}
    (hmany : writer.putMany volume records = (.ok (), next, after)) : Alike writer next := by
  induction records generalizing writer volume with
  | nil =>
    cases hmany
    exact Alike.refl _
  | cons record records ih =>
    obtain ⟨middle, between, hput, hrest⟩ := putMany_cons_eq_ok.mp hmany
    exact (put_frame hput).1.trans (ih hrest)

theorem sameBeside_planOn (volume : Volume) (file : FileId) (attributes : Attributes)
    (fixed : Option Layout) :
    Volume.SameBeside file volume (planOn volume file attributes fixed).2 := by
  cases fixed with
  | some layout => exact Volume.SameBeside.refl file volume
  | none =>
    have hsame := volume.sameBeside_perform file .status
    unfold planOn
    rcases hstatus : volume.perform file .status with ⟨⟨cause⟩ | ⟨⟨⟩⟩, later⟩
    · rw [hstatus] at hsame
      exact hsame
    · rw [hstatus] at hsame
      exact hsame

theorem create_frame {path : String} {attributes : Attributes} {options : Options}
    {file : FileId} {opened : Volume} (hopen : volume.openEmpty path = .ok (file, opened))
    (h : create volume path attributes options = (.ok writer, after)) :
    writer.header.attributes = attributes ∧ writer.file = file ∧
      writer.order = KeyOrder.bytewise ∧ Volume.SameBeside file volume after := by
  obtain ⟨fixed, _, _, layout, later, hfixed, hopen', hplan⟩ := create_eq_ok h
  rw [hopen] at hopen'
  cases hopen'
  have hplanned := sameBeside_planOn opened file attributes fixed
  unfold create Step.issue at h
  rw [hfixed] at h
  dsimp only at h
  rw [hopen] at h
  dsimp only at h
  rw [hplan] at h hplanned
  dsimp only at h hplanned
  have hissue := later.sameBeside_performAll file (start path file attributes layout options).requests
  rcases hresult : later.performAll (start path file attributes layout options).writer.file
      (start path file attributes layout options).requests with ⟨⟨cause⟩ | ⟨⟨⟩⟩, created⟩
  · rw [hresult] at h
    cases h
  · have hstart : (later.performAll file (start path file attributes layout options).requests).2 =
        created := congrArg Prod.snd hresult
    rw [hstart] at hissue
    rw [hresult] at h
    cases h
    exact ⟨rfl, rfl, rfl, ((Volume.sameBeside_openEmpty hopen).trans hplanned).trans hissue⟩

end

/-! ## Records given at once -/

/-- Records given at once are all taken, or one of them is refused. -/
theorem Session.accepted_putMany_iff (session : Session) (records : List Record) :
    (session.putMany records).accepted = session.accepted ++ records ↔
      (session.writer.putMany session.volume records).1 = .ok () := by
  induction records generalizing session with
  | nil => simp [Session.putMany, Writer.putMany]
  | cons record records ih =>
    unfold Session.putMany Writer.putMany Session.put
    rcases session.writer.put session.volume record with ⟨⟨error⟩ | ⟨⟨⟩⟩, writer, volume⟩
    · simp
    · have hnext := ih ⟨session.accepted ++ [record], writer, volume⟩
      rw [List.append_assoc] at hnext
      exact hnext

theorem build_putMany_iff {volume after : Volume} {path : String} {attributes : Attributes}
    {options : Options} {records : List Record} {built : Built} :
    build volume path attributes options [.putMany records] = (.ok built, after) ∧
        built.accepted = records ↔
      ∃ writer created next later size,
        create volume path attributes options = (.ok writer, created) ∧
        writer.putMany created records = (.ok (), next, later) ∧
        next.finish later = (.ok size, after) ∧
        built = ⟨records, next.layout, next.order, size⟩ := by
  have hcalls : ∀ writer created, Session.calls ⟨[], writer, created⟩ [.putMany records] =
      Session.putMany ⟨[], writer, created⟩ records := fun _ _ => rfl
  constructor
  · rintro ⟨h, haccepted⟩
    unfold build at h
    rcases hcreate : create volume path attributes options with ⟨error | writer, created⟩
    · rw [hcreate] at h
      cases h
    rw [hcreate] at h
    dsimp only at h
    rw [hcalls] at h
    have hput := Session.putMany_eq ⟨[], writer, created⟩ records
    have htaken := Session.accepted_putMany_iff ⟨[], writer, created⟩ records
    generalize Session.putMany ⟨[], writer, created⟩ records = session at h hput htaken
    rcases hfinish : session.writer.finish session.volume with ⟨error | size, finished⟩
    · rw [hfinish] at h
      cases h
    rw [hfinish] at h
    cases h
    have hok := htaken.mp haccepted
    refine ⟨writer, created, session.writer, session.volume, size, rfl, ?_, hfinish, ?_⟩
    · exact Prod.ext hok hput.symm
    · rw [← haccepted]
  · rintro ⟨writer, created, next, later, size, hcreate, hput, hfinish, rfl⟩
    have hsession := Session.putMany_eq ⟨[], writer, created⟩ records
    have htaken := Session.accepted_putMany_iff ⟨[], writer, created⟩ records
    dsimp only at hsession htaken
    rw [hput] at hsession htaken
    obtain ⟨hwriter, hvolume⟩ := Prod.mk.inj hsession
    unfold build
    rw [hcreate]
    dsimp only
    rw [hcalls, hwriter, hvolume, hfinish, htaken.mpr rfl]
    exact ⟨rfl, rfl⟩

section

variable {attributes : Attributes} {options : Options} {layout : Layout}

/-- What a record needs beside its place in a run. -/
structure Suits (attributes : Attributes) (record : Record) : Prop where
  format_eq : record.format = attributes.format
  key_le : record.key.size ≤ attributes.keySize
  value_fits : record.ValueFits attributes

theorem suits_iff (hl : layout.Planned attributes) {record : Record} :
    Suits attributes record ↔
      layout.encoding.validate layout.keySize attributes.valueSize record = .ok () := by
  rw [Encoding.validate_eq_ok, hl.keySize_eq, hl.encoding_eq, Encoding.format_select]
  exact ⟨fun h => ⟨h.format_eq, h.key_le, h.value_fits⟩, fun h => ⟨h.1, h.2.1, h.2.2⟩⟩

/-- A journal takes records that suit it while there are places left for them and their keys
ascend. -/
theorem Journal.accepted_putMany {journal : Journal} {records : List Record}
    (hl : layout.Planned attributes) (hsound : journal.Sound attributes options layout)
    (hcount : journal.accepted.length + records.length ≤ attributes.recordCount)
    (hsuits : ∀ record ∈ records, Suits attributes record)
    (hkeys : options.verifyOrder = true → (journal.accepted ++ records).IsChain fun last next =>
      journal.writer.order (Bytes.resize next.key attributes.keySize)
        (Bytes.resize last.key attributes.keySize) = .gt) :
    (journal.putMany records).accepted = journal.accepted ++ records := by
  induction records generalizing journal with
  | nil => exact (List.append_nil _).symm
  | cons record records ih =>
    rw [List.forall_mem_cons] at hsuits
    rw [List.length_cons] at hcount
    -- a journal takes what a session of the same records admits
    have hprogress : Progress attributes options layout journal.accepted journal.writer
        journal.file := hsound
    have hadmits : Session.Admits attributes options
        ⟨journal.accepted, journal.writer, .empty 0 .none⟩ record := by
      refine ⟨?_, hsuits.1.format_eq, hsuits.1.key_le, hsuits.1.value_fits, ?_⟩
      · have hwritten := hprogress.written_eq
        dsimp only
        omega
      · intro hverify last hlast
        have hchain := hkeys hverify
        rw [List.isChain_append] at hchain
        exact hchain.2.2 last hlast record rfl
    obtain ⟨key, happrove⟩ := (Session.approve_iff hl hprogress).mpr hadmits
    obtain ⟨steps, happend⟩ := Option.isSome_iff_exists.mp (hprogress.append_isSome hl happrove)
    have htake : journal.writer.take record = .ok steps := by
      dsimp only at happrove
      rw [Writer.take, ensureAccepting_eq_ok.mpr hprogress.state_eq, ok_bind, happrove, ok_bind,
        happend]
      rfl
    have hnext := hsound.put hl record
    unfold Journal.putMany
    unfold Journal.put at hnext ⊢
    rw [htake] at hnext ⊢
    have hrest := ih hnext
    dsimp only at hrest ⊢
    rw [List.append_assoc, List.length_append, (alike_take htake).2.order_eq] at hrest
    exact hrest (by simpa [Nat.add_assoc, Nat.add_comm 1] using hcount) hsuits.2 hkeys

theorem isChain_gt_of_increasing {keySize : ℕ} {records : List Record}
    (h : KeyOrder.bytewise.Increasing (records.map fun record =>
      Bytes.resize record.key keySize)) :
    records.IsChain fun last next => KeyOrder.bytewise (Bytes.resize next.key keySize)
      (Bytes.resize last.key keySize) = .gt := by
  refine ((List.isChain_map _).mp h).imp fun last next hlt => ?_
  rw [(KeyOrder.bytewise_isPreorder keySize).swap _ _ (Bytes.size_resize last.key _)
    (Bytes.size_resize next.key _), hlt]
  rfl

/-- Where no request fails and the file can be opened, a run with all its records given at once goes
through exactly when its geometry can be planned, the number of records is the one declared, each
of them suits the attributes, and checked keys increase. -/
theorem exists_build_putMany_iff {volume opened : Volume} {path : String} {file : FileId}
    {records : List Record} (hfaults : volume.faults = FaultPlan.none)
    (hoptions : options.validate = .ok ())
    (hopen : volume.openEmpty path = .ok (file, opened)) :
    (∃ built after, build volume path attributes options [.putMany records] = (.ok built, after) ∧
        built.accepted = records) ↔
      (∃ layout, Layout.plan attributes (pageSize volume options) = .ok layout) ∧
        records.length = attributes.recordCount ∧ (∀ record ∈ records, Suits attributes record) ∧
        (options.verifyOrder = true → KeyOrder.bytewise.Increasing
          (records.map fun record => Bytes.resize record.key attributes.keySize)) := by
  have hpreorder := KeyOrder.bytewise_isPreorder attributes.keySize
  constructor
  · rintro ⟨built, after, hbuild, haccepted⟩
    obtain ⟨writer, created, next, later, size, hcreate, hput, -, hbuilt⟩ :=
      build_putMany_iff.mp ⟨hbuild, haccepted⟩
    obtain ⟨file, hleaves⟩ := build_spec hbuild
    have hl := hleaves.finished.planned
    have horder : built.order = KeyOrder.bytewise := by
      rw [hbuilt]
      exact (alike_putMany hput).order_eq.trans (create_frame hopen hcreate).2.2.1
    refine ⟨⟨built.layout, (build_bytes hbuild).1⟩, ?_, ?_, ?_⟩
    · rw [← haccepted, hleaves.finished.length_eq, hl.recordCount_eq]
    · intro record hrecord
      rw [← haccepted] at hrecord
      exact (suits_iff hl).mpr (hleaves.finished.valid record hrecord)
    · intro hverify
      have hincreasing := hleaves.increasing (horder ▸ hpreorder) hverify
      rw [Built.keys, haccepted, horder] at hincreasing
      exact hincreasing
  · rintro ⟨⟨layout, hplan⟩, hlength, hsuits, hkeys⟩
    obtain ⟨-, hl⟩ := Layout.planned_of_plan hplan
    obtain ⟨fixed, hfixed⟩ : ∃ fixed, planFixed attributes options = .ok fixed := by
      refine planFixed_of_ok hoptions hl.valid fun size hsize => ⟨layout, ?_⟩
      rw [pageSize, hsize] at hplan
      exact hplan
    have hsound := Journal.sound_start hl options path file
    have htaken : ((Journal.start path file attributes layout options).calls
        [.putMany records]).accepted = records :=
      Journal.accepted_putMany hl hsound (by simp [Journal.start, hlength]) hsuits
        fun hverify => isChain_gt_of_increasing (hkeys hverify)
    have hcount := (congrArg List.length htaken).trans (hlength.trans hl.recordCount_eq.symm)
    obtain ⟨built, after, hbuild, haccepted, -, -⟩ :=
      build_of_journal hfaults hfixed hopen hplan hcount
    exact ⟨built, after, hbuild, haccepted.trans htaken⟩

end

end Writer

end PackedIndex
