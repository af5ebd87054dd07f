import PackedIndex.Volume
import PackedIndex.Proofs.Content
import PackedIndex.Proofs.Outcome
/-! # Requests on a volume

Requests on an open file change nothing but its content, and that as far as they got: in full, or up
to the one that failed. A file that is opened for writing is empty, and found at its path.
-/
namespace PackedIndex.Volume

open Outcome

variable {volume other : Volume}

@[simp] theorem content_modify {file : FileId} (h : file < volume.contents.size)
    (change : Content → Content) :
    (volume.modify file change).content file = change (volume.content file) := by
  simp [modify, content, Array.getElem_modify, h]

/-- Volumes that differ at most in the contents of their files and in their count of requests. -/
structure SameNames (volume other : Volume) : Prop where
  entries_eq : other.entries = volume.entries
  size_eq : other.contents.size = volume.contents.size
  blockSize_eq : other.blockSize = volume.blockSize
  faults_eq : other.faults = volume.faults

namespace SameNames

variable {third : Volume}

theorem refl (volume : Volume) : SameNames volume volume :=
  ⟨rfl, rfl, rfl, rfl⟩

theorem trans (h : SameNames volume other) (h' : SameNames other third) : SameNames volume third :=
  ⟨h'.entries_eq.trans h.entries_eq, h'.size_eq.trans h.size_eq,
    h'.blockSize_eq.trans h.blockSize_eq, h'.faults_eq.trans h.faults_eq⟩

theorem entryAt_eq (h : SameNames volume other) (way : Way) :
    other.entryAt way = volume.entryAt way := by
  rw [entryAt, h.entries_eq, entryAt]

theorem walk_eq (h : SameNames volume other) (way : Way) (names : List String) :
    other.walk way names = volume.walk way names := by
  induction names generalizing way with
  | nil => rfl
  | cons name names ih =>
    unfold walk
    simp only [h.entryAt_eq, ih]

theorem existing_eq (h : SameNames volume other) (path : String) :
    other.existing path = volume.existing path := by
  unfold existing way
  simp only [h.entryAt_eq, h.walk_eq]

end SameNames

theorem sameNames_modify (volume : Volume) (file : FileId) (change : Content → Content) :
    SameNames volume (volume.modify file change) :=
  ⟨rfl, by simp [modify], rfl, rfl⟩

theorem sameNames_perform (volume : Volume) (file : FileId) (request : Request) :
    SameNames volume (volume.perform file request).2 := by
  have hcounted : SameNames volume { volume with issued := volume.issued + 1 } :=
    ⟨rfl, rfl, rfl, rfl⟩
  unfold perform
  dsimp only
  split
  · exact hcounted.trans (sameNames_modify _ _ _)
  · exact hcounted.trans (sameNames_modify _ _ _)

/-- What one request keeps, requests in order keep, whether one of them fails or not. -/
theorem performAll_preserves {Keeps : Volume → Volume → Prop} {file : FileId}
    (hrefl : ∀ volume, Keeps volume volume)
    (htrans : ∀ {volume after later}, Keeps volume after → Keeps after later → Keeps volume later)
    (hperform : ∀ volume request, Keeps volume (volume.perform file request).2) (volume : Volume)
    (requests : List Request) : Keeps volume (volume.performAll file requests).2 := by
  induction requests generalizing volume with
  | nil => exact hrefl volume
  | cons request requests ih =>
    have hkeeps := hperform volume request
    unfold performAll
    rcases hafter : volume.perform file request with ⟨⟨cause⟩ | ⟨⟨⟩⟩, after⟩
    · rw [hafter] at hkeeps
      exact hkeeps
    · rw [hafter] at hkeeps
      exact htrans hkeeps (ih after)

theorem sameNames_performAll (volume : Volume) (file : FileId) (requests : List Request) :
    SameNames volume (volume.performAll file requests).2 :=
  performAll_preserves SameNames.refl SameNames.trans
    (fun volume request => volume.sameNames_perform file request) volume requests

theorem perform_spec (volume : Volume) {file : FileId} (hfile : file < volume.contents.size)
    (request : Request) :
    SameNames volume (volume.perform file request).2 ∧
      ((volume.perform file request).1 = .ok () ∧
          (volume.perform file request).2.content file = (volume.content file).apply request ∨
        volume.faults ≠ FaultPlan.none ∧ ∃ cause written,
          (volume.perform file request).1 = .error cause ∧
          (volume.perform file request).2.content file =
            (volume.content file).applyFailed written request) := by
  refine ⟨volume.sameNames_perform file request, ?_⟩
  unfold perform
  dsimp only
  split
  · exact Or.inl ⟨rfl, content_modify hfile _⟩
  · rename_i fault hfault
    refine Or.inr ⟨?_, fault.cause, fault.written, rfl, content_modify hfile _⟩
    intro hnone
    rw [hnone] at hfault
    cases hfault

theorem performAll_spec (volume : Volume) {file : FileId} (hfile : file < volume.contents.size)
    (requests : List Request) :
    SameNames volume (volume.performAll file requests).2 ∧
      ((volume.performAll file requests).1 = .ok () ∧
          (volume.performAll file requests).2.content file =
            (volume.content file).applyAll requests ∨
        volume.faults ≠ FaultPlan.none ∧
          (∃ cause, (volume.performAll file requests).1 = .error cause) ∧
          (volume.content file).CutWithin requests
            ((volume.performAll file requests).2.content file)) := by
  induction requests generalizing volume with
  | nil => exact ⟨SameNames.refl volume, Or.inl ⟨rfl, rfl⟩⟩
  | cons request requests ih =>
    obtain ⟨hsame, hperform⟩ := volume.perform_spec hfile request
    unfold performAll
    rcases hafter : volume.perform file request with ⟨outcome, after⟩
    rw [hafter] at hsame hperform
    rcases hperform with ⟨hok, hcontent⟩ | ⟨hfaults, cause, written, herror, hcontent⟩
    · dsimp only at hok
      subst hok
      obtain ⟨hsame', hrest⟩ := ih after (hsame.size_eq ▸ hfile)
      rw [hcontent, hsame.faults_eq] at hrest
      refine ⟨hsame.trans hsame', hrest.imp id ?_⟩
      rintro ⟨hfaults, herror, hcut⟩
      have hbehind : ((volume.content file).applyAll [request]).CutWithin requests _ := hcut
      exact ⟨hfaults, herror, hbehind.behind⟩
    · dsimp only at herror hcontent
      subst herror
      refine ⟨hsame, Or.inr ⟨hfaults, ⟨cause, rfl⟩, ?_⟩⟩
      dsimp only
      rw [hcontent]
      exact Content.cutWithin_head _ _ _ _

theorem performAll_append {volume after : Volume} {file : FileId} {front : List Request}
    (h : volume.performAll file front = (.ok (), after)) (back : List Request) :
    volume.performAll file (front ++ back) = after.performAll file back := by
  induction front generalizing volume with
  | nil =>
    cases h
    rfl
  | cons request front ih =>
    unfold performAll at h
    rw [List.cons_append, performAll]
    rcases hrequest : volume.perform file request with ⟨⟨cause⟩ | ⟨⟨⟩⟩, next⟩
    · rw [hrequest] at h
      cases h
    · rw [hrequest] at h
      exact ih h

/-- A way that leads through directories leads through them in a volume with more names. -/
theorem walk_mono (h : ∀ way, volume.entryAt way = some .directory →
      other.entryAt way = some .directory) {way found : Way} {names : List String}
    (hwalk : volume.walk way names = .ok found) : other.walk way names = .ok found := by
  induction names generalizing way with
  | nil => exact hwalk
  | cons name names ih =>
    unfold walk at hwalk ⊢
    rw [bind_eq_ok] at hwalk ⊢
    obtain ⟨next, hstep, hwalk⟩ := hwalk
    refine ⟨next, hstep, ?_⟩
    cases hentry : volume.entryAt next with
    | none =>
      rw [hentry] at hwalk
      cases hwalk
    | some entry =>
      rw [hentry] at hwalk
      cases entry with
      | file => cases hwalk
      | directory =>
        rw [h next hentry]
        exact ih hwalk

theorem entryAt_addFile_of_directory {way next : Way}
    (hnext : volume.entryAt next = some .directory) (hway : volume.entryAt way = none) :
    (volume.addFile way).entryAt next = some .directory := by
  have hne : next ≠ way := by
    rintro rfl
    rw [hnext] at hway
    cases hway
  unfold entryAt at hnext ⊢
  split_ifs at hnext ⊢ with habove
  · rfl
  · rw [addFile, List.lookup_cons, beq_false_of_ne hne]
    exact hnext

theorem entryAt_addFile_self {way : Way} (hway : volume.entryAt way = none) :
    (volume.addFile way).entryAt way = some (.file volume.contents.size) := by
  unfold entryAt at hway ⊢
  split_ifs at hway ⊢ with habove
  rw [addFile, List.lookup_cons, beq_self_eq_true]

theorem lt_of_entryAt {way : Way} {file : FileId} (h : volume.entryAt way = some (.file file)) :
    file < volume.contents.size := by
  unfold entryAt at h
  split_ifs at h
  · cases h
  · obtain ⟨front, back, hentries, -⟩ := List.lookup_eq_some_iff.mp h
    exact volume.file_lt way file (by simp [hentries])

/-- A path leads to a file by the way of its last name in its directory. -/
theorem existing_eq_file {path : String} {taken : Path} {directory way : Way} {file : FileId}
    (hpath : Path.ofString path = .ok taken) (hopen : taken.closed = false)
    (hwalk : volume.walk taken.base taken.parents = .ok directory)
    (hstep : directory.step taken.last = .ok way)
    (hentry : volume.entryAt way = some (.file file)) :
    volume.existing path = .ok (.file file) := by
  have hway : volume.way taken = .ok way := by
    rw [Volume.way, hwalk, ok_bind, hstep]
  unfold existing
  rw [hpath, ok_bind, hway, ok_bind, hentry, hopen]
  rfl

/-- A file that was opened for writing is empty, and found at its path. -/
theorem openEmpty_spec {path : String} {file : FileId} {opened : Volume}
    (h : volume.openEmpty path = .ok (file, opened)) :
    opened.existing path = .ok (.file file) ∧ opened.content file = Content.empty ∧
      file < opened.contents.size ∧ opened.blockSize = volume.blockSize ∧
      opened.faults = volume.faults := by
  unfold openEmpty at h
  obtain ⟨taken, hpath, h⟩ := bind_eq_ok.mp h
  obtain ⟨directory, hwalk, h⟩ := bind_eq_ok.mp h
  obtain ⟨hname, h⟩ := guard_eq_ok.mp h
  obtain ⟨way, hstep, h⟩ := bind_eq_ok.mp h
  have hopen : taken.closed = false := by
    simp only [Path.isDirectory, Bool.or_eq_true, not_or, Bool.not_eq_true] at hname
    exact hname.1.1
  cases hentry : volume.entryAt way with
  | none =>
    rw [hentry] at h
    cases h
    have hwalk' := walk_mono (fun _ hnext => entryAt_addFile_of_directory hnext hentry) hwalk
    have hexisting := existing_eq_file hpath hopen hwalk' hstep (entryAt_addFile_self hentry)
    exact ⟨hexisting, by simp [content, addFile], by simp [addFile], rfl, rfl⟩
  | some entry =>
    rw [hentry] at h
    cases entry with
    | directory => cases h
    | file found =>
      cases h
      have hsame := sameNames_modify volume file fun _ => Content.empty
      have hfile := lt_of_entryAt hentry
      have hexisting : volume.existing path = .ok (.file file) :=
        existing_eq_file hpath hopen hwalk hstep hentry
      refine ⟨?_, content_modify hfile _, ?_, rfl, rfl⟩
      · rw [hsame.existing_eq, hexisting]
      · rw [hsame.size_eq]
        exact hfile

/-! ## Removing a file -/

theorem way_of_existing {path : String} {file : FileId}
    (h : volume.existing path = .ok (.file file)) :
    ∃ taken directory way, Path.ofString path = .ok taken ∧
      volume.walk taken.base taken.parents = .ok directory ∧
      directory.step taken.last = .ok way ∧ volume.entryAt way = some (.file file) := by
  unfold existing at h
  obtain ⟨taken, hpath, h⟩ := bind_eq_ok.mp h
  obtain ⟨way, hway, h⟩ := bind_eq_ok.mp h
  obtain ⟨directory, hwalk, hstep⟩ := bind_eq_ok.mp hway
  refine ⟨taken, directory, way, hpath, hwalk, hstep, ?_⟩
  rcases hentry : volume.entryAt way with ⟨⟩ | ⟨⟨⟩ | found⟩
  · rw [hentry] at h
    cases h
  · rw [hentry] at h
    cases h
  · rw [hentry] at h
    dsimp only at h
    split_ifs at h
    cases h
    rfl

/-- A file at a path can hold any bytes. -/
theorem read_modify {path : String} {file : FileId}
    (h : volume.existing path = .ok (.file file)) (data : ByteArray) :
    (volume.modify file fun _ => .ofBytes data).read path = .ok data := by
  obtain ⟨-, -, way, -, -, -, hentry⟩ := way_of_existing h
  have hfile := lt_of_entryAt hentry
  unfold read
  rw [(sameNames_modify volume file _).existing_eq, h, ok_bind]
  dsimp only
  rw [content_modify hfile, Content.toBytes_ofBytes]
  rfl

theorem lookup_filter_ne {way next : Way} (h : next ≠ way) (entries : List (Way × Entry)) :
    (entries.filter (·.1 ≠ way)).lookup next = entries.lookup next := by
  induction entries with
  | nil => rfl
  | cons entry entries ih =>
    obtain ⟨name, entry⟩ := entry
    by_cases hname : name = way
    · rw [List.filter_cons_of_neg (by simp [hname]), ih, List.lookup_cons,
        beq_false_of_ne (hname ▸ h)]
    · rw [List.filter_cons_of_pos (by simp [hname]), List.lookup_cons, List.lookup_cons, ih]

theorem entryAt_dropEntry_of_ne {way next : Way} (h : next ≠ way) :
    (volume.dropEntry way).entryAt next = volume.entryAt next := by
  unfold entryAt dropEntry
  rw [lookup_filter_ne h]

theorem entryAt_dropEntry_self {way : Way} {file : FileId}
    (h : volume.entryAt way = some (.file file)) : (volume.dropEntry way).entryAt way = none := by
  unfold entryAt at h ⊢
  split_ifs at h ⊢ with habove
  · cases h
  · rw [List.lookup_eq_none_iff]
    intro entry hentry
    obtain ⟨-, hne⟩ := List.mem_filter.mp hentry
    exact bne_iff_ne.mpr (Ne.symm (of_decide_eq_true hne))

theorem remove_spec {path : String} {file : FileId}
    (h : volume.existing path = .ok (.file file)) :
    ∃ after, volume.remove path = .ok after ∧ after.existing path = .error .noSuchFile ∧
      after.contents = volume.contents := by
  obtain ⟨taken, directory, way, hpath, hwalk, hstep, hentry⟩ := way_of_existing h
  have hway : volume.way taken = .ok way := by
    rw [Volume.way, hwalk, ok_bind, hstep]
  have hdirectory : ∀ next, volume.entryAt next = some .directory →
      (volume.dropEntry way).entryAt next = some .directory := by
    intro next hnext
    have hne : next ≠ way := by
      rintro rfl
      rw [hentry] at hnext
      cases hnext
    rw [entryAt_dropEntry_of_ne hne, hnext]
  have hlater : (volume.dropEntry way).way taken = .ok way := by
    rw [Volume.way, walk_mono hdirectory hwalk, ok_bind, hstep]
  refine ⟨volume.dropEntry way, ?_, ?_, rfl⟩
  · unfold remove
    rw [h, ok_bind]
    dsimp only
    rw [hpath, ok_bind, hway, ok_bind]
    rfl
  · unfold existing
    rw [hpath, ok_bind, hlater, ok_bind, entryAt_dropEntry_self hentry]
    rfl

end PackedIndex.Volume
