import PackedIndex.Proofs.Guarded
import PackedIndex.Proofs.RoundTrip
import PackedIndex.Proofs.Torn
/-! # Reading any file that opens

A reader relies on the geometry in the header of its file and on nothing else: whatever the pages
hold and however keys are compared, a descent stays inside its levels, and the only damage that is
reported is a child pointer that leads elsewhere or a value entry that is not in the file.
-/
namespace PackedIndex

namespace Reader

/-- What opening a file has made sure of. -/
structure Accepted (reader : Reader) : Prop where
  planned : reader.layout.Planned reader.header.attributes
  leafEnd_le : reader.layout.leafEnd ≤ reader.file.size

theorem accepted_of_ofContent {path : String} {file : Content} {order : KeyOrder} {reader : Reader}
    (h : ofContent path file order = .ok reader) :
    reader.Accepted ∧ reader.file = file ∧ reader.order = order := by
  obtain ⟨-, hdecode, -, hleaves, hfile, horder⟩ := ofContent_eq_ok h
  obtain ⟨-, -, -, hplan⟩ := Header.decode_eq_ok hdecode
  obtain ⟨-, hl⟩ := Layout.planned_of_plan hplan
  exact ⟨⟨hl, hfile ▸ hleaves⟩, hfile, horder⟩

/-! ## What a file holds -/

variable (reader : Reader)

def childPointer (level page slot : ℕ) : ℕ :=
  BigEndian.decode (reader.file.read
    (reader.layout.pageOffset level page + reader.layout.pointerPosition slot) Size.pointer)

def childSlot (query : ByteArray) (level page : ℕ) : ℕ :=
  Search.findChild reader.order query
    (reader.file.read (reader.layout.pageOffset level page) reader.layout.pageSize)
    reader.layout.keySize (reader.layout.separatorsIn level page)

def recordPlace (index : ℕ) : ℕ :=
  reader.layout.leafPageOffset (index / reader.layout.recordsPerLeafPage) +
    index % reader.layout.recordsPerLeafPage * reader.layout.leafRecordSize

def storedKey (index : ℕ) : ByteArray :=
  reader.file.read (reader.recordPlace index) reader.layout.keySize

def entryPointer (index : ℕ) : ℕ :=
  BigEndian.decode
    (reader.file.read (reader.recordPlace index + reader.layout.keySize) Size.pointer)

def entryLength (index : ℕ) : ℕ :=
  BigEndian.decode (reader.file.read (reader.entryPointer index) Size.blobLength)

/-- The damage of a child pointer that does not lead to its child. The child itself is a page. -/
inductive Misled : Damage → Prop
  | childPointer {level page slot : ℕ} (hlevel : level < reader.layout.numLevels)
      (hpage : page < (reader.layout.region level).pages)
      (hslot : slot ≤ reader.layout.separatorsIn level page)
      (hne : reader.childPointer level page slot ≠
        reader.layout.childOffset level (page * reader.layout.branchingFactor + slot)) :
      Misled (.childPointer (reader.childPointer level page slot) level page slot
        (reader.layout.childOffset level (page * reader.layout.branchingFactor + slot)))

/-- The damage of a value entry that ends behind the file. -/
def EntryOutside (index : ℕ) (damage : Damage) : Prop :=
  let pointer := reader.entryPointer index
  match reader.layout.encoding with
  | .outOfLineBlock =>
    reader.file.size < pointer + reader.header.attributes.valueSize ∧
      damage = .extentOutside pointer reader.header.attributes.valueSize reader.file.size
  | .blob =>
    reader.file.size < pointer + Size.blobLength ∧
        damage = .extentOutside pointer Size.blobLength reader.file.size ∨
      pointer + Size.blobLength ≤ reader.file.size ∧
        reader.file.size < pointer + Size.blobLength + reader.entryLength index ∧
        damage = .extentOutside (pointer + Size.blobLength) (reader.entryLength index)
          reader.file.size
  | .atom | .pair | .inlineBlock => False

/-- What a look-up may answer. -/
inductive Answered (key : ByteArray) : Except Error Record → Prop
  | tooLong {fault : ArgumentFault} (hkey : reader.layout.keySize < key.size) :
    Answered key (.error (.invalidArgument fault))
  | found {record : Record} (hrecord : .ok record ∈ reader.records)
      (hequal : reader.order (Bytes.resize key reader.layout.keySize) record.key = .eq) :
    Answered key (.ok record)
  | missing : Answered key (.error (.notFound (.key key)))
  | misled {damage : Damage} (hdamage : reader.Misled damage) :
    Answered key (.error (.corruption damage))
  | entryOutside {damage : Damage} {index : ℕ} (hindex : index < reader.layout.recordCount)
      (hdamage : reader.EntryOutside index damage) : Answered key (.error (.corruption damage))

theorem run_pass (count : ℕ) :
    reader.pass.run count =
      (reader.records.take count, ⟨reader, min count reader.layout.recordCount⟩) := by
  rw [Pass.run_eq, records]
  simp [pass, Pass.remaining]

theorem length_records : reader.records.length = reader.layout.recordCount := by
  simp [records, Pass.toList, Pass.remaining, pass]

theorem getElem?_records {index : ℕ} (hindex : index < reader.layout.recordCount) :
    reader.records[index]? = some (reader.recordAt index) := by
  simp [records, Pass.toList, Pass.remaining, pass, hindex]

theorem recordPlace_add {leaf slot : ℕ} (hslot : slot < reader.layout.recordsPerLeafPage) :
    reader.recordPlace (leaf * reader.layout.recordsPerLeafPage + slot) =
      reader.layout.leafPageOffset leaf + slot * reader.layout.leafRecordSize := by
  obtain ⟨hpage, hrest⟩ := Size.div_mod_mul_add leaf hslot
  rw [recordPlace, hpage, hrest]

variable {reader}

namespace Accepted

variable (h : reader.Accepted) {index : ℕ}
include h

/-! ## Records -/

theorem recordPlace_end_le (hindex : index < reader.layout.recordCount) :
    reader.recordPlace index + reader.layout.leafRecordSize ≤ reader.file.size :=
  (h.planned.slot_end_le_leafEnd (h.planned.leafPage_lt hindex)
    (Nat.mod_lt index h.planned.recordsPerLeafPage_pos)).trans h.leafEnd_le

theorem recordAt?_eq (hsize : reader.file.size < Size.limit)
    (hindex : index < reader.layout.recordCount) :
    reader.recordAt? index = some (reader.recordAt index) := by
  have hl := h.planned
  have hpage := hl.leafPage_lt hindex
  have hslot := Nat.mod_lt index hl.recordsPerLeafPage_pos
  simp only [recordAt?, Option.bind_eq_bind]
  rw [Machine.div_eq hl.recordsPerLeafPage_pos, Option.bind_some,
    Machine.mod_eq hl.recordsPerLeafPage_pos, Option.bind_some, hl.leafPageOffset?_eq hpage,
    Option.bind_some, hl.slotOffset?_eq hpage hslot, Option.bind_some]
  exact Encoding.decodeLeaf?_eq hl.leafRecordSize_eq (h.recordPlace_end_le hindex) hsize

/-- A record is answered under the key that is stored, unless its value entry is outside the file. -/
theorem recordAt_spec (hindex : index < reader.layout.recordCount) :
    (∃ record, reader.recordAt index = .ok record ∧ record.key = reader.storedKey index ∧
      ∀ damage, ¬reader.EntryOutside index damage) ∨
    ∃ damage, reader.recordAt index = .error damage ∧
      ∀ other, reader.EntryOutside index other ↔ other = damage := by
  have hrecord : reader.recordAt index = reader.layout.encoding.decodeInside reader.file
      (reader.recordPlace index) reader.layout.keySize reader.header.attributes.valueSize :=
    Encoding.decodeLeaf_of_room h.planned.leafRecordSize_eq (h.recordPlace_end_le hindex)
  have hkey : reader.file.read (reader.recordPlace index) reader.layout.keySize =
      reader.storedKey index := rfl
  have hpointer : BigEndian.decode (reader.file.read
      (reader.recordPlace index + reader.layout.keySize) Size.pointer) =
      reader.entryPointer index := rfl
  have hlength : BigEndian.decode (reader.file.read (reader.entryPointer index) Size.blobLength) =
      reader.entryLength index := rfl
  rw [hrecord]
  unfold Encoding.decodeInside EntryOutside
  dsimp only
  rw [hkey, hpointer]
  cases reader.layout.encoding with
  | atom => exact Or.inl ⟨_, rfl, rfl, fun _ => id⟩
  | pair => exact Or.inl ⟨_, rfl, rfl, fun _ => id⟩
  | inlineBlock => exact Or.inl ⟨_, rfl, rfl, fun _ => id⟩
  | outOfLineBlock =>
    dsimp only [extent]
    split_ifs with hin
    · exact Or.inl ⟨_, rfl, rfl, fun _ hout => absurd hout.1 (not_lt.mpr hin)⟩
    · exact Or.inr ⟨_, rfl, fun _ => and_iff_right (not_le.mp hin)⟩
  | blob =>
    dsimp only [extent]
    split_ifs with hfirst
    · dsimp only
      rw [hlength]
      split_ifs with hin
      · refine Or.inl ⟨_, rfl, rfl, fun _ hout => ?_⟩
        rcases hout with ⟨hout, -⟩ | ⟨-, hout, -⟩ <;> omega
      · refine Or.inr ⟨_, rfl, fun _ => ?_⟩
        simp only [not_lt.mpr hfirst, false_and, false_or, hfirst, not_le.mp hin, true_and]
    · refine Or.inr ⟨_, rfl, fun _ => ?_⟩
      simp only [not_le.mp hfirst, hfirst, true_and, false_and, or_false]

/-! ## Descents -/

variable {level page slot remaining leaf : ℕ} {query : ByteArray}

theorem childPage?_eq (hlevel : level < reader.layout.numLevels)
    (hpage : page < (reader.layout.region level).pages)
    (hslot : slot ≤ reader.layout.separatorsIn level page) (pointer : ℕ) :
    childPage? reader.layout level page slot pointer =
      some (childPage reader.layout level page slot pointer) := by
  have hl := h.planned
  have hchild := hl.child_lt hlevel hpage hslot
  have hend := hl.page_end_le_leafEnd (Nat.add_one_le_of_lt hlevel) hchild
  have hpages := hl.pages_le_leafEnd (Nat.add_one_le_of_lt hlevel)
  have hlimit := hl.leafEnd_lt
  obtain ⟨-, hfirst⟩ := hl.mul_branchingFactor_lt hlevel hpage
  unfold Layout.pageOffset at hend
  simp only [childPage?, Option.bind_eq_bind]
  rw [Machine.mul_eq hfirst, Option.bind_some, Machine.add_eq (by omega), Option.bind_some,
    hl.childRegion?_eq hlevel, Option.bind_some, Machine.mul_eq (by omega), Option.bind_some]
  unfold Layout.childRegion
  rw [Machine.add_eq (by omega), Option.bind_some]
  unfold childPage Layout.childOffset Layout.childRegion
  dsimp only
  split_ifs
  · rfl
  · rfl

theorem childPage_spec (hlevel : level < reader.layout.numLevels)
    (hpage : page < (reader.layout.region level).pages)
    (hslot : slot ≤ reader.layout.separatorsIn level page) :
    childPage reader.layout level page slot (reader.childPointer level page slot) =
        .ok (page * reader.layout.branchingFactor + slot) ∨
      ∃ damage, reader.Misled damage ∧
        childPage reader.layout level page slot (reader.childPointer level page slot) =
          .error damage := by
  rw [h.planned.childPage_eq hlevel hpage hslot]
  split_ifs with hpointer
  · exact Or.inl rfl
  · exact Or.inr ⟨_, .childPointer hlevel hpage hslot hpointer, rfl⟩

theorem page_end_le (hlevel : level ≤ reader.layout.numLevels)
    (hpage : page < (reader.layout.region level).pages) :
    reader.layout.pageOffset level page + reader.layout.pageSize ≤ reader.file.size :=
  (h.planned.page_end_le_leafEnd hlevel hpage).trans h.leafEnd_le

theorem childSlot_le (query : ByteArray) (hlevel : level < reader.layout.numLevels)
    (hpage : page < (reader.layout.region level).pages) :
    reader.childSlot query level page ≤ reader.layout.separatorsIn level page := by
  have hin := h.page_end_le hlevel.le hpage
  apply Search.findChild_le h.planned.keySize_pos
  rw [Content.size_read, Nat.min_eq_left hin, Nat.add_sub_cancel_left]
  exact h.planned.separators_room level page

theorem read_pointer (hlevel : level < reader.layout.numLevels)
    (hpage : page < (reader.layout.region level).pages)
    (hslot : slot < reader.layout.branchingFactor) :
    BigEndian.read (reader.file.read (reader.layout.pageOffset level page) reader.layout.pageSize)
      (reader.layout.pointerPosition slot) Size.pointer = reader.childPointer level page slot := by
  rw [BigEndian.read, Content.extract_read (h.planned.pointer_room hslot)
    (h.page_end_le hlevel.le hpage), Nat.add_sub_cancel_left, childPointer]

theorem descend_eq (query : ByteArray) (hremaining : remaining < reader.layout.numLevels)
    (hlevel : reader.layout.numLevels - (remaining + 1) = level)
    (hpage : page < (reader.layout.region level).pages) :
    reader.descend query (remaining + 1) page =
      childPage reader.layout level page (reader.childSlot query level page)
        (reader.childPointer level page (reader.childSlot query level page)) >>=
          reader.descend query remaining := by
  have hlt : level < reader.layout.numLevels := by omega
  have hslot := h.childSlot_le query hlt hpage
  rw [descend]
  dsimp only
  rw [hlevel, extent_eq_read (h.page_end_le hlt.le hpage), Outcome.ok_bind, ← childSlot,
    h.read_pointer hlt hpage (hslot.trans_lt (h.planned.separatorsIn_lt level page))]

theorem descend?_eq (query : ByteArray) (hremaining : remaining < reader.layout.numLevels)
    (hlevel : reader.layout.numLevels - (remaining + 1) = level)
    (hpage : page < (reader.layout.region level).pages) :
    reader.descend? query (remaining + 1) page =
      match childPage reader.layout level page (reader.childSlot query level page)
        (reader.childPointer level page (reader.childSlot query level page)) with
      | .error damage => some (.error damage)
      | .ok child => reader.descend? query remaining child := by
  have hl := h.planned
  have hlt : level < reader.layout.numLevels := by omega
  have hin := h.page_end_le hlt.le hpage
  have hslot := h.childSlot_le query hlt hpage
  have hroom := hslot.trans_lt (hl.separatorsIn_lt level page)
  have hkey : reader.layout.keySize ≠ 0 := hl.keySize_pos.ne'
  have hchild : Search.findChild? reader.order query
      (reader.file.read (reader.layout.pageOffset level page) reader.layout.pageSize)
      reader.layout.keySize (reader.layout.separatorsIn level page) =
        some (reader.childSlot query level page) := if_pos hkey
  have hpointer : reader.layout.pointerPosition (reader.childSlot query level page) +
      Size.pointer ≤ (reader.file.read (reader.layout.pageOffset level page)
        reader.layout.pageSize).size := by
    rw [Content.size_read, Nat.min_eq_left hin, Nat.add_sub_cancel_left]
    exact hl.pointer_room hroom
  rw [descend?]
  simp only [Option.bind_eq_bind, Machine.sub_eq hremaining, hlevel, Option.bind_some,
    hl.pageOffset?_eq hlt hpage, extent?_eq hin, hl.separatorsIn?_eq hlt hpage, hchild,
    hl.pointerPosition?_eq hroom, if_pos hpointer, h.read_pointer hlt hpage hroom,
    h.childPage?_eq hlt hpage hslot]
  rfl

/-- A descent ends on a leaf page or at a pointer that does not lead to its child, and the guarded
descent ends the same. -/
theorem descend_spec (query : ByteArray) (hremaining : remaining ≤ reader.layout.numLevels)
    (hpage : page < (reader.layout.region (reader.layout.numLevels - remaining)).pages) :
    reader.descend? query remaining page = some (reader.descend query remaining page) ∧
      ((∃ leaf < reader.layout.leafPages, reader.descend query remaining page = .ok leaf) ∨
        ∃ damage, reader.Misled damage ∧ reader.descend query remaining page = .error damage) := by
  induction remaining generalizing page with
  | zero =>
    rw [Nat.sub_zero, Layout.region_numLevels] at hpage
    exact ⟨rfl, Or.inl ⟨page, hpage, rfl⟩⟩
  | succ remaining ih =>
    have hlevel : reader.layout.numLevels - (remaining + 1) < reader.layout.numLevels := by omega
    have hnext : reader.layout.numLevels - remaining =
        reader.layout.numLevels - (remaining + 1) + 1 := by omega
    have hslot := h.childSlot_le query hlevel hpage
    rw [h.descend_eq query hremaining rfl hpage, h.descend?_eq query hremaining rfl hpage]
    rcases h.childPage_spec hlevel hpage hslot with hplace | ⟨damage, hmisled, hplace⟩
    · rw [hplace]
      exact ih (Nat.le_of_succ_le hremaining)
        (hnext ▸ h.planned.child_lt hlevel hpage hslot)
    · rw [hplace]
      exact ⟨rfl, Or.inr ⟨damage, hmisled, rfl⟩⟩

/-! ## Look-ups -/

theorem findInLeaf_spec (query : ByteArray) (hleaf : leaf < reader.layout.leafPages)
    (hfound : Search.findInLeaf reader.order query
      (reader.file.read (reader.layout.leafPageOffset leaf) reader.layout.pageSize)
      reader.layout.leafRecordSize reader.layout.keySize (reader.layout.recordsInLeaf leaf) =
        some slot) :
    slot < reader.layout.recordsPerLeafPage ∧
      leaf * reader.layout.recordsPerLeafPage + slot < reader.layout.recordCount ∧
      reader.order query
        (reader.storedKey (leaf * reader.layout.recordsPerLeafPage + slot)) = .eq := by
  have hl := h.planned
  have hin := (hl.leafPage_end_le_leafEnd hleaf).trans h.leafEnd_le
  have hbytes : (reader.file.read (reader.layout.leafPageOffset leaf)
      reader.layout.pageSize).size = reader.layout.pageSize := by
    rw [Content.size_read]
    omega
  have hcount : reader.layout.recordsInLeaf leaf ≤ reader.layout.recordsPerLeafPage :=
    Nat.min_le_right _ _
  have hroom := (Nat.mul_le_mul_right reader.layout.leafRecordSize hcount).trans hl.leaf_room
  rw [← hbytes] at hroom
  rcases Search.findInLeaf_spec reader.order query reader.layout.keySize hl.leafRecordSize_pos
    hroom with ⟨found, hlt, -, hequal, heq⟩ | ⟨-, -, -, -, heq⟩
  · rw [hfound] at heq
    cases heq
    have hslot := hlt.trans_le hcount
    have hwidth := hl.keySize_le
    have hfit := hl.slot_room hslot
    refine ⟨hslot, ?_, ?_⟩
    · unfold Layout.recordsInLeaf at hlt
      omega
    · rw [Search.keyAt, Content.extract_read (by omega) hin, Nat.add_sub_cancel_left] at hequal
      rw [storedKey, reader.recordPlace_add hslot]
      exact hequal
  · rw [hfound] at heq
    cases heq

/-- A look-up finds nothing, or a record that is equal to the query, or a pointer that does not lead
to its child. The guarded look-up does the same. -/
theorem lookup_spec (hsize : reader.file.size < Size.limit) (query : ByteArray) :
    reader.lookup? query = some (reader.lookup query) ∧
      (reader.lookup query = .ok none ∨
        (∃ index < reader.layout.recordCount,
          reader.order query (reader.storedKey index) = .eq ∧
          reader.lookup query = (reader.recordAt index).map some) ∨
        ∃ damage, reader.Misled damage ∧ reader.lookup query = .error damage) := by
  have hl := h.planned
  have hroot : 0 < (reader.layout.region
      (reader.layout.numLevels - reader.layout.numLevels)).pages := by
    rw [Nat.sub_self, hl.pages_zero]
    exact Nat.one_pos
  obtain ⟨hguarded, hdescend⟩ := h.descend_spec query le_rfl hroot
  unfold lookup? lookup
  rw [hguarded]
  rcases hdescend with ⟨leaf, hleaf, hdescend⟩ | ⟨damage, hmisled, hdescend⟩
  · -- the descent ends on a leaf page
    have hin := (hl.leafPage_end_le_leafEnd hleaf).trans h.leafEnd_le
    have hkey : reader.layout.leafRecordSize ≠ 0 ∧
        reader.layout.keySize ≤ reader.layout.leafRecordSize :=
      ⟨hl.leafRecordSize_pos.ne', hl.keySize_le⟩
    simp only [hdescend, Option.bind_eq_bind, Option.bind_some, Outcome.ok_bind,
      hl.leafPageOffset?_eq hleaf, extent?_eq hin, extent_eq_read hin,
      hl.recordsInLeaf?_eq hleaf, Search.findInLeaf?, if_pos hkey]
    cases hfound : Search.findInLeaf reader.order query
        (reader.file.read (reader.layout.leafPageOffset leaf) reader.layout.pageSize)
        reader.layout.leafRecordSize reader.layout.keySize
        (reader.layout.recordsInLeaf leaf) with
    | none => exact ⟨rfl, Or.inl rfl⟩
    | some slot =>
      obtain ⟨hslot, hindex, hequal⟩ := h.findInLeaf_spec query hleaf hfound
      have hplace := h.recordPlace_end_le hindex
      rw [reader.recordPlace_add hslot] at hplace
      have hdecode := Encoding.decodeLeaf?_eq hl.leafRecordSize_eq hplace hsize
      dsimp only
      rw [hl.slotOffset?_eq hleaf hslot, Option.bind_some, hdecode, Option.bind_some,
        ← reader.recordPlace_add hslot]
      change some ((reader.recordAt _).map some) = some ((reader.recordAt _).map some) ∧ _
      exact ⟨rfl, Or.inr (Or.inl ⟨_, hindex, hequal, rfl⟩)⟩
  · dsimp only
    rw [hdescend]
    exact ⟨rfl, Or.inr (Or.inr ⟨damage, hmisled, rfl⟩)⟩

theorem get?_eq (hsize : reader.file.size < Size.limit) (key : ByteArray) :
    reader.get? key = some (reader.get key) := by
  unfold get?
  rcases Nat.lt_or_ge reader.layout.keySize key.size with hkey | hkey
  · rw [padKey_of_lt_size hkey, reader.get_of_size_gt hkey]
  · obtain ⟨hlookup, -⟩ := h.lookup_spec hsize (Bytes.resize key reader.layout.keySize)
    rw [padKey_of_size_le hkey, reader.get_eq hkey]
    dsimp only
    rw [hlookup]
    rcases reader.lookup (Bytes.resize key reader.layout.keySize) with damage | ⟨⟨⟩ | record⟩
    · rfl
    · rfl
    · rfl

theorem get_spec (hsize : reader.file.size < Size.limit) (key : ByteArray) :
    reader.Answered key (reader.get key) := by
  rcases Nat.lt_or_ge reader.layout.keySize key.size with hkey | hkey
  · rw [reader.get_of_size_gt hkey]
    exact .tooLong hkey
  obtain ⟨-, hlookup⟩ := h.lookup_spec hsize (Bytes.resize key reader.layout.keySize)
  rw [reader.get_eq hkey]
  rcases hlookup with hnone | ⟨index, hindex, hequal, hfound⟩ | ⟨damage, hmisled, hdescend⟩
  · rw [hnone]
    exact .missing
  · have hitem := reader.getElem?_records hindex
    rw [hfound]
    rcases h.recordAt_spec hindex with ⟨record, hrecord, hkey, -⟩ | ⟨damage, hrecord, houtside⟩
    · rw [hrecord] at hitem ⊢
      exact .found (List.mem_of_getElem? hitem) (hkey ▸ hequal)
    · rw [hrecord]
      exact .entryOutside hindex ((houtside damage).mpr rfl)
  · rw [hdescend]
    exact .misled hmisled

/-- The damage in the place of a record is a value entry outside the file. -/
theorem getElem?_records_iff (hindex : index < reader.layout.recordCount) (damage : Damage) :
    reader.records[index]? = some (.error damage) ↔ reader.EntryOutside index damage := by
  rw [reader.getElem?_records hindex, Option.some.injEq]
  rcases h.recordAt_spec hindex with ⟨record, hrecord, -, hinside⟩ | ⟨other, hrecord, houtside⟩
  · rw [hrecord]
    exact ⟨nofun, fun houtside => absurd houtside (hinside damage)⟩
  · rw [hrecord, houtside, Except.error.injEq, eq_comm]

/-! ## Passes -/

theorem step?_eq (hsize : reader.file.size < Size.limit) (next : ℕ) :
    Pass.step? ⟨reader, next⟩ = some (Pass.next? ⟨reader, next⟩) := by
  have hcount := h.planned.recordCount_le_leafEnd
  have hlimit := h.planned.leafEnd_lt
  unfold Pass.step? Pass.next?
  dsimp only
  split_ifs with hnext
  · simp only [h.recordAt?_eq hsize hnext, Option.bind_eq_bind, Option.bind_some]
    rw [Machine.add_eq (by omega), Option.bind_some]
    rfl
  · rfl

end Accepted

end Reader

namespace Finished

variable {attributes : Attributes} {layout : Layout} {records : List Record} {file : Content}
  {size : ℕ}

theorem ofContent_setLength (h : Finished attributes layout records file)
    (hsize : file.size < Size.limit) (hleaves : layout.leafEnd ≤ size) (path : String)
    (order : KeyOrder) :
    Reader.ofContent path (file.setLength size) order =
      .ok (reader attributes layout path (file.setLength size) order) := by
  have hheader := h.header_le.trans (h.planned.pageSize_le_leafEnd.trans hleaves)
  have hwide := h.header_le.trans (h.planned.pageSize_le_leafEnd.trans h.paged.leafEnd_le)
  have hread : (file.setLength size).read 0 Size.header = file.read 0 Size.header :=
    Content.read_setLength (by omega) (by omega)
  rw [Reader.ofContent_of_decode hheader (hread ▸ h.decode_header hsize) rfl]
  exact if_neg (not_lt.mpr hleaves)

theorem entryPointer_setLength (h : Finished attributes layout records file)
    (hsize : file.size < Size.limit) (hleaves : layout.leafEnd ≤ size) (path : String)
    (order : KeyOrder) {index : ℕ} (hindex : index < records.length)
    (hregion : layout.encoding.usesValueRegion = true) :
    (reader attributes layout path (file.setLength size) order).entryPointer index =
      Image.pointer layout records index := by
  have hl := h.planned
  have hcount : index < layout.recordCount := h.length_eq ▸ hindex
  have hslot := hl.slot_end_le_leafEnd (hl.leafPage_lt hcount)
    (Nat.mod_lt index hl.recordsPerLeafPage_pos)
  have hleaf := h.has_leaf (hl.leafPage_lt hcount) (hl.slot_lt hcount)
  rw [Nat.div_add_mod'] at hleaf
  have hend : layout.leafPageOffset (index / layout.recordsPerLeafPage) +
      index % layout.recordsPerLeafPage * layout.leafRecordSize +
        (Image.leaf layout records index).size ≤ size := by
    rw [h.size_leaf hindex]
    exact hslot.trans hleaves
  have hkept := hleaf.setLength hend
  rw [Image.leaf_eq hindex] at hkept
  have hentry := (h.has_entry hindex hregion).size_le
  exact decode_read (Encoding.has_pointer hregion hkept) (by omega)

end Finished

namespace Reader

variable {reader : Reader}

/-- Any file that opens is read without a broken condition, whatever is in it and however keys are
compared. Refused are the keys that are too long, and nothing else. What a look-up answers is a
record of the file that is equal to the query, and the damage it reports is a misled child pointer
or a value entry outside the file. A pass answers every record or the damage in its place. -/
theorem robust_of_ofContent {path : String} {file : Content} {order : KeyOrder}
    (h : ofContent path file order = .ok reader) (hsize : file.size < Size.limit) :
    (∀ key, reader.get? key = some (reader.get key)) ∧
    (∀ count,
      (reader.pass.run count).2.step? = some (reader.pass.run count).2.next? ∧
      (reader.pass.run count).2.remaining? = some (reader.pass.run count).2.remaining) ∧
    (∀ key : ByteArray, (∃ fault, reader.get key = .error (.invalidArgument fault)) ↔
      reader.header.attributes.keySize < key.size) ∧
    (∀ key record, reader.get key = .ok record →
      .ok record ∈ reader.records ∧
      order (Bytes.resize key reader.header.attributes.keySize) record.key = .eq) ∧
    (∀ key error, reader.get key = .error error →
      (∃ fault, error = .invalidArgument fault) ∨ error = .notFound (.key key) ∨
      ∃ damage, error = .corruption damage ∧ (reader.Misled damage ∨
        ∃ index < reader.header.attributes.recordCount, reader.EntryOutside index damage)) ∧
    reader.records.length = reader.header.attributes.recordCount ∧
    (∀ index < reader.header.attributes.recordCount, ∀ damage,
      reader.records[index]? = some (.error damage) ↔ reader.EntryOutside index damage) ∧
    ∀ count,
      (reader.pass.run count).1 = reader.records.take count ∧
      (reader.pass.run count).2.remaining = reader.header.attributes.recordCount - count := by
  obtain ⟨haccepted, rfl, rfl⟩ := accepted_of_ofContent h
  have hl := haccepted.planned
  rw [← hl.keySize_eq, ← hl.recordCount_eq]
  refine ⟨haccepted.get?_eq hsize, ?_, ?_, ?_, ?_, reader.length_records, ?_, ?_⟩
  · intro count
    rw [reader.run_pass]
    exact ⟨haccepted.step?_eq hsize _, Pass.remaining?_eq (Nat.min_le_right _ _)⟩
  · intro key
    refine ⟨?_, fun hkey => ⟨_, reader.get_of_size_gt hkey⟩⟩
    rintro ⟨fault, hfault⟩
    have hanswer := haccepted.get_spec hsize key
    rw [hfault] at hanswer
    cases hanswer with
    | tooLong hkey => exact hkey
  · intro key record hrecord
    have hanswer := haccepted.get_spec hsize key
    rw [hrecord] at hanswer
    cases hanswer with
    | found hrecord hequal => exact ⟨hrecord, hequal⟩
  · intro key error herror
    have hanswer := haccepted.get_spec hsize key
    rw [herror] at hanswer
    cases hanswer with
    | tooLong hkey => exact Or.inl ⟨_, rfl⟩
    | missing => exact Or.inr (Or.inl rfl)
    | misled hdamage => exact Or.inr (Or.inr ⟨_, rfl, Or.inl hdamage⟩)
    | entryOutside hindex hdamage => exact Or.inr (Or.inr ⟨_, rfl, Or.inr ⟨_, hindex, hdamage⟩⟩)
  · intro index hindex damage
    exact haccepted.getElem?_records_iff hindex damage
  · intro count
    rw [reader.run_pass]
    refine ⟨rfl, ?_⟩
    unfold Pass.remaining
    dsimp only
    omega

theorem robust_of_ofContent_sample : ∃ file reader,
    ofContent "t" file KeyOrder.reverse = .ok reader ∧ file.size < Size.limit ∧
      reader.records.length = 3 ∧
      reader.records[0]? = some (.error (.extentOutside 2544 4 2544)) ∧
      reader.get? [1].toByteArray = some (reader.get [1].toByteArray) := by
  obtain ⟨built, after, hbuild, haccepted, hlayout, -⟩ := Writer.Sample.exists_build
  obtain ⟨file, hleaves⟩ := Writer.build_spec hbuild
  have hfinished := hleaves.finished
  rw [haccepted, hlayout] at hfinished
  have hsize := Writer.Sample.size_lt hfinished
  have hopen := hfinished.ofContent_setLength hsize le_rfl "t" KeyOrder.reverse
  have hpointer := hfinished.entryPointer_setLength hsize le_rfl "t" KeyOrder.reverse
    (show 0 < Writer.Sample.records.length by decide) rfl
  have hlimit : ((after.content file).setLength Writer.Sample.layout.leafEnd).size <
      Size.limit := by
    rw [Content.size_setLength]
    decide
  obtain ⟨hget, -, -, -, -, hcount, hdamage, -⟩ := robust_of_ofContent hopen hlimit
  have hplace : Image.pointer Writer.Sample.layout Writer.Sample.records 0 = 2544 := by
    decide +kernel
  refine ⟨_, _, hopen, hlimit, hcount, ?_, hget _⟩
  have hfirst : 0 < Writer.Sample.attributes.recordCount := by decide
  have hshort : 2544 < 2544 + Size.blobLength := by decide
  refine (hdamage 0 hfirst _).mpr (Or.inl ?_)
  rw [hpointer, hplace]
  exact ⟨hshort, rfl⟩

end Reader

end PackedIndex
